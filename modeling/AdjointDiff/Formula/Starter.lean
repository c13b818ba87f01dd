import AdjointDiff.Tape.Record

set_option autoImplicit false

namespace AdjointDiff

namespace Starter

variable {α : Type} [Scalar α]

open Scalar

def value (ar : Arith) (a : List α) : Except Fault α := do
  let b1 := (← ar.get a 0) + exp (← ar.get a 1)
  let b2 := sin (← ar.get a 2) + cos (← ar.get a 3)
  let b3 := pow (← ar.get a 1) 1.5 + (← ar.get a 3)
  pure (cos b1 * b2 + b3)

def gradient (a : List α) (g0 g1 g2 g3 : α) : List α :=
  [g0, g1, g2, g3] ++ List.replicate (a.length - 4) 0.0

def valueAdjoint (ar : Arith) (a : List α) : Except Fault (α × List α) := do
  let a0 ← ar.get a 0
  let a1 ← ar.get a 1
  let a2 ← ar.get a 2
  let a3 ← ar.get a 3
  let b1 := a0 + exp a1
  let b2 := sin a2 + cos a3
  let b3 := pow a1 1.5 + a3
  let b4 := cos b1 * b2 + b3
  let b4Bar : α := 1.0
  let b3Bar := 1.0 * b4Bar
  let b2Bar := cos b1 * b4Bar
  let b1Bar := b2 * -sin b1 * b4Bar
  let g3 := 1.0 * b3Bar - sin a3 * b2Bar
  let g2 := cos a2 * b2Bar
  let g1 := 1.5 * sqrt a1 * b3Bar + exp a1 * b1Bar
  let g0 := 1.0 * b1Bar
  pure (b4, gradient a g0 g1 g2 g3)

def valueAdjointOptimized (ar : Arith) (a : List α) : Except Fault (α × List α) := do
  let a1 ← ar.get a 1
  let tmp1 := exp a1
  let tmp2 := pow a1 1.5
  let a0 ← ar.get a 0
  let b1 := a0 + tmp1
  let a2 ← ar.get a 2
  let a3 ← ar.get a 3
  let b2 := sin a2 + cos a3
  let tmp3 := cos b1
  let b3 := tmp2 + a3
  let b4 := tmp3 * b2 + b3
  let b4Bar : α := 1.0
  let b3Bar := b4Bar
  let b2Bar := tmp3 * b4Bar
  let b1Bar := b2 * -sin b1 * b4Bar
  let g3 := b3Bar - sin a3 * b2Bar
  let g2 := cos a2 * b2Bar
  let g1 := 1.5 * tmp2 / a1 * b3Bar + tmp1 * b1Bar
  pure (b4, gradient a b1Bar g1 g2 g3)

def recorded (a : List (Var α)) : Recorder α (Var α) := do
  let a0 ← Recorder.lift (elementAt a 0)
  let b1 ← Record.add a0 (← Record.exp (← Recorder.lift (elementAt a 1)))
  let s ← Record.sin (← Recorder.lift (elementAt a 2))
  let b2 ← Record.add s (← Record.cos (← Recorder.lift (elementAt a 3)))
  let p ← Record.powConst (← Recorder.lift (elementAt a 1)) 1.5
  let b3 ← Record.add p (← Recorder.lift (elementAt a 3))
  Record.add (← Record.mul (← Record.cos b1) b2) b3

end Starter

end AdjointDiff
