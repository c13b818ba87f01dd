import AdjointDiff.Tape.Record

set_option autoImplicit false

namespace AdjointDiff

namespace Interpolation

variable {α : Type} [Scalar α]

/-- The position `i` of the segment `[nodes[i-1], nodes[i]]` that holds `x`: the first `i ≥ 1`
with `nodes[i] ≥ x`, or `1` when `x` is the first node. -/
def upperIndex (x : α) (nodes : List α) : Except Fault Nat :=
  match nodes with
  | first :: second :: rest =>
    let last := (second :: rest).getLastD second
    if !(decide (first ≤ x) && decide (x ≤ last)) then
      .error (.outsideNodes (Scalar.text x) (Scalar.text first) (Scalar.text last))
    else if Scalar.same x first then .ok 1
    else .ok ((second :: rest).findIdx (fun n => !decide (n < x)) + 1)
  | _ => .error .fewNodes

def segment (ar : Arith) (nodes : List α) (i : Nat) : Except Fault (α × α) := do
  pure (← ar.get nodes (i - 1), ← ar.get nodes i)

def interpolate (ar : Arith) (x : α) (nodes values : List α) : Except Fault α := do
  let i ← upperIndex x nodes
  let (lo, hi) ← segment ar nodes i
  let num ← ar.div 1.0 (hi - lo)
  let slope := ((← ar.get values i) - (← ar.get values (i - 1))) * num
  pure ((← ar.get values (i - 1)) + (x - lo) * slope)

def derivativeX (ar : Arith) (x : α) (nodes values : List α) : Except Fault α := do
  let i ← upperIndex x nodes
  let rise := (← ar.get values i) - (← ar.get values (i - 1))
  let (lo, hi) ← segment ar nodes i
  ar.div rise (hi - lo)

def interpolateAdjoint (ar : Arith) (x : α) (nodes values : List α) :
    Except Fault (α × List α) := do
  let i ← upperIndex x nodes
  let (lo, hi) ← segment ar nodes i
  let num ← ar.div 1.0 (hi - lo)
  let vHi ← ar.get values i
  let vLo ← ar.get values (i - 1)
  let slope := (vHi - vLo) * num
  let value := vLo + (x - lo) * slope
  let interpBar : α := 1.0
  let slopeBar := (x - lo) * interpBar
  let bar := (List.replicate values.length (0.0 : α)).modify (i - 1) (· + interpBar)
  let bar := bar.modify i (· + num * slopeBar)
  let bar := bar.modify (i - 1) (· + -num * slopeBar)
  pure (value, bar)

def recorded (ar : Arith) (x : Var α) (nodes : List α) (values : List (Var α)) :
    Recorder α (Var α) := do
  let i ← Recorder.lift (upperIndex x.value nodes)
  let rise ← Record.sub (← Recorder.lift (elementAt values i))
    (← Recorder.lift (elementAt values (i - 1)))
  let (lo, hi) ← Recorder.lift (segment ar nodes i)
  let slope ← Record.mulConst rise (← Recorder.lift (ar.div 1.0 (hi - lo)))
  let vLo ← Recorder.lift (elementAt values (i - 1))
  Record.add vLo (← Record.mul slope (← Record.subConst x lo))

end Interpolation

end AdjointDiff
