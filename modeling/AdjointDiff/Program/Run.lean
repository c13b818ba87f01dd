import AdjointDiff.Program.Step

set_option autoImplicit false

namespace AdjointDiff

namespace Program

open Recorder

def inputNames (xs : List (Var Float)) : Env :=
  (xs.zipIdx.map fun (v, i) => ("x" ++ toString i, v)).reverse

def runFresh (steps : List Step) : List (Except Fault Reply) × String × Tape Float :=
  runAll [] Tape.empty steps

def record (x0 : List Arg) (steps : List Step) (result : Term) : Recorder Float (Arg × String) := do
  let xs ← x0.mapM fun x => do Record.input (← lift (x.asReal "input value"))
  let (env, printed) ← runUntilRefused (inputNames xs) steps
  let y ← lift (result.eval env)
  pure (y, printed)

def gradientAt (x0 : List Arg) (steps : List Step) (result : Term) :
    Except Fault (Float × List Float) :=
  let m : Recorder Float (Float × List Float) := do
    let (y, _) ← record x0 steps result
    let v ← match y with
      | .handle v => pure v
      | a => throw (.notResult a.typeName)
    Tape.interpret (some v.index)
    let t ← get
    let g ← lift t.gradient?
    pure (v.value, g)
  (Recorder.run m Tape.empty).1

def valueAt (steps : List Step) (result : Term) (x : List Float) : Except Fault Float :=
  let m : Recorder Float Float := do
    let (y, _) ← record (x.map Arg.real) steps result
    match y with
    | .handle v => pure v.value
    | a => throw (.noValue a.typeName)
  (Recorder.run m Tape.empty).1

end Program

end AdjointDiff
