import AdjointDiff.Tape.Basic

set_option autoImplicit false

namespace AdjointDiff

namespace Record

variable {α : Type} [Scalar α]

def entry (kind : Kind) (value : α) (operand1 operand2 : Option Operand) (extra : α) :
    Recorder α (Var α) := do
  let t ← get
  let (t', i) ← Recorder.lift (t.append kind operand1 operand2 value extra)
  set t'
  pure ⟨value, i⟩

def input (x : α) : Recorder α (Var α) := entry .input x none none 0.0

/-- A partial derivative supplied from outside: the new entry stands for `value` and passes
`partial_ ×` its adjoint to `operand`, and all of its adjoint to `previous` when given. -/
def manual (operand : Var α) (partial_ value : α) (previous : Option (Var α)) :
    Recorder α (Var α) :=
  entry .manual value (some (.int operand.index)) (previous.map fun v => .int v.index) partial_

def add (x y : Var α) : Recorder α (Var α) :=
  entry .add (x.value + y.value) (some (.int x.index)) (some (.int y.index)) 0.0

def addConst (x : Var α) (c : α) : Recorder α (Var α) :=
  entry .addConst (x.value + c) (some (.int x.index)) none c

def sub (x y : Var α) : Recorder α (Var α) :=
  entry .sub (x.value - y.value) (some (.int x.index)) (some (.int y.index)) 0.0

def subConst (x : Var α) (c : α) : Recorder α (Var α) := addConst x (-c)

def mul (x y : Var α) : Recorder α (Var α) :=
  entry .mul (x.value * y.value) (some (.int x.index)) (some (.int y.index)) 0.0

def mulConst (x : Var α) (c : α) : Recorder α (Var α) :=
  entry .mulConst (x.value * c) (some (.int x.index)) none c

def neg (x : Var α) : Recorder α (Var α) := mulConst x (-1.0)

/-- `c - x`, recorded as `-x` followed by the addition of `c`. -/
def rsubConst (c : α) (x : Var α) : Recorder α (Var α) := do
  let m ← neg x
  addConst m c

def div (x y : Var α) : Recorder α (Var α) :=
  entry .div (x.value / y.value) (some (.int x.index)) (some (.int y.index)) 0.0

def pow (x y : Var α) : Recorder α (Var α) :=
  entry .pow (Scalar.pow x.value y.value) (some (.int x.index)) (some (.int y.index)) 0.0

def powConst (x : Var α) (p : α) : Recorder α (Var α) :=
  entry .powConst (Scalar.pow x.value p) (some (.int x.index)) none p

def sin (x : Var α) : Recorder α (Var α) :=
  entry .sin (Scalar.sin x.value) (some (.int x.index)) none 0.0

def cos (x : Var α) : Recorder α (Var α) :=
  entry .cos (Scalar.cos x.value) (some (.int x.index)) none 0.0

def exp (x : Var α) : Recorder α (Var α) :=
  entry .exp (Scalar.exp x.value) (some (.int x.index)) none 0.0

def log (x : Var α) : Recorder α (Var α) :=
  entry .log (Scalar.log x.value) (some (.int x.index)) none 0.0

def sqrt (x : Var α) : Recorder α (Var α) :=
  entry .sqrt (Scalar.sqrt x.value) (some (.int x.index)) none 0.0

def normalCdf (x : Var α) : Recorder α (Var α) :=
  entry .normalCdf (Scalar.normalCdf x.value) (some (.int x.index)) none 0.0

def chainRest : Var α → List (Var α × α) → Recorder α (Var α)
  | out, [] => pure out
  | out, (x, p) :: rest => do
    let next ← manual x p out.value (some out)
    chainRest next rest

/-- One chained `manual` entry per operand, `partials[i]` being the derivative of `value` by
`operands[i]`; the handle on the last entry stands for `value`. Refused for unequal lengths and
for no operands. -/
def manualChain (operands : List (Var α)) (partials : List α) (value : α) :
    Recorder α (Var α) :=
  match operands, partials with
  | x :: xs, p :: ps =>
    if xs.length = ps.length then do
      let first ← manual x p value none
      chainRest first (xs.zip ps)
    else throw (.chainLengths operands.length partials.length)
  | [], [] => throw .chainEmpty
  | _, _ => throw (.chainLengths operands.length partials.length)

def inputs (xs : List α) : Recorder α (List (Var α)) := xs.mapM input

end Record

end AdjointDiff
