import AdjointDiff.Tape.Basic

/-!
The backward sweep.

Each kind has a local rule: from the entry's adjoint `b`, its value `v`, its extra `e` and the
stored values of its operands it adds `b` times a local partial to each operand's adjoint, in a
fixed order. `Tape.sweepFrom s` seeds entry `s` with one and visits `s, s-1, …, 0`; operands sit
below their entries, so an entry's adjoint is complete when its rule reads it. A rule that meets
an operand slot holding no position (an empty one, or a double) stops the sweep where it stands.
-/

set_option autoImplicit false

namespace AdjointDiff

/-- One action of a backward rule: add an amount to an operand's adjoint, or stop with the
refusal of the look-up of an operand slot. -/
inductive Pull (α : Type) where
  | add (target : Nat) (amount : α)
  | stop (f : Fault)

namespace Entry

variable {α : Type} [Scalar α]

def slot (n : Nat) (o : Option Operand) (amount : Nat → α) : Pull α :=
  match Operand.lookup n o with
  | .ok i => .add i (amount i)
  | .error f => .stop f

/-- The actions of this entry's backward rule on a tape of `n` entries, in order, given the
stored values of the tape. Rules that read both operands look both up before adding anything. -/
def pulls (e : Entry α) (n : Nat) (valueAt : Nat → α) : List (Pull α) :=
  let b := e.adjoint
  let v := e.value
  let c := e.extra
  let unary (partialAt : α → α) : List (Pull α) :=
    [slot n e.operand1 fun i => partialAt (valueAt i) * b]
  let binary (first second : α → α → α) : List (Pull α) :=
    match Operand.lookup n e.operand1, Operand.lookup n e.operand2 with
    | .ok i, .ok j =>
      [.add i (first (valueAt i) (valueAt j)), .add j (second (valueAt i) (valueAt j))]
    | .error f, _ | .ok _, .error f => [.stop f]
  match e.kind with
  | .input => []
  | .manual =>
    slot n e.operand1 (fun _ => c * b) :: if e.operand2.isSome then [slot n e.operand2 fun _ => b] else []
  | .add => [slot n e.operand1 fun _ => b, slot n e.operand2 fun _ => b]
  | .addConst => [slot n e.operand1 fun _ => b]
  | .sub => [slot n e.operand1 fun _ => b, slot n e.operand2 fun _ => -b]
  | .mul => binary (fun _ y => y * b) (fun x _ => x * b)
  | .mulConst => [slot n e.operand1 fun _ => c * b]
  | .div => binary (fun _ y => b / y) (fun x y => (-x / (y * y)) * b)
  | .pow => binary (fun x y => ((y * v) / x) * b) (fun x _ => v * Scalar.log x * b)
  | .powConst => unary (fun x => (c * v) / x)
  | .sin => unary Scalar.cos
  | .cos => unary (fun x => -Scalar.sin x)
  | .exp => [slot n e.operand1 fun _ => v * b]
  | .log => [slot n e.operand1 fun i => b / valueAt i]
  | .sqrt => [slot n e.operand1 fun _ => (0.5 / v) * b]
  | .normalCdf => unary Scalar.normalPdf

end Entry

namespace Tape

variable {α : Type} [Scalar α]

def valueAt (t : Tape α) (i : Nat) : α := (t.entries[i]?.map (·.value)).getD 0.0

def adjointOf (t : Tape α) (v : Var α) : α :=
  (t.entries[v.index.toNat]?.map (·.adjoint)).getD 0.0

def addAdjoint (i : Nat) (a : α) : Recorder α Unit :=
  modify fun t => { t with entries := t.entries.modify i fun e => { e with adjoint := e.adjoint + a } }

def pull : Pull α → Recorder α Unit
  | .add i a => addAdjoint i a
  | .stop f => throw f

def visit (i : Nat) : Recorder α Unit := do
  let t ← get
  match t.entries[i]? with
  | some e => (e.pulls t.size t.valueAt).forM pull
  | none => pure ()

def checkSweepable : Recorder α Unit := do
  let t ← get
  if t.size == 0 then throw .emptyTape
  if t.interpreted then throw .alreadyInterpreted

/-- Seed entry `start` with one, visit `start, start-1, …, 0` and mark the tape swept; a start
outside the tape is refused before anything changes. -/
def sweepFrom (start : Int) : Recorder α Unit := do
  let t ← get
  let _ ← Recorder.lift (t.get? start)
  addAdjoint start.toNat 1.0
  (List.range (start.toNat + 1)).reverse.forM visit
  modify fun t => { t with interpreted := true }

/-- The backward sweep from `output`, by default from the last entry. -/
def interpret (output : Option Int) : Recorder α Unit := do
  checkSweepable
  let t ← get
  sweepFrom (output.getD ((t.size : Int) - 1))

def gradient? (t : Tape α) : Except Fault (List α) :=
  if t.interpreted then
    .ok (t.entries.toList.filterMap fun e => if e.kind == .input then some e.adjoint else none)
  else .error .notInterpreted

end Tape

end AdjointDiff
