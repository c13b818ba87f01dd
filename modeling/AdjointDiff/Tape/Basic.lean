import AdjointDiff.Tape.Kind
import AdjointDiff.Scalar.Basic
import AdjointDiff.Decimal.Notation

set_option autoImplicit false

namespace AdjointDiff

/-- An operand as a caller hands it to an entry, kept as given: an integer, a truth value (an
integer to comparisons and list positions, a mask to an array), a double, or a value of another
type, known by its type name. -/
inductive Operand where
  | int (i : Int)
  | flag (b : Bool)
  | real (x : Float)
  | other (typeName : String)

namespace Operand

def text : Operand → String
  | int i => toString i
  | flag b => if b then "True" else "False"
  | real x => Decimal.shortest x
  | other t => t

/-- The comparison `0 ≤ x < n` for a double, on its exact value: a NaN and the infinities fail,
and `-0.0` counts as zero. -/
def realBelow (n : Nat) (x : Float) : Bool :=
  match Decimal.Shape.ofFloat x with
  | .finite negative b => (!negative || b.m == 0) && decide (b.ratio.1 < n * b.ratio.2)
  | .nan | .infinite _ => false

def below (n : Nat) : Operand → Except Fault Bool
  | int i => .ok (decide (0 ≤ i ∧ i < n))
  | flag b => .ok (decide (b.toNat < n))
  | real x => .ok (realBelow n x)
  | other t => .error (.incomparableIndex t)

def position? : Operand → Option Nat
  | int i => some i.toNat
  | flag b => some b.toNat
  | real _ | other _ => none

def require (n : Nat) (refusal : Fault) (o : Operand) : Except Fault Unit :=
  match o.below n with
  | .ok true => .ok ()
  | .ok false => .error refusal
  | .error f => .error f

/-- What a look-up of an operand slot finds on a tape of `n` entries: the position, or the
refusal. An empty slot cannot be compared with a position, a position outside the tape is
refused, and a double inside it selects no entry. -/
def lookup (n : Nat) : Option Operand → Except Fault Nat
  | none => .error (.incomparableIndex "NoneType")
  | some o =>
    match o.below n, o.position? with
    | .error f, _ => .error f
    | .ok false, _ => .error (.tapeIndex o.text n)
    | .ok true, some i => .ok i
    | .ok true, none => .error (.fractionalIndex "float")

end Operand

structure Entry (α : Type) where
  kind : Kind
  operand1 : Option Operand
  operand2 : Option Operand
  value : α
  extra : α
  adjoint : α

def Entry.operands {α : Type} (e : Entry α) : List Operand :=
  e.operand1.toList ++ e.operand2.toList

structure Var (α : Type) where
  value : α
  index : Int

structure Tape (α : Type) where
  entries : Array (Entry α)
  interpreted : Bool

/-- Tape operations: a refused operation keeps the tape as it stands at the refusal. -/
abbrev Recorder (α : Type) := EStateM Fault (Tape α)

namespace Tape

variable {α : Type}

def empty : Tape α := ⟨#[], false⟩

def size (t : Tape α) : Nat := t.entries.size

def get? (t : Tape α) (i : Int) : Except Fault (Entry α) :=
  if 0 ≤ i then
    if h : i.toNat < t.entries.size then .ok t.entries[i.toNat]
    else .error (.tapeIndex (toString i) t.size)
  else .error (.tapeIndex (toString i) t.size)

def checkOperand (kind : Kind) (n : Nat) : Option Operand → Except Fault Unit
  | none => .ok ()
  | some o => o.require n (.laterOperand kind.tag n o.text)

/-- Append an entry with adjoint zero and return the tape and the entry's index; refused on a
swept tape and for an operand that does not compare as a position before the entry. -/
def append [Scalar α] (t : Tape α) (kind : Kind) (operand1 operand2 : Option Operand)
    (value extra : α) : Except Fault (Tape α × Nat) := do
  if t.interpreted then throw .alreadyInterpreted
  let n := t.size
  checkOperand kind n operand1
  checkOperand kind n operand2
  pure ({ t with entries := t.entries.push ⟨kind, operand1, operand2, value, extra, 0.0⟩ }, n)

end Tape

namespace Recorder

variable {α : Type}

def lift {β : Type} (r : Except Fault β) : Recorder α β :=
  match r with
  | .ok b => pure b
  | .error f => throw f

def run {β : Type} (m : Recorder α β) (t : Tape α) : Except Fault β × Tape α :=
  match EStateM.run m t with
  | .ok b t' => (.ok b, t')
  | .error f t' => (.error f, t')

end Recorder

end AdjointDiff
