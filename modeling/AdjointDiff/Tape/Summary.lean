import AdjointDiff.Tape.Basic

set_option autoImplicit false

namespace AdjointDiff

/-- What a summary reports about a tape. -/
structure Summary where
  entries : Nat
  inputs : Nat
  edges : Nat
  maxFanOut : Nat
  ops : List (String × Nat)
deriving Repr, DecidableEq

def countTag (ops : List (String × Nat)) (tag : String) : List (String × Nat) :=
  if ops.any (·.1 == tag) then ops.map fun p => if p.1 == tag then (p.1, p.2 + 1) else p
  else ops ++ [(tag, 1)]

def mostCommon (ops : List (String × Nat)) : List (String × Nat) :=
  ops.mergeSort fun a b => a.2 ≥ b.2

namespace Operand

/-- Add one to the counts an operand selects: an integer selects one position, from the front or,
when negative, from the back, and is refused outside the array; a true flag selects every position
and a false one none; any other value is no array index. -/
def bump (counts : Array Nat) : Operand → Except Fault (Array Nat)
  | int i =>
    if 0 ≤ i then
      if i.toNat < counts.size then .ok (counts.modify i.toNat (· + 1))
      else .error (.arrayIndex i counts.size)
    else if i.natAbs ≤ counts.size then .ok (counts.modify (counts.size - i.natAbs) (· + 1))
    else .error (.arrayIndex i counts.size)
  | flag b => .ok (if b then counts.map (· + 1) else counts)
  | real _ | other _ => .error .notArrayIndex

end Operand

namespace Tape

variable {α : Type}

def fanOuts (t : Tape α) : Except Fault (Array Nat) :=
  t.entries.foldlM (fun counts e => e.operands.foldlM Operand.bump counts)
    (Array.replicate t.size 0)

def operandsEarlier (i : Nat) : List (Entry α) → Except Fault Unit
  | [] => .ok ()
  | e :: es => do
    e.operands.forM fun o => o.require i (.operandNotEarlier i e.kind.tag o.text)
    operandsEarlier (i + 1) es

def checkTopological (t : Tape α) : Except Fault Unit := operandsEarlier 0 t.entries.toList

/-- The summary of a tape: an empty tape has all counts zero; otherwise the edges are the sum of
the fan-out counts and the largest fan-out their maximum. -/
def summary (t : Tape α) : Except Fault Summary :=
  if t.size = 0 then .ok ⟨0, 0, 0, 0, []⟩ else do
    let counts ← t.fanOuts
    pure {
      entries := t.size
      inputs := t.entries.foldl (fun n e => if e.kind == .input then n + 1 else n) 0
      edges := counts.foldl (· + ·) 0
      maxFanOut := counts.foldl max 0
      ops := t.entries.foldl (fun ops e => countTag ops e.kind.tag) [] }

end Tape

end AdjointDiff
