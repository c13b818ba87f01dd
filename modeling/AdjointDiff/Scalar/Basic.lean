import AdjointDiff.Fault

/-!
The numbers the formulas and the tape compute with.

`Scalar α` bundles the field operations, the order, the elementary functions and the normal
distribution function. Doubles run the library; read over the reals the same definitions are
exact mathematics. Two arithmetics meet in the formulas: quantities handed over one by one as
plain numbers refuse a zero divisor and an overflowing power (`Arith.checked`), while values read
from arrays follow IEEE arithmetic (`Arith.ieee`). A formula takes the arithmetic of its inputs
as a parameter and applies it exactly where two such inputs meet. The two also differ in how a
missing position is refused (`Arith.get`): plain numbers come in lists, array elements in
arrays.
-/

set_option autoImplicit false

namespace AdjointDiff

/-- A carrier of the library's numbers. -/
class Scalar (α : Type) extends Add α, Sub α, Mul α, Div α, Neg α, LT α, LE α,
    OfScientific α where
  decLt : (a b : α) → Decidable (a < b)
  decLe : (a b : α) → Decidable (a ≤ b)
  abs : α → α
  sqrt : α → α
  exp : α → α
  log : α → α
  sin : α → α
  cos : α → α
  pow : α → α → α
  pi : α
  normalCdf : α → α
  finite : α → Bool
  text : α → String

instance Scalar.instDecidableLt {α : Type} [Scalar α] (a b : α) : Decidable (a < b) :=
  Scalar.decLt a b

instance Scalar.instDecidableLe {α : Type} [Scalar α] (a b : α) : Decidable (a ≤ b) :=
  Scalar.decLe a b

namespace Scalar

variable {α : Type} [Scalar α]

def isZero (a : α) : Bool := decide (a ≤ 0.0) && decide (0.0 ≤ a)

def same (a b : α) : Bool := decide (a ≤ b) && decide (b ≤ a)

def normalPdf (x : α) : α := exp (-0.5 * (x * x)) / sqrt (2.0 * pi)

def omega (isCall : Bool) : α := if isCall then 1.0 else -1.0

end Scalar

/-- How quantities handed to a formula divide and raise to powers among themselves. -/
inductive Arith where
  | checked
  | ieee
deriving Repr, DecidableEq

namespace Arith

variable {α : Type} [Scalar α]

def div : Arith → α → α → Except Fault α
  | .checked, a, b => if Scalar.isZero b then .error .zeroDivision else .ok (a / b)
  | .ieee, a, b => .ok (a / b)

def powNat : Arith → α → Nat → Except Fault α
  | .checked, a, n =>
    let r := Scalar.pow a (OfScientific.ofScientific n false 0)
    if Scalar.finite a && !Scalar.finite r then .error .powerOverflow else .ok r
  | .ieee, a, n => .ok (Scalar.pow a (OfScientific.ofScientific n false 0))

def get {β : Type} (ar : Arith) (xs : List β) (i : Nat) : Except Fault β :=
  match ar with
  | .checked => elementAt xs i
  | .ieee =>
    match xs[i]? with
    | some x => .ok x
    | none => .error (.arrayIndex i xs.length)

end Arith

end AdjointDiff
