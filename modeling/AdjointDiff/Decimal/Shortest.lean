import AdjointDiff.Decimal.Binary

set_option autoImplicit false

namespace AdjointDiff.Decimal

structure Dec where
  digits : Nat
  exp : Int
deriving Repr, DecidableEq

def Binary.roundingEnds (x : Binary) : Nat × Nat :=
  (4 * x.m - (if x.narrowBelow then 1 else 2), 4 * x.m + 2)

def Binary.readsBack (x : Binary) (d : Dec) : Bool :=
  let ends := x.roundingEnds
  let closed := x.m % 2 == 0
  let fromLo := cmpScaled d.digits d.exp ends.1 (x.q - 2)
  let fromHi := cmpScaled d.digits d.exp ends.2 (x.q - 2)
  (fromLo == .gt || (closed && fromLo == .eq)) && (fromHi == .lt || (closed && fromHi == .eq))

def Binary.pickOnGrid (x : Binary) (g : Int) : Option Dec :=
  let lo := x.floorScaled g
  let below : Dec := ⟨lo, g⟩
  let above : Dec := ⟨lo + 1, g⟩
  match x.readsBack below, x.readsBack above with
  | true, true =>
    -- the midpoint of the two neighbours against x itself
    match cmpScaled (2 * lo + 1) g (2 * x.m) x.q with
    | .gt => some below
    | .lt => some above
    | .eq => some (if lo % 2 == 0 then below else above)
  | true, false => some below
  | false, true => some above
  | false, false => none

def Dec.trim (d : Dec) : Dec :=
  if d.digits ≠ 0 ∧ d.digits % 10 = 0 then
    Dec.trim ⟨d.digits / 10, d.exp + 1⟩
  else d
termination_by d.digits
decreasing_by omega

def Binary.exact (x : Binary) : Dec :=
  if 0 ≤ x.q then ⟨x.m * Nat.pow 2 x.q.toNat, 0⟩ else ⟨x.m * Nat.pow 5 (-x.q).toNat, x.q⟩

def Binary.shortest (x : Binary) : Dec :=
  let k := x.scale
  match (List.range 17).findSome? (fun i => x.pickOnGrid (k - (i + 1 : Nat))) with
  | some d => d.trim
  | none => x.exact.trim

end AdjointDiff.Decimal
