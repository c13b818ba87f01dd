set_option autoImplicit false

namespace AdjointDiff.Decimal

/-- A finite non-negative binary64 magnitude `m * 2^q`. -/
structure Binary where
  m : Nat
  q : Int
  narrowBelow : Bool
deriving Repr

def Binary.ofBits (b : UInt64) : Binary :=
  let e := ((b >>> 52) &&& 0x7FF).toNat
  let f := (b &&& 0xFFFFFFFFFFFFF).toNat
  if e == 0 then ⟨f, -1074, false⟩ else ⟨Nat.pow 2 52 + f, (e : Int) - 1075, f == 0 && e > 1⟩

inductive Shape where
  | nan
  | infinite (negative : Bool)
  | finite (negative : Bool) (x : Binary)

def Shape.ofFloat (x : Float) : Shape :=
  let b := x.toBits
  let negative := b >>> 63 == 1
  if (b >>> 52) &&& 0x7FF == 0x7FF then
    if b &&& 0xFFFFFFFFFFFFF == 0 then .infinite negative else .nan
  else .finite negative (Binary.ofBits b)

def Binary.ratio (x : Binary) : Nat × Nat :=
  (x.m * Nat.pow 2 x.q.toNat, Nat.pow 2 (-x.q).toNat)

def cmpScaled (a : Nat) (i : Int) (n : Nat) (j : Int) : Ordering :=
  compare (a * Nat.pow 10 i.toNat * Nat.pow 2 (-j).toNat) (n * Nat.pow 2 j.toNat * Nat.pow 10 (-i).toNat)

def Binary.floorScaled (x : Binary) (g : Int) : Nat :=
  (x.m * Nat.pow 2 x.q.toNat * Nat.pow 10 (-g).toNat) / (Nat.pow 2 (-x.q).toNat * Nat.pow 10 g.toNat)

def Binary.below (x : Binary) (k : Int) : Bool :=
  cmpScaled 1 k x.m x.q == .gt

def Binary.raiseScale (x : Binary) : Nat → Int → Int
  | 0, k => k
  | fuel + 1, k => if x.below k then k else x.raiseScale fuel (k + 1)

def Binary.lowerScale (x : Binary) : Nat → Int → Int
  | 0, k => k
  | fuel + 1, k => if x.below (k - 1) then x.lowerScale fuel (k - 1) else k

def Binary.scale (x : Binary) : Int :=
  let bits : Int := (Nat.log2 x.m + 1 : Nat) + x.q
  let guess := Int.fdiv (bits * 30103) 100000
  x.lowerScale 4 (x.raiseScale 4 guess)

def roundHalfEven (num den : Nat) : Nat :=
  let q := num / den
  match compare (2 * (num % den)) den with
  | .lt => q
  | .gt => q + 1
  | .eq => if q % 2 == 0 then q else q + 1

def Binary.roundScaled (x : Binary) (g : Int) : Nat :=
  roundHalfEven (x.m * Nat.pow 2 x.q.toNat * Nat.pow 10 (-g).toNat)
    (Nat.pow 2 (-x.q).toNat * Nat.pow 10 g.toNat)

def digitCount (n : Nat) : Nat := (Nat.toDigits 10 n).length

def digitsOf (n : Nat) : List Char := Nat.toDigits 10 n

end AdjointDiff.Decimal
