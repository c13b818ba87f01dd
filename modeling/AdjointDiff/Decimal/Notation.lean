import AdjointDiff.Decimal.Shortest

set_option autoImplicit false

namespace AdjointDiff.Decimal

def zeros (n : Nat) : String := String.ofList (List.replicate n '0')

def natText (n : Nat) : String := String.ofList (digitsOf n)

def padLeft (w : Nat) (s : String) : String :=
  String.ofList (List.replicate (w - s.length) ' ') ++ s

def padRight (w : Nat) (s : String) : String :=
  s ++ String.ofList (List.replicate (w - s.length) ' ')

def exponentText (e : Int) : String :=
  let ds := digitsOf e.natAbs
  (if e < 0 then "-" else "+") ++ String.ofList (List.replicate (2 - ds.length) '0' ++ ds)

def pointAfter (ds : List Char) (k : Nat) : String :=
  let whole := String.ofList (ds.take k)
  let frac := String.ofList (ds.drop k)
  if frac.isEmpty then whole else whole ++ "." ++ frac

def dropFractionZeros (s : String) : String :=
  if s.contains '.' then
    let t := String.ofList ((s.toList.reverse.dropWhile (· == '0')).reverse)
    if t.endsWith "." then String.ofList (t.toList.dropLast) else t
  else s

def Dec.roundTripText (d : Dec) : String :=
  let ds := digitsOf d.digits
  let n := ds.length
  let lead : Int := d.exp + n - 1
  if -4 ≤ lead ∧ lead < 16 then
    if 0 ≤ d.exp then natText d.digits ++ zeros d.exp.toNat ++ ".0"
    else if 0 ≤ lead then pointAfter ds (lead.toNat + 1)
    else "0." ++ zeros (-lead - 1).toNat ++ natText d.digits
  else
    pointAfter ds 1 ++ "e" ++ exponentText lead

/-- The shortest text that reads back as `x`. -/
def shortest (x : Float) : String :=
  match Shape.ofFloat x with
  | .nan => "nan"
  | .infinite neg => if neg then "-inf" else "inf"
  | .finite neg b =>
    let body := if b.m == 0 then "0.0" else b.shortest.roundTripText
    if neg then "-" ++ body else body

def Binary.significant (x : Binary) (p : Nat) : Nat × Int :=
  if x.m == 0 then (0, 0) else
  let k := x.scale
  let r := x.roundScaled (k - (p + 1 : Nat))
  if r == Nat.pow 10 (p + 1) then (Nat.pow 10 p, k) else (r, k - 1)

def specialText? (x : Float) : Option String :=
  match Shape.ofFloat x with
  | .nan => some "nan"
  | .infinite neg => some (if neg then "-inf" else "inf")
  | .finite _ _ => none

def signText (neg blank : Bool) : String :=
  if neg then "-" else if blank then " " else ""

def scientific (p : Nat) (blank : Bool) (x : Float) : String :=
  match Shape.ofFloat x with
  | .nan => signText false blank ++ "nan"
  | .infinite neg => signText neg blank ++ "inf"
  | .finite neg b =>
    let (r, e) := b.significant p
    let ds := (digitsOf r)
    let ds := if r == 0 then List.replicate (p + 1) '0' else ds
    signText neg blank ++ pointAfter ds 1 ++ "e" ++ exponentText e

def fixed (p : Nat) (x : Float) : String :=
  match Shape.ofFloat x with
  | .nan => "nan"
  | .infinite neg => signText neg false ++ "inf"
  | .finite neg b =>
    let r := b.roundScaled (-(p : Int))
    let ds := digitsOf r
    let ds := List.replicate (p + 1 - ds.length) '0' ++ ds
    signText neg false ++ pointAfter ds (ds.length - p)

def general (p : Nat) (x : Float) : String :=
  let p := max p 1
  match Shape.ofFloat x with
  | .nan => "nan"
  | .infinite neg => signText neg false ++ "inf"
  | .finite neg b =>
    if b.m == 0 then signText neg false ++ "0" else
    let (r, e) := b.significant (p - 1)
    let ds := digitsOf r
    let body :=
      if -4 ≤ e ∧ e < p then
        if 0 ≤ e then dropFractionZeros (pointAfter ds (e.toNat + 1))
        else dropFractionZeros ("0." ++ zeros (-e - 1).toNat ++ String.ofList ds)
      else dropFractionZeros (pointAfter ds 1) ++ "e" ++ exponentText e
    signText neg false ++ body

def grouped (n : Nat) : String :=
  let ds := (digitsOf n).reverse
  let rec go : List Char → Nat → List Char
    | [], _ => []
    | c :: cs, i => (if i > 0 ∧ i % 3 = 0 then [',', c] else [c]) ++ go cs (i + 1)
  String.ofList (go ds 0).reverse

end AdjointDiff.Decimal
