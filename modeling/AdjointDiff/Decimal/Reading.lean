import AdjointDiff.Decimal.Binary

set_option autoImplicit false

namespace AdjointDiff.Decimal

def isBlank (c : Char) : Bool :=
  let n := c.toNat
  n == 0x20 || (0x09 ≤ n && n ≤ 0x0D) || (0x1C ≤ n && n ≤ 0x1F) || n == 0x85 || n == 0xA0 ||
    n == 0x1680 || (0x2000 ≤ n && n ≤ 0x200A) || n == 0x2028 || n == 0x2029 || n == 0x202F ||
    n == 0x205F || n == 0x3000

def readDigits (cs : List Char) : Option (Nat × Nat × List Char) :=
  let rec go : List Char → Nat → Nat → Option (Nat × Nat × List Char)
    | c :: rest, v, n =>
      if c.isDigit then go rest (10 * v + (c.toNat - '0'.toNat)) (n + 1)
      else if c == '_' then
        match rest with
        | d :: _ => if n > 0 && d.isDigit then go rest v n else none
        | [] => none
      else if n = 0 then none else some (v, n, c :: rest)
    | [], v, n => if n = 0 then none else some (v, n, [])
  go cs 0 0

def decimalToFloat (m : Nat) (e : Int) : Float :=
  if m == 0 then 0.0
  else
    let lead := e + (digitCount m : Int)
    if lead > 330 then Float.ofScientific 1 false 400
    else if lead < -350 then 0.0
    else if e < 0 then Float.ofScientific m true e.natAbs else Float.ofScientific m false e.toNat

def readUnsigned (cs : List Char) : Option Float := do
  let (intVal, intLen, rest) :=
    match readDigits cs with
    | some r => r
    | none => (0, 0, cs)
  let (m, fracLen, rest) ←
    match rest with
    | '.' :: more =>
      match readDigits more with
      | some (f, n, r) => some (intVal * Nat.pow 10 n + f, n, r)
      | none => if intLen = 0 then none else some (intVal, 0, more)
    | _ => if intLen = 0 then none else some (intVal, 0, rest)
  let expo : Int ← match rest with
    | c :: more =>
      if c == 'e' || c == 'E' then
        let (neg, digits) := match more with
          | '-' :: r => (true, r)
          | '+' :: r => (false, r)
          | r => (false, r)
        match readDigits digits with
        | some (v, _, []) => some (if neg then -(v : Int) else v)
        | _ => none
      else none
    | [] => some 0
  pure (decimalToFloat m (expo - fracLen))

def readSpecial (cs : List Char) : Option Float :=
  let w := String.ofList (cs.map Char.toLower)
  if w == "inf" || w == "infinity" then some (Float.ofScientific 1 false 400)
  else if w == "nan" then some (0.0 / 0.0)
  else none

def readFloat? (s : String) : Option Float :=
  let cs := ((s.toList.dropWhile isBlank).reverse.dropWhile isBlank).reverse
  let (neg, body) := match cs with
    | '-' :: r => (true, r)
    | '+' :: r => (false, r)
    | r => (false, r)
  match readSpecial body <|> readUnsigned body with
  | some x => some (if neg then -x else x)
  | none => none

end AdjointDiff.Decimal
