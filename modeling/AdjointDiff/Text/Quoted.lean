set_option autoImplicit false

namespace AdjointDiff.Text

def hexDigits (width n : Nat) : String :=
  let ds := Nat.toDigits 16 n
  String.ofList (List.replicate (width - ds.length) '0' ++ ds)

def printable (c : Char) : Bool :=
  let n := c.toNat
  if n < 0x20 then false
  else if n < 0x7F then true
  else if n ≤ 0xA0 || n == 0xAD then false
  else if n == 0x1680 || (0x2000 ≤ n && n ≤ 0x200F) || (0x2028 ≤ n && n ≤ 0x202F) then false
  else if (0x205F ≤ n && n ≤ 0x2064) || (0x2066 ≤ n && n ≤ 0x206F) || n == 0x3000 then false
  else if n == 0xFEFF || (0xFFF9 ≤ n && n ≤ 0xFFFB) || (0xE000 ≤ n && n ≤ 0xF8FF) then false
  else if (0x600 ≤ n && n ≤ 0x605) || n == 0x61C || n == 0x6DD || n == 0x70F || n == 0x180E then
    false
  else if (0xE0000 ≤ n && n ≤ 0xE007F) || n ≥ 0xF0000 then false
  else true

def escapeChar (q : Char) (c : Char) : String :=
  if c == '\\' then "\\\\"
  else if c == q then "\\" ++ c.toString
  else if c == '\t' then "\\t"
  else if c == '\n' then "\\n"
  else if c == '\r' then "\\r"
  else if printable c then c.toString
  else if c.toNat < 0x100 then "\\x" ++ hexDigits 2 c.toNat
  else if c.toNat < 0x10000 then "\\u" ++ hexDigits 4 c.toNat
  else "\\U" ++ hexDigits 8 c.toNat

def quoted (s : String) : String :=
  let q := if s.contains '\'' && !s.contains '"' then '"' else '\''
  q.toString ++ String.join (s.toList.map (escapeChar q)) ++ q.toString

end AdjointDiff.Text
