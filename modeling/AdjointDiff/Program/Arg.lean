import AdjointDiff.Tape.Basic
import AdjointDiff.Decimal.Reading
import AdjointDiff.Text.Quoted
import AdjointDiff.Scalar.Float

set_option autoImplicit false

namespace AdjointDiff

inductive Arg where
  | int (n : Int)
  | real (x : Float)
  | text (s : String)
  | flag (b : Bool)
  | none
  | list (xs : List Arg)
  | dict (fields : List (String × Arg))
  | handle (v : Var Float)

namespace Arg

def typeName : Arg → String
  | int _ => "int"
  | real _ => "float"
  | text _ => "str"
  | flag _ => "bool"
  | none => "NoneType"
  | list _ => "list"
  | dict _ => "dict"
  | handle _ => "Variable"

def intLimit : Nat := Nat.pow 2 1024 - Nat.pow 2 970

def intToReal (n : Int) : Except Fault Float :=
  if n.natAbs ≥ intLimit then .error .intTooLarge else .ok (Float.ofInt n)

def asReal (name : String) : Arg → Except Fault Float
  | int n => intToReal n
  | real x => .ok x
  | a => .error (.notReal name a.typeName)

def asNumber : Arg → Except Fault Float
  | int n => intToReal n
  | real x => .ok x
  | a => .error (.malformed ("expected a number, got " ++ a.typeName))

def asHandle (name : String) : Arg → Except Fault (Var Float)
  | handle v => .ok v
  | a => .error (.notHandle name a.typeName)

def toReal : Arg → Except Fault Float
  | int n => intToReal n
  | real x => .ok x
  | text s =>
    match Decimal.readFloat? s with
    | some x => .ok x
    | Option.none => .error (.notNumeric (Text.quoted s))
  | flag b => .ok (if b then 1.0 else 0.0)
  | none => .ok (0.0 / 0.0)
  | handle v => .ok v.value
  | a => .error (.notConvertible a.typeName)

def truthy : Arg → Bool
  | int n => n != 0
  | real x => x != 0.0
  | text s => !s.isEmpty
  | flag b => b
  | none => false
  | list xs => !xs.isEmpty
  | dict fs => !fs.isEmpty
  | handle _ => true

def repr : Arg → String
  | int n => toString n
  | real x => Decimal.shortest x
  | text s => Text.quoted s
  | flag b => if b then "True" else "False"
  | none => "None"
  | list xs => "[" ++ ", ".intercalate (reprList xs) ++ "]"
  | dict fs => "\x7b" ++ ", ".intercalate (reprFields fs) ++ "\x7d"
  | handle v => "Variable(" ++ Decimal.shortest v.value ++ ", index=" ++ toString v.index ++ ")"
where
  reprList : List Arg → List String
    | [] => []
    | a :: as => repr a :: reprList as
  reprFields : List (String × Arg) → List String
    | [] => []
    | (k, a) :: fs => (Text.quoted k ++ ": " ++ repr a) :: reprFields fs

def mkHandle (value index : Arg) : Except Fault (Var Float) :=
  match index with
  | int i => do
    let x ← value.toReal
    pure ⟨x, i⟩
  | a => .error (.notIndex a.typeName)

end Arg

end AdjointDiff
