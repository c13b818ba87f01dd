/-!
The ways an operation of the library refuses its input.

Each refusal is a constructor carrying what its message needs. `Fault.category` names the
category a caller sees (a type error, a value error, …) and `Fault.message` gives the text;
both are fixed by the constructor alone.
-/

set_option autoImplicit false

namespace AdjointDiff

/-- A refused operation, by cause. Type names are those of the values a caller passed
(`float`, `str`, `NoneType`, …). -/
inductive Fault where
  | zeroDivision
  | powerOverflow
  | intTooLarge
  | notNumeric (quoted : String)
  | notConvertible (typeName : String)
  | listIndex
  | arrayIndex (index : Int) (size : Nat)
  | notArrayIndex
  | notHandle (argument typeName : String)
  | notReal (argument typeName : String)
  | notIndex (typeName : String)
  | alreadyInterpreted
  | laterOperand (tag : String) (index : Nat) (operand : String)
  | operandNotEarlier (index : Nat) (tag : String) (operand : String)
  | manualValueMissing
  | chainLengths (operands partials : Nat)
  | chainEmpty
  | notKind (typeName : String)
  | tapeIndex (index : String) (size : Nat)
  | incomparableIndex (typeName : String)
  | fractionalIndex (typeName : String)
  | emptyTape
  | notOutput (typeName : String)
  | notInterpreted
  | notResult (typeName : String)
  | noValue (typeName : String)
  | fewNodes
  | outsideNodes (x first last : String)
  | smileLengths
  | unknownScheme (quoted : String)
  | schemeMissing
  | gradientShape (given expected : Nat)
  | unboundName (name : String)
  | badCall (text : String)
  | malformed (text : String)
deriving Repr, DecidableEq

namespace Fault

def category : Fault → String
  | zeroDivision => "ZeroDivisionError"
  | powerOverflow | intTooLarge => "OverflowError"
  | listIndex | arrayIndex .. | notArrayIndex | tapeIndex .. => "IndexError"
  | notNumeric .. | laterOperand .. | operandNotEarlier .. | manualValueMissing | chainLengths .. | chainEmpty
  | emptyTape | fewNodes | outsideNodes .. | smileLengths | unknownScheme .. | schemeMissing
  | gradientShape .. => "ValueError"
  | notConvertible .. | notHandle .. | notReal .. | notIndex .. | notKind ..
  | incomparableIndex .. | fractionalIndex .. | notOutput .. | notResult .. | badCall .. =>
    "TypeError"
  | alreadyInterpreted | notInterpreted => "RuntimeError"
  | noValue .. => "AttributeError"
  | unboundName .. => "KeyError"
  | malformed .. => "DriverError"

def classText (typeName : String) : String := "<class '" ++ typeName ++ "'>"

def message : Fault → String
  | zeroDivision => "float division by zero"
  | powerOverflow => "(34, 'Numerical result out of range')"
  | intTooLarge => "int too large to convert to float"
  | notNumeric q => "could not convert string to float: " ++ q
  | notConvertible t => "float() argument must be a string or a real number, not '" ++ t ++ "'"
  | listIndex => "list index out of range"
  | arrayIndex i n =>
    "index " ++ toString i ++ " is out of bounds for axis 0 with size " ++ toString n
  | notArrayIndex =>
    "only integers, slices (`:`), ellipsis (`...`), numpy.newaxis (`None`) and integer or " ++
      "boolean arrays are valid indices"
  | notHandle a t => a ++ " must be a Variable, got " ++ t
  | notReal a t => a ++ " must be a real number, got " ++ t
  | notIndex t => "Variable index must be an integer, got " ++ classText t
  | alreadyInterpreted => "tape has already been interpreted; record on a new Tape"
  | laterOperand tag i o =>
    tag ++ " entry at index " ++ toString i ++ " refers to operand " ++ o ++
      ", operands must be recorded earlier"
  | operandNotEarlier i tag o =>
    "entry " ++ toString i ++ " (" ++ tag ++ ") uses operand " ++ o ++
      ", expected an index in [0, " ++ toString i ++ ")"
  | manualValueMissing => "manual() without a previous splice needs the forward value"
  | chainLengths n m =>
    "manual_chain got " ++ toString n ++ " operands but " ++ toString m ++ " partials"
  | chainEmpty => "manual_chain needs at least one operand"
  | notKind t => "TapeEntry kind must be an OperationKind, got " ++ classText t
  | tapeIndex i n => "tape index " ++ i ++ " out of range for tape of size " ++ toString n
  | incomparableIndex t => "'<=' not supported between instances of 'int' and '" ++ t ++ "'"
  | fractionalIndex t => "list indices must be integers or slices, not " ++ t
  | emptyTape => "cannot interpret an empty tape"
  | notOutput t => "output must be a Variable or an integer index, got " ++ classText t
  | notInterpreted => "extract_gradient called before interpret; the adjoints are not populated"
  | notResult t => "gradient(f, x0) expects f to return a Variable, got " ++ t
  | noValue t => "'" ++ t ++ "' object has no attribute 'value'"
  | fewNodes => "linear interpolation needs at least two nodes"
  | outsideNodes x a b => "x=" ++ x ++ " is outside the node range [" ++ a ++ ", " ++ b ++ "]"
  | smileLengths => "nodes and volatilities must have the same length"
  | unknownScheme q => q ++ " is not a valid FiniteDifferenceScheme"
  | schemeMissing =>
    "Finite difference scheme should be FORWARD, BACKWARD, SYMMETRICAL or FOURTH_ORDER"
  | gradientShape n m =>
    "gradient has shape (" ++ toString n ++ ",), expected (" ++ toString m ++ ",)"
  | unboundName n => "'" ++ n ++ "'"
  | badCall t => t
  | malformed t => t

def proseNames (ns : List String) : String :=
  let qs := ns.map fun n => "'" ++ n ++ "'"
  match qs with
  | [] => ""
  | [a] => a
  | [a, b] => a ++ " and " ++ b
  | _ => ", ".intercalate qs.dropLast ++ ", and " ++ qs.getLastD ""

def arity (fn : String) (params : List String) (given : Nat) : Fault :=
  if given < params.length then
    let missing := params.drop given
    let noun := if missing.length = 1 then " required positional argument: "
      else " required positional arguments: "
    .badCall (fn ++ "() missing " ++ toString missing.length ++ noun ++ proseNames missing)
  else
    let noun := if params.length = 1 then " positional argument but " else " positional arguments but "
    let verb := if given = 1 then " was given" else " were given"
    .badCall (fn ++ "() takes " ++ toString params.length ++ noun ++ toString given ++ verb)

end Fault

def elementAt {β : Type} (xs : List β) (i : Nat) : Except Fault β :=
  match xs[i]? with
  | some x => .ok x
  | none => .error .listIndex

end AdjointDiff
