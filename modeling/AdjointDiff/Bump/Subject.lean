import AdjointDiff.Bump.Derivative
import AdjointDiff.Formula.Evaluation
import AdjointDiff.Program.Run

set_option autoImplicit false

namespace AdjointDiff

namespace Scheme

def ofArg? : Arg → Option Scheme
  | .text s => ofValue? s
  | _ => none

def lookup (a : Arg) : Except Fault Scheme :=
  match ofArg? a with
  | some s => .ok s
  | none => .error (.unknownScheme a.repr)

end Scheme

inductive Subject where
  | starter
  | black (isCall : Bool)
  | sabrVolatility
  | sabrPrice (isCall : Bool)
  | program (steps : List Step) (result : Term)

namespace Subject

def function : Subject → List Float → Except Fault Float
  | starter, x => Starter.value .ieee x
  | black isCall, x =>
    match BlackQuote.ofList? x with
    | some q => Black.price .ieee isCall q
    | none => .error (Fault.arity "price" BlackMethod.price.params (x.length + 1))
  | sabrVolatility, x =>
    match SabrQuote.ofList? x with
    | some q => Sabr.volatility .ieee q
    | none => .error (Fault.arity "volatility" SabrVolatilityMethod.volatility.params x.length)
  | sabrPrice isCall, x =>
    match SabrOption.ofList? x with
    | some o => Sabr.price .ieee isCall o
    | none => .error (Fault.arity "price" SabrPriceMethod.price.params (x.length + 1))
  | program steps result, x => Program.valueAt steps result x

def differentiate (s : Subject) (x : List Float) (eps : Float) (scheme : Arg) :
    Except Fault (List Float) :=
  match Scheme.ofArg? scheme with
  | some sc => Bump.differentiate s.function x eps sc
  | none => .error .schemeMissing

def check (s : Subject) (gradient x : List Float) (scheme : Option Arg)
    (eps tolerance : Option Float) : Except Fault (Bump.Check Float) := do
  let sc ← match scheme with
    | some a => Scheme.lookup a
    | none => pure .symmetrical
  Bump.check s.function gradient x sc (eps.getD sc.defaults.1) (tolerance.getD sc.defaults.2)

end Subject

end AdjointDiff
