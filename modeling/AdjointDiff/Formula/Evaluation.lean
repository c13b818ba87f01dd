import AdjointDiff.Formula.Starter
import AdjointDiff.Formula.Sabr.Price
import AdjointDiff.Formula.Smile
import AdjointDiff.Tape.Summary

set_option autoImplicit false

namespace AdjointDiff

inductive Evaluation (α : Type) where
  | value (v : α)
  | position (n : Nat)
  | withGradient (v : α) (gradient : List α)
  | onTape (v : α) (gradient : List α) (summary : Summary)

namespace Evaluation

variable {α : Type} [Scalar α]

def ofRecording (m : Recorder α (Var α)) : Except Fault (Evaluation α) :=
  let swept : Recorder α (Evaluation α) := do
    let y ← m
    Tape.interpret none
    let t ← get
    pure (onTape y.value (← Recorder.lift t.gradient?) (← Recorder.lift t.summary))
  (Recorder.run swept Tape.empty).1

def ofPair {β : Type} (toList : β → List α) (p : α × β) : Evaluation α :=
  withGradient p.1 (toList p.2)

end Evaluation

inductive StarterMethod where
  | value | adjoint | adjointOptimized | recorded
deriving Repr, DecidableEq

namespace StarterMethod

def name : StarterMethod → String
  | value => "f"
  | adjoint => "f_aad"
  | adjointOptimized => "f_aad_optimized"
  | recorded => "f_aad_automatic"

def ofName? (s : String) : Option StarterMethod :=
  [value, adjoint, adjointOptimized, recorded].find? (·.name == s)

variable {α : Type} [Scalar α]

def evaluate (m : StarterMethod) (a : List α) : Except Fault (Evaluation α) :=
  match m with
  | value => Evaluation.value <$> Starter.value .checked a
  | adjoint => Evaluation.ofPair id <$> Starter.valueAdjoint .checked a
  | adjointOptimized => Evaluation.ofPair id <$> Starter.valueAdjointOptimized .checked a
  | recorded => Evaluation.ofRecording do Starter.recorded (← Record.inputs a)

end StarterMethod

inductive BlackMethod where
  | price | adjoint | adjointOptimized | recorded
deriving Repr, DecidableEq

namespace BlackMethod

def name : BlackMethod → String
  | price => "price"
  | adjoint => "price_aad"
  | adjointOptimized => "price_aad_optimized"
  | recorded => "price_aad_automatic"

def ofName? (s : String) : Option BlackMethod :=
  [price, adjoint, adjointOptimized, recorded].find? (·.name == s)

def params (m : BlackMethod) : List String :=
  ["forward", "volatility", "numeraire", "strike", "expiry", "is_call"] ++
    if m = recorded then ["tape"] else []

variable {α : Type} [Scalar α]

def evaluate (m : BlackMethod) (isCall : Bool) (args : List α) : Except Fault (Evaluation α) :=
  match m with
  | recorded => Evaluation.ofRecording do
    let handles ← Record.inputs args
    match BlackQuote.ofList? handles with
    | some q => Black.recorded isCall q
    | none => throw (Fault.arity m.name m.params (handles.length + 2))
  | _ =>
    match BlackQuote.ofList? args with
    | none => .error (Fault.arity m.name m.params (args.length + 1))
    | some q =>
      match m with
      | adjoint => Evaluation.ofPair BlackQuote.toList <$> Black.priceAdjoint .checked isCall q
      | adjointOptimized =>
        Evaluation.ofPair BlackQuote.toList <$> Black.priceAdjointOptimized .checked isCall q
      | _ => Evaluation.value <$> Black.price .checked isCall q

end BlackMethod

inductive SabrVolatilityMethod where
  | volatility | adjoint | recorded | hybrid
deriving Repr, DecidableEq

namespace SabrVolatilityMethod

def name : SabrVolatilityMethod → String
  | volatility => "volatility"
  | adjoint => "volatility_aad"
  | recorded => "volatility_aad_automatic"
  | hybrid => "volatility_aad_hybrid"

def ofName? (s : String) : Option SabrVolatilityMethod :=
  [volatility, adjoint, recorded, hybrid].find? (·.name == s)

def onTape : SabrVolatilityMethod → Bool
  | recorded | hybrid => true
  | volatility | adjoint => false

def params (m : SabrVolatilityMethod) : List String :=
  ["forward", "alpha", "beta", "rho", "nu", "strike", "expiry"] ++
    if m.onTape then ["tape"] else []

variable {α : Type} [Scalar α]

def evaluate (m : SabrVolatilityMethod) (args : List α) : Except Fault (Evaluation α) :=
  if m.onTape then Evaluation.ofRecording do
    let handles ← Record.inputs args
    match SabrQuote.ofList? handles with
    | some q => if m = hybrid then Sabr.hybrid q else Sabr.recorded q
    | none => throw (Fault.arity m.name m.params (handles.length + 1))
  else
    match SabrQuote.ofList? args with
    | none => .error (Fault.arity m.name m.params args.length)
    | some q =>
      if m = adjoint then Evaluation.ofPair SabrQuote.toList <$> Sabr.volatilityAdjoint .checked q
      else Evaluation.value <$> Sabr.volatility .checked q

end SabrVolatilityMethod

inductive SabrPriceMethod where
  | price | adjoint | recorded | mixedTape | mixedBlack | mixedVolatility
deriving Repr, DecidableEq

namespace SabrPriceMethod

def name : SabrPriceMethod → String
  | price => "price"
  | adjoint => "price_aad"
  | recorded => "price_aad_automatic"
  | mixedTape => "price_aad_mixed1"
  | mixedBlack => "price_aad_mixed2"
  | mixedVolatility => "price_aad_mixed3"

def ofName? (s : String) : Option SabrPriceMethod :=
  [price, adjoint, recorded, mixedTape, mixedBlack, mixedVolatility].find? (·.name == s)

def onTape : SabrPriceMethod → Bool
  | recorded | mixedBlack | mixedVolatility => true
  | price | adjoint | mixedTape => false

def params (m : SabrPriceMethod) : List String :=
  ["forward", "alpha", "beta", "rho", "nu", "numeraire", "strike", "expiry", "is_call"] ++
    if m.onTape then ["tape"] else []

variable {α : Type} [Scalar α]

def evaluate (m : SabrPriceMethod) (isCall : Bool) (args : List α) :
    Except Fault (Evaluation α) :=
  if m.onTape then Evaluation.ofRecording do
    let handles ← Record.inputs args
    match SabrOption.ofList? handles with
    | some o =>
      match m with
      | mixedBlack => Sabr.priceMixedBlack isCall o
      | mixedVolatility => Sabr.priceMixedVolatility isCall o
      | _ => Sabr.priceRecorded isCall o
    | none => throw (Fault.arity m.name m.params (handles.length + 2))
  else
    match SabrOption.ofList? args with
    | none => .error (Fault.arity m.name m.params (args.length + 1))
    | some o =>
      match m with
      | adjoint => Evaluation.ofPair SabrOption.toList <$> Sabr.priceAdjoint .checked isCall o
      | mixedTape => Evaluation.ofPair SabrOption.toList <$> Sabr.priceMixedTape .checked isCall o
      | _ => Evaluation.value <$> Sabr.price .checked isCall o

end SabrPriceMethod

inductive InterpolationMethod where
  | upperIndex | interpolate | derivativeX | adjoint | recorded
deriving Repr, DecidableEq

namespace InterpolationMethod

def name : InterpolationMethod → String
  | upperIndex => "upper_index"
  | interpolate => "interpolate"
  | derivativeX => "derivative_x"
  | adjoint => "interpolate_aad"
  | recorded => "interpolate_aad_automatic"

def ofName? (s : String) : Option InterpolationMethod :=
  [upperIndex, interpolate, derivativeX, adjoint, recorded].find? (·.name == s)

variable {α : Type} [Scalar α]

def evaluate (m : InterpolationMethod) (x : α) (nodes values : List α) :
    Except Fault (Evaluation α) :=
  match m with
  | upperIndex => Evaluation.position <$> Interpolation.upperIndex x nodes
  | interpolate => Evaluation.value <$> Interpolation.interpolate .checked x nodes values
  | derivativeX => Evaluation.value <$> Interpolation.derivativeX .checked x nodes values
  | adjoint => Evaluation.ofPair id <$> Interpolation.interpolateAdjoint .checked x nodes values
  | recorded => Evaluation.ofRecording do
    let h ← Record.input x
    Interpolation.recorded .checked h nodes (← Record.inputs values)

end InterpolationMethod

inductive SmileMethod where
  | volatility | sensitivity | derivativeStrike | price | stickyStrike | stickyMoneyness
  | stickyLogMoneyness | recorded
deriving Repr, DecidableEq

namespace SmileMethod

def name : SmileMethod → String
  | volatility => "volatility"
  | sensitivity => "volatility_parameter_sensitivity"
  | derivativeStrike => "derivative_strike"
  | price => "price"
  | stickyStrike => "price_aad_sticky_strike"
  | stickyMoneyness => "price_aad_sticky_simple_moneyness"
  | stickyLogMoneyness => "price_aad_sticky_log_moneyness"
  | recorded => "price_aad_automatic"

def ofName? (s : String) : Option SmileMethod :=
  [volatility, sensitivity, derivativeStrike, price, stickyStrike, stickyMoneyness,
    stickyLogMoneyness, recorded].find? (·.name == s)

variable {α : Type} [Scalar α]

def evaluate (m : SmileMethod) (axis : SmileAxis) (nodes vols : List α) (isCall : Bool)
    (o : SmileOption α) : Except Fault (Evaluation α) :=
  match m with
  | recorded => Evaluation.ofRecording do
    let h ← o.mapM Record.input
    Smile.recorded nodes isCall h (← Record.inputs vols)
  | _ => do
    let s ← Smile.make axis nodes vols
    match m with
    | volatility => Evaluation.value <$> s.volatility o.strike o.forward
    | sensitivity => Evaluation.ofPair id <$> s.volatilitySensitivity o.strike o.forward
    | derivativeStrike => Evaluation.value <$> s.derivativeStrike o.strike o.forward
    | stickyStrike => Evaluation.ofPair BlackQuote.toList <$> s.priceAdjoint .checked isCall o
    | stickyMoneyness =>
      Evaluation.ofPair BlackQuote.toList <$> s.priceStickyMoneyness .checked isCall o
    | stickyLogMoneyness =>
      Evaluation.ofPair BlackQuote.toList <$> s.priceStickyLogMoneyness .checked isCall o
    | _ => Evaluation.value <$> s.price .checked isCall o

end SmileMethod

end AdjointDiff
