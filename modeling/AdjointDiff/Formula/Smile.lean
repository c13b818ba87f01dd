import AdjointDiff.Formula.Black
import AdjointDiff.Formula.Interpolation

set_option autoImplicit false

namespace AdjointDiff

inductive SmileAxis where
  | strike
  | simpleMoneyness
deriving Repr, DecidableEq

/-- Volatilities given at nodes of one axis. -/
structure Smile (α : Type) where
  axis : SmileAxis
  nodes : List α
  volatilities : List α

structure SmileOption (α : Type) where
  forward : α
  numeraire : α
  strike : α
  expiry : α

namespace SmileOption

variable {α : Type}

def toList (o : SmileOption α) : List α := [o.forward, o.numeraire, o.strike, o.expiry]

def mapM {m : Type → Type} [Monad m] {β : Type} (g : α → m β) (o : SmileOption α) :
    m (SmileOption β) := do
  pure ⟨← g o.forward, ← g o.numeraire, ← g o.strike, ← g o.expiry⟩

def black (o : SmileOption α) (vol : α) : BlackQuote α :=
  ⟨o.forward, vol, o.numeraire, o.strike, o.expiry⟩

end SmileOption

namespace Smile

variable {α : Type} [Scalar α]

def make (axis : SmileAxis) (nodes volatilities : List α) : Except Fault (Smile α) :=
  if nodes.length = volatilities.length then .ok ⟨axis, nodes, volatilities⟩
  else .error .smileLengths

def abscissa (s : Smile α) (strike forward : α) : α :=
  match s.axis with
  | .strike => strike
  | .simpleMoneyness => forward - strike

def volatility (s : Smile α) (strike forward : α) : Except Fault α :=
  Interpolation.interpolate .ieee (s.abscissa strike forward) s.nodes s.volatilities

def volatilitySensitivity (s : Smile α) (strike forward : α) : Except Fault (α × List α) :=
  Interpolation.interpolateAdjoint .ieee (s.abscissa strike forward) s.nodes s.volatilities

def derivativeStrike (s : Smile α) (strike forward : α) : Except Fault α :=
  match s.axis with
  | .strike => Interpolation.derivativeX .ieee strike s.nodes s.volatilities
  | .simpleMoneyness => do
    let moneynessBar ← Interpolation.derivativeX .ieee (forward - strike) s.nodes s.volatilities
    pure (-moneynessBar)

def price (s : Smile α) (ar : Arith) (isCall : Bool) (o : SmileOption α) : Except Fault α := do
  let vol ← s.volatility o.strike o.forward
  Black.price ar isCall (o.black vol)

def priceAdjoint (s : Smile α) (ar : Arith) (isCall : Bool) (o : SmileOption α) :
    Except Fault (α × BlackQuote α) := do
  let vol ← s.volatility o.strike o.forward
  Black.priceAdjointOptimized ar isCall (o.black vol)

def priceStickyMoneyness (s : Smile α) (ar : Arith) (isCall : Bool) (o : SmileOption α) :
    Except Fault (α × BlackQuote α) := do
  let (value, bar) ← s.priceAdjoint ar isCall o
  let slope ← s.derivativeStrike o.strike o.forward
  pure (value, { bar with forward := bar.forward + -bar.volatility * slope })

def priceStickyLogMoneyness (s : Smile α) (ar : Arith) (isCall : Bool) (o : SmileOption α) :
    Except Fault (α × BlackQuote α) := do
  let (value, bar) ← s.priceAdjoint ar isCall o
  let slope ← s.derivativeStrike o.strike o.forward
  pure (value, { bar with forward := bar.forward + -bar.volatility * slope * o.strike / o.forward })

def recorded (nodes : List α) (isCall : Bool) (o : SmileOption (Var α))
    (volatilities : List (Var α)) : Recorder α (Var α) := do
  if nodes.length ≠ volatilities.length then throw .smileLengths
  let vol ← Interpolation.recorded .ieee o.strike nodes volatilities
  Black.recorded isCall (o.black vol)

end Smile

end AdjointDiff
