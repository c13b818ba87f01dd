import AdjointDiff.Tape.Record

set_option autoImplicit false

namespace AdjointDiff

structure BlackQuote (α : Type) where
  forward : α
  volatility : α
  numeraire : α
  strike : α
  expiry : α

namespace BlackQuote

variable {α : Type}

def toList (q : BlackQuote α) : List α := [q.forward, q.volatility, q.numeraire, q.strike, q.expiry]

def ofList? : List α → Option (BlackQuote α)
  | [f, v, n, k, t] => some ⟨f, v, n, k, t⟩
  | _ => none

def map {β : Type} (g : α → β) (q : BlackQuote α) : BlackQuote β :=
  ⟨g q.forward, g q.volatility, g q.numeraire, g q.strike, g q.expiry⟩

def mapM {m : Type → Type} [Monad m] {β : Type} (g : α → m β) (q : BlackQuote α) :
    m (BlackQuote β) := do
  pure ⟨← g q.forward, ← g q.volatility, ← g q.numeraire, ← g q.strike, ← g q.expiry⟩

end BlackQuote

namespace Black

variable {α : Type} [Scalar α]

open Scalar

/-- The forward sweep of the Black price: every intermediate quantity. -/
structure Sweep (α : Type) where
  omega : α
  sqrtExpiry : α
  periodVolatility : α
  logMoneyness : α
  dPlus : α
  dMinus : α
  nPlus : α
  nMinus : α
  value : α

def sweep (ar : Arith) (isCall : Bool) (q : BlackQuote α) : Except Fault (Sweep α) := do
  let omega : α := Scalar.omega isCall
  let sqrtExpiry := sqrt q.expiry
  let periodVolatility := q.volatility * sqrtExpiry
  let logMoneyness := log (← ar.div q.forward q.strike)
  let dPlus := logMoneyness / periodVolatility + 0.5 * periodVolatility
  let dMinus := dPlus - periodVolatility
  let nPlus := normalCdf (omega * dPlus)
  let nMinus := normalCdf (omega * dMinus)
  let value := q.numeraire * omega * (q.forward * nPlus - q.strike * nMinus)
  pure ⟨omega, sqrtExpiry, periodVolatility, logMoneyness, dPlus, dMinus, nPlus, nMinus, value⟩

def price (ar : Arith) (isCall : Bool) (q : BlackQuote α) : Except Fault α := do
  pure (← sweep ar isCall q).value

/-- The price and its derivatives by a backward sweep through every intermediate quantity. -/
def priceAdjoint (ar : Arith) (isCall : Bool) (q : BlackQuote α) :
    Except Fault (α × BlackQuote α) := do
  let s ← sweep ar isCall q
  let priceBar : α := 1.0
  let nMinusBar := q.numeraire * s.omega * -q.strike * priceBar
  let nPlusBar := q.numeraire * s.omega * q.forward * priceBar
  let dMinusBar := normalPdf (s.omega * s.dMinus) * s.omega * nMinusBar
  let dPlusBar := 1.0 * dMinusBar + normalPdf (s.omega * s.dPlus) * s.omega * nPlusBar
  let logMoneyness := log (← ar.div q.forward q.strike)
  let periodVolatilityBar := -1.0 * dMinusBar +
    (-logMoneyness / pow s.periodVolatility 2.0 + 0.5) * dPlusBar
  let expiryBar := q.volatility * 0.5 / sqrt q.expiry * periodVolatilityBar
  let strikeBar := (← ar.div (-1.0) q.strike) / s.periodVolatility * dPlusBar +
    q.numeraire * s.omega * -s.nMinus * priceBar
  let numeraireBar := s.omega * (q.forward * s.nPlus - q.strike * s.nMinus) * priceBar
  let volatilityBar := sqrt q.expiry * periodVolatilityBar
  let forwardBar := (← ar.div 1.0 q.forward) / s.periodVolatility * dPlusBar +
    q.numeraire * s.omega * s.nPlus * priceBar
  pure (s.value, ⟨forwardBar, volatilityBar, numeraireBar, strikeBar, expiryBar⟩)

def priceAdjointOptimized (ar : Arith) (isCall : Bool) (q : BlackQuote α) :
    Except Fault (α × BlackQuote α) := do
  let s ← sweep ar isCall q
  let priceBar : α := 1.0
  let nMinusBar := q.numeraire * s.omega * -q.strike * priceBar
  let dMinusBar := normalPdf (s.omega * s.dMinus) * s.omega * nMinusBar
  let periodVolatilityBar := -1.0 * dMinusBar
  let expiryBar := q.volatility * 0.5 / s.sqrtExpiry * periodVolatilityBar
  let strikeBar := q.numeraire * s.omega * -s.nMinus * priceBar
  let numeraireBar := s.omega * (q.forward * s.nPlus - q.strike * s.nMinus) * priceBar
  let volatilityBar := s.sqrtExpiry * periodVolatilityBar
  let forwardBar := q.numeraire * s.omega * s.nPlus * priceBar
  pure (s.value, ⟨forwardBar, volatilityBar, numeraireBar, strikeBar, expiryBar⟩)

def recorded (isCall : Bool) (q : BlackQuote (Var α)) : Recorder α (Var α) := do
  let omega : α := Scalar.omega isCall
  let periodVolatility ← Record.mul q.volatility (← Record.sqrt q.expiry)
  let logMoneyness ← Record.log (← Record.div q.forward q.strike)
  let dPlus ← Record.add (← Record.div logMoneyness periodVolatility)
    (← Record.mulConst periodVolatility 0.5)
  let dMinus ← Record.sub dPlus periodVolatility
  let nPlus ← Record.normalCdf (← Record.mulConst dPlus omega)
  let nMinus ← Record.normalCdf (← Record.mulConst dMinus omega)
  let scaled ← Record.mulConst q.numeraire omega
  let long ← Record.mul q.forward nPlus
  let short ← Record.mul q.strike nMinus
  Record.mul scaled (← Record.sub long short)

end Black

end AdjointDiff
