import AdjointDiff.Formula.Black
import AdjointDiff.Formula.Sabr.Volatility
import AdjointDiff.Tape.Sweep

set_option autoImplicit false

namespace AdjointDiff

structure SabrOption (α : Type) where
  forward : α
  alpha : α
  beta : α
  rho : α
  nu : α
  numeraire : α
  strike : α
  expiry : α

namespace SabrOption

variable {α : Type}

def toList (o : SabrOption α) : List α :=
  [o.forward, o.alpha, o.beta, o.rho, o.nu, o.numeraire, o.strike, o.expiry]

def ofList? : List α → Option (SabrOption α)
  | [f, a, b, r, n, m, k, t] => some ⟨f, a, b, r, n, m, k, t⟩
  | _ => none

def quote (o : SabrOption α) : SabrQuote α :=
  ⟨o.forward, o.alpha, o.beta, o.rho, o.nu, o.strike, o.expiry⟩

def black (o : SabrOption α) (vol : α) : BlackQuote α :=
  ⟨o.forward, vol, o.numeraire, o.strike, o.expiry⟩

end SabrOption

namespace Sabr

variable {α : Type} [Scalar α]

/-- The chain rule through the volatility: the derivatives of the Black price by
`[F, σ, N, K, T]` and of the volatility by `[F, α, β, ρ, ν, K, T]` give those of the option
price. Each derivative is accumulated from zero. -/
def chain (priceBar : BlackQuote α) (volBar : SabrQuote α) : SabrOption α :=
  let v := priceBar.volatility
  { forward := 0.0 + (priceBar.forward + volBar.forward * v)
    alpha := 0.0 + volBar.alpha * v
    beta := 0.0 + volBar.beta * v
    rho := 0.0 + volBar.rho * v
    nu := 0.0 + volBar.nu * v
    numeraire := 0.0 + priceBar.numeraire
    strike := 0.0 + (priceBar.strike + volBar.strike * v)
    expiry := 0.0 + (priceBar.expiry + volBar.expiry * v) }

def price (ar : Arith) (isCall : Bool) (o : SabrOption α) : Except Fault α := do
  let vol ← volatility ar o.quote
  Black.price ar isCall (o.black vol)

def priceAdjoint (ar : Arith) (isCall : Bool) (o : SabrOption α) :
    Except Fault (α × SabrOption α) := do
  let (vol, volBar) ← volatilityAdjoint ar o.quote
  let (value, priceBar) ← Black.priceAdjointOptimized ar isCall (o.black vol)
  pure (value, chain priceBar volBar)

def priceRecorded (isCall : Bool) (o : SabrOption (Var α)) : Recorder α (Var α) := do
  let vol ← recorded o.quote
  Black.recorded isCall (o.black vol)

def blackOnTape (isCall : Bool) (q : BlackQuote α) : Except Fault (α × BlackQuote α) :=
  let m : Recorder α (α × BlackQuote α) := do
    let handles ← q.mapM Record.input
    let p ← Black.recorded isCall handles
    Tape.interpret none
    let t ← get
    pure (p.value, handles.map t.adjointOf)
  (Recorder.run m Tape.empty).1

def priceMixedTape (ar : Arith) (isCall : Bool) (o : SabrOption α) :
    Except Fault (α × SabrOption α) := do
  let (vol, volBar) ← volatilityAdjoint ar o.quote
  let (value, priceBar) ← blackOnTape isCall (o.black vol)
  pure (value, chain priceBar volBar)

def priceMixedBlack (isCall : Bool) (o : SabrOption (Var α)) : Recorder α (Var α) := do
  let vol ← recorded o.quote
  let inputs := o.black vol
  let (value, priceBar) ←
    Recorder.lift (Black.priceAdjointOptimized .checked isCall (inputs.map (·.value)))
  Record.manualChain inputs.toList priceBar.toList value

def priceMixedVolatility (isCall : Bool) (o : SabrOption (Var α)) : Recorder α (Var α) := do
  let vol ← hybrid o.quote
  Black.recorded isCall (o.black vol)

end Sabr

end AdjointDiff
