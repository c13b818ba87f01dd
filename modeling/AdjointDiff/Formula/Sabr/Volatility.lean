import AdjointDiff.Tape.Record

set_option autoImplicit false

namespace AdjointDiff

structure SabrQuote (α : Type) where
  forward : α
  alpha : α
  beta : α
  rho : α
  nu : α
  strike : α
  expiry : α

namespace SabrQuote

variable {α : Type}

def toList (q : SabrQuote α) : List α :=
  [q.forward, q.alpha, q.beta, q.rho, q.nu, q.strike, q.expiry]

def ofList? : List α → Option (SabrQuote α)
  | [f, a, b, r, n, k, t] => some ⟨f, a, b, r, n, k, t⟩
  | _ => none

def map {β : Type} (g : α → β) (q : SabrQuote α) : SabrQuote β :=
  ⟨g q.forward, g q.alpha, g q.beta, g q.rho, g q.nu, g q.strike, g q.expiry⟩

end SabrQuote

namespace Sabr

variable {α : Type} [Scalar α]

open Scalar

def zRange : α := 1.0e-6

/-- The forward sweep of the SABR volatility: every intermediate quantity. In the expansion
branch `sqz` and `xz` are zero. -/
structure Sweep (α : Type) where
  beta1 : α
  fkBeta : α
  logFk : α
  z : α
  small : Bool
  sqz : α
  xz : α
  zxz : α
  beta24 : α
  beta1920 : α
  logFk2 : α
  factor1 : α
  num1 : α
  factor31 : α
  factor32 : α
  factor33 : α
  factor3 : α
  value : α

def sweep (ar : Arith) (q : SabrQuote α) : Except Fault (Sweep α) := do
  let beta1 := 1.0 - q.beta
  let fkBeta := pow (q.forward * q.strike) (0.5 * beta1)
  let logFk := log (← ar.div q.forward q.strike)
  let z := (← ar.div q.nu q.alpha) * fkBeta * logFk
  let small := decide (abs z < zRange)
  let sqz : α := if small then 0.0 else sqrt (1.0 - 2.0 * q.rho * z + z * z)
  let xz : α := if small then 0.0 else log ((sqz + z - q.rho) / (1.0 - q.rho))
  let zxz := if small then 1.0 - 0.5 * z * q.rho else z / xz
  let beta24 := beta1 * beta1 / 24.0
  let beta1920 := (← ar.powNat beta1 4) / 1920.0
  let logFk2 := logFk * logFk
  let factor11 := beta24 * logFk2
  let factor12 := beta1920 * logFk2 * logFk2
  let num1 := 1.0 + factor11 + factor12
  let factor1 := q.alpha / (fkBeta * num1)
  let factor31 := beta24 * q.alpha * q.alpha / (fkBeta * fkBeta)
  let factor32 := 0.25 * q.rho * q.beta * q.nu * q.alpha / fkBeta
  let factor33 := (2.0 - 3.0 * q.rho * q.rho) / 24.0 * q.nu * q.nu
  let factor3 := 1.0 + (factor31 + factor32 + factor33) * q.expiry
  pure { beta1, fkBeta, logFk, z, small, sqz, xz, zxz, beta24, beta1920, logFk2, factor1, num1,
         factor31, factor32, factor33, factor3, value := factor1 * zxz * factor3 }

def volatility (ar : Arith) (q : SabrQuote α) : Except Fault α := do
  pure (← sweep ar q).value

def volatilityAdjoint (ar : Arith) (q : SabrQuote α) : Except Fault (α × SabrQuote α) := do
  let s ← sweep ar q
  let volBar : α := 1.0
  let factor3Bar := s.factor1 * s.zxz * volBar
  let factor33Bar := q.expiry * factor3Bar
  let factor32Bar := q.expiry * factor3Bar
  let factor31Bar := q.expiry * factor3Bar
  let factor1Bar := s.zxz * s.factor3 * volBar
  let num1Bar := -q.alpha / (s.fkBeta * s.num1 * s.num1) * factor1Bar
  let factor12Bar := num1Bar
  let factor11Bar := num1Bar
  let logFk2Bar := s.beta24 * factor11Bar + 2.0 * s.beta1920 * s.logFk2 * factor12Bar
  let beta1920Bar := s.logFk2 * s.logFk2 * factor12Bar
  let beta24Bar := s.logFk2 * factor11Bar +
    q.alpha * q.alpha / (s.fkBeta * s.fkBeta) * factor31Bar
  let zxzBar := s.factor1 * s.factor3 * volBar
  let xzBar : α := if s.small then 0.0 else -s.z / (s.xz * s.xz) * zxzBar
  let sqzBar : α := if s.small then 0.0 else xzBar / (s.sqz + s.z - q.rho)
  let zBar := if s.small then -0.5 * q.rho * zxzBar
    else zxzBar / s.xz + xzBar / (s.sqz + s.z - q.rho) + (s.z - q.rho) / s.sqz * sqzBar
  let nuOverAlpha ← ar.div q.nu q.alpha
  let logFkBar := nuOverAlpha * s.fkBeta * zBar + 2.0 * s.logFk * logFk2Bar
  let fkBetaBar := nuOverAlpha * s.logFk * zBar +
    -q.alpha / (s.fkBeta * s.fkBeta * s.num1) * factor1Bar +
    -2.0 * s.beta24 * q.alpha * q.alpha / pow s.fkBeta 3.0 * factor31Bar +
    -0.25 * q.rho * q.beta * q.nu * q.alpha / (s.fkBeta * s.fkBeta) * factor32Bar
  let beta1Bar := s.fkBeta * 0.5 * log (q.forward * q.strike) * fkBetaBar +
    s.beta1 / 12.0 * beta24Bar + (← ar.powNat s.beta1 3) / 480.0 * beta1920Bar
  let forwardBar := 0.0 + logFkBar / q.forward +
    0.5 * s.beta1 * s.fkBeta / q.forward * fkBetaBar
  let alphaBar := 0.0 + (← ar.div (-q.nu) (q.alpha * q.alpha)) * s.fkBeta * s.logFk * zBar +
    factor1Bar / (s.fkBeta * s.num1) +
    2.0 * s.beta24 * q.alpha / (s.fkBeta * s.fkBeta) * factor31Bar +
    0.25 * q.rho * q.beta * q.nu / s.fkBeta * factor32Bar
  let betaBar := 0.0 + -beta1Bar + 0.25 * q.rho * q.nu * q.alpha / s.fkBeta * factor32Bar
  let rhoBranch ← if s.small then pure (0.0 + -0.5 * s.z * zxzBar)
    else do
      let inverse ← ar.div 1.0 (1.0 - q.rho)
      pure (0.0 + -s.z / s.sqz * sqzBar + (-1.0 / (s.sqz + s.z - q.rho) + inverse) * xzBar)
  let rhoBar := rhoBranch + 0.25 * q.beta * q.nu * q.alpha / s.fkBeta * factor32Bar +
    -0.25 * q.rho * q.nu * q.nu * factor33Bar
  let nuBar := 0.0 + s.fkBeta / q.alpha * s.logFk * zBar +
    0.25 * q.rho * q.beta * q.alpha / s.fkBeta * factor32Bar +
    (2.0 - 3.0 * q.rho * q.rho) / 12.0 * q.nu * factor33Bar
  let strikeBar := 0.0 + 0.5 * s.beta1 * s.fkBeta / q.strike * fkBetaBar +
    -logFkBar / q.strike
  let expiryBar := 0.0 + (s.factor31 + s.factor32 + s.factor33) * factor3Bar
  pure (s.value, ⟨forwardBar, alphaBar, betaBar, rhoBar, nuBar, strikeBar, expiryBar⟩)

def recorded (q : SabrQuote (Var α)) : Recorder α (Var α) := do
  let beta1 ← Record.rsubConst 1.0 q.beta
  let fkBeta ← Record.pow (← Record.mul q.forward q.strike) (← Record.mulConst beta1 0.5)
  let logFk ← Record.log (← Record.div q.forward q.strike)
  let z ← Record.mul (← Record.mul (← Record.div q.nu q.alpha) fkBeta) logFk
  let zxz ← if abs z.value < (zRange : α) then do
      Record.addConst (← Record.mulConst (← Record.mul z q.rho) (-0.5)) 1.0
    else do
      let linear ← Record.addConst (← Record.mulConst (← Record.mul q.rho z) (-2.0)) 1.0
      let radicand ← Record.add linear (← Record.mul z z)
      let sqz ← Record.sqrt radicand
      let shifted ← Record.sub (← Record.add sqz z) q.rho
      let xz ← Record.log (← Record.div shifted (← Record.rsubConst 1.0 q.rho))
      Record.div z xz
  let beta12 ← Record.mul beta1 beta1
  let beta24 ← Record.mulConst beta12 (1.0 / 24.0)
  let beta1920 ← Record.mulConst (← Record.mul beta12 beta12) (1.0 / 1920.0)
  let logFk2 ← Record.mul logFk logFk
  let factor11 ← Record.mul beta24 logFk2
  let factor12 ← Record.mul (← Record.mul beta1920 logFk2) logFk2
  let num1 ← Record.addConst (← Record.add factor11 factor12) 1.0
  let factor1 ← Record.div q.alpha (← Record.mul fkBeta num1)
  let factor31 ← Record.div (← Record.mul (← Record.mul beta24 q.alpha) q.alpha)
    (← Record.mul fkBeta fkBeta)
  let factor32 ← Record.div
    (← Record.mul (← Record.mul (← Record.mul (← Record.mulConst q.rho 0.25) q.beta) q.nu) q.alpha)
    fkBeta
  let factor33 ← Record.mul
    (← Record.mulConst (← Record.addConst (← Record.mulConst (← Record.mul q.rho q.rho) (-3.0)) 2.0)
      (1.0 / 24.0))
    (← Record.mul q.nu q.nu)
  let factor3 ← Record.addConst
    (← Record.mul (← Record.add (← Record.add factor31 factor32) factor33) q.expiry) 1.0
  Record.mul (← Record.mul factor1 zxz) factor3

/-- The volatility from the hand-written sweep on the values of the inputs, spliced into the
tape as seven chained `manual` entries. The values are handed over as plain numbers. -/
def hybrid (q : SabrQuote (Var α)) : Recorder α (Var α) := do
  let (vol, bar) ← Recorder.lift (volatilityAdjoint .checked (q.map (·.value)))
  Record.manualChain q.toList bar.toList vol

end Sabr

end AdjointDiff
