import AdjointDiff.Proofs.Real.Dual
import AdjointDiff.Formula.Black

set_option autoImplicit false

namespace AdjointDiff

open ProbabilityTheory Recorder StraightLine

namespace Black

noncomputable def calls (omega : ℝ) : List Call :=
  [ .sqrt 4, .mul 1 5, .div 0 3, .log 7, .div 8 6, .mulConst 6 0.5, .add 9 10, .sub 11 6,
    .mulConst 11 omega, .normalCdf 13, .mulConst 12 omega, .normalCdf 15, .mulConst 2 omega,
    .mul 0 14, .mul 3 16, .sub 18 19, .mul 17 20 ]

theorem reads_before (omega : ℝ) : ReadsBefore 5 (calls omega) := by
  simp [calls, ReadsBefore, Call.operands]

theorem recorded_eq_recordFrom (isCall : Bool) (x : Nat → ℝ) (n : Nat) (q : BlackQuote (Var ℝ)) :
    recorded isCall q =
      recordFrom x n q.toList (calls (Scalar.omega isCall)) >>= fun ws => pure (ws.getD 21 ⟨0, 0⟩) := by
  simp [recorded, calls, recordFrom, Call.record, BlackQuote.toList]

structure Sweep.Exact (isCall : Bool) (q : BlackQuote ℝ) (s : Sweep ℝ) : Prop where
  omega : s.omega = Scalar.omega isCall
  sqrtExpiry : s.sqrtExpiry = √q.expiry
  periodVolatility : s.periodVolatility = q.volatility * s.sqrtExpiry
  logMoneyness : s.logMoneyness = Real.log (q.forward / q.strike)
  dPlus : s.dPlus = s.logMoneyness / s.periodVolatility + 1 / 2 * s.periodVolatility
  dMinus : s.dMinus = s.dPlus - s.periodVolatility
  nPlus : s.nPlus = gaussianCdf (s.omega * s.dPlus)
  nMinus : s.nMinus = gaussianCdf (s.omega * s.dMinus)
  value : s.value = q.numeraire * s.omega * (q.forward * s.nPlus - q.strike * s.nMinus)

theorem sweep_exact (isCall : Bool) (q : BlackQuote ℝ) (strike : q.strike ≠ 0) :
    ∃ s, sweep .checked isCall q = .ok s ∧ s.Exact isCall q := by
  refine ⟨_, by simp [sweep, Arith.div, strike]; rfl, ?_⟩
  constructor <;> simp

theorem priceAdjointOptimized_ok (isCall : Bool) (q : BlackQuote ℝ) (strike : q.strike ≠ 0) :
    ∃ value bar, priceAdjointOptimized .checked isCall q = .ok (value, bar) := by
  obtain ⟨s, swept, -⟩ := sweep_exact isCall q strike
  exact ⟨_, _, by rw [priceAdjointOptimized, swept]; rfl⟩

theorem forward_mul_density (isCall : Bool) {q : BlackQuote ℝ} {s : Sweep ℝ}
    (exact : s.Exact isCall q) (forward : 0 < q.forward) (strike : 0 < q.strike)
    (period : s.periodVolatility ≠ 0) :
    q.forward * gaussianPDFReal 0 1 (s.omega * s.dPlus) =
      q.strike * gaussianPDFReal 0 1 (s.omega * s.dMinus) := by
  have sign : s.omega * s.omega = 1 := by rw [exact.omega, Scalar.omega_mul_self]
  have log_ratio : s.logMoneyness = Real.log q.forward - Real.log q.strike := by
    rw [exact.logMoneyness, Real.log_div forward.ne' strike.ne']
  -- `d+² - d-² = (d+ - d-)(d+ + d-) = 2 log (F/K)`
  have squares : -(s.omega * s.dMinus) ^ 2 / 2 =
      Real.log q.forward - Real.log q.strike + -(s.omega * s.dPlus) ^ 2 / 2 := by
    rw [← log_ratio, exact.dMinus, exact.dPlus]
    field_simp
    linear_combination (8 * s.logMoneyness * s.periodVolatility ^ 2) * sign
  simp only [gaussianPDFReal, sub_zero, NNReal.coe_one, mul_one]
  rw [squares, Real.exp_add, Real.exp_sub, Real.exp_log forward, Real.exp_log strike]
  field_simp

theorem dual_calls_eq_adjoint (isCall : Bool) (x dx : Nat → ℝ) (n : Nat) (d : BlackQuote (ℝ × ℝ))
    (forward : 0 < d.forward.1) (strike : 0 < d.strike.1) (expiry : 0 < d.expiry.1)
    (volatility : d.volatility.1 ≠ 0) :
    ∃ value bar, priceAdjointOptimized .checked isCall (d.map Prod.fst) = .ok (value, bar) ∧
      (dualFrom x dx n d.toList (calls (Scalar.omega isCall))).getD 21 (0, 0) =
        (value, (List.zipWith (· * ·) bar.toList (d.map Prod.snd).toList).sum) := by
  obtain ⟨s, swept, exact⟩ := sweep_exact isCall (d.map Prod.fst) strike.ne'
  refine ⟨_, _, by rw [priceAdjointOptimized, swept]; rfl, ?_⟩
  set E := fun a => (dualFrom x dx n d.toList (calls (Scalar.omega isCall))).getD a (0, 0)
  -- each handle past the inputs is its call's dual number, read off the handles before it
  have step (k : Nat) (c : Call) (found : (calls (Scalar.omega isCall))[k]? = some c) :
      E (5 + k) = c.dual x dx (n + inputCount ((calls (Scalar.omega isCall)).take k)) E :=
    dualFrom_getD_call x dx n d.toList found ((reads_before _).getElem? k c found)
  have input (i : Nat) (below : i < 5) : E i = d.toList.getD i (0, 0) :=
    dualFrom_getD_of_lt x dx n d.toList _ below
  obtain ⟨⟨F, dF⟩, ⟨σ, dσ⟩, ⟨N, dN⟩, ⟨K, dK⟩, ⟨T, dT⟩⟩ := d
  simp only [BlackQuote.map, BlackQuote.toList] at exact forward strike expiry volatility input ⊢
  have e5 : E 5 = (s.sqrtExpiry, dT / (2 * s.sqrtExpiry)) := by
    rw [step 0 _ rfl]
    simp [Call.dual, input, exact.sqrtExpiry]
  have e6 : E 6 = (s.periodVolatility, s.sqrtExpiry * dσ + σ * (dT / (2 * s.sqrtExpiry))) := by
    rw [step 1 _ rfl]
    simp [Call.dual, input, e5, exact.periodVolatility]
  have e8 : E 8 = (s.logMoneyness, dF / F - dK / K) := by
    rw [step 3 _ rfl]
    simp only [Call.dual]
    rw [step 2 _ rfl]
    simp [Call.dual, input, exact.logMoneyness]
    field_simp
  set pvRate := s.sqrtExpiry * dσ + σ * (dT / (2 * s.sqrtExpiry))
  have e11 : E 11 = (s.dPlus, (dF / F - dK / K) / s.periodVolatility -
      s.logMoneyness / s.periodVolatility ^ 2 * pvRate + 1 / 2 * pvRate) := by
    rw [step 6 _ rfl]
    simp only [Call.dual]
    rw [step 4 _ rfl, step 5 _ rfl]
    simp [Call.dual, e6, e8, exact.dPlus]
    ring
  set plusRate := (dF / F - dK / K) / s.periodVolatility -
      s.logMoneyness / s.periodVolatility ^ 2 * pvRate + 1 / 2 * pvRate
  have e12 : E 12 = (s.dMinus, plusRate - pvRate) := by
    rw [step 7 _ rfl]
    simp [Call.dual, e6, e11, exact.dMinus]
  have e14 : E 14 = (s.nPlus, gaussianPDFReal 0 1 (s.omega * s.dPlus) * (s.omega * plusRate)) := by
    rw [step 9 _ rfl]
    simp only [Call.dual]
    rw [step 8 _ rfl]
    simp [Call.dual, e11, exact.nPlus, exact.omega, mul_comm s.dPlus]
  have e16 : E 16 = (s.nMinus,
      gaussianPDFReal 0 1 (s.omega * s.dMinus) * (s.omega * (plusRate - pvRate))) := by
    rw [step 11 _ rfl]
    simp only [Call.dual]
    rw [step 10 _ rfl]
    simp [Call.dual, e12, exact.nMinus, exact.omega, mul_comm s.dMinus]
  have e21 : E 21 = (N * s.omega * (F * s.nPlus - K * s.nMinus),
      (F * s.nPlus - K * s.nMinus) * (s.omega * dN) +
        N * s.omega * (s.nPlus * dF + F * (gaussianPDFReal 0 1 (s.omega * s.dPlus) * (s.omega * plusRate)) -
          (s.nMinus * dK +
            K * (gaussianPDFReal 0 1 (s.omega * s.dMinus) * (s.omega * (plusRate - pvRate)))))) := by
    rw [step 16 _ rfl]
    simp only [Call.dual]
    rw [step 12 _ rfl, step 15 _ rfl]
    simp only [Call.dual]
    rw [step 13 _ rfl, step 14 _ rfl]
    simp [Call.dual, input, e14, e16, ← exact.omega]
  have sign : s.omega * s.omega = 1 := by rw [exact.omega, Scalar.omega_mul_self]
  have period : s.periodVolatility ≠ 0 := by
    rw [exact.periodVolatility, exact.sqrtExpiry]
    exact mul_ne_zero volatility (Real.sqrt_pos.2 expiry).ne'
  -- what the optimized sweep leaves out is `N ω² (F φ(ω d+) - K φ(ω d-)) · rate(d+) = 0`
  have balance := forward_mul_density isCall exact forward strike period
  show E 21 = _
  rw [e21]
  refine Prod.ext (by simp [exact.value]) ?_
  simp [Scalar.normalPdf_real]
  linear_combination (N * s.omega * s.omega * plusRate) * balance

theorem yields_recorded (isCall : Bool) {r n : Nat} {t : Tape ℝ} (clean : t.Clean)
    (count : t.inputRank t.size = n) {q : BlackQuote (Var ℝ)} {d : BlackQuote (ℝ × ℝ)}
    (tracked : List.Forall₂ (Tracks t r) q.toList d.toList)
    (forward : 0 < d.forward.1) (strike : 0 < d.strike.1) (expiry : 0 < d.expiry.1)
    (volatility : d.volatility.1 ≠ 0) {value : ℝ} {bar : BlackQuote ℝ}
    (adjoint : priceAdjointOptimized .checked isCall (d.map Prod.fst) = .ok (value, bar)) :
    Yields r n (recorded isCall q) t
      (value, (List.zipWith (· * ·) bar.toList (d.map Prod.snd).toList).sum) := by
  obtain ⟨value', bar', adjoint', rates⟩ := dual_calls_eq_adjoint isCall (fun _ => 0)
    (fun m => if m = r then 1 else 0) n d forward strike expiry volatility
  simp only [adjoint, Except.ok.injEq, Prod.mk.injEq] at adjoint'
  obtain ⟨rfl, rfl⟩ := adjoint'
  have yields := yields_recordFrom_last (fun _ => 0) (calls (Scalar.omega isCall)) clean count
    (tracksAll_of_forall₂ tracked) (reads_before _).getElem? (by simp [calls])
  rw [recorded_eq_recordFrom isCall (fun _ => 0) n, ← rates]
  simpa [BlackQuote.toList, calls, inputCount, Call.isInput] using yields

end Black

end AdjointDiff
