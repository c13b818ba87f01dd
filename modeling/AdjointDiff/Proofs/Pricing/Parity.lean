import Mathlib.MeasureTheory.Measure.Lebesgue.Integral
import AdjointDiff.Proofs.Pricing.BlackMethods

set_option autoImplicit false

namespace AdjointDiff

open ProbabilityTheory MeasureTheory

theorem gaussianPDFReal_neg (x : ℝ) : gaussianPDFReal 0 1 (-x) = gaussianPDFReal 0 1 x := by
  simp [gaussianPDFReal]

theorem gaussianCdf_neg (x : ℝ) : gaussianCdf (-x) = 1 - gaussianCdf x := by
  have integrable := integrable_gaussianPDFReal 0 1
  have upper : gaussianCdf (-x) = ∫ t in Set.Ioi x, gaussianPDFReal 0 1 t := by
    rw [gaussianCdf, ← integral_comp_neg_Ioi]
    simp only [gaussianPDFReal_neg]
  have whole := intervalIntegral.integral_Iic_add_Ioi (b := x) integrable.integrableOn
    integrable.integrableOn
  rw [integral_gaussianPDFReal_eq_one 0 one_ne_zero] at whole
  rw [upper, gaussianCdf]
  linarith

theorem Scalar.normalPdf_neg (x : ℝ) : Scalar.normalPdf (-x) = Scalar.normalPdf x := by
  simp [Scalar.normalPdf]

namespace Black

def lessForward (q : BlackQuote ℝ) (p : ℝ × BlackQuote ℝ) : ℝ × BlackQuote ℝ :=
  (p.1 - q.numeraire * (q.forward - q.strike),
    ⟨p.2.forward - q.numeraire, p.2.volatility, p.2.numeraire - (q.forward - q.strike),
      p.2.strike + q.numeraire, p.2.expiry⟩)

theorem sub_lessForward (q : BlackQuote ℝ) (p : ℝ × BlackQuote ℝ) :
    p.1 - (lessForward q p).1 = q.numeraire * (q.forward - q.strike) ∧
      List.zipWith (· - ·) p.2.toList (lessForward q p).2.toList =
        [q.numeraire, 0, q.forward - q.strike, -q.numeraire, 0] := by
  constructor
  · simp [lessForward]
  · simp [lessForward, BlackQuote.toList]

theorem omega_of_sweep {ar : Arith} {isCall : Bool} {q : BlackQuote ℝ} {s : Sweep ℝ}
    (swept : sweep ar isCall q = .ok s) : s.omega = Scalar.omega isCall := by
  cases quotient : ar.div q.forward q.strike with
  | error f => simp [sweep, quotient, bind, Except.bind] at swept
  | ok m =>
    simp only [sweep, quotient, bind, Except.bind, pure, Except.pure, Except.ok.injEq] at swept
    rw [← swept]

theorem sweep_put (ar : Arith) (q : BlackQuote ℝ) :
    sweep ar false q = (fun s : Sweep ℝ => ⟨-s.omega, s.sqrtExpiry, s.periodVolatility,
      s.logMoneyness, s.dPlus, s.dMinus, 1 - s.nPlus, 1 - s.nMinus,
      s.value - q.numeraire * (q.forward - q.strike)⟩) <$> sweep ar true q := by
  cases quotient : ar.div q.forward q.strike with
  | error f => simp [sweep, quotient, bind, Except.bind, Functor.map, Except.map]
  | ok m =>
    simp only [sweep, quotient, bind, Except.bind, pure, Except.pure, Scalar.omega, Functor.map,
      Except.map, Bool.false_eq_true, if_false, if_true, Scalar.one_real, neg_mul, one_mul,
      Scalar.normalCdf_real, gaussianCdf_neg, Except.ok.injEq, Sweep.mk.injEq, true_and]
    ring

theorem price_put (ar : Arith) (q : BlackQuote ℝ) :
    price ar false q = (· - q.numeraire * (q.forward - q.strike)) <$> price ar true q := by
  simp only [price, sweep_put]
  cases sweep ar true q <;> rfl

theorem priceAdjointOptimized_put (ar : Arith) (q : BlackQuote ℝ) :
    priceAdjointOptimized ar false q = lessForward q <$> priceAdjointOptimized ar true q := by
  simp only [priceAdjointOptimized, sweep_put]
  cases swept : sweep ar true q with
  | error f => rfl
  | ok s =>
    have sign : s.omega = 1 := by rw [omega_of_sweep swept]; simp [Scalar.omega]
    simp only [Functor.map, Except.map, bind, Except.bind, pure, Except.pure, lessForward, sign,
      Scalar.one_real, neg_mul, one_mul, Scalar.normalPdf_neg, Except.ok.injEq, Prod.mk.injEq,
      BlackQuote.mk.injEq, true_and]
    refine ⟨?_, ?_, ?_, ?_, ?_⟩ <;> ring

theorem priceAdjoint_put (ar : Arith) (q : BlackQuote ℝ) :
    priceAdjoint ar false q = lessForward q <$> priceAdjoint ar true q := by
  simp only [priceAdjoint, sweep_put]
  cases swept : sweep ar true q with
  | error f => rfl
  | ok s =>
    have sign : s.omega = 1 := by rw [omega_of_sweep swept]; simp [Scalar.omega]
    -- the divisions of the backward sweep refuse alike for the call and the put
    cases ar.div q.forward q.strike <;> cases ar.div (-1.0) q.strike <;>
      cases ar.div 1.0 q.forward <;> simp only [Functor.map, Except.map, bind, Except.bind]
    simp only [pure, Except.pure, lessForward, sign, Scalar.one_real, neg_mul, one_mul,
      Scalar.normalPdf_neg, Except.ok.injEq, Prod.mk.injEq, BlackQuote.mk.injEq, true_and]
    refine ⟨?_, ?_, ?_, ?_, ?_⟩ <;> ring

theorem methods_answer (isCall : Bool) (q : BlackQuote ℝ) (forward : q.forward ≠ 0)
    (strike : q.strike ≠ 0) :
    ∃ value bar bar', price .checked isCall q = .ok value ∧
      priceAdjoint .checked isCall q = .ok (value, bar) ∧
      priceAdjointOptimized .checked isCall q = .ok (value, bar') := by
  obtain ⟨s, swept, -⟩ := sweep_exact isCall q strike
  exact ⟨s.value, _, _, by rw [price, swept]; rfl,
    by simp [priceAdjoint, swept, Arith.div, forward, strike, bind, Except.bind]; rfl,
    by rw [priceAdjointOptimized, swept]; rfl⟩

end Black

/-- Put-call parity: over the reals, with a positive forward and strike and whatever the
volatility, numeraire and expiry, the plain price and both hand-written adjoints answer for a call
and for a put, and call minus put is the forward contract `N·(F - K)` with gradient
`(N, 0, F - K, -N, 0)` by forward, volatility, numeraire, strike and expiry. -/
theorem put_call_parity (q : BlackQuote ℝ) (forward : 0 < q.forward) (strike : 0 < q.strike) :
    ∃ (call put : ℝ) (callBar putBar callBar' putBar' : BlackQuote ℝ),
      Black.price .checked true q = .ok call ∧ Black.price .checked false q = .ok put ∧
      call - put = q.numeraire * (q.forward - q.strike) ∧
      Black.priceAdjoint .checked true q = .ok (call, callBar) ∧
      Black.priceAdjoint .checked false q = .ok (put, putBar) ∧
      List.zipWith (· - ·) callBar.toList putBar.toList =
        [q.numeraire, 0, q.forward - q.strike, -q.numeraire, 0] ∧
      Black.priceAdjointOptimized .checked true q = .ok (call, callBar') ∧
      Black.priceAdjointOptimized .checked false q = .ok (put, putBar') ∧
      List.zipWith (· - ·) callBar'.toList putBar'.toList =
        [q.numeraire, 0, q.forward - q.strike, -q.numeraire, 0] := by
  obtain ⟨call, bar, bar', priced, adjoint, optimized⟩ :=
    Black.methods_answer true q forward.ne' strike.ne'
  -- the put answers the call less the forward contract, method by method
  have put_adjoint : Black.priceAdjoint .checked false q = .ok (Black.lessForward q (call, bar)) := by
    rw [Black.priceAdjoint_put, adjoint]
    rfl
  have put_optimized : Black.priceAdjointOptimized .checked false q =
      .ok (Black.lessForward q (call, bar')) := by
    rw [Black.priceAdjointOptimized_put, optimized]
    rfl
  obtain ⟨difference, gradient⟩ := Black.sub_lessForward q (call, bar)
  refine ⟨call, _, bar, _, bar', _, priced, by rw [Black.price_put, priced]; rfl, difference,
    adjoint, put_adjoint, gradient, optimized, put_optimized, (Black.sub_lessForward q (call, bar')).2⟩

theorem put_call_parity_at_the_money :
    let q : BlackQuote ℝ := ⟨1, 1 / 5, 1, 1, 1⟩
    (0 < q.forward ∧ 0 < q.strike) ∧
    ∃ (call put : ℝ) (callBar putBar callBar' putBar' : BlackQuote ℝ),
      Black.price .checked true q = .ok call ∧ Black.price .checked false q = .ok put ∧
      call - put = q.numeraire * (q.forward - q.strike) ∧
      Black.priceAdjoint .checked true q = .ok (call, callBar) ∧
      Black.priceAdjoint .checked false q = .ok (put, putBar) ∧
      List.zipWith (· - ·) callBar.toList putBar.toList =
        [q.numeraire, 0, q.forward - q.strike, -q.numeraire, 0] ∧
      Black.priceAdjointOptimized .checked true q = .ok (call, callBar') ∧
      Black.priceAdjointOptimized .checked false q = .ok (put, putBar') ∧
      List.zipWith (· - ·) callBar'.toList putBar'.toList =
        [q.numeraire, 0, q.forward - q.strike, -q.numeraire, 0] := by
  intro q
  have forward : 0 < q.forward := by norm_num [q]
  have strike : 0 < q.strike := by norm_num [q]
  exact ⟨⟨forward, strike⟩, put_call_parity q forward strike⟩

end AdjointDiff
