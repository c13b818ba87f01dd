import AdjointDiff.Proofs.Real.Readout
import AdjointDiff.Proofs.Pricing.BlackAdjoint

set_option autoImplicit false

namespace AdjointDiff

open Recorder StraightLine

namespace BlackQuote

variable {α : Type}

@[simp] theorem ofList?_toList (q : BlackQuote α) : ofList? q.toList = some q := rfl

theorem ofList?_eq_some {xs : List α} (length : xs.length = 5) :
    ∃ q, ofList? xs = some q ∧ q.toList = xs := by
  match xs, length with
  | [_, _, _, _, _], _ => exact ⟨_, rfl, rfl⟩

theorem toList_map {β : Type} (g : α → β) (q : BlackQuote α) : (q.map g).toList = q.toList.map g :=
  rfl

end BlackQuote

namespace Black

open Scalar

theorem price_eq_map_priceAdjointOptimized {α : Type} [Scalar α] (ar : Arith) (isCall : Bool)
    (q : BlackQuote α) : price ar isCall q = Prod.fst <$> priceAdjointOptimized ar isCall q := by
  simp only [price, priceAdjointOptimized]
  cases sweep ar isCall q <;> rfl

theorem Sweep.Exact.periodVolatility_ne_zero {isCall : Bool} {q : BlackQuote ℝ} {s : Sweep ℝ}
    (exact : s.Exact isCall q) (volatility : q.volatility ≠ 0) (expiry : 0 < q.expiry) :
    s.periodVolatility ≠ 0 := by
  rw [exact.periodVolatility, exact.sqrtExpiry]
  exact mul_ne_zero volatility (Real.sqrt_pos.2 expiry).ne'

theorem dPlusBar_eq_zero (isCall : Bool) {q : BlackQuote ℝ} {s : Sweep ℝ} (exact : s.Exact isCall q)
    (forward : 0 < q.forward) (strike : 0 < q.strike) (period : s.periodVolatility ≠ 0) :
    normalPdf (s.omega * s.dMinus) * s.omega * (q.numeraire * s.omega * -q.strike) +
      normalPdf (s.omega * s.dPlus) * s.omega * (q.numeraire * s.omega * q.forward) = 0 := by
  have balance := forward_mul_density isCall exact forward strike period
  simp only [Scalar.normalPdf_real]
  linear_combination (q.numeraire * s.omega * s.omega) * balance

theorem priceAdjoint_eq_optimized (isCall : Bool) (q : BlackQuote ℝ) (forward : 0 < q.forward)
    (strike : 0 < q.strike) (expiry : 0 < q.expiry) (volatility : q.volatility ≠ 0) :
    priceAdjoint .checked isCall q = priceAdjointOptimized .checked isCall q := by
  obtain ⟨s, swept, exact⟩ := sweep_exact isCall q strike.ne'
  have vanishes := dPlusBar_eq_zero isCall exact forward strike
    (exact.periodVolatility_ne_zero volatility expiry)
  -- the adjoint of `d+` as the sweep writes it
  have vanishes' : (1.0 : ℝ) * (normalPdf (s.omega * s.dMinus) * s.omega *
      (q.numeraire * s.omega * -q.strike * 1.0)) +
      normalPdf (s.omega * s.dPlus) * s.omega * (q.numeraire * s.omega * q.forward * 1.0) = 0 := by
    simpa using vanishes
  simp only [priceAdjoint, priceAdjointOptimized, swept, Arith.div, Scalar.isZero_real,
    strike.ne', forward.ne', decide_false, Bool.false_eq_true, if_false, bind, Except.bind, pure,
    Except.pure]
  simp only [vanishes', mul_zero, add_zero, zero_add, exact.sqrtExpiry, Scalar.sqrt_real]

theorem recorded_evaluate (isCall : Bool) (q : BlackQuote ℝ) (forward : 0 < q.forward)
    (strike : 0 < q.strike) (expiry : 0 < q.expiry) (volatility : q.volatility ≠ 0) {value : ℝ}
    {bar : BlackQuote ℝ} (adjoint : priceAdjointOptimized .checked isCall q = .ok (value, bar)) :
    ∃ summary, BlackMethod.recorded.evaluate isCall q.toList =
      .ok (.onTape value bar.toList summary) := by
  refine ofRecording_inputs q.toList (by simp [BlackQuote.toList])
    fun {t r n hs ds} clean count tracked values => ?_
  have five : ds.length = 5 := by rw [← List.length_map, values]; rfl
  obtain ⟨h, named, rfl⟩ := BlackQuote.ofList?_eq_some (tracked.length_eq.trans five)
  obtain ⟨d, -, rfl⟩ := BlackQuote.ofList?_eq_some five
  -- the handles track the values of `q`, at whatever rates
  have point : d.map Prod.fst = q := by
    obtain ⟨_, _, _, _, _⟩ := d
    obtain ⟨_, _, _, _, _⟩ := q
    simpa [BlackQuote.map, BlackQuote.toList] using values
  subst point
  simp only [named]
  rw [← BlackQuote.toList_map]
  exact yields_recorded isCall clean count tracked forward strike expiry volatility adjoint

end Black

/-- The methods of the Black price agree: over the reals, with a positive forward, volatility,
strike and expiry, the plain price, the two hand-written adjoints and the recording swept from the
price answer one value and one gradient by the five inputs. The adjoint of `d+` that the full
hand-written sweep carries to the inputs is zero, because the forward and the strike weigh the
normal density equally at `ω d+` and `ω d-`. -/
theorem black_methods_agree (isCall : Bool) (q : BlackQuote ℝ) (forward : 0 < q.forward)
    (volatility : 0 < q.volatility) (strike : 0 < q.strike) (expiry : 0 < q.expiry) :
    ∃ value g, g.length = 5 ∧
      BlackMethod.price.evaluate isCall q.toList = .ok (.value value) ∧
      BlackMethod.adjoint.evaluate isCall q.toList = .ok (.withGradient value g) ∧
      BlackMethod.adjointOptimized.evaluate isCall q.toList = .ok (.withGradient value g) ∧
      (∃ summary, BlackMethod.recorded.evaluate isCall q.toList = .ok (.onTape value g summary)) ∧
      ∀ s, Black.sweep .checked isCall q = .ok s →
        q.forward * Scalar.normalPdf (s.omega * s.dPlus) =
          q.strike * Scalar.normalPdf (s.omega * s.dMinus) ∧
        Scalar.normalPdf (s.omega * s.dMinus) * s.omega * (q.numeraire * s.omega * -q.strike) +
          Scalar.normalPdf (s.omega * s.dPlus) * s.omega * (q.numeraire * s.omega * q.forward) = 0 := by
  obtain ⟨value, bar, adjoint⟩ := Black.priceAdjointOptimized_ok isCall q strike.ne'
  obtain ⟨s, swept, exact⟩ := Black.sweep_exact isCall q strike.ne'
  have period := exact.periodVolatility_ne_zero volatility.ne' expiry
  refine ⟨value, bar.toList, rfl, ?_, ?_, ?_,
    Black.recorded_evaluate isCall q forward strike expiry volatility.ne' adjoint, ?_⟩
  · simp [BlackMethod.evaluate, Black.price_eq_map_priceAdjointOptimized, adjoint]
  · simp [BlackMethod.evaluate,
      Black.priceAdjoint_eq_optimized isCall q forward strike expiry volatility.ne', adjoint,
      Evaluation.ofPair]
  · simp [BlackMethod.evaluate, adjoint, Evaluation.ofPair]
  · intro s' swept'
    rw [swept, Except.ok.injEq] at swept'
    subst swept'
    have balance := Black.forward_mul_density isCall exact forward strike period
    exact ⟨by simpa [Scalar.normalPdf_real] using balance,
      Black.dPlusBar_eq_zero isCall exact forward strike period⟩

theorem black_methods_agree_at_the_money :
    let q : BlackQuote ℝ := ⟨1, 1 / 5, 1, 1, 1⟩
    (0 < q.forward ∧ 0 < q.volatility ∧ 0 < q.strike ∧ 0 < q.expiry) ∧
    ∃ value g, g.length = 5 ∧
      BlackMethod.price.evaluate true q.toList = .ok (.value value) ∧
      BlackMethod.adjoint.evaluate true q.toList = .ok (.withGradient value g) ∧
      BlackMethod.adjointOptimized.evaluate true q.toList = .ok (.withGradient value g) ∧
      (∃ summary, BlackMethod.recorded.evaluate true q.toList = .ok (.onTape value g summary)) ∧
      ∀ s, Black.sweep .checked true q = .ok s →
        q.forward * Scalar.normalPdf (s.omega * s.dPlus) =
          q.strike * Scalar.normalPdf (s.omega * s.dMinus) ∧
        Scalar.normalPdf (s.omega * s.dMinus) * s.omega * (q.numeraire * s.omega * -q.strike) +
          Scalar.normalPdf (s.omega * s.dPlus) * s.omega * (q.numeraire * s.omega * q.forward) = 0 := by
  intro q
  exact ⟨⟨by norm_num [q], by norm_num [q], by norm_num [q], by norm_num [q]⟩,
    black_methods_agree true q (by norm_num [q]) (by norm_num [q]) (by norm_num [q]) (by norm_num [q])⟩

end AdjointDiff
