import Mathlib.Analysis.SpecialFunctions.Log.Deriv
import AdjointDiff.Proofs.Smile.Interpolation
import AdjointDiff.Proofs.Pricing.BlackAdjoint

set_option autoImplicit false

namespace AdjointDiff

open ProbabilityTheory

namespace Black

theorem hasDerivAt_price_along (isCall : Bool) {vol : ℝ → ℝ} {vol' F0 N K T : ℝ}
    (moves : HasDerivAt vol vol' F0) (forward : 0 < F0) (strike : 0 < K) (expiry : 0 < T)
    (volatility : vol F0 ≠ 0) {value : ℝ} {bar : BlackQuote ℝ}
    (adjoint : priceAdjointOptimized .checked isCall ⟨F0, vol F0, N, K, T⟩ = .ok (value, bar)) :
    ∃ g : ℝ → ℝ, (∀ F, price .checked isCall ⟨F, vol F, N, K, T⟩ = .ok (g F)) ∧
      HasDerivAt g (bar.forward + bar.volatility * vol') F0 := by
  -- the period volatility `σ√T` and `d+` as the forward moves
  let period := fun F => vol F * √T
  let dPlus := fun F => Real.log (F / K) / period F + 1 / 2 * period F
  refine ⟨fun F => N * Scalar.omega isCall * (F * gaussianCdf (Scalar.omega isCall * dPlus F) -
    K * gaussianCdf (Scalar.omega isCall * (dPlus F - period F))), fun F => ?_, ?_⟩
  · obtain ⟨s, swept, exact⟩ := sweep_exact isCall ⟨F, vol F, N, K, T⟩ strike.ne'
    simp only [price, swept, bind, Except.bind, pure, Except.pure, exact.value, exact.nPlus,
      exact.nMinus, exact.dMinus, exact.dPlus, exact.logMoneyness, exact.periodVolatility,
      exact.sqrtExpiry, exact.omega]
    rfl
  obtain ⟨s, swept, exact⟩ := sweep_exact isCall ⟨F0, vol F0, N, K, T⟩ strike.ne'
  simp only [priceAdjointOptimized, swept, bind, Except.bind, pure, Except.pure, Except.ok.injEq,
    Prod.mk.injEq] at adjoint
  obtain ⟨-, rfl⟩ := adjoint
  have period_at : HasDerivAt period (vol' * √T) F0 := moves.mul_const _
  have period_ne : period F0 ≠ 0 := mul_ne_zero volatility (Real.sqrt_pos.2 expiry).ne'
  have log_at : HasDerivAt (fun F => Real.log (F / K)) (1 / F0) F0 := by
    refine (((hasDerivAt_id' F0).div_const K).log (div_pos forward strike).ne').congr_deriv ?_
    field_simp
  obtain ⟨plusRate, plus_at⟩ : ∃ rate, HasDerivAt dPlus rate F0 :=
    ⟨_, (log_at.div period_at period_ne).add (period_at.const_mul _)⟩
  have cdf_plus := (hasDerivAt_gaussianCdf _).comp F0 (plus_at.const_mul (Scalar.omega isCall))
  have cdf_minus := (hasDerivAt_gaussianCdf _).comp F0
    ((plus_at.sub period_at).const_mul (Scalar.omega isCall))
  refine ((((hasDerivAt_id' F0).mul cdf_plus).sub (cdf_minus.const_mul K)).const_mul
    (N * Scalar.omega isCall)).congr_deriv ?_
  -- the sweep at `F0` is the formula there
  have at_plus : s.dPlus = dPlus F0 := by
    rw [exact.dPlus, exact.logMoneyness, exact.periodVolatility, exact.sqrtExpiry]
  have at_minus : s.dMinus = dPlus F0 - period F0 := by
    rw [exact.dMinus, at_plus, exact.periodVolatility, exact.sqrtExpiry]
  -- what moving `d+` adds is `N ω² (F φ(ω d+) - K φ(ω d-)) · rate(d+) = 0`
  have balance := forward_mul_density isCall exact forward strike
    (by rw [exact.periodVolatility, exact.sqrtExpiry]; exact period_ne)
  rw [exact.omega, at_plus, at_minus] at balance
  simp only [Function.comp_apply, exact.nPlus, exact.omega, at_plus, at_minus, exact.sqrtExpiry,
    Scalar.normalPdf_real, Scalar.one_real]
  linear_combination (N * Scalar.omega isCall * Scalar.omega isCall * plusRate) * balance

end Black

namespace Interpolation

theorem eventually_interpolate_along (ar : Arith) {nodes values : List ℝ}
    (sorted : nodes.SortedLT) (lengths : values.length = nodes.length) {a b : ℝ}
    (between : [a, b] <:+: nodes) {x : ℝ → ℝ} {x' F0 : ℝ} (moves : HasDerivAt x x' F0)
    (above : a < x F0) (below : x F0 < b) :
    ∃ (v : ℝ → ℝ) (slope : ℝ), derivativeX ar (x F0) nodes values = .ok slope ∧
      (∀ᶠ F in nhds F0, interpolate ar (x F) nodes values = .ok (v F)) ∧
      HasDerivAt v (slope * x') F0 := by
  obtain ⟨i, pos, inside, rfl, rfl⟩ := exists_segment_of_infix between
  have width : nodes[i - 1] < nodes[i] := above.trans below
  refine ⟨fun F => values[i - 1] +
      (x F - nodes[i - 1]) * ((values[i] - values[i - 1]) * (1 / (nodes[i] - nodes[i - 1]))), _,
    derivativeX_eq ar pos inside lengths (upperIndex_of_inside sorted pos inside above below) width,
    ?_, ?_⟩
  · -- near `F0` the abscissa stays strictly inside the segment
    filter_upwards [moves.continuousAt.eventually_mem (Ioo_mem_nhds above below)] with F within
    exact interpolate_eq ar pos inside lengths
      (upperIndex_of_inside sorted pos inside within.1 within.2) width
  · refine (((moves.sub_const _).mul_const _).const_add _).congr_deriv ?_
    field_simp

end Interpolation

namespace Smile

/-- `delta` is the derivative at the option's forward of the price on the smile `smile F` at
forward `F`: near the forward the price answers, and its answers have derivative `delta` there. -/
def HasForwardDerivative (smile : ℝ → Smile ℝ) (isCall : Bool) (o : SmileOption ℝ)
    (delta : ℝ) : Prop :=
  ∃ g : ℝ → ℝ, (∀ᶠ F in nhds o.forward,
      (smile F).price .checked isCall ⟨F, o.numeraire, o.strike, o.expiry⟩ = .ok (g F)) ∧
    HasDerivAt g delta o.forward

section Rules

variable {α : Type} [Scalar α] {s : Smile α} {ar : Arith} {isCall : Bool} {o : SmileOption α}
  {value slope : α} {bar : BlackQuote α}

theorem priceAdjoint_eq {σ : α} (smiled : s.volatility o.strike o.forward = .ok σ)
    (adjoint : Black.priceAdjointOptimized ar isCall (o.black σ) = .ok (value, bar)) :
    s.priceAdjoint ar isCall o = .ok (value, bar) := by
  simp [priceAdjoint, smiled, adjoint, bind, Except.bind]

variable (adjoint : s.priceAdjoint ar isCall o = .ok (value, bar))
  (derivative : s.derivativeStrike o.strike o.forward = .ok slope)

include adjoint derivative

theorem priceStickyMoneyness_eq :
    s.priceStickyMoneyness ar isCall o = .ok (value, ⟨bar.forward + -bar.volatility * slope,
      bar.volatility, bar.numeraire, bar.strike, bar.expiry⟩) := by
  simp [priceStickyMoneyness, adjoint, derivative, bind, Except.bind, pure, Except.pure]

theorem priceStickyLogMoneyness_eq :
    s.priceStickyLogMoneyness ar isCall o = .ok (value,
      ⟨bar.forward + -bar.volatility * slope * o.strike / o.forward, bar.volatility,
        bar.numeraire, bar.strike, bar.expiry⟩) := by
  simp [priceStickyLogMoneyness, adjoint, derivative, bind, Except.bind, pure, Except.pure]

end Rules

section Deltas

variable (isCall : Bool) {o : SmileOption ℝ} {nodes vols : List ℝ} (sorted : nodes.SortedLT)
  (lengths : vols.length = nodes.length) {a b : ℝ} (between : [a, b] <:+: nodes)
  (forward : 0 < o.forward) (strike : 0 < o.strike) (expiry : 0 < o.expiry)

include sorted lengths between in
theorem eventually_volatility_map_affine {f : ℝ → ℝ → ℝ} {c d : ℝ → ℝ}
    (scale : ∀ᶠ F in nhds o.forward, 0 < c F) (affine : ∀ F n, f F n = c F * n + d F)
    {x : ℝ → ℝ} (continuous : ContinuousAt x o.forward)
    (image : ∀ᶠ F in nhds o.forward, f F (x F) = o.strike) (above : a < x o.forward)
    (below : x o.forward < b) :
    ∀ᶠ F in nhds o.forward, (Smile.mk .strike (nodes.map (f F)) vols).volatility o.strike F =
      Interpolation.interpolate .ieee (x F) nodes vols := by
  obtain ⟨i, pos, inside, rfl, rfl⟩ := Interpolation.exists_segment_of_infix between
  filter_upwards [continuous.eventually_mem (Ioo_mem_nhds above below), scale, image]
    with F within positive mapped
  show Interpolation.interpolate .ieee o.strike _ vols = _
  exact Interpolation.interpolate_map_affine .ieee sorted lengths positive (affine F) pos inside
    within.1 within.2 mapped

include sorted lengths between forward strike expiry

theorem hasForwardDerivative_along (smile : ℝ → Smile ℝ) {x : ℝ → ℝ} {x' : ℝ}
    (moves : HasDerivAt x x' o.forward) (above : a < x o.forward) (below : x o.forward < b)
    (reads : ∀ᶠ F in nhds o.forward,
      (smile F).volatility o.strike F = Interpolation.interpolate .ieee (x F) nodes vols)
    {σ : ℝ} (smiled : Interpolation.interpolate .ieee (x o.forward) nodes vols = .ok σ)
    (positive : 0 < σ) {value : ℝ} {bar : BlackQuote ℝ}
    (adjoint : Black.priceAdjointOptimized .checked isCall (o.black σ) = .ok (value, bar)) :
    ∃ slope, Interpolation.derivativeX .ieee (x o.forward) nodes vols = .ok slope ∧
      HasForwardDerivative smile isCall o (bar.forward + bar.volatility * (slope * x')) := by
  obtain ⟨v, slope, derivative, along, v_at⟩ :=
    Interpolation.eventually_interpolate_along .ieee sorted lengths between moves above below
  have at_forward : v o.forward = σ := by
    have interpolated := along.self_of_nhds
    rw [smiled, Except.ok.injEq] at interpolated
    exact interpolated.symm
  obtain ⟨g, priced, g_at⟩ := Black.hasDerivAt_price_along isCall v_at forward strike expiry
    (by rw [at_forward]; exact positive.ne') (by rw [at_forward]; exact adjoint)
  refine ⟨slope, derivative, g, ?_, g_at⟩
  filter_upwards [reads, along] with F read interpolated
  simp only [price, read, interpolated, bind, Except.bind, SmileOption.black]
  exact priced F

theorem stickyStrike_delta (above : a < o.strike) (below : o.strike < b) {σ : ℝ}
    (smiled : (⟨.strike, nodes, vols⟩ : Smile ℝ).volatility o.strike o.forward = .ok σ)
    (positive : 0 < σ) :
    ∃ value bar, (⟨.strike, nodes, vols⟩ : Smile ℝ).priceAdjoint .checked isCall o =
        .ok (value, bar) ∧
      HasForwardDerivative (fun _ => ⟨.strike, nodes, vols⟩) isCall o bar.forward := by
  obtain ⟨value, bar, adjoint⟩ := Black.priceAdjointOptimized_ok isCall (o.black σ) strike.ne'
  obtain ⟨slope, -, delta⟩ := hasForwardDerivative_along isCall sorted lengths between forward
    strike expiry (fun _ => ⟨.strike, nodes, vols⟩) (hasDerivAt_const o.forward o.strike) above
    below (.of_forall fun _ => rfl) smiled positive adjoint
  refine ⟨value, bar, priceAdjoint_eq smiled adjoint, ?_⟩
  simpa using delta

theorem stickyMoneyness_delta (above : a < o.strike) (below : o.strike < b) {σ : ℝ}
    (smiled : (⟨.strike, nodes, vols⟩ : Smile ℝ).volatility o.strike o.forward = .ok σ)
    (positive : 0 < σ) :
    ∃ value bar, (⟨.strike, nodes, vols⟩ : Smile ℝ).priceStickyMoneyness .checked isCall o =
        .ok (value, bar) ∧
      HasForwardDerivative (fun F => ⟨.strike, nodes.map (· + (F - o.forward)), vols⟩) isCall o
        bar.forward := by
  obtain ⟨value, bar, adjoint⟩ := Black.priceAdjointOptimized_ok isCall (o.black σ) strike.ne'
  -- on the shifted nodes the strike sits where the strike less the move sits on the nodes
  let x := fun F => o.strike - (F - o.forward)
  have moves : HasDerivAt x (-1) o.forward := by
    simpa using ((hasDerivAt_id o.forward).sub_const o.forward).const_sub o.strike
  have at_forward : x o.forward = o.strike := by simp [x]
  have reads := eventually_volatility_map_affine sorted lengths between
    (f := fun F => (· + (F - o.forward))) (c := fun _ => 1) (d := fun F => F - o.forward)
    (.of_forall fun _ => one_pos) (fun F n => by ring) moves.continuousAt
    (.of_forall fun F => by simp [x]) (at_forward ▸ above) (at_forward ▸ below)
  obtain ⟨slope, derivative, delta⟩ := hasForwardDerivative_along isCall sorted lengths between
    forward strike expiry _ moves (at_forward ▸ above) (at_forward ▸ below) reads
    (at_forward ▸ smiled) positive adjoint
  rw [at_forward] at derivative
  refine ⟨value, _, priceStickyMoneyness_eq (priceAdjoint_eq smiled adjoint) derivative, ?_⟩
  convert delta using 1
  ring

theorem stickyLogMoneyness_delta (above : a < o.strike) (below : o.strike < b) {σ : ℝ}
    (smiled : (⟨.strike, nodes, vols⟩ : Smile ℝ).volatility o.strike o.forward = .ok σ)
    (positive : 0 < σ) :
    ∃ value bar, (⟨.strike, nodes, vols⟩ : Smile ℝ).priceStickyLogMoneyness .checked isCall o =
        .ok (value, bar) ∧
      HasForwardDerivative (fun F => ⟨.strike, nodes.map (· * F / o.forward), vols⟩) isCall o
        bar.forward := by
  obtain ⟨value, bar, adjoint⟩ := Black.priceAdjointOptimized_ok isCall (o.black σ) strike.ne'
  -- on the scaled nodes the strike sits where `K·F₀/F` sits on the nodes
  let x := fun F => o.strike / (F / o.forward)
  have moves : HasDerivAt x (-o.strike / o.forward) o.forward := by
    refine ((hasDerivAt_const o.forward o.strike).div ((hasDerivAt_id' o.forward).div_const _)
      (by simp [forward.ne'])).congr_deriv ?_
    field_simp
    ring
  have at_forward : x o.forward = o.strike := by simp [x, forward.ne']
  -- the scaled nodes are increasing while the forward stays positive
  have reads := eventually_volatility_map_affine sorted lengths between
    (f := fun F => (· * F / o.forward)) (c := fun F => F / o.forward) (d := fun _ => 0)
    (Filter.eventually_of_mem (Ioi_mem_nhds forward) fun F positive => div_pos positive forward)
    (fun F n => by ring) moves.continuousAt
    (Filter.eventually_of_mem (Ioi_mem_nhds forward) fun F positive => by
      have nonzero : F ≠ 0 := (show (0 : ℝ) < F from positive).ne'
      simp only [x]
      field_simp)
    (at_forward ▸ above) (at_forward ▸ below)
  obtain ⟨slope, derivative, delta⟩ := hasForwardDerivative_along isCall sorted lengths between
    forward strike expiry _ moves (at_forward ▸ above) (at_forward ▸ below) reads
    (at_forward ▸ smiled) positive adjoint
  rw [at_forward] at derivative
  refine ⟨value, _, priceStickyLogMoneyness_eq (priceAdjoint_eq smiled adjoint) derivative, ?_⟩
  convert delta using 1
  ring

theorem moneynessSmile_delta (above : a < o.forward - o.strike) (below : o.forward - o.strike < b)
    {σ : ℝ}
    (smiled : (⟨.simpleMoneyness, nodes, vols⟩ : Smile ℝ).volatility o.strike o.forward = .ok σ)
    (positive : 0 < σ) :
    ∃ value bar,
      (⟨.simpleMoneyness, nodes, vols⟩ : Smile ℝ).priceStickyMoneyness .checked isCall o =
        .ok (value, bar) ∧
      HasForwardDerivative (fun _ => ⟨.simpleMoneyness, nodes, vols⟩) isCall o bar.forward := by
  obtain ⟨value, bar, adjoint⟩ := Black.priceAdjointOptimized_ok isCall (o.black σ) strike.ne'
  obtain ⟨slope, derivative, delta⟩ := hasForwardDerivative_along isCall sorted lengths between
    forward strike expiry (fun _ => ⟨.simpleMoneyness, nodes, vols⟩)
    ((hasDerivAt_id' o.forward).sub_const o.strike) above below
    (.of_forall fun _ => rfl) smiled positive adjoint
  -- the strike derivative counts the slope on the moneyness with its sign turned
  have turned : (⟨.simpleMoneyness, nodes, vols⟩ : Smile ℝ).derivativeStrike o.strike o.forward =
      .ok (-slope) := by
    simp [derivativeStrike, derivative, bind, Except.bind, pure, Except.pure]
  refine ⟨value, _, priceStickyMoneyness_eq (priceAdjoint_eq smiled adjoint) turned, ?_⟩
  convert delta using 1
  ring

end Deltas

end Smile

/-- The deltas of the sticky rules are derivatives by the forward. Take a positive forward, strike
and expiry and strictly increasing nodes. On a smile on the strike, with the strike strictly
between two consecutive nodes and a positive volatility there, the delta of the sticky-strike
gradient is the derivative of the price with the smile fixed; the sticky simple-moneyness delta is
the derivative with the nodes shifted by the forward's move; and the sticky log-moneyness delta the
derivative with the nodes scaled by the forward's ratio. On a smile on the moneyness, with `F - K`
strictly between two consecutive nodes and a positive volatility there, the sticky
simple-moneyness delta is the derivative with the smile fixed. -/
theorem sticky_deltas_are_derivatives (isCall : Bool) (o : SmileOption ℝ) (forward : 0 < o.forward)
    (strike : 0 < o.strike) (expiry : 0 < o.expiry) {nodes vols : List ℝ}
    (sorted : nodes.SortedLT) (lengths : vols.length = nodes.length) :
    (∀ a b, [a, b] <:+: nodes → a < o.strike → o.strike < b → ∀ σ,
      (⟨.strike, nodes, vols⟩ : Smile ℝ).volatility o.strike o.forward = .ok σ → 0 < σ →
        (∃ value bar, (⟨.strike, nodes, vols⟩ : Smile ℝ).priceAdjoint .checked isCall o =
            .ok (value, bar) ∧
          Smile.HasForwardDerivative (fun _ => ⟨.strike, nodes, vols⟩) isCall o bar.forward) ∧
        (∃ value bar, (⟨.strike, nodes, vols⟩ : Smile ℝ).priceStickyMoneyness .checked isCall o =
            .ok (value, bar) ∧
          Smile.HasForwardDerivative (fun F => ⟨.strike, nodes.map (· + (F - o.forward)), vols⟩)
            isCall o bar.forward) ∧
        (∃ value bar, (⟨.strike, nodes, vols⟩ : Smile ℝ).priceStickyLogMoneyness .checked isCall o =
            .ok (value, bar) ∧
          Smile.HasForwardDerivative (fun F => ⟨.strike, nodes.map (· * F / o.forward), vols⟩)
            isCall o bar.forward)) ∧
    (∀ a b, [a, b] <:+: nodes → a < o.forward - o.strike → o.forward - o.strike < b → ∀ σ,
      (⟨.simpleMoneyness, nodes, vols⟩ : Smile ℝ).volatility o.strike o.forward = .ok σ → 0 < σ →
        ∃ value bar,
          (⟨.simpleMoneyness, nodes, vols⟩ : Smile ℝ).priceStickyMoneyness .checked isCall o =
            .ok (value, bar) ∧
          Smile.HasForwardDerivative (fun _ => ⟨.simpleMoneyness, nodes, vols⟩) isCall o
            bar.forward) := by
  refine ⟨fun a b between above below σ smiled positive => ⟨?_, ?_, ?_⟩,
    fun a b between above below σ smiled positive => ?_⟩
  · exact Smile.stickyStrike_delta isCall sorted lengths between forward strike expiry above below
      smiled positive
  · exact Smile.stickyMoneyness_delta isCall sorted lengths between forward strike expiry above
      below smiled positive
  · exact Smile.stickyLogMoneyness_delta isCall sorted lengths between forward strike expiry above
      below smiled positive
  · exact Smile.moneynessSmile_delta isCall sorted lengths between forward strike expiry above
      below smiled positive

theorem sticky_deltas_are_derivatives_at_the_money :
    let o : SmileOption ℝ := ⟨1, 1, 1, 1⟩
    let nodes : List ℝ := [-1, 2]
    let vols : List ℝ := [1 / 5, 1 / 4]
    (0 < o.forward ∧ 0 < o.strike ∧ 0 < o.expiry ∧ nodes.SortedLT ∧
      vols.length = nodes.length) ∧
    ([-1, 2] <:+: nodes ∧ -1 < o.strike ∧ o.strike < 2 ∧ -1 < o.forward - o.strike ∧
      o.forward - o.strike < 2) ∧
    (⟨.strike, nodes, vols⟩ : Smile ℝ).volatility o.strike o.forward = .ok (7 / 30) ∧
    (⟨.simpleMoneyness, nodes, vols⟩ : Smile ℝ).volatility o.strike o.forward = .ok (13 / 60) ∧
    (∃ value bar, (⟨.strike, nodes, vols⟩ : Smile ℝ).priceAdjoint .checked true o =
        .ok (value, bar) ∧
      Smile.HasForwardDerivative (fun _ => ⟨.strike, nodes, vols⟩) true o bar.forward) ∧
    (∃ value bar, (⟨.strike, nodes, vols⟩ : Smile ℝ).priceStickyMoneyness .checked true o =
        .ok (value, bar) ∧
      Smile.HasForwardDerivative (fun F => ⟨.strike, nodes.map (· + (F - o.forward)), vols⟩)
        true o bar.forward) ∧
    (∃ value bar, (⟨.strike, nodes, vols⟩ : Smile ℝ).priceStickyLogMoneyness .checked true o =
        .ok (value, bar) ∧
      Smile.HasForwardDerivative (fun F => ⟨.strike, nodes.map (· * F / o.forward), vols⟩)
        true o bar.forward) ∧
    (∃ value bar,
      (⟨.simpleMoneyness, nodes, vols⟩ : Smile ℝ).priceStickyMoneyness .checked true o =
        .ok (value, bar) ∧
      Smile.HasForwardDerivative (fun _ => ⟨.simpleMoneyness, nodes, vols⟩) true o
        bar.forward) := by
  intro o nodes vols
  have sorted : nodes.SortedLT := List.sortedLT_iff_pairwise.2 (by norm_num [nodes])
  have lengths : vols.length = nodes.length := rfl
  have one : (0 : ℝ) < 1 := one_pos
  have inside : ([-1, 2] <:+: nodes ∧ -1 < o.strike ∧ o.strike < 2 ∧ -1 < o.forward - o.strike ∧
      o.forward - o.strike < 2) := ⟨List.infix_refl _, by norm_num [o]⟩
  -- both abscissas fall on the one segment
  have volatility (y : ℝ) (above : -1 < y) (below : y < 2) :
      Interpolation.interpolate .ieee y nodes vols = .ok (1 / 5 + (y + 1) * (1 / 60)) := by
    rw [Interpolation.interpolate_eq .ieee one_pos (by simp [nodes]) lengths
      (Interpolation.upperIndex_of_inside sorted one_pos (by simp [nodes]) (by simpa [nodes])
        (by simpa [nodes])) (show (-1 : ℝ) < 2 by norm_num)]
    norm_num [nodes, vols, List.getElem_cons]
  have strike_vol : (⟨.strike, nodes, vols⟩ : Smile ℝ).volatility o.strike o.forward =
      .ok (7 / 30) := by
    rw [show (⟨.strike, nodes, vols⟩ : Smile ℝ).volatility o.strike o.forward =
      Interpolation.interpolate .ieee 1 nodes vols from rfl, volatility 1 (by norm_num) (by norm_num)]
    norm_num
  have moneyness_vol : (⟨.simpleMoneyness, nodes, vols⟩ : Smile ℝ).volatility o.strike o.forward =
      .ok (13 / 60) := by
    rw [show (⟨.simpleMoneyness, nodes, vols⟩ : Smile ℝ).volatility o.strike o.forward =
      Interpolation.interpolate .ieee (1 - 1) nodes vols from rfl, sub_self,
      volatility 0 (by norm_num) (by norm_num)]
    norm_num
  obtain ⟨strike_smile, moneyness_smile⟩ :=
    sticky_deltas_are_derivatives true o one one one sorted lengths
  obtain ⟨between, above, below, above', below'⟩ := inside
  obtain ⟨sticky, shifted, scaled⟩ :=
    strike_smile (-1) 2 between above below _ strike_vol (by norm_num)
  exact ⟨⟨one, one, one, sorted, lengths⟩, ⟨between, above, below, above', below'⟩, strike_vol,
    moneyness_vol, sticky, shifted, scaled,
    moneyness_smile (-1) 2 between above' below' _ moneyness_vol (by norm_num)⟩

end AdjointDiff
