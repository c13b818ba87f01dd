import AdjointDiff.Proofs.Smile.Interpolation
import AdjointDiff.Proofs.Pricing.BlackMethods

set_option autoImplicit false

namespace AdjointDiff

open Recorder StraightLine

def smileGradient (pb : BlackQuote ℝ) (w : List ℝ) (slope : ℝ) : List ℝ :=
  [pb.forward, pb.numeraire, pb.strike + pb.volatility * slope, pb.expiry] ++
    w.map (pb.volatility * ·)

theorem sum_zipWith_map_mul (c : ℝ) (w v : List ℝ) :
    (List.zipWith (· * ·) (w.map (c * ·)) v).sum = c * (List.zipWith (· * ·) w v).sum := by
  induction w generalizing v with
  | nil => simp
  | cons a w ih =>
    cases v with
    | nil => simp
    | cons b v =>
      simp only [List.map_cons, List.zipWith_cons_cons, List.sum_cons, ih]
      ring

namespace Smile

section Recorded

variable {t : Tape ℝ} {r n : Nat}

theorem yields_recorded (isCall : Bool) (clean : t.Clean)
    {h : SmileOption (Var ℝ)} {d : SmileOption (ℝ × ℝ)} {hvs : List (Var ℝ)} {dvs : List (ℝ × ℝ)}
    (tracked : List.Forall₂ (Tracks t r) h.toList d.toList) {nodes : List ℝ}
    (handles : nodes.length = hvs.length) {σ slope : ℝ} {w : List ℝ}
    (volatility : Yields r n (Interpolation.recorded .ieee h.strike nodes hvs) t
      (σ, slope * d.strike.2 + (List.zipWith (· * ·) w (dvs.map Prod.snd)).sum))
    (forward : 0 < d.forward.1) (strike : 0 < d.strike.1) (expiry : 0 < d.expiry.1)
    (positive : 0 < σ) {value : ℝ} {pb : BlackQuote ℝ}
    (black : Black.priceAdjointOptimized .checked isCall
      ⟨d.forward.1, σ, d.numeraire.1, d.strike.1, d.expiry.1⟩ = .ok (value, pb)) :
    Yields r n (recorded nodes isCall h hvs) t
      (value, (List.zipWith (· * ·) (smileGradient pb w slope) ((d.toList ++ dvs).map Prod.snd)).sum) := by
  simp only [SmileOption.toList, List.forall₂_cons] at tracked
  obtain ⟨tracks_forward, tracks_numeraire, tracks_strike, tracks_expiry, -⟩ := tracked
  simp only [recorded, handles, ne_eq, not_true_eq_false, if_false]
  refine volatility.bind fun vol u clean' count' ext tracks_vol _ => ?_
  have quote : List.Forall₂ (Tracks u r) (h.black vol).toList
      (BlackQuote.toList ⟨d.forward, (σ, slope * d.strike.2 +
        (List.zipWith (· * ·) w (dvs.map Prod.snd)).sum), d.numeraire, d.strike, d.expiry⟩) := by
    simp only [SmileOption.black, BlackQuote.toList, List.forall₂_cons]
    exact ⟨tracks_forward.mono ext clean.topological, tracks_vol,
      tracks_numeraire.mono ext clean.topological, tracks_strike.mono ext clean.topological,
      tracks_expiry.mono ext clean.topological, .nil⟩
  refine (Black.yields_recorded isCall clean' count' quote forward strike expiry positive.ne'
    black).of_eq ?_
  -- the Black gradient weighs the volatility's rate, which chains into the strike and the smile
  simp only [smileGradient, SmileOption.toList, BlackQuote.toList, BlackQuote.map,
    List.map_cons, List.cons_append, List.nil_append, List.zipWith_cons_cons,
    List.sum_cons, List.zipWith_nil_left, List.sum_nil, sum_zipWith_map_mul, Prod.mk.injEq, true_and]
  ring

end Recorded

end Smile

namespace SmileMethod

theorem recorded_evaluate (isCall : Bool) (o : SmileOption ℝ) {s : Smile ℝ}
    (sorted : s.nodes.SortedLT) (two : 2 ≤ s.nodes.length)
    (lengths : s.volatilities.length = s.nodes.length) (low : s.nodes[0] ≤ o.strike)
    (high : o.strike ≤ s.nodes[s.nodes.length - 1]) (forward : 0 < o.forward)
    (strike : 0 < o.strike) (expiry : 0 < o.expiry) {σ value slope : ℝ} {pb : BlackQuote ℝ}
    {w : List ℝ} (positive : 0 < σ)
    (adjoint : Interpolation.interpolateAdjoint .ieee o.strike s.nodes s.volatilities = .ok (σ, w))
    (derivative : Interpolation.derivativeX .ieee o.strike s.nodes s.volatilities = .ok slope)
    (black : Black.priceAdjointOptimized .checked isCall (o.black σ) = .ok (value, pb))
    (weights : w.length = s.volatilities.length) (axis : SmileAxis) :
    ∃ summary, recorded.evaluate axis s.nodes s.volatilities isCall o =
      .ok (.onTape value (smileGradient pb w slope) summary) := by
  obtain ⟨_, nodes, vols⟩ := s
  have declared : (do Smile.recorded nodes isCall (← o.mapM Record.input) (← Record.inputs vols)) =
      Record.inputs (o.toList ++ vols) >>= fun hs => Smile.recorded nodes isCall
        ⟨hs.getD 0 ⟨0, 0⟩, hs.getD 1 ⟨0, 0⟩, hs.getD 2 ⟨0, 0⟩, hs.getD 3 ⟨0, 0⟩⟩ (hs.drop 4) := by
    simp [Record.inputs, SmileOption.mapM, SmileOption.toList, List.mapM_cons]
  simp only [evaluate, declared]
  refine StraightLine.ofRecording_inputs (o.toList ++ vols)
    (by simp [smileGradient, SmileOption.toList, weights])
    fun {t r n hs ds} clean count tracked firsts => ?_
  -- the first four handles track the option's inputs, the others the volatilities
  obtain ⟨F, N, K, T⟩ := o
  rcases tracked with _ | ⟨tF, _ | ⟨tN, _ | ⟨tK, _ | ⟨tT, tracked⟩⟩⟩⟩ <;>
    simp only [SmileOption.toList, List.cons_append, List.map_cons, List.map_nil,
      List.cons.injEq, reduceCtorEq, and_false] at firsts
  obtain ⟨rfl, rfl, rfl, rfl, rfl⟩ := firsts
  -- the recorded interpolation moves at the slope and weights the plain functions answer
  obtain ⟨v, w', slope', -, adjoint', derivative', volatility⟩ :=
    Interpolation.yields_recorded .ieee clean count tK tracked sorted two (by simpa using lengths)
      low high
  rw [adjoint, Except.ok.injEq, Prod.mk.injEq] at adjoint'
  rw [derivative, Except.ok.injEq] at derivative'
  obtain ⟨rfl, rfl⟩ := adjoint'
  subst derivative'
  -- the handles and rates are named as options, so that unifying them never opens the recording
  exact Smile.yields_recorded isCall clean (h := ⟨_, _, _, _⟩) (d := ⟨_, _, _, _⟩)
    (.cons tF (.cons tN (.cons tK (.cons tT .nil))))
    (by simpa [tracked.length_eq] using lengths.symm) volatility forward strike expiry positive black

end SmileMethod

/-- The recorded smile price chains the sticky-strike gradient through the interpolation. Take a
smile on the strike over strictly increasing nodes, a strike within the nodes, a positive forward,
strike and expiry, and a positive volatility at the strike. Recorded on a fresh tape after the
forward, numeraire, strike, expiry and volatilities as inputs, the price answers the sticky-strike
price, and as its gradient the sticky-strike gradient `pb` for the forward, numeraire and expiry,
`pb[K] + pb[σ]·∂σ/∂K` for the strike, and `pb[σ]·w_j` for the `j`-th volatility, `w` being the
volatility's sensitivity to the smile. -/
theorem smile_recording_gradient (isCall : Bool) (o : SmileOption ℝ) {s : Smile ℝ}
    (axis : s.axis = .strike) (sorted : s.nodes.SortedLT) (two : 2 ≤ s.nodes.length)
    (lengths : s.volatilities.length = s.nodes.length) (low : s.nodes[0] ≤ o.strike)
    (high : o.strike ≤ s.nodes[s.nodes.length - 1]) (forward : 0 < o.forward)
    (strike : 0 < o.strike) (expiry : 0 < o.expiry) {σ : ℝ}
    (smiled : s.volatility o.strike o.forward = .ok σ) (positive : 0 < σ) :
    ∃ value pb w slope summary,
      s.priceAdjoint .checked isCall o = .ok (value, pb) ∧
      s.volatilitySensitivity o.strike o.forward = .ok (σ, w) ∧
      s.derivativeStrike o.strike o.forward = .ok slope ∧
      SmileMethod.recorded.evaluate s.axis s.nodes s.volatilities isCall o =
        .ok (.onTape value ([pb.forward, pb.numeraire, pb.strike + pb.volatility * slope,
          pb.expiry] ++ w.map (pb.volatility * ·)) summary) := by
  obtain ⟨v, w, slope, interpolated, adjoint, derivative, weights⟩ :=
    Interpolation.answers .ieee sorted two lengths low high
  simp only [Smile.volatility, Smile.abscissa, axis] at smiled
  rw [smiled, Except.ok.injEq] at interpolated
  subst interpolated
  obtain ⟨value, pb, black⟩ := Black.priceAdjointOptimized_ok isCall (o.black σ) strike.ne'
  obtain ⟨summary, evaluated⟩ := SmileMethod.recorded_evaluate isCall o sorted two lengths low high
    forward strike expiry positive adjoint derivative black weights s.axis
  refine ⟨value, pb, w, slope, summary, ?_, ?_, ?_, evaluated⟩
  · simp [Smile.priceAdjoint, Smile.volatility, Smile.abscissa, axis, smiled, black, bind,
      Except.bind]
  · simp [Smile.volatilitySensitivity, Smile.abscissa, axis, adjoint]
  · simp [Smile.derivativeStrike, axis, derivative]

theorem smile_recording_gradient_at_the_money :
    let s : Smile ℝ := ⟨.strike, [1 / 2, 1, 3 / 2], [1 / 5, 1 / 4, 1 / 5]⟩
    let o : SmileOption ℝ := ⟨1, 1, 1, 1⟩
    (s.axis = .strike ∧ s.nodes.SortedLT ∧ 2 ≤ s.nodes.length ∧
      s.volatilities.length = s.nodes.length ∧ s.nodes[0] ≤ o.strike ∧
      o.strike ≤ s.nodes[s.nodes.length - 1] ∧ 0 < o.forward ∧ 0 < o.strike ∧ 0 < o.expiry ∧
      s.volatility o.strike o.forward = .ok (1 / 4) ∧ (0 : ℝ) < 1 / 4) ∧
    ∃ value pb w slope summary,
      s.priceAdjoint .checked true o = .ok (value, pb) ∧
      s.volatilitySensitivity o.strike o.forward = .ok (1 / 4, w) ∧
      s.derivativeStrike o.strike o.forward = .ok slope ∧
      SmileMethod.recorded.evaluate s.axis s.nodes s.volatilities true o =
        .ok (.onTape value ([pb.forward, pb.numeraire, pb.strike + pb.volatility * slope,
          pb.expiry] ++ w.map (pb.volatility * ·)) summary) := by
  intro s o
  have sorted : s.nodes.SortedLT := List.sortedLT_iff_pairwise.2 (by norm_num [s])
  have lengths : s.volatilities.length = s.nodes.length := rfl
  have low : s.nodes[0] ≤ o.strike := by norm_num [s, o]
  have high : o.strike ≤ s.nodes[s.nodes.length - 1] := by norm_num [s, o]
  have one : (0 : ℝ) < 1 := one_pos
  have smiled : s.volatility o.strike o.forward = .ok (1 / 4) := by
    have node := Interpolation.interpolate_node .ieee sorted (by decide) lengths (j := 1) (by decide)
    simpa [Smile.volatility, Smile.abscissa, s, o] using node
  exact ⟨⟨rfl, sorted, by decide, lengths, low, high, one, one, one, smiled, by norm_num⟩,
    smile_recording_gradient true o rfl sorted (by decide) lengths low high one one one smiled
      (by norm_num)⟩

end AdjointDiff
