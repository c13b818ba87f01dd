import AdjointDiff.Proofs.Real.Splice
import AdjointDiff.Proofs.Pricing.BlackMethods
import AdjointDiff.Proofs.Pricing.VolatilityAdjoint

set_option autoImplicit false

namespace AdjointDiff

open Recorder StraightLine

theorem BlackQuote.toList_mapM {m : Type → Type} [Monad m] [LawfulMonad m] {α β : Type}
    (g : α → m β) (q : BlackQuote α) : BlackQuote.toList <$> q.mapM g = q.toList.mapM g := by
  simp [BlackQuote.mapM, BlackQuote.toList, List.mapM_cons]

@[simp] theorem SabrOption.ofList?_toList {α : Type} (o : SabrOption α) :
    SabrOption.ofList? o.toList = some o := rfl

theorem SabrOption.ofList?_eq_some {α : Type} {xs : List α} (length : xs.length = 8) :
    ∃ o, SabrOption.ofList? xs = some o ∧ o.toList = xs := by
  match xs, length with
  | [_, _, _, _, _, _, _, _], _ => exact ⟨_, rfl, rfl⟩

namespace Sabr

theorem volatility_eq_of_volatilityAdjoint {α : Type} [Scalar α] {ar : Arith} {q : SabrQuote α}
    {p : α × SabrQuote α} (adjoint : volatilityAdjoint ar q = .ok p) :
    volatility ar q = .ok p.1 := by
  simp only [volatilityAdjoint, volatility] at adjoint ⊢
  cases swept : sweep ar q with
  | error f => simp [swept, bind, Except.bind] at adjoint
  | ok s =>
    simp only [swept, bind, Except.bind] at adjoint ⊢
    -- each checked step of the backward sweep either refuses or passes the swept value on
    repeat' split at adjoint
    all_goals cases adjoint <;> rfl

theorem sum_chain_mul (priceBar : BlackQuote ℝ) (volBar : SabrQuote ℝ) (d : SabrOption ℝ) :
    (List.zipWith (· * ·) (chain priceBar volBar).toList d.toList).sum =
      (List.zipWith (· * ·) priceBar.toList
        (d.black (List.zipWith (· * ·) volBar.toList d.quote.toList).sum).toList).sum := by
  simp only [chain, SabrOption.toList, BlackQuote.toList, SabrQuote.toList, SabrOption.black,
    SabrOption.quote, List.zipWith_cons_cons, List.zipWith_nil_right, List.sum_cons, List.sum_nil,
    Scalar.zero_real]
  ring

section Recorded

variable {t : Tape ℝ} {r n : Nat} {o' : SabrOption (Var ℝ)} {o d : SabrOption ℝ}

theorem tracked_quote (tracked : List.Forall₂ (Tracks t r) o'.toList (List.zip o.toList d.toList)) :
    List.Forall₂ (Tracks t r) o'.quote.toList (List.zip o.quote.toList d.quote.toList) := by
  simp only [SabrOption.toList, SabrOption.quote, SabrQuote.toList, List.zip_cons_cons,
    List.zip_nil_right, List.forall₂_cons] at tracked ⊢
  obtain ⟨forward, alpha, beta, rho, nu, -, strike, expiry, -⟩ := tracked
  exact ⟨forward, alpha, beta, rho, nu, strike, expiry, .nil⟩

theorem tracked_black (tracked : List.Forall₂ (Tracks t r) o'.toList (List.zip o.toList d.toList))
    {u : Tape ℝ} (ext : u.Extends t) (topo : t.Topological) {w : Var ℝ} {vol rate : ℝ}
    (tracks : Tracks u r w (vol, rate)) :
    List.Forall₂ (Tracks u r) (o'.black w).toList
      (BlackQuote.toList ⟨(o.forward, d.forward), (vol, rate), (o.numeraire, d.numeraire),
        (o.strike, d.strike), (o.expiry, d.expiry)⟩) := by
  simp only [SabrOption.toList, SabrOption.black, BlackQuote.toList, List.zip_cons_cons,
    List.zip_nil_right, List.forall₂_cons] at tracked ⊢
  obtain ⟨forward, -, -, -, -, numeraire, strike, expiry, -⟩ := tracked
  exact ⟨forward.mono ext topo, tracks, numeraire.mono ext topo, strike.mono ext topo,
    expiry.mono ext topo, .nil⟩

theorem yields_black_of_volatility (isCall : Bool) (clean : t.Clean)
    (tracked : List.Forall₂ (Tracks t r) o'.toList (List.zip o.toList d.toList))
    (forward : 0 < o.forward) (strike : 0 < o.strike) (expiry : 0 < o.expiry) {vol : ℝ}
    {volBar : SabrQuote ℝ} (nonzero : vol ≠ 0) {m : Recorder ℝ (Var ℝ)}
    (volatility : Yields r n m t (vol, (List.zipWith (· * ·) volBar.toList d.quote.toList).sum))
    {value : ℝ} {priceBar : BlackQuote ℝ}
    (adjoint : Black.priceAdjointOptimized .checked isCall (o.black vol) = .ok (value, priceBar)) :
    Yields r n (m >>= fun w => Black.recorded isCall (o'.black w)) t
      (value, (List.zipWith (· * ·) (chain priceBar volBar).toList d.toList).sum) := by
  refine volatility.bind fun w u clean' count' ext tracks _ => ?_
  have price := Black.yields_recorded isCall clean' count'
    (tracked_black tracked ext clean.topological tracks) forward strike expiry nonzero adjoint
  rw [sum_chain_mul]
  exact price

theorem yields_priceRecorded (isCall : Bool) (clean : t.Clean) (count : t.inputRank t.size = n)
    (tracked : List.Forall₂ (Tracks t r) o'.toList (List.zip o.toList d.toList))
    (forward : 0 < o.forward) (strike : 0 < o.strike) (alpha : 0 < o.alpha)
    (rho_gt : -1 < o.rho) (rho_lt : o.rho < 1) (expiry : 0 < o.expiry) {vol : ℝ}
    {volBar : SabrQuote ℝ} (volAdjoint : volatilityAdjoint .checked o.quote = .ok (vol, volBar))
    (nonzero : vol ≠ 0) {value : ℝ} {priceBar : BlackQuote ℝ}
    (priceAdjoint : Black.priceAdjointOptimized .checked isCall (o.black vol) = .ok (value, priceBar)) :
    Yields r n (priceRecorded isCall o') t
      (value, (List.zipWith (· * ·) (chain priceBar volBar).toList d.toList).sum) :=
  yields_black_of_volatility isCall clean tracked forward strike expiry nonzero
    (yields_recorded clean count (tracked_quote tracked) forward strike alpha rho_gt rho_lt
      volAdjoint) priceAdjoint

theorem yields_hybrid (clean : t.Clean) (count : t.inputRank t.size = n) {q : SabrQuote (Var ℝ)}
    {v dv : SabrQuote ℝ} (tracked : List.Forall₂ (Tracks t r) q.toList (List.zip v.toList dv.toList))
    {vol : ℝ} {bar : SabrQuote ℝ} (adjoint : volatilityAdjoint .checked v = .ok (vol, bar)) :
    Yields r n (hybrid q) t (vol, (List.zipWith (· * ·) bar.toList dv.toList).sum) := by
  have values : q.map (·.value) = v := by
    obtain ⟨_, _, _, _, _, _, _⟩ := q
    obtain ⟨_, _, _, _, _, _, _⟩ := v
    simp only [SabrQuote.toList, List.zip_cons_cons, List.zip_nil_right,
      List.forall₂_cons] at tracked
    obtain ⟨f, a, b, r, n, k, e, -⟩ := tracked
    simp [SabrQuote.map, f.2.1, a.2.1, b.2.1, r.2.1, n.2.1, k.2.1, e.2.1]
  have rates : (List.zip v.toList dv.toList).map Prod.snd = dv.toList :=
    List.map_snd_zip (by simp [SabrQuote.toList])
  simp only [hybrid, values]
  refine Yields.of_run_bind (b := (vol, bar)) (by rw [run_lift, adjoint]) (Tape.Extends.refl t) ?_
  have chained := yields_manualChain clean count tracked bar.toList (by simp [SabrQuote.toList])
    (by simp [SabrQuote.toList]) vol
  rwa [rates] at chained

theorem yields_priceMixedVolatility (isCall : Bool) (clean : t.Clean)
    (count : t.inputRank t.size = n)
    (tracked : List.Forall₂ (Tracks t r) o'.toList (List.zip o.toList d.toList))
    (forward : 0 < o.forward) (strike : 0 < o.strike) (expiry : 0 < o.expiry) {vol : ℝ}
    {volBar : SabrQuote ℝ} (volAdjoint : volatilityAdjoint .checked o.quote = .ok (vol, volBar))
    (nonzero : vol ≠ 0) {value : ℝ} {priceBar : BlackQuote ℝ}
    (priceAdjoint : Black.priceAdjointOptimized .checked isCall (o.black vol) = .ok (value, priceBar)) :
    Yields r n (priceMixedVolatility isCall o') t
      (value, (List.zipWith (· * ·) (chain priceBar volBar).toList d.toList).sum) :=
  yields_black_of_volatility isCall clean tracked forward strike expiry nonzero
    (yields_hybrid clean count (tracked_quote tracked) volAdjoint) priceAdjoint

theorem yields_priceMixedBlack (isCall : Bool) (clean : t.Clean) (count : t.inputRank t.size = n)
    (tracked : List.Forall₂ (Tracks t r) o'.toList (List.zip o.toList d.toList))
    (forward : 0 < o.forward) (strike : 0 < o.strike) (alpha : 0 < o.alpha)
    (rho_gt : -1 < o.rho) (rho_lt : o.rho < 1) {vol : ℝ}
    {volBar : SabrQuote ℝ} (volAdjoint : volatilityAdjoint .checked o.quote = .ok (vol, volBar))
    {value : ℝ} {priceBar : BlackQuote ℝ}
    (priceAdjoint : Black.priceAdjointOptimized .checked isCall (o.black vol) = .ok (value, priceBar)) :
    Yields r n (priceMixedBlack isCall o') t
      (value, (List.zipWith (· * ·) (chain priceBar volBar).toList d.toList).sum) := by
  refine (yields_recorded clean count (tracked_quote tracked) forward strike alpha rho_gt rho_lt
    volAdjoint).bind fun w u clean' count' ext tracks _ => ?_
  have black := tracked_black tracked ext clean.topological tracks
  -- the splice reads the plain values of the Black inputs
  have values : (o'.black w).map (·.value) = o.black vol := by
    simp only [SabrOption.toList, List.zip_cons_cons, List.zip_nil_right,
      List.forall₂_cons] at tracked
    obtain ⟨f, -, -, -, -, n, k, e, -⟩ := tracked
    simp [SabrOption.black, BlackQuote.map, f.2.1, n.2.1, k.2.1, e.2.1, tracks.2.1]
  simp only [values, priceAdjoint]
  refine Yields.of_run_bind (run_lift _ u) (Tape.Extends.refl u) ?_
  have chained := yields_manualChain clean' count' black priceBar.toList
    (by simp [BlackQuote.toList]) (by simp [SabrOption.black, BlackQuote.toList]) value
  rw [sum_chain_mul]
  simpa [BlackQuote.toList, SabrOption.black] using chained

end Recorded

theorem blackOnTape_eq_priceAdjointOptimized (isCall : Bool) (q : BlackQuote ℝ)
    (forward : 0 < q.forward) (strike : 0 < q.strike) (expiry : 0 < q.expiry)
    (volatility : q.volatility ≠ 0) :
    blackOnTape isCall q = Black.priceAdjointOptimized .checked isCall q := by
  obtain ⟨value, bar, adjoint⟩ := Black.priceAdjointOptimized_ok isCall q strike.ne'
  -- declare the five inputs: the list of handles is the quote of handles
  obtain ⟨hs, u, ran, clean, -, count, declared⟩ := run_inputs Tape.clean_empty q.toList
  rw [Record.inputs, ← BlackQuote.toList_mapM, ← bind_pure_comp, run_bind] at ran
  obtain ⟨hq, declared_ran, rfl⟩ : ∃ hq, run (q.mapM Record.input) Tape.empty = (.ok hq, u) ∧
      hq.toList = hs := by
    rcases outcome : run (q.mapM Record.input) Tape.empty with ⟨_ | hq, u'⟩
    · simp [outcome] at ran
    · simp only [outcome, run_pure, Prod.mk.injEq, Except.ok.injEq] at ran
      exact ⟨hq, by rw [ran.2], ran.1⟩
  obtain ⟨F, σ, N, K, T⟩ := q
  obtain ⟨hF, hσ, hN, hK, hT⟩ := hq
  simp only [BlackQuote.toList, Tape.inputRank_empty, List.zipIdx_cons, List.zipIdx_nil,
    List.forall₂_cons, zero_add, Nat.reduceAdd] at declared
  obtain ⟨dF, dσ, dN, dK, dT, -⟩ := declared
  -- moving with input `i`, the handles move at unit rates
  let unit (i : Nat) : BlackQuote (ℝ × ℝ) := ⟨(F, if 0 = i then 1 else 0),
    (σ, if 1 = i then 1 else 0), (N, if 2 = i then 1 else 0), (K, if 3 = i then 1 else 0),
    (T, if 4 = i then 1 else 0)⟩
  have five : u.inputRank u.size = 5 := by simpa [BlackQuote.toList] using count
  have yields (i : Nat) := Black.yields_recorded isCall (r := i) (q := ⟨hF, hσ, hN, hK, hT⟩)
    (d := unit i) clean five
    (by simp only [BlackQuote.toList, List.forall₂_cons]
        exact ⟨dF.tracks i, dσ.tracks i, dN.tracks i, dK.tracks i, dT.tracks i, .nil⟩)
    forward strike expiry volatility adjoint
  obtain ⟨p, u', ran', clean', -, ext, tracks, last⟩ := yields 0
  have within : p.index.toNat < u'.size := by omega
  -- the adjoint of input `i` is the price's rate with input `i`, which the gradient gives
  have rate (i : Nat) : u'.tangent i p.index.toNat =
      (List.zipWith (· * ·) bar.toList ((unit i).map Prod.snd).toList).sum :=
    ((yields i).tracks_of_run ran').2.2
  simp only [blackOnTape]
  rw [run_bind_of_ok declared_ran, run_bind_of_ok ran',
    run_bind_of_ok (Tape.run_interpret_none clean' (by omega)), run_seq_get, run_pure, adjoint]
  simp only [← last, Nat.add_sub_cancel, BlackQuote.map, adjointOf_swept clean' within (dF.mono ext),
    adjointOf_swept clean' within (dσ.mono ext), adjointOf_swept clean' within (dN.mono ext),
    adjointOf_swept clean' within (dK.mono ext), adjointOf_swept clean' within (dT.mono ext), rate,
    tracks.2.1]
  simp [unit, BlackQuote.toList]

theorem ofRecording_declared {price : List (Var ℝ) → Recorder ℝ (Var ℝ)} (o : SabrOption ℝ)
    {value : ℝ} {g : SabrOption ℝ}
    (yields : ∀ {t : Tape ℝ} {r n : Nat} (o' : SabrOption (Var ℝ)) (d : SabrOption ℝ), t.Clean →
      t.inputRank t.size = n → List.Forall₂ (Tracks t r) o'.toList (List.zip o.toList d.toList) →
      Yields r n (price o'.toList) t (value, (List.zipWith (· * ·) g.toList d.toList).sum)) :
    ∃ summary, Evaluation.ofRecording (Record.inputs o.toList >>= price) =
      .ok (.onTape value g.toList summary) := by
  refine ofRecording_inputs o.toList rfl fun {t r n hs ds} clean count tracked values => ?_
  have eight : ds.length = 8 := by rw [← List.length_map, values]; rfl
  obtain ⟨o', -, rfl⟩ := SabrOption.ofList?_eq_some (tracked.length_eq.trans eight)
  obtain ⟨d, -, rates⟩ := SabrOption.ofList?_eq_some
    (by rwa [List.length_map] : (ds.map Prod.snd).length = 8)
  -- the handles track the values of `o`, at the rates `d`
  have split : List.zip o.toList d.toList = ds := by
    rw [← values, rates, ← List.unzip_fst, ← List.unzip_snd, List.zip_unzip]
  rw [← rates]
  exact yields o' d clean count (split ▸ tracked)

/-- The methods of the SABR option price agree: the plain price, the hand-written adjoint, and
the methods that mix or record its two layers answer one price and one gradient by the eight
inputs. Those that record declare the eight inputs on a fresh tape, sweep back from the price and
read the gradient off the inputs. -/
theorem price_methods_agree (isCall : Bool) (o : SabrOption ℝ) (forward : 0 < o.forward)
    (strike : 0 < o.strike) (alpha : 0 < o.alpha) (rho_gt : -1 < o.rho) (rho_lt : o.rho < 1)
    (expiry : 0 < o.expiry) (volatility : Sabr.volatility .checked o.quote ≠ .ok 0) :
    ∃ value g, g.length = 8 ∧
      SabrPriceMethod.price.evaluate isCall o.toList = .ok (.value value) ∧
      SabrPriceMethod.adjoint.evaluate isCall o.toList = .ok (.withGradient value g) ∧
      SabrPriceMethod.mixedTape.evaluate isCall o.toList = .ok (.withGradient value g) ∧
      ∀ m : SabrPriceMethod, m.onTape →
        ∃ summary, m.evaluate isCall o.toList = .ok (.onTape value g summary) := by
  obtain ⟨-, vol, volBar, -, -, volAdjoint⟩ := volatilityAdjoint_ok o.quote strike alpha rho_lt
  have volatility_eq := volatility_eq_of_volatilityAdjoint volAdjoint
  have nonzero : vol ≠ 0 := fun zero => volatility (by rw [volatility_eq, zero])
  obtain ⟨value, priceBar, blackAdjoint⟩ :=
    Black.priceAdjointOptimized_ok isCall (o.black vol) strike.ne'
  have onTape :=
    blackOnTape_eq_priceAdjointOptimized isCall (o.black vol) forward strike expiry nonzero
  refine ⟨value, (chain priceBar volBar).toList, rfl, ?_, ?_, ?_, ?_⟩
  · simp [SabrPriceMethod.evaluate, SabrPriceMethod.onTape, price, volatility_eq,
      Black.price_eq_map_priceAdjointOptimized, blackAdjoint, bind, Except.bind, Functor.map,
      Except.map]
  · simp [SabrPriceMethod.evaluate, SabrPriceMethod.onTape, Sabr.priceAdjoint, volAdjoint,
      blackAdjoint, Evaluation.ofPair, bind, Except.bind, pure, Except.pure, Functor.map,
      Except.map]
  · simp [SabrPriceMethod.evaluate, SabrPriceMethod.onTape, priceMixedTape, volAdjoint, onTape,
      blackAdjoint, Evaluation.ofPair, bind, Except.bind, pure, Except.pure, Functor.map,
      Except.map]
  · intro m records
    cases m with
    | recorded =>
      simp only [SabrPriceMethod.evaluate, SabrPriceMethod.onTape, if_true]
      exact ofRecording_declared o fun o' d clean count tracked => by
        simpa using yields_priceRecorded isCall clean count tracked forward strike alpha rho_gt
          rho_lt expiry volAdjoint nonzero blackAdjoint
    | mixedBlack =>
      simp only [SabrPriceMethod.evaluate, SabrPriceMethod.onTape, if_true]
      exact ofRecording_declared o fun o' d clean count tracked => by
        simpa using yields_priceMixedBlack isCall clean count tracked forward strike alpha rho_gt
          rho_lt volAdjoint blackAdjoint
    | mixedVolatility =>
      simp only [SabrPriceMethod.evaluate, SabrPriceMethod.onTape, if_true]
      exact ofRecording_declared o fun o' d clean count tracked => by
        simpa using yields_priceMixedVolatility isCall clean count tracked forward strike expiry
          volAdjoint nonzero blackAdjoint
    | price | adjoint | mixedTape => simp [SabrPriceMethod.onTape] at records

theorem price_methods_agree_at_the_money :
    let o : SabrOption ℝ := ⟨1, 1 / 5, 1 / 2, 0, 1 / 2, 1, 1, 1⟩
    (0 < o.forward ∧ 0 < o.strike ∧ 0 < o.alpha ∧ -1 < o.rho ∧ o.rho < 1 ∧ 0 < o.expiry ∧
      Sabr.volatility .checked o.quote ≠ .ok 0) ∧
    ∃ value g, g.length = 8 ∧
      SabrPriceMethod.price.evaluate true o.toList = .ok (.value value) ∧
      SabrPriceMethod.adjoint.evaluate true o.toList = .ok (.withGradient value g) ∧
      SabrPriceMethod.mixedTape.evaluate true o.toList = .ok (.withGradient value g) ∧
      ∀ m : SabrPriceMethod, m.onTape →
        ∃ summary, m.evaluate true o.toList = .ok (.onTape value g summary) := by
  intro o
  obtain ⟨s, swept, exact⟩ := sweep_exact o.quote (by norm_num [o, SabrOption.quote])
    (by norm_num [o, SabrOption.quote])
  -- at the money `log (F/K) = 0`, so `z = 0` and the expansion branch is taken
  have flat : s.fkBeta = 1 := by simp [exact.fkBeta, o, SabrOption.quote]
  have level : s.logFk = 0 := by simp [exact.logFk, o, SabrOption.quote]
  have zero_z : s.z = 0 := by rw [exact.z, level, mul_zero]
  have small : s.small = true := by
    rw [exact.small, zero_z]
    norm_num [zRange]
  have value : s.value = 1 / 5 * (1 + (1 / 2400 + 1 / 48)) := by
    rw [exact.value, exact.factor1, exact.zxz, small, exact.factor3, exact.factor31,
      exact.factor32, exact.factor33, exact.num1, exact.beta24, exact.beta1920, exact.logFk2,
      exact.beta1, flat, level, zero_z]
    norm_num [o, SabrOption.quote]
  have nonzero : Sabr.volatility .checked o.quote ≠ .ok 0 := by
    norm_num [volatility, swept, value, bind, Except.bind, pure, Except.pure]
  refine ⟨⟨by norm_num [o], by norm_num [o], by norm_num [o], by norm_num [o], by norm_num [o],
    by norm_num [o], nonzero⟩, ?_⟩
  exact price_methods_agree true o (by norm_num [o]) (by norm_num [o]) (by norm_num [o])
    (by norm_num [o]) (by norm_num [o]) (by norm_num [o]) nonzero

end Sabr

end AdjointDiff
