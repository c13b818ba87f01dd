import AdjointDiff.Proofs.Real.Guarded
import AdjointDiff.Proofs.Pricing.VolatilityAdjoint
import AdjointDiff.Proofs.Pricing.AdjointRefusals

set_option autoImplicit false

namespace AdjointDiff

namespace Sabr

variable {α : Type} [Scalar α]

structure Sweep.Computed (q : SabrQuote α) (s : Sweep α) : Prop where
  beta1 : s.beta1 = 1.0 - q.beta
  fkBeta : s.fkBeta = Scalar.pow (q.forward * q.strike) (0.5 * s.beta1)
  logFk : s.logFk = Scalar.log (q.forward / q.strike)
  z : s.z = q.nu / q.alpha * s.fkBeta * s.logFk
  small : s.small = decide (Scalar.abs s.z < zRange)
  sqz : s.sqz = if s.small then 0.0 else Scalar.sqrt (1.0 - 2.0 * q.rho * s.z + s.z * s.z)
  xz : s.xz = if s.small then 0.0 else Scalar.log ((s.sqz + s.z - q.rho) / (1.0 - q.rho))
  zxz : s.zxz = if s.small then 1.0 - 0.5 * s.z * q.rho else s.z / s.xz
  beta24 : s.beta24 = s.beta1 * s.beta1 / 24.0
  beta1920 : s.beta1920 = Scalar.pow s.beta1 (OfScientific.ofScientific 4 false 0) / 1920.0
  logFk2 : s.logFk2 = s.logFk * s.logFk
  num1 : s.num1 = 1.0 + s.beta24 * s.logFk2 + s.beta1920 * s.logFk2 * s.logFk2
  factor1 : s.factor1 = q.alpha / (s.fkBeta * s.num1)
  factor31 : s.factor31 = s.beta24 * q.alpha * q.alpha / (s.fkBeta * s.fkBeta)
  factor32 : s.factor32 = 0.25 * q.rho * q.beta * q.nu * q.alpha / s.fkBeta
  factor33 : s.factor33 = (2.0 - 3.0 * q.rho * q.rho) / 24.0 * q.nu * q.nu
  factor3 : s.factor3 = 1.0 + (s.factor31 + s.factor32 + s.factor33) * q.expiry
  value : s.value = s.factor1 * s.zxz * s.factor3

theorem sweep_computed {ar : Arith} {q : SabrQuote α} {s : Sweep α} (swept : sweep ar q = .ok s) :
    s.Computed q := by
  -- the three checked steps: `F/K`, `ν/α` and `β₁⁴`
  cases quotient : ar.div q.forward q.strike with
  | error f => simp [sweep, quotient, bind, Except.bind] at swept
  | ok m =>
  cases ratio : ar.div q.nu q.alpha with
  | error f => simp [sweep, quotient, ratio, bind, Except.bind] at swept
  | ok r =>
  cases fourth : ar.powNat (1.0 - q.beta) 4 with
  | error f => simp [sweep, quotient, ratio, fourth, bind, Except.bind] at swept
  | ok p =>
  obtain rfl := Arith.eq_div_of_div_eq_ok quotient
  obtain rfl := Arith.eq_div_of_div_eq_ok ratio
  obtain rfl := Arith.eq_pow_of_powNat_eq_ok fourth
  simp only [sweep, quotient, ratio, fourth, bind, Except.bind, pure, Except.pure,
    Except.ok.injEq] at swept
  subst swept
  constructor <;> rfl

def Sweep.map {β : Type} (g : α → β) (s : Sweep α) : Sweep β :=
  ⟨g s.beta1, g s.fkBeta, g s.logFk, g s.z, s.small, g s.sqz, g s.xz, g s.zxz, g s.beta24,
    g s.beta1920, g s.logFk2, g s.factor1, g s.num1, g s.factor31, g s.factor32, g s.factor33,
    g s.factor3, g s.value⟩

theorem radicand_pos (z ρ : ℝ) (rho_gt : -1 < ρ) (rho_lt : ρ < 1) : 0 < 1 - 2 * ρ * z + z * z := by
  nlinarith [sq_nonneg (z - ρ)]

theorem sign_log_ratio (z ρ : ℝ) (rho_gt : -1 < ρ) (rho_lt : ρ < 1) :
    SignType.sign (Real.log ((√(1 - 2 * ρ * z + z * z) + z - ρ) / (1 - ρ))) = SignType.sign z := by
  have complement : 0 < 1 - ρ := by linarith
  have radicand := radicand_pos z ρ rho_gt rho_lt
  -- `(1 - z)² - (1 - 2ρz + z²) = -2z(1 - ρ)`: the root passes `1 - z` where `z` changes sign
  rcases lt_trichotomy z 0 with negative | zero | positive
  · have root_lt : √(1 - 2 * ρ * z + z * z) < 1 - z :=
      (Real.sqrt_lt' (by linarith)).2 (by nlinarith)
    have above : |z - ρ| < √(1 - 2 * ρ * z + z * z) :=
      Real.lt_sqrt (abs_nonneg _) |>.2 (by rw [sq_abs]; nlinarith)
    have shifted : 0 < √(1 - 2 * ρ * z + z * z) + z - ρ := by linarith [neg_abs_le (z - ρ)]
    have ratio_lt : (√(1 - 2 * ρ * z + z * z) + z - ρ) / (1 - ρ) < 1 :=
      (div_lt_one complement).2 (by linarith)
    rw [sign_neg negative, sign_neg (Real.log_neg (div_pos shifted complement) ratio_lt)]
  · subst zero
    simp [complement.ne']
  · have root_gt : 1 - z < √(1 - 2 * ρ * z + z * z) := by
      rcases le_or_gt z 1 with within | beyond
      · exact Real.lt_sqrt (by linarith) |>.2 (by nlinarith)
      · linarith [Real.sqrt_nonneg (1 - 2 * ρ * z + z * z)]
    have ratio_gt : 1 < (√(1 - 2 * ρ * z + z * z) + z - ρ) / (1 - ρ) :=
      (one_lt_div complement).2 (by linarith)
    rw [sign_pos positive, sign_pos (Real.log_pos ratio_gt)]

theorem Sweep.Computed.exact_val {q : SabrQuote ℝ} {s : Sweep Guarded}
    (computed : s.Computed (q.map Guarded.exact)) : (s.map Guarded.val).Exact q where
  beta1 := by simp [Sweep.map, computed.beta1, SabrQuote.map]
  fkBeta := by simp [Sweep.map, computed.fkBeta, SabrQuote.map]
  logFk := by simp [Sweep.map, computed.logFk, SabrQuote.map]
  z := by simp [Sweep.map, computed.z, SabrQuote.map]
  small := by simp [Sweep.map, computed.small, zRange]
  sqz := by
    simp only [Sweep.map, computed.sqz]
    split <;> simp [SabrQuote.map]
  xz := by
    simp only [Sweep.map, computed.xz]
    split <;> simp [SabrQuote.map]
  zxz := by
    simp only [Sweep.map, computed.zxz]
    split <;> simp [SabrQuote.map]
  beta24 := by norm_num [Sweep.map, computed.beta24]
  beta1920 := by norm_num [Sweep.map, computed.beta1920]
  logFk2 := by simp [Sweep.map, computed.logFk2]
  num1 := by simp [Sweep.map, computed.num1]
  factor1 := by simp [Sweep.map, computed.factor1, SabrQuote.map]
  factor31 := by simp [Sweep.map, computed.factor31, SabrQuote.map]
  factor32 := by norm_num [Sweep.map, computed.factor32, SabrQuote.map]
  factor33 := by norm_num [Sweep.map, computed.factor33, SabrQuote.map]
  factor3 := by simp [Sweep.map, computed.factor3, SabrQuote.map]
  value := by simp [Sweep.map, computed.value]

theorem Sweep.Exact.unique {q : SabrQuote ℝ} {s t : Sweep ℝ} (hs : s.Exact q) (ht : t.Exact q) :
    s = t := by
  have beta1 : s.beta1 = t.beta1 := by rw [hs.beta1, ht.beta1]
  have fkBeta : s.fkBeta = t.fkBeta := by rw [hs.fkBeta, ht.fkBeta, beta1]
  have logFk : s.logFk = t.logFk := by rw [hs.logFk, ht.logFk]
  have z : s.z = t.z := by rw [hs.z, ht.z, fkBeta, logFk]
  have small : s.small = t.small := by rw [hs.small, ht.small, z]
  have sqz : s.sqz = t.sqz := by rw [hs.sqz, ht.sqz, small, z]
  have xz : s.xz = t.xz := by rw [hs.xz, ht.xz, small, sqz, z]
  have zxz : s.zxz = t.zxz := by rw [hs.zxz, ht.zxz, small, z, xz]
  have beta24 : s.beta24 = t.beta24 := by rw [hs.beta24, ht.beta24, beta1]
  have beta1920 : s.beta1920 = t.beta1920 := by rw [hs.beta1920, ht.beta1920, beta1]
  have logFk2 : s.logFk2 = t.logFk2 := by rw [hs.logFk2, ht.logFk2, logFk]
  have num1 : s.num1 = t.num1 := by rw [hs.num1, ht.num1, beta24, beta1920, logFk2]
  have factor1 : s.factor1 = t.factor1 := by rw [hs.factor1, ht.factor1, fkBeta, num1]
  have factor31 : s.factor31 = t.factor31 := by rw [hs.factor31, ht.factor31, beta24, fkBeta]
  have factor32 : s.factor32 = t.factor32 := by rw [hs.factor32, ht.factor32, fkBeta]
  have factor33 : s.factor33 = t.factor33 := by rw [hs.factor33, ht.factor33]
  have factor3 : s.factor3 = t.factor3 := by
    rw [hs.factor3, ht.factor3, factor31, factor32, factor33]
  have value : s.value = t.value := by rw [hs.value, ht.value, factor1, zxz, factor3]
  cases s
  cases t
  simp only [Sweep.mk.injEq]
  exact ⟨beta1, fkBeta, logFk, z, small, sqz, xz, zxz, beta24, beta1920, logFk2, factor1, num1,
    factor31, factor32, factor33, factor3, value⟩

theorem Sweep.Exact.num1_ge_one {q : SabrQuote ℝ} {s : Sweep ℝ} (exact : s.Exact q) :
    1 ≤ s.num1 := by
  rw [exact.num1, exact.beta24, exact.beta1920, exact.logFk2]
  have square := mul_self_nonneg s.logFk
  have second : 0 ≤ s.beta1 * s.beta1 / 24 * (s.logFk * s.logFk) :=
    mul_nonneg (div_nonneg (mul_self_nonneg s.beta1) (by norm_num)) square
  have fourth : 0 ≤ s.beta1 ^ 4 / 1920 * (s.logFk * s.logFk) * (s.logFk * s.logFk) :=
    mul_nonneg (mul_nonneg (by positivity) square) square
  linarith

theorem Sweep.Exact.z_ne_zero {q : SabrQuote ℝ} {s : Sweep ℝ} (exact : s.Exact q)
    (large : s.small = false) : s.z ≠ 0 := by
  have outside : ¬ |s.z| < zRange := by simpa [large] using exact.small
  intro zero
  rw [zero, abs_zero] at outside
  exact outside (by norm_num [zRange])

theorem Sweep.Exact.sign_xz {q : SabrQuote ℝ} {s : Sweep ℝ} (exact : s.Exact q)
    (large : s.small = false) (rho_gt : -1 < q.rho) (rho_lt : q.rho < 1) :
    SignType.sign s.xz = SignType.sign s.z := by
  have root : s.sqz = √(1 - 2 * q.rho * s.z + s.z * s.z) := by simp [exact.sqz, large]
  simp only [exact.xz, large, Bool.false_eq_true, if_false, root]
  exact sign_log_ratio s.z q.rho rho_gt rho_lt

theorem Sweep.Exact.xz_ne_zero {q : SabrQuote ℝ} {s : Sweep ℝ} (exact : s.Exact q)
    (large : s.small = false) (rho_gt : -1 < q.rho) (rho_lt : q.rho < 1) : s.xz ≠ 0 := by
  intro zero
  have sign := exact.sign_xz large rho_gt rho_lt
  rw [zero, sign_zero, eq_comm, sign_eq_zero_iff] at sign
  exact exact.z_ne_zero large sign

theorem Sweep.Exact.zxz_pos {q : SabrQuote ℝ} {s : Sweep ℝ} (exact : s.Exact q)
    (rho_gt : -1 < q.rho) (rho_lt : q.rho < 1) : 0 < s.zxz := by
  cases small : s.small with
  | false =>
    have sign := exact.sign_xz small rho_gt rho_lt
    simp only [exact.zxz, small, Bool.false_eq_true, if_false]
    rcases lt_or_gt_of_ne (exact.z_ne_zero small) with negative | positive
    · have below : s.xz < 0 := by rw [← sign_eq_neg_one_iff, sign, sign_neg negative]
      exact div_pos_of_neg_of_neg negative below
    · have above : 0 < s.xz := by rw [← sign_eq_one_iff, sign, sign_pos positive]
      exact div_pos positive above
  | true =>
    have within : |s.z| < zRange := by simpa [small] using exact.small
    have tiny : |s.z| < 1 := lt_trans within (by norm_num [zRange])
    have product : |s.z * q.rho| < 1 := by
      rw [abs_mul]
      nlinarith [abs_nonneg s.z, abs_lt.2 ⟨rho_gt, rho_lt⟩]
    simp only [exact.zxz, small, if_true]
    nlinarith [abs_lt.1 product]

/-- Every quantity of a sweep in guarded reals met the domains on its way. -/
structure Sweep.Sound (s : Sweep Guarded) : Prop where
  beta1 : s.beta1.sound
  fkBeta : s.fkBeta.sound
  logFk : s.logFk.sound
  z : s.z.sound
  sqz : s.sqz.sound
  xz : s.xz.sound
  zxz : s.zxz.sound
  beta24 : s.beta24.sound
  beta1920 : s.beta1920.sound
  logFk2 : s.logFk2.sound
  num1 : s.num1.sound
  factor1 : s.factor1.sound
  factor31 : s.factor31.sound
  factor32 : s.factor32.sound
  factor33 : s.factor33.sound
  factor3 : s.factor3.sound
  value : s.value.sound

section Domain

variable {q : SabrQuote ℝ} (forward : 0 < q.forward) (strike : 0 < q.strike)
  (alpha : 0 < q.alpha) (rho_gt : -1 < q.rho) (rho_lt : q.rho < 1)
include forward strike alpha rho_gt rho_lt

theorem Sweep.Computed.sound {s : Sweep Guarded} (computed : s.Computed (q.map Guarded.exact)) :
    s.Sound := by
  have exact := computed.exact_val
  have fk_pos : 0 < s.fkBeta.val := exact.fkBeta_pos forward strike
  have num1_pos : 0 < s.num1.val := exact.num1_pos
  have beta1 : s.beta1.sound := by simp [computed.beta1, SabrQuote.map]
  have fkBeta : s.fkBeta.sound := by simp [computed.fkBeta, SabrQuote.map, beta1]
  have logFk : s.logFk.sound := by
    simp [computed.logFk, SabrQuote.map, strike.ne', div_pos forward strike]
  have z : s.z.sound := by simp [computed.z, SabrQuote.map, alpha.ne', fkBeta, logFk]
  -- on the expansion nothing is divided; away from it the root, its shift and `x(z)` are
  have branch : s.sqz.sound ∧ s.xz.sound ∧ s.zxz.sound := by
    cases small : s.small with
    | true => simp [computed.sqz, computed.xz, computed.zxz, small, SabrQuote.map, z]
    | false =>
      have large : (s.map Guarded.val).small = false := small
      have shifted : 0 < s.sqz.val + s.z.val - q.rho := (exact.shifted_pos large rho_gt rho_lt).2
      have complement : (0 : ℝ) < 1 - q.rho := by linarith
      have sqz : s.sqz.sound := by
        simp [computed.sqz, small, SabrQuote.map, z, radicand_pos _ _ rho_gt rho_lt]
      have xz : s.xz.sound := by
        simp only [computed.xz, small, Bool.false_eq_true, if_false]
        simp [SabrQuote.map, sqz, z, complement.ne', div_pos shifted complement]
      have xz_ne : s.xz.val ≠ 0 := exact.xz_ne_zero large rho_gt rho_lt
      refine ⟨sqz, xz, ?_⟩
      simp [computed.zxz, small, z, xz, xz_ne]
  obtain ⟨sqz, xz, zxz⟩ := branch
  have beta24 : s.beta24.sound := by norm_num [computed.beta24, beta1]
  have beta1920 : s.beta1920.sound := by norm_num [computed.beta1920, beta1]
  have logFk2 : s.logFk2.sound := by simp [computed.logFk2, logFk]
  have num1 : s.num1.sound := by simp [computed.num1, beta24, beta1920, logFk2]
  have factor1 : s.factor1.sound := by
    simp [computed.factor1, SabrQuote.map, fkBeta, num1, fk_pos.ne', num1_pos.ne']
  have factor31 : s.factor31.sound := by
    simp [computed.factor31, SabrQuote.map, beta24, fkBeta, fk_pos.ne']
  have factor32 : s.factor32.sound := by
    simp [computed.factor32, SabrQuote.map, fkBeta, fk_pos.ne']
  have factor33 : s.factor33.sound := by norm_num [computed.factor33, SabrQuote.map]
  have factor3 : s.factor3.sound := by
    simp [computed.factor3, SabrQuote.map, factor31, factor32, factor33]
  have value : s.value.sound := by simp [computed.value, factor1, zxz, factor3]
  exact ⟨beta1, fkBeta, logFk, z, sqz, xz, zxz, beta24, beta1920, logFk2, num1, factor1, factor31,
    factor32, factor33, factor3, value⟩

omit forward rho_gt rho_lt in
theorem sweep_guarded : ∃ s, sweep .checked (q.map Guarded.exact) = .ok s := by
  simp only [sweep, Arith.div, Arith.powNat, SabrQuote.map, Guarded.isZero_eq, Guarded.val_exact,
    Guarded.finite_eq, strike.ne', alpha.ne', decide_false, Bool.false_eq_true, if_false,
    Bool.not_true, Bool.and_false, bind, Except.bind]
  exact ⟨_, rfl⟩

omit forward rho_gt rho_lt in
theorem sweep_val {s : Sweep Guarded} (swept : sweep .checked (q.map Guarded.exact) = .ok s) :
    sweep .checked q = .ok (s.map Guarded.val) := by
  obtain ⟨t, real, exact⟩ := sweep_exact q alpha.ne' strike.ne'
  rw [real, exact.unique (sweep_computed swept).exact_val]

theorem volatility_sound : ∃ v, volatility .checked (q.map Guarded.exact) = .ok v ∧ v.sound ∧
    volatility .checked q = .ok v.val := by
  obtain ⟨s, swept⟩ := sweep_guarded strike alpha
  have sound := (sweep_computed swept).sound forward strike alpha rho_gt rho_lt
  refine ⟨s.value, by simp [volatility, swept, bind, Except.bind, pure, Except.pure], sound.value, ?_⟩
  simp [volatility, sweep_val strike alpha swept, Sweep.map, bind,
    Except.bind, pure, Except.pure]

theorem volatilityAdjoint_sound : ∃ v bar,
    volatilityAdjoint .checked (q.map Guarded.exact) = .ok (v, bar) ∧ v.sound ∧
      (∀ b ∈ bar.toList, b.sound) ∧ volatilityAdjoint .checked q = .ok (v.val, bar.map Guarded.val) := by
  obtain ⟨s, swept⟩ := sweep_guarded strike alpha
  have real := sweep_val strike alpha swept
  have computed := sweep_computed swept
  have sound := computed.sound forward strike alpha rho_gt rho_lt
  have exact := computed.exact_val
  have fk_pos : 0 < s.fkBeta.val := exact.fkBeta_pos forward strike
  have num1_pos : 0 < s.num1.val := exact.num1_pos
  have product : 0 < q.forward * q.strike := mul_pos forward strike
  have complement : (0 : ℝ) < 1 - q.rho := by linarith
  have cube : s.fkBeta.val ^ (3.0 : ℝ) ≠ 0 := (Real.rpow_pos_of_pos fk_pos _).ne'
  simp only [volatilityAdjoint, swept, bind, Except.bind]
  cases small : s.small with
  | true =>
    simp only [Arith.div, Arith.powNat, Guarded.isZero_eq, Guarded.finite_eq, SabrQuote.map,
      Guarded.val_exact, Guarded.val_mul, alpha.ne', mul_self_eq_zero, decide_false,
      Bool.false_eq_true, if_false, if_true, Bool.not_true, Bool.and_false, pure, Except.pure]
    refine ⟨_, _, rfl, sound.value, ?_, by simp [real, Sweep.map, small, alpha.ne']⟩
    norm_num [SabrQuote.toList, sound.beta1, sound.fkBeta, sound.logFk, sound.z, sound.zxz,
      sound.beta24, sound.beta1920, sound.logFk2, sound.num1, sound.factor1, sound.factor31,
      sound.factor32, sound.factor33, sound.factor3, fk_pos.ne', num1_pos.ne', forward.ne',
      strike.ne', alpha.ne', product, cube]
  | false =>
    have large : (s.map Guarded.val).small = false := small
    obtain ⟨root, shifted⟩ := exact.shifted_pos large rho_gt rho_lt
    have root_ne : s.sqz.val ≠ 0 := root.ne'
    have shifted_ne : s.sqz.val + s.z.val - q.rho ≠ 0 := shifted.ne'
    have xz_ne : s.xz.val ≠ 0 := exact.xz_ne_zero large rho_gt rho_lt
    have complement' : (1.0 : ℝ) - q.rho ≠ 0 := by norm_num; linarith
    simp only [Arith.div, Arith.powNat, Guarded.isZero_eq, Guarded.finite_eq, SabrQuote.map,
      Guarded.val_exact, Guarded.val_mul, Guarded.val_sub, Guarded.val_ofScientific, alpha.ne',
      mul_self_eq_zero, complement', decide_false, Bool.false_eq_true, if_false, Bool.not_true, Bool.and_false,
      pure, Except.pure]
    refine ⟨_, _, rfl, sound.value, ?_, by simp [real, Sweep.map, small, alpha.ne', complement.ne']⟩
    norm_num [SabrQuote.toList, sound.beta1, sound.fkBeta, sound.logFk, sound.z, sound.sqz,
      sound.xz, sound.zxz, sound.beta24, sound.beta1920, sound.logFk2, sound.num1, sound.factor1,
      sound.factor31, sound.factor32, sound.factor33, sound.factor3, fk_pos.ne', num1_pos.ne',
      forward.ne', strike.ne', alpha.ne', product, cube, root_ne, shifted_ne, xz_ne, complement.ne']

end Domain

end Sabr

/-- Over the reals, with a positive forward, strike and alpha and a correlation strictly between
`-1` and `1`, the volatility and its hand-written adjoint divide by nonzero numbers only and take
logarithms and square roots of positive numbers only: run on guarded reals they answer the real
results, every one of them sound. Along the way `(FK)^(β₁/2)` is positive, the denominator `num1`
is at least one and `z/x(z)` is positive; away from the expansion the radicand, the shifted root
and `1 - ρ` are positive and `x(z)` is nonzero with the sign of `z`. -/
theorem volatility_stays_in_domain (q : SabrQuote ℝ) (forward : 0 < q.forward)
    (strike : 0 < q.strike) (alpha : 0 < q.alpha) (rho_gt : -1 < q.rho) (rho_lt : q.rho < 1) :
    (∃ v, Sabr.volatility .checked (q.map Guarded.exact) = .ok v ∧ v.sound ∧
      Sabr.volatility .checked q = .ok v.val) ∧
    (∃ v bar, Sabr.volatilityAdjoint .checked (q.map Guarded.exact) = .ok (v, bar) ∧ v.sound ∧
      (∀ b ∈ bar.toList, b.sound) ∧
      Sabr.volatilityAdjoint .checked q = .ok (v.val, bar.map Guarded.val)) ∧
    ∃ s, Sabr.sweep .checked q = .ok s ∧ 0 < s.fkBeta ∧ 1 ≤ s.num1 ∧ 0 < s.zxz ∧
      ((Sabr.zRange : ℝ) ≤ |s.z| →
        0 < 1 - 2 * q.rho * s.z + s.z * s.z ∧ 0 < s.sqz + s.z - q.rho ∧ 0 < 1 - q.rho ∧
          s.xz ≠ 0 ∧ SignType.sign s.xz = SignType.sign s.z) := by
  obtain ⟨s, swept, exact⟩ := Sabr.sweep_exact q alpha.ne' strike.ne'
  refine ⟨Sabr.volatility_sound forward strike alpha rho_gt rho_lt,
    Sabr.volatilityAdjoint_sound forward strike alpha rho_gt rho_lt, s, swept,
    exact.fkBeta_pos forward strike, exact.num1_ge_one, exact.zxz_pos rho_gt rho_lt, ?_⟩
  intro outside
  have large : s.small = false := by simpa [exact.small] using outside
  obtain ⟨-, shifted⟩ := exact.shifted_pos large rho_gt rho_lt
  exact ⟨Sabr.radicand_pos s.z q.rho rho_gt rho_lt, shifted, by linarith,
    exact.xz_ne_zero large rho_gt rho_lt, exact.sign_xz large rho_gt rho_lt⟩

theorem volatility_stays_in_domain_at_the_money :
    let q : SabrQuote ℝ := ⟨1, 1 / 5, 1 / 2, 0, 1 / 2, 1, 1⟩
    (0 < q.forward ∧ 0 < q.strike ∧ 0 < q.alpha ∧ -1 < q.rho ∧ q.rho < 1) ∧
    (∃ v, Sabr.volatility .checked (q.map Guarded.exact) = .ok v ∧ v.sound ∧
      Sabr.volatility .checked q = .ok v.val) ∧
    (∃ v bar, Sabr.volatilityAdjoint .checked (q.map Guarded.exact) = .ok (v, bar) ∧ v.sound ∧
      (∀ b ∈ bar.toList, b.sound) ∧
      Sabr.volatilityAdjoint .checked q = .ok (v.val, bar.map Guarded.val)) ∧
    ∃ s, Sabr.sweep .checked q = .ok s ∧ 0 < s.fkBeta ∧ 1 ≤ s.num1 ∧ 0 < s.zxz ∧
      ((Sabr.zRange : ℝ) ≤ |s.z| →
        0 < 1 - 2 * q.rho * s.z + s.z * s.z ∧ 0 < s.sqz + s.z - q.rho ∧ 0 < 1 - q.rho ∧
          s.xz ≠ 0 ∧ SignType.sign s.xz = SignType.sign s.z) := by
  intro q
  exact ⟨⟨by norm_num [q], by norm_num [q], by norm_num [q], by norm_num [q], by norm_num [q]⟩,
    volatility_stays_in_domain q (by norm_num [q]) (by norm_num [q]) (by norm_num [q])
      (by norm_num [q]) (by norm_num [q])⟩

end AdjointDiff
