import AdjointDiff.Proofs.Real.Dual
import AdjointDiff.Formula.Sabr.Volatility

set_option autoImplicit false

namespace AdjointDiff

open ProbabilityTheory Recorder StraightLine

namespace Sabr

structure Sweep.Exact (q : SabrQuote ℝ) (s : Sweep ℝ) : Prop where
  beta1 : s.beta1 = 1 - q.beta
  fkBeta : s.fkBeta = (q.forward * q.strike) ^ (1 / 2 * s.beta1)
  logFk : s.logFk = Real.log (q.forward / q.strike)
  z : s.z = q.nu / q.alpha * s.fkBeta * s.logFk
  small : s.small = decide (|s.z| < zRange)
  sqz : s.sqz = if s.small then 0 else √(1 - 2 * q.rho * s.z + s.z * s.z)
  xz : s.xz = if s.small then 0 else Real.log ((s.sqz + s.z - q.rho) / (1 - q.rho))
  zxz : s.zxz = if s.small then 1 - 1 / 2 * s.z * q.rho else s.z / s.xz
  beta24 : s.beta24 = s.beta1 * s.beta1 / 24
  beta1920 : s.beta1920 = s.beta1 ^ 4 / 1920
  logFk2 : s.logFk2 = s.logFk * s.logFk
  num1 : s.num1 = 1 + s.beta24 * s.logFk2 + s.beta1920 * s.logFk2 * s.logFk2
  factor1 : s.factor1 = q.alpha / (s.fkBeta * s.num1)
  factor31 : s.factor31 = s.beta24 * q.alpha * q.alpha / (s.fkBeta * s.fkBeta)
  factor32 : s.factor32 = 1 / 4 * q.rho * q.beta * q.nu * q.alpha / s.fkBeta
  factor33 : s.factor33 = (2 - 3 * q.rho * q.rho) / 24 * q.nu * q.nu
  factor3 : s.factor3 = 1 + (s.factor31 + s.factor32 + s.factor33) * q.expiry
  value : s.value = s.factor1 * s.zxz * s.factor3

theorem sweep_exact (q : SabrQuote ℝ) (alpha : q.alpha ≠ 0) (strike : q.strike ≠ 0) :
    ∃ s, sweep .checked q = .ok s ∧ s.Exact q := by
  refine ⟨_, by simp [sweep, Arith.div, Arith.powNat, alpha, strike]; rfl, ?_⟩
  constructor <;> norm_num

theorem Sweep.Exact.of_sweep {q : SabrQuote ℝ} {s : Sweep ℝ} (swept : sweep .checked q = .ok s)
    (alpha : q.alpha ≠ 0) (strike : q.strike ≠ 0) : s.Exact q := by
  obtain ⟨s', swept', exact⟩ := sweep_exact q alpha strike
  rw [swept, Except.ok.injEq] at swept'
  rwa [swept']

-- The recording is read in three parts: the head up to `z`, the branch (the expansion
-- `1 - zρ/2` or the ratio `z/x(z)`) and a tail common to both branches. Each part has a lemma
-- giving the values and rates of the handles the rest reads, in the quantities of `Sabr.Sweep`.
noncomputable def headCalls : List Call :=
  [ .rsubConst 1.0 2, .mul 0 5, .mulConst 7 0.5, .pow 8 9, .div 0 5, .log 11, .div 4 1,
    .mul 13 10, .mul 14 12 ]

theorem reads_before_head : ReadsBefore 7 headCalls := by
  simp [headCalls, ReadsBefore, Call.operands]

theorem head_duals (x dx : Nat → ℝ) (n : Nat) {q : SabrQuote ℝ} (dq : SabrQuote ℝ) {s : Sweep ℝ}
    (exact : s.Exact q) (forward : 0 < q.forward) (strike : 0 < q.strike) :
    let E := fun a => (dualFrom x dx n (List.zip q.toList dq.toList) headCalls).getD a (0, 0)
    let fkRate := s.fkBeta * (s.beta1 / 2 * (dq.forward / q.forward + dq.strike / q.strike) -
      Real.log (q.forward * q.strike) / 2 * dq.beta)
    let logRate := dq.forward / q.forward - dq.strike / q.strike
    E 7 = (s.beta1, -dq.beta) ∧ E 10 = (s.fkBeta, fkRate) ∧ E 12 = (s.logFk, logRate) ∧
      E 15 = (s.z, s.logFk * (s.fkBeta * (dq.nu / q.alpha - q.nu / q.alpha ^ 2 * dq.alpha) +
        q.nu / q.alpha * fkRate) + q.nu / q.alpha * s.fkBeta * logRate) := by
  intro E fkRate logRate
  have step (k : Nat) (c : Call) (found : headCalls[k]? = some c) :
      E (7 + k) = c.dual x dx (n + inputCount (headCalls.take k)) E :=
    dualFrom_getD_call x dx n _ found (reads_before_head.getElem? k c found)
  have input (i : Nat) (below : i < 7) : E i = (List.zip q.toList dq.toList).getD i (0, 0) :=
    dualFrom_getD_of_lt x dx n _ _ (by simpa [SabrQuote.toList] using below)
  have e7 : E 7 = (s.beta1, -dq.beta) := by
    rw [step 0 _ rfl]
    simp [Call.dual, input, SabrQuote.toList, exact.beta1]
    ring
  have e10 : E 10 = (s.fkBeta, fkRate) := by
    rw [step 3 _ rfl]
    simp only [Call.dual]
    rw [step 1 _ rfl, step 2 _ rfl]
    simp [Call.dual, input, SabrQuote.toList, e7, exact.fkBeta, fkRate, mul_comm s.beta1 2⁻¹]
    field_simp
    ring
  have e12 : E 12 = (s.logFk, logRate) := by
    rw [step 5 _ rfl]
    simp only [Call.dual]
    rw [step 4 _ rfl]
    simp [Call.dual, input, SabrQuote.toList, exact.logFk, logRate]
    field_simp
  refine ⟨e7, e10, e12, ?_⟩
  rw [step 8 _ rfl]
  simp only [Call.dual]
  rw [step 7 _ rfl]
  simp only [Call.dual]
  rw [step 6 _ rfl]
  simp [Call.dual, input, SabrQuote.toList, e10, e12, exact.z]

noncomputable def expansionCalls : List Call := [ .mul 15 3, .mulConst 16 (-0.5), .addConst 17 1.0 ]

noncomputable def ratioCalls : List Call :=
  [ .mul 3 15, .mulConst 16 (-2.0), .addConst 17 1.0, .mul 15 15, .add 18 19, .sqrt 20,
    .add 21 15, .sub 22 3, .rsubConst 1.0 3, .div 23 24, .log 25, .div 15 26 ]

theorem expansion_duals (x dx : Nat → ℝ) (n : Nat) {ds : List (ℝ × ℝ)} (length : ds.length = 16)
    {q : SabrQuote ℝ} {s : Sweep ℝ} (exact : s.Exact q) (small : s.small = true) {dRho dZ : ℝ}
    (rho : ds.getD 3 (0, 0) = (q.rho, dRho)) (zed : ds.getD 15 (0, 0) = (s.z, dZ)) :
    (dualFrom x dx n ds expansionCalls).getD 18 (0, 0) = (s.zxz, -(1 / 2) * (q.rho * dZ + s.z * dRho)) := by
  set E := fun a => (dualFrom x dx n ds expansionCalls).getD a (0, 0)
  have reads : ReadsBefore ds.length expansionCalls := by
    simp [length, expansionCalls, ReadsBefore, Call.operands]
  have step (k : Nat) (c : Call) (found : expansionCalls[k]? = some c) :
      E (16 + k) = c.dual x dx (n + inputCount (expansionCalls.take k)) E := by
    rw [← length]
    exact dualFrom_getD_call x dx n ds found (reads.getElem? k c found)
  have e3 : E 3 = (q.rho, dRho) := (dualFrom_getD_of_lt x dx n ds _ (by omega)).trans rho
  have e15 : E 15 = (s.z, dZ) := (dualFrom_getD_of_lt x dx n ds _ (by omega)).trans zed
  show E 18 = _
  rw [step 2 _ rfl]
  simp only [Call.dual]
  rw [step 1 _ rfl]
  simp only [Call.dual]
  rw [step 0 _ rfl]
  simp only [Call.dual, e3, e15, exact.zxz, small, if_true, Prod.mk.injEq]
  refine ⟨by norm_num; ring, by ring⟩

theorem Sweep.Exact.shifted_pos {q : SabrQuote ℝ} {s : Sweep ℝ} (exact : s.Exact q)
    (small : s.small = false) (rho_gt : -1 < q.rho) (rho_lt : q.rho < 1) :
    0 < s.sqz ∧ 0 < s.sqz + s.z - q.rho := by
  have radicand : (s.z - q.rho) ^ 2 < 1 - 2 * q.rho * s.z + s.z * s.z := by nlinarith
  have root : s.sqz = √(1 - 2 * q.rho * s.z + s.z * s.z) := by simp [exact.sqz, small]
  have above : |s.z - q.rho| < s.sqz := by
    rw [root]
    exact Real.lt_sqrt (abs_nonneg _) |>.2 (by rwa [sq_abs])
  constructor
  · exact lt_of_le_of_lt (abs_nonneg _) above
  · linarith [neg_abs_le (s.z - q.rho)]

theorem ratio_duals (x dx : Nat → ℝ) (n : Nat) {ds : List (ℝ × ℝ)} (length : ds.length = 16)
    {q : SabrQuote ℝ} {s : Sweep ℝ} (exact : s.Exact q) (small : s.small = false)
    (rho_gt : -1 < q.rho) (rho_lt : q.rho < 1) {dRho dZ : ℝ}
    (rho : ds.getD 3 (0, 0) = (q.rho, dRho)) (zed : ds.getD 15 (0, 0) = (s.z, dZ)) :
    let sqzRate := ((s.z - q.rho) * dZ - s.z * dRho) / s.sqz
    let xzRate := (sqzRate + dZ - dRho) / (s.sqz + s.z - q.rho) + dRho / (1 - q.rho)
    (dualFrom x dx n ds ratioCalls).getD 27 (0, 0) = (s.zxz, dZ / s.xz - s.z / s.xz ^ 2 * xzRate) := by
  intro sqzRate xzRate
  set E := fun a => (dualFrom x dx n ds ratioCalls).getD a (0, 0)
  have reads : ReadsBefore ds.length ratioCalls := by
    simp [length, ratioCalls, ReadsBefore, Call.operands]
  have step (k : Nat) (c : Call) (found : ratioCalls[k]? = some c) :
      E (16 + k) = c.dual x dx (n + inputCount (ratioCalls.take k)) E := by
    rw [← length]
    exact dualFrom_getD_call x dx n ds found (reads.getElem? k c found)
  have e3 : E 3 = (q.rho, dRho) := (dualFrom_getD_of_lt x dx n ds _ (by omega)).trans rho
  have e15 : E 15 = (s.z, dZ) := (dualFrom_getD_of_lt x dx n ds _ (by omega)).trans zed
  obtain ⟨root_pos, shifted_pos⟩ := exact.shifted_pos small rho_gt rho_lt
  have e21 : E 21 = (s.sqz, sqzRate) := by
    rw [step 5 _ rfl]
    simp only [Call.dual]
    rw [step 4 _ rfl]
    simp only [Call.dual]
    rw [step 2 _ rfl, step 3 _ rfl]
    simp only [Call.dual]
    rw [step 1 _ rfl]
    simp only [Call.dual]
    rw [step 0 _ rfl]
    have radicand : s.sqz = Scalar.sqrt ((q.rho * s.z * -2.0 + 1.0) + s.z * s.z) := by
      rw [exact.sqz, small]
      norm_num
      ring_nf
    simp only [Call.dual, e3, e15, ← radicand, Prod.mk.injEq, true_and, sqzRate]
    field_simp
    norm_num
    ring
  have e26 : E 26 = (s.xz, xzRate) := by
    rw [step 10 _ rfl]
    simp only [Call.dual]
    rw [step 9 _ rfl]
    simp only [Call.dual]
    rw [step 7 _ rfl, step 8 _ rfl]
    simp only [Call.dual]
    rw [step 6 _ rfl]
    have complement : (1 : ℝ) - q.rho ≠ 0 := by linarith
    simp only [Call.dual, e3, e15, e21, exact.xz, small, Prod.mk.injEq]
    norm_num
    have shifted_ne : s.sqz + s.z - q.rho ≠ 0 := shifted_pos.ne'
    constructor
    · ring_nf
    · simp only [xzRate, neg_add_eq_sub]
      field_simp
  show E 27 = _
  rw [step 11 _ rfl]
  simp only [Call.dual, e15, e26, exact.zxz, small]
  simp

noncomputable def tailCalls (p : Nat) : List Call :=
  [ .mul 7 7, .mulConst (p + 1) (1.0 / 24.0), .mul (p + 1) (p + 1), .mulConst (p + 3) (1.0 / 1920.0),
    .mul 12 12, .mul (p + 2) (p + 5), .mul (p + 4) (p + 5), .mul (p + 7) (p + 5), .add (p + 6) (p + 8),
    .addConst (p + 9) 1.0, .mul 10 (p + 10), .div 1 (p + 11), .mul (p + 2) 1, .mul (p + 13) 1,
    .mul 10 10, .div (p + 14) (p + 15), .mulConst 3 0.25, .mul (p + 17) 2, .mul (p + 18) 4,
    .mul (p + 19) 1, .div (p + 20) 10, .mul 3 3, .mulConst (p + 22) (-3.0), .addConst (p + 23) 2.0,
    .mulConst (p + 24) (1.0 / 24.0), .mul 4 4, .mul (p + 25) (p + 26), .add (p + 16) (p + 21),
    .add (p + 28) (p + 27), .mul (p + 29) 6, .addConst (p + 30) 1.0, .mul (p + 12) p,
    .mul (p + 32) (p + 31) ]

theorem Sweep.Exact.fkBeta_pos {q : SabrQuote ℝ} {s : Sweep ℝ} (exact : s.Exact q)
    (forward : 0 < q.forward) (strike : 0 < q.strike) : 0 < s.fkBeta := by
  rw [exact.fkBeta]
  exact Real.rpow_pos_of_pos (mul_pos forward strike) _

theorem Sweep.Exact.num1_pos {q : SabrQuote ℝ} {s : Sweep ℝ} (exact : s.Exact q) : 0 < s.num1 := by
  rw [exact.num1, exact.beta24, exact.beta1920, exact.logFk2]
  simp only [← sq]
  positivity

theorem tail_duals (x dx : Nat → ℝ) (n p : Nat) (after : 15 < p) {ds : List (ℝ × ℝ)}
    (length : ds.length = p + 1) {q dq : SabrQuote ℝ} {s : Sweep ℝ} (exact : s.Exact q)
    (forward : 0 < q.forward) (strike : 0 < q.strike)
    (head : ∀ i < 16, ds.getD i (0, 0) =
      (dualFrom x dx n (List.zip q.toList dq.toList) headCalls).getD i (0, 0))
    {dZxz : ℝ} (ratio : ds.getD p (0, 0) = (s.zxz, dZxz)) :
    let fkRate := s.fkBeta * (s.beta1 / 2 * (dq.forward / q.forward + dq.strike / q.strike) -
      Real.log (q.forward * q.strike) / 2 * dq.beta)
    let logRate := dq.forward / q.forward - dq.strike / q.strike
    let dBeta24 := s.beta1 / 12 * -dq.beta
    let dBeta1920 := s.beta1 ^ 3 / 480 * -dq.beta
    let dLogFk2 := 2 * s.logFk * logRate
    let dNum1 := s.logFk2 * dBeta24 + s.beta24 * dLogFk2 + s.logFk2 * s.logFk2 * dBeta1920 +
      2 * s.beta1920 * s.logFk2 * dLogFk2
    let dFactor1 := dq.alpha / (s.fkBeta * s.num1) - q.alpha / (s.fkBeta ^ 2 * s.num1) * fkRate -
      q.alpha / (s.fkBeta * s.num1 ^ 2) * dNum1
    let dFactor31 := q.alpha ^ 2 / s.fkBeta ^ 2 * dBeta24 +
      2 * s.beta24 * q.alpha / s.fkBeta ^ 2 * dq.alpha - 2 * s.beta24 * q.alpha ^ 2 / s.fkBeta ^ 3 * fkRate
    let dFactor32 := (q.beta * q.nu * q.alpha * dq.rho + q.rho * q.nu * q.alpha * dq.beta +
      q.rho * q.beta * q.alpha * dq.nu + q.rho * q.beta * q.nu * dq.alpha) / (4 * s.fkBeta) -
      q.rho * q.beta * q.nu * q.alpha / (4 * s.fkBeta ^ 2) * fkRate
    let dFactor33 := -(q.rho * q.nu ^ 2 / 4) * dq.rho + (2 - 3 * q.rho ^ 2) / 12 * q.nu * dq.nu
    let dFactor3 := q.expiry * (dFactor31 + dFactor32 + dFactor33) +
      (s.factor31 + s.factor32 + s.factor33) * dq.expiry
    (dualFrom x dx n ds (tailCalls p)).getD (p + 33) (0, 0) =
      (s.value, s.factor3 * (s.zxz * dFactor1 + s.factor1 * dZxz) + s.factor1 * s.zxz * dFactor3) := by
  intro fkRate logRate dBeta24 dBeta1920 dLogFk2 dNum1 dFactor1 dFactor31 dFactor32 dFactor33 dFactor3
  set E := fun a => (dualFrom x dx n ds (tailCalls p)).getD a (0, 0)
  have reads : ReadsBefore ds.length (tailCalls p) := by
    simp only [length, tailCalls, ReadsBefore, Call.operands]
    simp
    omega
  have step (j : Nat) (c : Call) (found : (tailCalls p)[j - 1]? = some c) (pos : 0 < j) :
      E (p + j) = c.dual x dx (n + inputCount ((tailCalls p).take (j - 1))) E := by
    have call := dualFrom_getD_call x dx n ds found (reads.getElem? (j - 1) c found)
    rwa [length, show p + 1 + (j - 1) = p + j by omega] at call
  obtain ⟨head7, head10, head12, -⟩ := head_duals x dx n dq exact forward strike
  have before (i : Nat) (below : i < 16) :
      E i = (dualFrom x dx n (List.zip q.toList dq.toList) headCalls).getD i (0, 0) :=
    (dualFrom_getD_of_lt x dx n ds _ (by omega)).trans (head i below)
  have input (i : Nat) (below : i < 7) : E i = (List.zip q.toList dq.toList).getD i (0, 0) :=
    (before i (by omega)).trans
      (dualFrom_getD_of_lt x dx n _ _ (by simpa [SabrQuote.toList] using below))
  have h1 : E 1 = (q.alpha, dq.alpha) := by simp [input, SabrQuote.toList]
  have h2 : E 2 = (q.beta, dq.beta) := by simp [input, SabrQuote.toList]
  have h3 : E 3 = (q.rho, dq.rho) := by simp [input, SabrQuote.toList]
  have h4 : E 4 = (q.nu, dq.nu) := by simp [input, SabrQuote.toList]
  have h6 : E 6 = (q.expiry, dq.expiry) := by simp [input, SabrQuote.toList]
  have h7 : E 7 = (s.beta1, -dq.beta) := (before 7 (by omega)).trans head7
  have h10 : E 10 = (s.fkBeta, fkRate) := (before 10 (by omega)).trans head10
  have h12 : E 12 = (s.logFk, logRate) := (before 12 (by omega)).trans head12
  have hp : E p = (s.zxz, dZxz) := (dualFrom_getD_of_lt x dx n ds _ (by omega)).trans ratio
  have fk_pos := exact.fkBeta_pos forward strike
  have num1_pos := exact.num1_pos
  -- the powers of `β₁`
  have e2 : E (p + 2) = (s.beta24, dBeta24) := by
    rw [step 2 _ rfl (by norm_num)]
    simp only [Call.dual]
    rw [step 1 _ rfl (by norm_num)]
    simp only [Call.dual, h7, exact.beta24, dBeta24, Prod.mk.injEq]
    constructor <;> norm_num <;> ring
  have e4 : E (p + 4) = (s.beta1920, dBeta1920) := by
    rw [step 4 _ rfl (by norm_num)]
    simp only [Call.dual]
    rw [step 3 _ rfl (by norm_num)]
    simp only [Call.dual]
    rw [step 1 _ rfl (by norm_num)]
    simp only [Call.dual, h7, exact.beta1920, dBeta1920, Prod.mk.injEq]
    constructor <;> norm_num <;> ring
  have e5 : E (p + 5) = (s.logFk2, dLogFk2) := by
    rw [step 5 _ rfl (by norm_num)]
    simp only [Call.dual, h12, exact.logFk2, dLogFk2, Prod.mk.injEq, true_and]
    ring
  -- the denominator and the first factor
  have e10 : E (p + 10) = (s.num1, dNum1) := by
    rw [step 10 _ rfl (by norm_num)]
    simp only [Call.dual]
    rw [step 9 _ rfl (by norm_num)]
    simp only [Call.dual]
    rw [step 6 _ rfl (by norm_num), step 8 _ rfl (by norm_num)]
    simp only [Call.dual]
    rw [step 7 _ rfl (by norm_num)]
    simp only [Call.dual, e2, e4, e5, exact.num1, dNum1, Prod.mk.injEq]
    constructor <;> norm_num <;> ring
  have e12 : E (p + 12) = (s.factor1, dFactor1) := by
    rw [step 12 _ rfl (by norm_num)]
    simp only [Call.dual]
    rw [step 11 _ rfl (by norm_num)]
    simp only [Call.dual, h1, h10, e10, exact.factor1, dFactor1, Prod.mk.injEq, true_and]
    field_simp
    ring
  -- the three terms of the expiry factor
  have e16 : E (p + 16) = (s.factor31, dFactor31) := by
    rw [step 16 _ rfl (by norm_num)]
    simp only [Call.dual]
    rw [step 14 _ rfl (by norm_num), step 15 _ rfl (by norm_num)]
    simp only [Call.dual]
    rw [step 13 _ rfl (by norm_num)]
    simp only [Call.dual, h1, h10, e2, exact.factor31, dFactor31, Prod.mk.injEq, true_and]
    field_simp
    ring
  have e21 : E (p + 21) = (s.factor32, dFactor32) := by
    rw [step 21 _ rfl (by norm_num)]
    simp only [Call.dual]
    rw [step 20 _ rfl (by norm_num)]
    simp only [Call.dual]
    rw [step 19 _ rfl (by norm_num)]
    simp only [Call.dual]
    rw [step 18 _ rfl (by norm_num)]
    simp only [Call.dual]
    rw [step 17 _ rfl (by norm_num)]
    simp only [Call.dual, h1, h2, h3, h4, h10, exact.factor32, dFactor32, Prod.mk.injEq]
    constructor
    · norm_num
      ring
    · field_simp
      norm_num
      ring
  have e27 : E (p + 27) = (s.factor33, dFactor33) := by
    rw [step 27 _ rfl (by norm_num)]
    simp only [Call.dual]
    rw [step 25 _ rfl (by norm_num), step 26 _ rfl (by norm_num)]
    simp only [Call.dual]
    rw [step 24 _ rfl (by norm_num)]
    simp only [Call.dual]
    rw [step 23 _ rfl (by norm_num)]
    simp only [Call.dual]
    rw [step 22 _ rfl (by norm_num)]
    simp only [Call.dual, h3, h4, exact.factor33, dFactor33, Prod.mk.injEq]
    constructor <;> norm_num <;> ring
  have e31 : E (p + 31) = (s.factor3, dFactor3) := by
    rw [step 31 _ rfl (by norm_num)]
    simp only [Call.dual]
    rw [step 30 _ rfl (by norm_num)]
    simp only [Call.dual]
    rw [step 29 _ rfl (by norm_num)]
    simp only [Call.dual]
    rw [step 28 _ rfl (by norm_num)]
    simp only [Call.dual, h6, e16, e21, e27, exact.factor3, dFactor3, Prod.mk.injEq]
    constructor
    · norm_num
      ring
    · norm_num
  show E (p + 33) = _
  rw [step 33 _ rfl (by norm_num)]
  simp only [Call.dual]
  rw [step 32 _ rfl (by norm_num)]
  simp only [Call.dual, hp, e12, e31, exact.value]

theorem volatilityAdjoint_ok (q : SabrQuote ℝ) (strike : 0 < q.strike) (alpha : 0 < q.alpha)
    (rho_lt : q.rho < 1) :
    ∃ s vol bar, sweep .checked q = .ok s ∧ s.Exact q ∧
      volatilityAdjoint .checked q = .ok (vol, bar) := by
  obtain ⟨s, swept, exact⟩ := sweep_exact q alpha.ne' strike.ne'
  have complement : (1 : ℝ) - q.rho ≠ 0 := by linarith
  obtain ⟨vol, bar, adjoint⟩ : ∃ vol bar, volatilityAdjoint .checked q = .ok (vol, bar) := by
    cases small : s.small <;>
      simp [volatilityAdjoint, swept, Arith.div, Arith.powNat, alpha.ne', small, bind,
        Except.bind, pure, Except.pure, complement]
  exact ⟨s, vol, bar, swept, exact, adjoint⟩

noncomputable def branchCalls (small : Bool) : List Call :=
  if small then expansionCalls ++ tailCalls 18 else ratioCalls ++ tailCalls 27

theorem dual_calls_eq_adjoint (x dx : Nat → ℝ) (n : Nat) (q dq : SabrQuote ℝ)
    (forward : 0 < q.forward) (strike : 0 < q.strike) (alpha : 0 < q.alpha)
    (rho_gt : -1 < q.rho) (rho_lt : q.rho < 1) :
    ∃ s vol bar, sweep .checked q = .ok s ∧ s.Exact q ∧ volatilityAdjoint .checked q = .ok (vol, bar) ∧
      (dualFrom x dx n (List.zip q.toList dq.toList) (headCalls ++ branchCalls s.small)).getD
        (if s.small then 51 else 60) (0, 0) = (vol, (List.zipWith (· * ·) bar.toList dq.toList).sum) := by
  obtain ⟨s, vol, bar, swept, exact, adjoint⟩ := volatilityAdjoint_ok q strike alpha rho_lt
  refine ⟨s, vol, bar, swept, exact, adjoint, ?_⟩
  set head := dualFrom x dx n (List.zip q.toList dq.toList) headCalls
  have head_length : head.length = 16 := by simp [head, length_dualFrom, SabrQuote.toList, headCalls]
  obtain ⟨-, -, -, e15⟩ := head_duals x dx n dq exact forward strike
  have e3 : head.getD 3 (0, 0) = (q.rho, dq.rho) :=
    (dualFrom_getD_of_lt x dx n _ _ (by simp [SabrQuote.toList])).trans (by simp [SabrQuote.toList])
  have kept (cs : List Call) (n' : Nat) (i : Nat) (below : i < 16) :
      (dualFrom x dx n' head cs).getD i (0, 0) = head.getD i (0, 0) :=
    dualFrom_getD_of_lt x dx n' head cs (by omega)
  -- the hand-written sweep's literals, as the numbers they stand for
  have cube : s.fkBeta ^ (3.0 : ℝ) = s.fkBeta ^ 3 := by norm_num
  have cube' : s.beta1 ^ (OfScientific.ofScientific 3 false 0 : ℝ) = s.beta1 ^ 3 := by norm_num
  have literals : (480.0 : ℝ) = 480 ∧ (12.0 : ℝ) = 12 ∧ (0.25 : ℝ) = 1 / 4 ∧ (3.0 : ℝ) = 3 := by
    norm_num
  cases small : s.small with
  | true =>
    have mid := expansion_duals x dx (n + inputCount headCalls) head_length exact small e3 e15
    have tail := tail_duals x dx (n + inputCount headCalls + inputCount expansionCalls) 18 (by norm_num)
      (by simp [length_dualFrom, head_length, expansionCalls]) exact forward strike
      (fun i below => kept _ _ i below) mid
    simp only [branchCalls, if_true, dualFrom_append]
    rw [tail]
    simp [volatilityAdjoint, swept, Arith.div, Arith.powNat, alpha.ne', small, bind,
      Except.bind, pure, Except.pure] at adjoint
    obtain ⟨rfl, rfl⟩ := adjoint
    simp only [cube, cube']
    simp only [literals.1, literals.2.1, literals.2.2.1, literals.2.2.2, Prod.mk.injEq,
      true_and, SabrQuote.toList, List.zipWith_cons_cons, List.zipWith_nil_right, List.sum_cons,
      List.sum_nil]
    ring
  | false =>
    have complement : (1 : ℝ) - q.rho ≠ 0 := by linarith
    have mid := ratio_duals x dx (n + inputCount headCalls) head_length exact small rho_gt rho_lt e3 e15
    have tail := tail_duals x dx (n + inputCount headCalls + inputCount ratioCalls) 27 (by norm_num)
      (by simp [length_dualFrom, head_length, ratioCalls]) exact forward strike
      (fun i below => kept _ _ i below) mid
    simp only [branchCalls, Bool.false_eq_true, if_false, dualFrom_append]
    rw [tail]
    simp [volatilityAdjoint, swept, Arith.div, Arith.powNat, alpha.ne', small, bind,
      Except.bind, pure, Except.pure, complement] at adjoint
    obtain ⟨rfl, rfl⟩ := adjoint
    simp only [cube, cube']
    simp only [literals.1, literals.2.1, literals.2.2.1, literals.2.2.2, Prod.mk.injEq,
      true_and, SabrQuote.toList, List.zipWith_cons_cons, List.zipWith_nil_right, List.sum_cons,
      List.sum_nil]
    ring

theorem recorded_eq_recordFrom (x : Nat → ℝ) (n : Nat) (q : SabrQuote (Var ℝ)) :
    recorded q = recordFrom x n q.toList headCalls >>= fun vs =>
      if |(vs.getD 15 ⟨0, 0⟩).value| < (zRange : ℝ) then
        recordFrom x n vs (expansionCalls ++ tailCalls 18) >>= fun ws => pure (ws.getD 51 ⟨0, 0⟩)
      else
        recordFrom x n vs (ratioCalls ++ tailCalls 27) >>= fun ws => pure (ws.getD 60 ⟨0, 0⟩) := by
  simp only [recorded, headCalls, expansionCalls, ratioCalls, tailCalls, recordFrom, Call.record,
    SabrQuote.toList, List.cons_append, List.nil_append, bind_assoc, List.getD_cons_succ,
    List.getD_cons_zero, Nat.reduceAdd, pure_bind, bind_pure, Scalar.abs_real]

theorem yields_recorded {r n : Nat} {t : Tape ℝ} (clean : t.Clean) (count : t.inputRank t.size = n)
    {q : SabrQuote (Var ℝ)} {v dv : SabrQuote ℝ}
    (tracked : List.Forall₂ (Tracks t r) q.toList (List.zip v.toList dv.toList))
    (forward : 0 < v.forward) (strike : 0 < v.strike) (alpha : 0 < v.alpha)
    (rho_gt : -1 < v.rho) (rho_lt : v.rho < 1) {vol : ℝ} {bar : SabrQuote ℝ}
    (adjoint : volatilityAdjoint .checked v = .ok (vol, bar)) :
    Yields r n (recorded q) t (vol, (List.zipWith (· * ·) bar.toList dv.toList).sum) := by
  obtain ⟨s, vol', bar', -, exact, adjoint', duals⟩ := dual_calls_eq_adjoint (fun _ => 0)
    (fun m => if m = r then 1 else 0) n v dv forward strike alpha rho_gt rho_lt
  simp only [adjoint, Except.ok.injEq, Prod.mk.injEq] at adjoint'
  obtain ⟨rfl, rfl⟩ := adjoint'
  rw [recorded_eq_recordFrom (fun _ => 0) n]
  obtain ⟨ws, u, ran, clean', count', ext, tracked', -⟩ := yields_recordFrom (fun _ => 0) headCalls
    clean count (tracksAll_of_forall₂ tracked) reads_before_head.getElem?
  have length : ws.length = 16 := by
    rw [tracked'.1, length_dualFrom]
    simp [SabrQuote.toList, headCalls]
  have no_inputs : inputCount headCalls = 0 := by simp [inputCount, headCalls, Call.isInput]
  -- the recording takes the branch the hand-written sweep takes
  have zed : (ws.getD 15 ⟨0, 0⟩).value = s.z := by
    obtain ⟨-, -, -, e15⟩ := head_duals (fun _ => 0) (fun m => if m = r then 1 else 0) n dv
      exact forward strike
    rw [(tracked'.2 15 (by omega)).2.1]
    exact congrArg Prod.fst e15
  have taken : |(ws.getD 15 ⟨0, 0⟩).value| < (zRange : ℝ) ↔ s.small = true := by
    rw [zed, exact.small, decide_eq_true_iff]
  -- either branch reads only earlier handles, records no input and answers its last handle
  have reads : ReadsBefore ws.length (branchCalls s.small) := by
    cases s.small <;>
      simp [length, branchCalls, expansionCalls, ratioCalls, tailCalls, ReadsBefore, Call.operands]
  have last : ws.length + (branchCalls s.small).length - 1 = if s.small then 51 else 60 := by
    cases s.small <;> simp [length, branchCalls, expansionCalls, ratioCalls, tailCalls]
  have none_recorded : inputCount (branchCalls s.small) = 0 := by
    cases s.small <;>
      simp [inputCount, branchCalls, expansionCalls, ratioCalls, tailCalls, Call.isInput]
  have yields := yields_recordFrom_last (fun _ => 0) _ clean' count' tracked' reads.getElem?
    (by cases s.small <;> simp [branchCalls, expansionCalls, ratioCalls])
  rw [dualFrom_append, no_inputs, add_zero] at duals
  rw [last, none_recorded, no_inputs, add_zero, add_zero, duals] at yields
  refine Yields.of_run_bind ran ext ?_
  cases small : s.small
  · have large : ¬ |(ws.getD 15 ⟨0, 0⟩).value| < (zRange : ℝ) := fun inside =>
      Bool.false_ne_true (small.symm.trans (taken.1 inside))
    simp only [branchCalls, small, Bool.false_eq_true, if_false] at yields
    rwa [if_neg large]
  · simp only [branchCalls, small, if_true] at yields
    rwa [if_pos (taken.2 small)]

end Sabr

end AdjointDiff
