import AdjointDiff.Proofs.Real.Domain
import AdjointDiff.Proofs.Real.Readout
import AdjointDiff.Proofs.Pricing.PriceMethods
import AdjointDiff.Proofs.Pricing.VolatilityDomain

set_option autoImplicit false

namespace AdjointDiff

open Recorder StraightLine

namespace SabrQuote

variable {α : Type}

@[simp] theorem ofList?_toList (q : SabrQuote α) : ofList? q.toList = some q := rfl

theorem ofList?_eq_some {xs : List α} (length : xs.length = 7) :
    ∃ q, ofList? xs = some q ∧ q.toList = xs := by
  match xs, length with
  | [_, _, _, _, _, _, _], _ => exact ⟨_, rfl, rfl⟩

theorem toList_map {β : Type} (g : α → β) (q : SabrQuote α) : (q.map g).toList = q.toList.map g :=
  rfl

def ofFn (y : Nat → α) : SabrQuote α := ⟨y 0, y 1, y 2, y 3, y 4, y 5, y 6⟩

theorem zip_map_fst_snd {β : Type} (d : SabrQuote (α × β)) :
    List.zip (d.map Prod.fst).toList (d.map Prod.snd).toList = d.toList := rfl

end SabrQuote

namespace SabrVolatilityMethod

theorem evaluate_onTape {m : SabrVolatilityMethod} (recorded : m.onTape = true) (q : SabrQuote ℝ)
    {value : ℝ} {bar : SabrQuote ℝ}
    (yields : ∀ {t : Tape ℝ} {r n : Nat} {h : SabrQuote (Var ℝ)} {dv : SabrQuote ℝ}, t.Clean →
      t.inputRank t.size = n → List.Forall₂ (Tracks t r) h.toList (List.zip q.toList dv.toList) →
      Yields r n (if m = hybrid then Sabr.hybrid h else Sabr.recorded h) t
        (value, (List.zipWith (· * ·) bar.toList dv.toList).sum)) :
    ∃ summary, m.evaluate q.toList = .ok (.onTape value bar.toList summary) := by
  simp only [evaluate, recorded, if_true]
  refine ofRecording_inputs q.toList (by simp [SabrQuote.toList])
    fun {t r n hs ds} clean count tracked values => ?_
  have seven : ds.length = 7 := by rw [← List.length_map, values]; rfl
  obtain ⟨h, named, rfl⟩ := SabrQuote.ofList?_eq_some (tracked.length_eq.trans seven)
  obtain ⟨d, -, rfl⟩ := SabrQuote.ofList?_eq_some seven
  -- the handles track the values of `q`, at whatever rates
  have point : d.map Prod.fst = q := by
    obtain ⟨_, _, _, _, _, _, _⟩ := d
    obtain ⟨_, _, _, _, _, _, _⟩ := q
    simpa [SabrQuote.map, SabrQuote.toList] using values
  subst point
  simp only [named]
  rw [← SabrQuote.toList_map]
  exact yields clean count (by rwa [SabrQuote.zip_map_fst_snd])

end SabrVolatilityMethod

namespace Sabr

noncomputable def program (small : Bool) : List Call :=
  List.replicate 7 .input ++ (headCalls ++ branchCalls small)

def output (small : Bool) : Nat := if small then 51 else 60

theorem scoped_program (small : Bool) : Scoped (program small) :=
  scoped_inputs_append (by
    cases small <;> simp [headCalls, branchCalls, expansionCalls, ratioCalls, tailCalls, ReadsBefore,
      Call.operands])

theorem output_lt (small : Bool) : output small < (program small).length := by
  cases small <;> simp [output, program, headCalls, branchCalls, expansionCalls, ratioCalls, tailCalls]

theorem z_handle_lt (small : Bool) : 15 < (program small).length := by
  cases small <;> simp [program, headCalls, branchCalls, expansionCalls, ratioCalls, tailCalls]

theorem dualFrom_program (y dy : Nat → ℝ) (small : Bool) :
    dualFrom y dy 0 [] (program small) = dualFrom y dy 7
      (List.zip (SabrQuote.ofFn y).toList (SabrQuote.ofFn dy).toList) (headCalls ++ branchCalls small) := by
  rw [program, dualFrom_append, dualFrom_inputs, inputCount_replicate_input]
  simp [SabrQuote.ofFn, SabrQuote.toList, List.range_succ]

theorem head_values (x dx : Nat → ℝ) (n : Nat) (q dq : SabrQuote ℝ) :
    let E := fun a => (dualFrom x dx n (List.zip q.toList dq.toList) headCalls).getD a (0, 0)
    (E 1).1 = q.alpha ∧ (E 5).1 = q.strike ∧ (E 8).1 = q.forward * q.strike ∧
      (E 11).1 = q.forward / q.strike := by
  intro E
  have step (k : Nat) (c : Call) (found : headCalls[k]? = some c) :
      E (7 + k) = c.dual x dx (n + inputCount (headCalls.take k)) E :=
    dualFrom_getD_call x dx n _ found (reads_before_head.getElem? k c found)
  have input (i : Nat) (below : i < 7) : E i = (List.zip q.toList dq.toList).getD i (0, 0) :=
    dualFrom_getD_of_lt x dx n _ _ (by simpa [SabrQuote.toList] using below)
  have e8 : (E 8).1 = q.forward * q.strike := by
    rw [step 1 _ rfl]
    simp [Call.dual, input, SabrQuote.toList]
  have e11 : (E 11).1 = q.forward / q.strike := by
    rw [step 4 _ rfl]
    simp [Call.dual, input, SabrQuote.toList]
  refine ⟨?_, ?_, e8, e11⟩
  · rw [input 1 (by norm_num)]
    simp [SabrQuote.toList]
  · rw [input 5 (by norm_num)]
    simp [SabrQuote.toList]

theorem ratio_values (x dx : Nat → ℝ) (n : Nat) {ds : List (ℝ × ℝ)} (length : ds.length = 16)
    {q : SabrQuote ℝ} {s : Sweep ℝ} (exact : s.Exact q) (small : s.small = false) {dRho dZ : ℝ}
    (rho : ds.getD 3 (0, 0) = (q.rho, dRho)) (zed : ds.getD 15 (0, 0) = (s.z, dZ)) :
    let E := fun a => (dualFrom x dx n ds ratioCalls).getD a (0, 0)
    (E 20).1 = 1 - 2 * q.rho * s.z + s.z * s.z ∧ (E 24).1 = 1 - q.rho ∧
      (E 25).1 = (s.sqz + s.z - q.rho) / (1 - q.rho) ∧ (E 26).1 = s.xz := by
  intro E
  have reads : ReadsBefore ds.length ratioCalls := by
    simp [length, ratioCalls, ReadsBefore, Call.operands]
  have step (k : Nat) (c : Call) (found : ratioCalls[k]? = some c) :
      E (16 + k) = c.dual x dx (n + inputCount (ratioCalls.take k)) E := by
    rw [← length]
    exact dualFrom_getD_call x dx n ds found (reads.getElem? k c found)
  have e3 : E 3 = (q.rho, dRho) := (dualFrom_getD_of_lt x dx n ds _ (by omega)).trans rho
  have e15 : E 15 = (s.z, dZ) := (dualFrom_getD_of_lt x dx n ds _ (by omega)).trans zed
  have e20 : (E 20).1 = 1 - 2 * q.rho * s.z + s.z * s.z := by
    rw [step 4 _ rfl]
    simp only [Call.dual]
    rw [step 2 _ rfl, step 3 _ rfl]
    simp only [Call.dual]
    rw [step 1 _ rfl]
    simp only [Call.dual]
    rw [step 0 _ rfl]
    simp only [Call.dual, e3, e15]
    norm_num
    ring
  have e24 : (E 24).1 = 1 - q.rho := by
    rw [step 8 _ rfl]
    simp only [Call.dual, e3]
    norm_num
    ring
  have e25 : (E 25).1 = (s.sqz + s.z - q.rho) / (1 - q.rho) := by
    rw [step 9 _ rfl]
    simp only [Call.dual]
    rw [step 7 _ rfl]
    simp only [Call.dual]
    rw [step 6 _ rfl]
    simp only [Call.dual]
    rw [step 5 _ rfl]
    simp only [Call.dual, e3, e15, e20, e24, exact.sqz, small, Bool.false_eq_true, if_false,
      Scalar.sqrt_real]
  refine ⟨e20, e24, e25, ?_⟩
  rw [step 10 _ rfl]
  simp only [Call.dual, e25, exact.xz, small]
  rfl

theorem tail_values (x dx : Nat → ℝ) (n p : Nat) (after : 15 < p) {ds : List (ℝ × ℝ)}
    (length : ds.length = p + 1) {q dq : SabrQuote ℝ} {s : Sweep ℝ} (exact : s.Exact q)
    (forward : 0 < q.forward) (strike : 0 < q.strike)
    (head : ∀ i < 16, ds.getD i (0, 0) =
      (dualFrom x dx n (List.zip q.toList dq.toList) headCalls).getD i (0, 0)) :
    let E := fun a => (dualFrom x dx n ds (tailCalls p)).getD a (0, 0)
    (E (p + 11)).1 = s.fkBeta * s.num1 ∧ (E (p + 15)).1 = s.fkBeta * s.fkBeta ∧
      (E 10).1 = s.fkBeta := by
  intro E
  have reads : ReadsBefore ds.length (tailCalls p) := by
    simp only [length, tailCalls, ReadsBefore, Call.operands]
    simp
    omega
  have step (j : Nat) (c : Call) (found : (tailCalls p)[j - 1]? = some c) (pos : 0 < j) :
      E (p + j) = c.dual x dx (n + inputCount ((tailCalls p).take (j - 1))) E := by
    have call := dualFrom_getD_call x dx n ds found (reads.getElem? (j - 1) c found)
    rwa [length, show p + 1 + (j - 1) = p + j by omega] at call
  obtain ⟨head7, head10, head12, -⟩ := head_duals x dx n dq exact forward strike
  have before (i : Nat) (below : i < 16) :
      E i = (dualFrom x dx n (List.zip q.toList dq.toList) headCalls).getD i (0, 0) :=
    (dualFrom_getD_of_lt x dx n ds _ (by omega)).trans (head i below)
  have h7 : (E 7).1 = s.beta1 := by rw [(before 7 (by omega)).trans head7]
  have h10 : (E 10).1 = s.fkBeta := by rw [(before 10 (by omega)).trans head10]
  have h12 : (E 12).1 = s.logFk := by rw [(before 12 (by omega)).trans head12]
  -- the denominator `1 + β₁²/24 log² + β₁⁴/1920 log⁴`, term by term
  have e10 : (E (p + 10)).1 = s.num1 := by
    rw [step 10 _ rfl (by norm_num)]
    simp only [Call.dual]
    rw [step 9 _ rfl (by norm_num)]
    simp only [Call.dual]
    rw [step 6 _ rfl (by norm_num), step 8 _ rfl (by norm_num)]
    simp only [Call.dual]
    rw [step 2 _ rfl (by norm_num), step 7 _ rfl (by norm_num)]
    simp only [Call.dual]
    rw [step 1 _ rfl (by norm_num), step 4 _ rfl (by norm_num), step 5 _ rfl (by norm_num)]
    simp only [Call.dual]
    rw [step 3 _ rfl (by norm_num)]
    simp only [Call.dual]
    rw [step 1 _ rfl (by norm_num)]
    simp only [Call.dual, h7, h12, exact.num1, exact.beta24, exact.beta1920, exact.logFk2]
    norm_num
    ring
  refine ⟨?_, ?_, h10⟩
  · rw [step 11 _ rfl (by norm_num)]
    simp only [Call.dual, h10, e10]
  · rw [step 15 _ rfl (by norm_num)]
    simp only [Call.dual, h10]

theorem branch_head_values (y dy : Nat → ℝ) (b : Bool) :
    let V := fun a => ((dualFrom y dy 0 [] (program b)).getD a (0, 0)).1
    V 1 = (SabrQuote.ofFn y).alpha ∧ V 5 = (SabrQuote.ofFn y).strike ∧
      V 8 = (SabrQuote.ofFn y).forward * (SabrQuote.ofFn y).strike ∧
      V 11 = (SabrQuote.ofFn y).forward / (SabrQuote.ofFn y).strike := by
  intro V
  obtain ⟨h1, h5, h8, h11⟩ := head_values y dy 7 (SabrQuote.ofFn y) (SabrQuote.ofFn dy)
  have headed (i : Nat) (below : i < 16) : V i =
      ((dualFrom y dy 7 (List.zip (SabrQuote.ofFn y).toList (SabrQuote.ofFn dy).toList)
        headCalls).getD i (0, 0)).1 := by
    simp only [V]
    rw [dualFrom_program, dualFrom_append, dualFrom_getD_of_lt y dy _ _ _
      (by simp [length_dualFrom, SabrQuote.toList, headCalls]; omega)]
  exact ⟨(headed 1 (by norm_num)).trans h1, (headed 5 (by norm_num)).trans h5,
    (headed 8 (by norm_num)).trans h8, (headed 11 (by norm_num)).trans h11⟩

section Point

variable (y dy : Nat → ℝ) (forward : 0 < y 0) (alpha : 0 < y 1) (rho_gt : -1 < y 3)
  (rho_lt : y 3 < 1) (strike : 0 < y 5)
include forward alpha rho_gt rho_lt strike

theorem program_duals {s : Sweep ℝ} (swept : sweep .checked (SabrQuote.ofFn y) = .ok s) :
    ∃ vol bar, volatilityAdjoint .checked (SabrQuote.ofFn y) = .ok (vol, bar) ∧
      (dualFrom y dy 0 [] (program s.small)).getD (output s.small) (0, 0) =
        (vol, (List.zipWith (· * ·) bar.toList (SabrQuote.ofFn dy).toList).sum) := by
  obtain ⟨s', vol, bar, swept', -, adjoint, duals⟩ := dual_calls_eq_adjoint y dy 7
    (SabrQuote.ofFn y) (SabrQuote.ofFn dy) forward strike alpha rho_gt rho_lt
  rw [swept, Except.ok.injEq] at swept'
  subst swept'
  refine ⟨vol, bar, adjoint, ?_⟩
  rw [dualFrom_program, output]
  exact duals

omit rho_gt rho_lt in
theorem expansion_regular {s : Sweep ℝ} (exact : s.Exact (SabrQuote.ofFn y)) :
    ∀ c ∈ program true, c.Regular fun a =>
      ((dualFrom y dy 0 [] (program true)).getD a (0, 0)).1 := by
  set q := SabrQuote.ofFn y
  set H := dualFrom y dy 7 (List.zip q.toList (SabrQuote.ofFn dy).toList) headCalls
  have length : H.length = 16 := by simp [H, length_dualFrom, SabrQuote.toList, headCalls]
  have unfolded : dualFrom y dy 0 [] (program true) =
      dualFrom y dy 7 (dualFrom y dy 7 H expansionCalls) (tailCalls 18) := by
    rw [dualFrom_program, dualFrom_append,
      show inputCount headCalls = 0 by simp [inputCount, headCalls, Call.isInput], branchCalls,
      if_pos rfl, dualFrom_append,
      show inputCount expansionCalls = 0 by simp [inputCount, expansionCalls, Call.isInput]]
  obtain ⟨t29, t33, t10⟩ := tail_values y dy 7 18 (by norm_num)
    (by simp [length_dualFrom, length, expansionCalls] :
      (dualFrom y dy 7 H expansionCalls).length = 18 + 1) exact forward strike
    (fun i below => dualFrom_getD_of_lt y dy 7 H _ (by omega))
  have head := branch_head_values y dy true
  have alpha_ne : q.alpha ≠ 0 := alpha.ne'
  have strike_ne : q.strike ≠ 0 := strike.ne'
  have product : 0 < q.forward * q.strike := mul_pos forward strike
  have quotient : 0 < q.forward / q.strike := div_pos forward strike
  set V := fun a => ((dualFrom y dy 0 [] (program true)).getD a (0, 0)).1 with hV
  obtain ⟨w1, w5, w8, w11⟩ : V 1 = q.alpha ∧ V 5 = q.strike ∧ V 8 = q.forward * q.strike ∧
      V 11 = q.forward / q.strike := head
  have w10 : V 10 = s.fkBeta := by simp only [hV, unfolded]; exact t10
  have w29 : V 29 = s.fkBeta * s.num1 := by simp only [hV, unfolded]; exact t29
  have w33 : V 33 = s.fkBeta * s.fkBeta := by simp only [hV, unfolded]; exact t33
  clear_value V
  simp [program, branchCalls, headCalls, expansionCalls, tailCalls, Call.Regular, w1, w5, w8, w11,
    w10, w29, w33, product, quotient, (exact.fkBeta_pos forward strike).ne', exact.num1_pos.ne',
    alpha_ne, strike_ne]

theorem ratio_regular {s : Sweep ℝ} (exact : s.Exact (SabrQuote.ofFn y)) (small : s.small = false) :
    ∀ c ∈ program false, c.Regular fun a =>
      ((dualFrom y dy 0 [] (program false)).getD a (0, 0)).1 := by
  set q := SabrQuote.ofFn y
  set H := dualFrom y dy 7 (List.zip q.toList (SabrQuote.ofFn dy).toList) headCalls
  have length : H.length = 16 := by simp [H, length_dualFrom, SabrQuote.toList, headCalls]
  have unfolded : dualFrom y dy 0 [] (program false) =
      dualFrom y dy 7 (dualFrom y dy 7 H ratioCalls) (tailCalls 27) := by
    rw [dualFrom_program, dualFrom_append,
      show inputCount headCalls = 0 by simp [inputCount, headCalls, Call.isInput], branchCalls,
      if_neg Bool.false_ne_true, dualFrom_append,
      show inputCount ratioCalls = 0 by simp [inputCount, ratioCalls, Call.isInput]]
  have ratio_length : (dualFrom y dy 7 H ratioCalls).length = 27 + 1 := by
    simp [length_dualFrom, length, ratioCalls]
  have rho : H.getD 3 (0, 0) = (q.rho, (SabrQuote.ofFn dy).rho) :=
    dualFrom_getD_of_lt y dy 7 _ _ (by simp [SabrQuote.toList])
  obtain ⟨-, -, -, h15⟩ := head_duals y dy 7 (SabrQuote.ofFn dy) exact forward strike
  obtain ⟨r20, r24, r25, r26⟩ := ratio_values y dy 7 length exact small rho h15
  obtain ⟨t38, t42, t10⟩ := tail_values y dy 7 27 (by norm_num) ratio_length exact forward strike
    (fun i below => dualFrom_getD_of_lt y dy 7 H _ (by omega))
  -- the tail leaves the ratio's handles alone
  have kept (i : Nat) (below : i < 28) :
      (dualFrom y dy 0 [] (program false)).getD i (0, 0) =
        (dualFrom y dy 7 H ratioCalls).getD i (0, 0) := by
    rw [unfolded]
    exact dualFrom_getD_of_lt y dy 7 _ _ (by omega)
  obtain ⟨root, shifted⟩ := exact.shifted_pos small rho_gt rho_lt
  have complement : (0 : ℝ) < 1 - q.rho := by linarith [show q.rho = y 3 from rfl]
  have head := branch_head_values y dy false
  have alpha_ne : q.alpha ≠ 0 := alpha.ne'
  have strike_ne : q.strike ≠ 0 := strike.ne'
  have product : 0 < q.forward * q.strike := mul_pos forward strike
  have quotient : 0 < q.forward / q.strike := div_pos forward strike
  set V := fun a => ((dualFrom y dy 0 [] (program false)).getD a (0, 0)).1 with hV
  obtain ⟨w1, w5, w8, w11⟩ : V 1 = q.alpha ∧ V 5 = q.strike ∧ V 8 = q.forward * q.strike ∧
      V 11 = q.forward / q.strike := head
  have w20 : V 20 = 1 - 2 * q.rho * s.z + s.z * s.z := by
    simp only [hV, kept 20 (by norm_num)]; exact r20
  have w24 : V 24 = 1 - q.rho := by simp only [hV, kept 24 (by norm_num)]; exact r24
  have w25 : V 25 = (s.sqz + s.z - q.rho) / (1 - q.rho) := by
    simp only [hV, kept 25 (by norm_num)]; exact r25
  have w26 : V 26 = s.xz := by simp only [hV, kept 26 (by norm_num)]; exact r26
  have w10 : V 10 = s.fkBeta := by simp only [hV, unfolded]; exact t10
  have w38 : V 38 = s.fkBeta * s.num1 := by simp only [hV, unfolded]; exact t38
  have w42 : V 42 = s.fkBeta * s.fkBeta := by simp only [hV, unfolded]; exact t42
  clear_value V
  simp [program, branchCalls, headCalls, ratioCalls, tailCalls, Call.Regular, w1, w5, w8, w11,
    w20, w24, w25, w26, w10, w38, w42, product, quotient, (exact.fkBeta_pos forward strike).ne',
    exact.num1_pos.ne', alpha_ne, strike_ne, radicand_pos s.z q.rho rho_gt rho_lt,
    complement.ne', div_pos shifted complement, exact.xz_ne_zero small rho_gt rho_lt]

theorem program_regular {s : Sweep ℝ} (swept : sweep .checked (SabrQuote.ofFn y) = .ok s) :
    ∀ c ∈ program s.small, c.Regular fun a =>
      ((dualFrom y dy 0 [] (program s.small)).getD a (0, 0)).1 := by
  have exact := Sweep.Exact.of_sweep swept alpha.ne' strike.ne'
  cases small : s.small with
  | true => exact expansion_regular y dy forward alpha strike exact
  | false => exact ratio_regular y dy forward alpha rho_gt rho_lt strike exact small

omit rho_gt rho_lt in
theorem program_z {s : Sweep ℝ} (swept : sweep .checked (SabrQuote.ofFn y) = .ok s) (b : Bool) :
    ((dualFrom y dy 0 [] (program b)).getD 15 (0, 0)).1 = s.z := by
  have exact := Sweep.Exact.of_sweep swept alpha.ne' strike.ne'
  obtain ⟨-, -, -, h15⟩ := head_duals y dy 7 (SabrQuote.ofFn dy) exact forward strike
  rw [dualFrom_program, dualFrom_append, dualFrom_getD_of_lt y dy _ _ _
    (by simp [length_dualFrom, SabrQuote.toList, headCalls])]
  exact congrArg Prod.fst h15

omit dy in
theorem volatility_eq_program {s : Sweep ℝ} (swept : sweep .checked (SabrQuote.ofFn y) = .ok s) :
    volatility .checked (SabrQuote.ofFn y) = .ok (value (program s.small) (output s.small) y) := by
  obtain ⟨vol, bar, adjoint, duals⟩ :=
    program_duals y (fun m => if m = 0 then 1 else 0) forward alpha rho_gt rho_lt strike swept
  rw [volatility_eq_of_volatilityAdjoint adjoint,
    value_eq_dual (scoped_program _) (output_lt _) y 0, duals]

omit dy in
theorem hasDerivAt_program {s : Sweep ℝ} (swept : sweep .checked (SabrQuote.ofFn y) = .ok s)
    {vol : ℝ} {bar : SabrQuote ℝ}
    (adjoint : volatilityAdjoint .checked (SabrQuote.ofFn y) = .ok (vol, bar)) (r : Nat)
    (within : r < bar.toList.length) :
    HasDerivAt (fun u => value (program s.small) (output s.small) (Function.update y r u))
      bar.toList[r] (y r) := by
  have rate := hasDerivAt_value_of_regular (scoped_program s.small) (output_lt s.small) y r
    (program_regular y _ forward alpha rho_gt rho_lt strike swept)
  obtain ⟨vol', bar', adjoint', duals⟩ :=
    program_duals y (fun m => if m = r then 1 else 0) forward alpha rho_gt rho_lt strike swept
  rw [adjoint, Except.ok.injEq, Prod.mk.injEq] at adjoint'
  obtain ⟨rfl, rfl⟩ := adjoint'
  -- input `r` alone moves, at rate one
  have unit : (SabrQuote.ofFn fun m => if m = r then (1 : ℝ) else 0).toList =
      (List.range bar.toList.length).map fun i => if i = r then 1 else 0 := by
    simp [SabrQuote.ofFn, SabrQuote.toList, List.range_succ]
  rwa [duals, unit, sum_zipWith_unit bar.toList within] at rate

omit dy in
theorem continuousAt_z {s : Sweep ℝ} (swept : sweep .checked (SabrQuote.ofFn y) = .ok s) (r : Nat) :
    ContinuousAt (fun u => value (program s.small) 15 (Function.update y r u)) (y r) :=
  (hasDerivAt_value_of_regular (scoped_program s.small) (z_handle_lt s.small) y r (program_regular y _ forward alpha rho_gt rho_lt strike swept)).continuousAt

end Point

theorem eventually_update (x : Nat → ℝ) (r i : Nat) {S : Set ℝ} (opened : IsOpen S) (mem : x i ∈ S) :
    ∀ᶠ u in nhds (x r), Function.update x r u i ∈ S := by
  by_cases same : i = r
  · subst same
    simpa using opened.mem_nhds mem
  · simp only [Function.update_of_ne same]
    exact Filter.Eventually.of_forall fun _ => mem

theorem eventually_volatility_eq_program (y : Nat → ℝ) (forward : 0 < y 0) (alpha : 0 < y 1)
    (rho_gt : -1 < y 3) (rho_lt : y 3 < 1) (strike : 0 < y 5) {s : Sweep ℝ}
    (swept : sweep .checked (SabrQuote.ofFn y) = .ok s) (switch : |s.z| ≠ zRange) (r : Nat) :
    ∀ᶠ u in nhds (y r), volatility .checked (SabrQuote.ofFn (Function.update y r u)) =
      .ok (value (program s.small) (output s.small) (Function.update y r u)) := by
  have exact := Sweep.Exact.of_sweep swept alpha.ne' strike.ne'
  set z := fun u => value (program s.small) 15 (Function.update y r u)
  have z_at : z (y r) = s.z := by
    simp only [z, Function.update_eq_self]
    rw [value_eq_dual (scoped_program _) (z_handle_lt _) y 0]
    exact program_z y _ forward alpha strike swept s.small
  have moving : ContinuousAt (fun u => |z u|) (y r) :=
    (continuousAt_z y forward alpha rho_gt rho_lt strike swept r).abs
  have bound : ContinuousAt (fun _ : ℝ => (zRange : ℝ)) (y r) := continuousAt_const
  -- `z` stays on its side of the switch
  have side : ∀ᶠ u in nhds (y r), decide (|z u| < zRange) = s.small := by
    rw [exact.small]
    rcases lt_or_gt_of_ne switch with below | above
    · filter_upwards [moving.eventually_lt bound (by simpa only [z_at] using below)] with u near
      simp [near, below]
    · filter_upwards [bound.eventually_lt moving (by simpa only [z_at] using above)] with u near
      simp [not_lt.2 near.le, not_lt.2 above.le]
  filter_upwards [eventually_update y r 0 isOpen_Ioi forward, eventually_update y r 1 isOpen_Ioi alpha,
    eventually_update y r 3 isOpen_Ioo ⟨rho_gt, rho_lt⟩, eventually_update y r 5 isOpen_Ioi strike,
    side] with u forward' alpha' rho' strike' side'
  obtain ⟨s', swept', exact'⟩ :=
    sweep_exact (SabrQuote.ofFn (Function.update y r u)) (ne_of_gt alpha') (ne_of_gt strike')
  -- the sweep there takes the same branch
  have z_there : z u = s'.z := by
    simp only [z]
    rw [value_eq_dual (scoped_program _) (z_handle_lt _) _ 0]
    exact program_z _ _ forward' alpha' strike' swept' s.small
  have same : s'.small = s.small := by rw [exact'.small, ← side', z_there]
  rw [volatility_eq_program _ forward' alpha' rho'.1 rho'.2 strike' swept', same]

end Sabr

/-- The methods of the SABR volatility agree: over the reals, with a positive forward, strike and
alpha and a correlation strictly between `-1` and `1`, the plain volatility, its hand-written
adjoint, its recording and the hand-written gradient spliced into a tape answer one value and one
gradient by the seven inputs. That gradient is the gradient of the formula of the branch the
sweep takes, and away from the switch `|z| = 10⁻⁶` the volatility near the inputs is that
formula. -/
theorem volatility_methods_agree (q : SabrQuote ℝ) (forward : 0 < q.forward)
    (strike : 0 < q.strike) (alpha : 0 < q.alpha) (rho_gt : -1 < q.rho) (rho_lt : q.rho < 1) :
    ∃ value g, g.length = 7 ∧
      SabrVolatilityMethod.volatility.evaluate q.toList = .ok (.value value) ∧
      SabrVolatilityMethod.adjoint.evaluate q.toList = .ok (.withGradient value g) ∧
      (∃ summary, SabrVolatilityMethod.recorded.evaluate q.toList = .ok (.onTape value g summary)) ∧
      (∃ summary, SabrVolatilityMethod.hybrid.evaluate q.toList = .ok (.onTape value g summary)) ∧
      ∃ s, Sabr.sweep .checked q = .ok s ∧
        (∀ (r : Nat) (within : r < g.length),
          HasDerivAt (fun u => StraightLine.value (Sabr.program s.small) (Sabr.output s.small)
            (Function.update (fun i => q.toList.getD i 0) r u)) g[r] (q.toList.getD r 0)) ∧
        (|s.z| ≠ Sabr.zRange → ∀ r : Nat, ∀ᶠ u in nhds (q.toList.getD r 0),
          Sabr.volatility .checked
              (SabrQuote.ofFn (Function.update (fun i => q.toList.getD i 0) r u)) =
            .ok (StraightLine.value (Sabr.program s.small) (Sabr.output s.small)
              (Function.update (fun i => q.toList.getD i 0) r u))) := by
  obtain ⟨s, vol, bar, swept, -, adjoint⟩ := Sabr.volatilityAdjoint_ok q strike alpha rho_lt
  set y := fun i => q.toList.getD i 0
  have point : SabrQuote.ofFn y = q := by
    obtain ⟨_, _, _, _, _, _, _⟩ := q
    rfl
  -- the inputs as a point of the seven coordinates
  have forward' : 0 < y 0 := forward
  have alpha' : 0 < y 1 := alpha
  have rho_gt' : -1 < y 3 := rho_gt
  have rho_lt' : y 3 < 1 := rho_lt
  have strike' : 0 < y 5 := strike
  have swept' : Sabr.sweep .checked (SabrQuote.ofFn y) = .ok s := by rwa [point]
  have adjoint' : Sabr.volatilityAdjoint .checked (SabrQuote.ofFn y) = .ok (vol, bar) := by
    rwa [point]
  refine ⟨vol, bar.toList, rfl, ?_, ?_, ?_, ?_, s, swept, fun r within => ?_, fun switch r => ?_⟩
  · simp [SabrVolatilityMethod.evaluate, SabrVolatilityMethod.onTape,
      Sabr.volatility_eq_of_volatilityAdjoint adjoint]
  · simp [SabrVolatilityMethod.evaluate, SabrVolatilityMethod.onTape, adjoint, Evaluation.ofPair]
  · exact SabrVolatilityMethod.evaluate_onTape rfl q fun clean count tracked =>
      Sabr.yields_recorded clean count tracked forward strike alpha rho_gt rho_lt adjoint
  · exact SabrVolatilityMethod.evaluate_onTape rfl q fun clean count tracked =>
      Sabr.yields_hybrid clean count tracked adjoint
  · exact Sabr.hasDerivAt_program y forward' alpha' rho_gt' rho_lt' strike' swept' adjoint' r within
  · exact Sabr.eventually_volatility_eq_program y forward' alpha' rho_gt' rho_lt' strike' swept'
      switch r

theorem volatility_methods_agree_at_the_money :
    let q : SabrQuote ℝ := ⟨1, 1 / 5, 1 / 2, 0, 1 / 2, 1, 1⟩
    (0 < q.forward ∧ 0 < q.strike ∧ 0 < q.alpha ∧ -1 < q.rho ∧ q.rho < 1) ∧
    ∃ value g, g.length = 7 ∧
      SabrVolatilityMethod.volatility.evaluate q.toList = .ok (.value value) ∧
      SabrVolatilityMethod.adjoint.evaluate q.toList = .ok (.withGradient value g) ∧
      (∃ summary, SabrVolatilityMethod.recorded.evaluate q.toList = .ok (.onTape value g summary)) ∧
      (∃ summary, SabrVolatilityMethod.hybrid.evaluate q.toList = .ok (.onTape value g summary)) ∧
      ∃ s, Sabr.sweep .checked q = .ok s ∧
        (∀ (r : Nat) (within : r < g.length),
          HasDerivAt (fun u => StraightLine.value (Sabr.program s.small) (Sabr.output s.small)
            (Function.update (fun i => q.toList.getD i 0) r u)) g[r] (q.toList.getD r 0)) ∧
        (|s.z| ≠ Sabr.zRange → ∀ r : Nat, ∀ᶠ u in nhds (q.toList.getD r 0),
          Sabr.volatility .checked
              (SabrQuote.ofFn (Function.update (fun i => q.toList.getD i 0) r u)) =
            .ok (StraightLine.value (Sabr.program s.small) (Sabr.output s.small)
              (Function.update (fun i => q.toList.getD i 0) r u))) := by
  intro q
  exact ⟨⟨by norm_num [q], by norm_num [q], by norm_num [q], by norm_num [q], by norm_num [q]⟩,
    volatility_methods_agree q (by norm_num [q]) (by norm_num [q]) (by norm_num [q])
      (by norm_num [q]) (by norm_num [q])⟩

end AdjointDiff
