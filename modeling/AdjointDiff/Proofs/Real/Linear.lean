import AdjointDiff.Proofs.Real.Readout

set_option autoImplicit false

namespace AdjointDiff

open Recorder

namespace StraightLine

namespace Call

variable (x dx : Nat → ℝ) (n : Nat)

theorem dual_fst_congr (c : Call) {d d' : Nat → ℝ × ℝ} (values : ∀ a, (d a).1 = (d' a).1) :
    (c.dual x dx n d).1 = (c.dual x dx n d').1 := by
  cases c <;> simp [dual, values]

theorem dual_of_computed {c : Call} (computed : c.isInput = false) (x' dx' : Nat → ℝ) (n' : Nat)
    (d : Nat → ℝ × ℝ) : c.dual x dx n d = c.dual x' dx' n' d := by
  cases c <;> simp_all [dual, isInput]

theorem isLinearMap_rate {c : Call} (computed : c.isInput = false) (values : Nat → ℝ) :
    IsLinearMap ℝ fun ρ : Nat → ℝ => (c.dual x dx n fun a => (values a, ρ a)).2 where
  map_add ρ σ := by cases c <;> simp_all [dual, isInput] <;> ring
  map_smul k ρ := by cases c <;> simp_all [dual, isInput] <;> ring

theorem dual_snd_sum {c : Call} (computed : c.isInput = false) (values : Nat → ℝ) {ι : Type}
    (s : Finset ι) (w : ι → ℝ) (ρ : ι → Nat → ℝ) :
    (c.dual x dx n fun a => (values a, ∑ i ∈ s, w i * ρ i a)).2 =
      ∑ i ∈ s, w i * (c.dual x dx n fun a => (values a, ρ i a)).2 := by
  set L := IsLinearMap.mk' _ (isLinearMap_rate x dx n computed values)
  have combined : (fun a => (values a, ∑ i ∈ s, w i * ρ i a)) =
      fun a => (values a, (∑ i ∈ s, w i • ρ i) a) := by
    funext a
    simp [Finset.sum_apply]
  calc _ = L (∑ i ∈ s, w i • ρ i) := by rw [combined]; rfl
    _ = ∑ i ∈ s, w i * L (ρ i) := by simp only [map_sum, map_smul, smul_eq_mul]

end Call

theorem getD_concat {α : Type} (l : List α) (y d : α) (a : Nat) :
    (l ++ [y]).getD a d = if a < l.length then l.getD a d else if a = l.length then y else d := by
  rcases lt_trichotomy a l.length with below | rfl | above
  · rw [List.getD_append _ _ _ _ below, if_pos below]
  · simp
  · rw [List.getD_eq_default _ _ (by simp; omega), if_neg (by omega), if_neg (by omega)]

section Combines

variable {ι : Type} {s : Finset ι} {w : ι → ℝ} {ds : List (ℝ × ℝ)} {dss : ι → List (ℝ × ℝ)}

structure Combines (s : Finset ι) (w : ι → ℝ) (ds : List (ℝ × ℝ)) (dss : ι → List (ℝ × ℝ)) :
    Prop where
  length : ∀ i, (dss i).length = ds.length
  values : ∀ i a, ((dss i).getD a (0, 0)).1 = (ds.getD a (0, 0)).1
  rates : ∀ a, (ds.getD a (0, 0)).2 = ∑ i ∈ s, w i * ((dss i).getD a (0, 0)).2

variable (x dx : Nat → ℝ) (n : Nat)

theorem Combines.append (comb : Combines s w ds dss) {c : Call} (computed : c.isInput = false) :
    Combines s w (ds ++ [c.dual x dx n fun a => ds.getD a (0, 0)])
      (fun i => dss i ++ [c.dual x dx n fun a => (dss i).getD a (0, 0)]) := by
  -- every `dss i` is `ds` with other rates
  have split (j : ι) : (fun a => (dss j).getD a (0, 0)) =
      fun a => ((ds.getD a (0, 0)).1, ((dss j).getD a (0, 0)).2) :=
    funext fun a => Prod.ext (comb.values j a) rfl
  have combined : (fun a => ds.getD a (0, 0)) =
      fun a => ((ds.getD a (0, 0)).1, ∑ i ∈ s, w i * ((dss i).getD a (0, 0)).2) :=
    funext fun a => Prod.ext rfl (comb.rates a)
  refine ⟨fun i => by simp [comb.length i], fun i a => ?_, fun a => ?_⟩
  · simp only [getD_concat, comb.length i]
    split_ifs
    · exact comb.values i a
    · exact Call.dual_fst_congr x dx n c (comb.values i)
    · rfl
  · simp only [getD_concat, comb.length]
    split_ifs
    · exact comb.rates a
    · rw [combined, Call.dual_snd_sum x dx n computed]
      exact Finset.sum_congr rfl fun j _ => by rw [split j]
    · simp

theorem Combines.dualFrom (comb : Combines s w ds dss) {calls : List Call}
    (computed : ∀ c ∈ calls, c.isInput = false) :
    Combines s w (dualFrom x dx n ds calls) (fun i => dualFrom x dx n (dss i) calls) := by
  induction calls generalizing ds dss with
  | nil => exact comb
  | cons c cs ih =>
    have first : c.isInput = false := computed c (by simp)
    simp only [StraightLine.dualFrom, first, Bool.false_eq_true, if_false]
    exact ih (comb.append x dx n first) fun c' mem => computed c' (by simp [mem])

end Combines

variable (x dx : Nat → ℝ)

theorem dualFrom_of_computed {calls : List Call} (computed : ∀ c ∈ calls, c.isInput = false)
    (x' dx' : Nat → ℝ) (n n' : Nat) (ds : List (ℝ × ℝ)) :
    dualFrom x dx n ds calls = dualFrom x' dx' n' ds calls := by
  induction calls generalizing ds with
  | nil => rfl
  | cons c cs ih =>
    have first : c.isInput = false := computed c (by simp)
    simp only [dualFrom, first, Bool.false_eq_true, if_false,
      Call.dual_of_computed x dx n first x' dx' n']
    exact ih (fun c' mem => computed c' (by simp [mem])) _

theorem dualFrom_inputs (k : Nat) (ds : List (ℝ × ℝ)) (m : Nat) :
    dualFrom x dx k ds (List.replicate m .input) =
      ds ++ (List.range m).map fun i => (x (k + i), dx (k + i)) := by
  induction m generalizing k ds with
  | zero => simp [dualFrom]
  | succ m ih =>
    rw [List.replicate_succ, dualFrom]
    simp only [Call.isInput, if_true]
    rw [ih, List.range_succ_eq_map]
    simp [Call.dual, Nat.add_assoc, Nat.add_comm 1]

@[simp] theorem inputCount_replicate_input (m : Nat) :
    inputCount (List.replicate m .input) = m := by
  simp [inputCount, List.countP_replicate, Call.isInput]

theorem run_record {calls : List Call} (reads_earlier : Scoped calls) (x : Nat → ℝ) :
    ∃ ws u, run (record x calls) Tape.empty = (.ok ws, u) ∧ u.Clean ∧
      u.inputRank u.size = inputCount calls ∧
      ∀ r, TracksAll u r ws (dualFrom x (fun m => if m = r then 1 else 0) 0 [] calls) := by
  have recorded (r : Nat) := yields_recordFrom x calls Tape.clean_empty (Tape.inputRank_empty _)
    (⟨rfl, by simp⟩ : TracksAll Tape.empty r [] []) fun p c found a mem => by
      simpa using reads_earlier p c found a mem
  obtain ⟨ws, u, ran, clean, count, -, -, -⟩ := recorded 0
  refine ⟨ws, u, ran, clean, by simpa using count, fun r => ?_⟩
  -- the run is the same for every input
  obtain ⟨ws', u', ran', -, -, -, tracked, -⟩ := recorded r
  rw [ran] at ran'
  simp only [Prod.mk.injEq, Except.ok.injEq] at ran'
  obtain ⟨rfl, rfl⟩ := ran'
  exact tracked

theorem length_of_tracksAll {t : Tape ℝ} {r : Nat} {vs : List (Var ℝ)} {y dy : Nat → ℝ}
    {calls : List Call} (tracked : TracksAll t r vs (dualFrom y dy 0 [] calls)) :
    vs.length = calls.length := by
  rw [tracked.1, length_dualFrom]
  simp

theorem gradient_eq_rates {calls : List Call} (reads_earlier : Scoped calls) {o : Nat}
    (output : o < calls.length) (x : Nat → ℝ) :
    gradient calls o x = .ok ((List.range (inputCount calls)).map fun r =>
      ((dualFrom x (fun m => if m = r then 1 else 0) 0 [] calls).getD o (0, 0)).2) := by
  obtain ⟨ws, u, ran, clean, count, tracked⟩ := run_record reads_earlier x
  have inside : o < ws.length := by rw [length_of_tracksAll (tracked 0)]; exact output
  obtain ⟨nonneg, within, -⟩ := ((tracked 0).2 o inside).1
  have rate (r : Nat) : u.tangent r (ws.getD o ⟨0, 0⟩).index.toNat =
      ((dualFrom x (fun m => if m = r then 1 else 0) 0 [] calls).getD o (0, 0)).2 :=
    ((tracked r).2 o inside).2.2
  simp only [gradient]
  rw [run_bind_of_ok ran, run_bind_of_ok (Tape.run_interpret_some clean nonneg within), run_seq_get,
    run_lift, Tape.gradient?_swept clean within, count]
  simp only [rate]

theorem value_eq_dual {calls : List Call} (reads_earlier : Scoped calls) {o : Nat}
    (output : o < calls.length) (x : Nat → ℝ) (r : Nat) :
    value calls o x = ((dualFrom x (fun m => if m = r then 1 else 0) 0 [] calls).getD o (0, 0)).1 := by
  obtain ⟨ws, u, ran, -, -, tracked⟩ := run_record reads_earlier x
  have inside : o < ws.length := by rw [length_of_tracksAll (tracked r)]; exact output
  simp only [value, ran]
  exact ((tracked r).2 o inside).2.1

theorem dualFrom_computation {body : List Call} (computed : ∀ c ∈ body, c.isInput = false)
    (n : Nat) (as : List (ℝ × ℝ)) {y : Nat → ℝ} (values : ∀ i < as.length, y i = (as.getD i (0, 0)).1)
    (o : Nat) :
    let alone := List.replicate as.length .input ++ body
    (dualFrom x dx n as body).getD o (0, 0) =
      (((dualFrom y (fun m => if m = 0 then 1 else 0) 0 [] alone).getD o (0, 0)).1,
        ∑ i ∈ Finset.range as.length, (as.getD i (0, 0)).2 *
          ((dualFrom y (fun m => if m = i then 1 else 0) 0 [] alone).getD o (0, 0)).2) := by
  intro alone
  -- the handles the inputs give, input `i` alone moving
  set unit : Nat → List (ℝ × ℝ) := fun i =>
    (List.range as.length).map fun j => (y j, if j = i then 1 else 0) with unit_def
  have recorded_alone (i : Nat) : dualFrom y (fun m => if m = i then 1 else 0) 0 [] alone =
      dualFrom x dx n (unit i) body := by
    rw [dualFrom_append, dualFrom_inputs, inputCount_replicate_input,
      dualFrom_of_computed _ _ computed x dx _ n]
    simp [unit_def]
  have split : Combines (Finset.range as.length) (fun i => (as.getD i (0, 0)).2) as unit := by
    refine ⟨fun i => by simp [unit_def], fun i a => ?_, fun a => ?_⟩
    · by_cases inside : a < as.length
      · simp [unit_def, List.getD_eq_getElem?_getD, inside, values a inside]
      · rw [List.getD_eq_default _ _ (by simpa [unit_def] using inside),
          List.getD_eq_default _ _ (by omega)]
    · by_cases inside : a < as.length
      · simp [unit_def, List.getD_eq_getElem?_getD, inside]
      · rw [List.getD_eq_default _ _ (by omega)]
        simp [unit_def, List.getD_eq_getElem?_getD, inside]
  have run := split.dualFrom x dx n computed
  refine Prod.ext ?_ ?_
  · rw [recorded_alone, run.values 0 o]
  · simp only [recorded_alone]
    exact run.rates o

end StraightLine

end AdjointDiff
