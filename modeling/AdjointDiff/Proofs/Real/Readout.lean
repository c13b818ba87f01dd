import AdjointDiff.Proofs.Real.Dual
import AdjointDiff.Formula.Evaluation

set_option autoImplicit false

namespace AdjointDiff

open Recorder

namespace Tape

variable {t : Tape ℝ}

@[simp] theorem inputRank_empty (k : Nat) : (Tape.empty : Tape ℝ).inputRank k = 0 := by
  simp [inputRank, Tape.empty]

theorem extends_empty (T : Tape ℝ) : T.Extends Tape.empty :=
  ⟨Nat.zero_le _, fun i below => absurd below (by simp [size, Tape.empty])⟩

theorem run_interpret_none (clean : t.Clean) (nonempty : t.size ≠ 0) :
    run (interpret none) t =
      (.ok (), { t.withAdjoints (t.sweepAdjoints (t.size - 1)) with interpreted := true }) := by
  have last : (t.size : Int) - 1 = ((t.size - 1 : Nat) : Int) := by omega
  rw [run_interpret, if_neg nonempty, if_neg (by simp [clean.fresh]), Option.getD_none, last]
  exact run_sweepFrom t clean.topological (by omega) fun k _ => clean.complete k

theorem run_interpret_some (clean : t.Clean) {i : Int} (nonneg : 0 ≤ i) (within : i.toNat < t.size) :
    run (interpret (some i)) t =
      (.ok (), { t.withAdjoints (t.sweepAdjoints i.toNat) with interpreted := true }) := by
  have cast : i = ((i.toNat : Nat) : Int) := (Int.toNat_of_nonneg nonneg).symm
  rw [cast, run_interpret_at t within clean.fresh,
    run_sweepFrom t clean.topological within fun k _ => clean.complete k, ← cast]

theorem gradient?_swept (clean : t.Clean) {s : Nat} (within : s < t.size) :
    ({ t.withAdjoints (t.sweepAdjoints s) with interpreted := true } : Tape ℝ).gradient? =
      .ok ((List.range (t.inputRank t.size)).map fun r => t.tangent r s) := by
  have count : t.inputRank t.size = t.entries.toList.countP isInputEntry := by
    rw [inputRank, size, ← Array.length_toList, List.take_length]
  simp only [gradient?, if_true, withAdjoints, Array.toList_mapIdx, filterMap_withAdjoints,
    Except.ok.injEq, count]
  apply List.ext_getElem (by simp [length_inputAdjoints])
  intro r within_adjoints _
  have counted : r < t.entries.toList.countP isInputEntry := by
    rwa [length_inputAdjoints] at within_adjoints
  -- component `r` is the adjoint of the input entry numbered `r`
  obtain ⟨m, e, found, input, rank⟩ := exists_input_of_lt_count t.entries.toList counted
  have found' : t.entries[m]? = some e := by simpa using found
  have component : (inputAdjoints t.entries.toList (t.sweepAdjoints s))[r]? =
      some (t.sweepAdjoints s m) := by
    rw [← rank]
    exact inputAdjoints_getElem? _ _ found input
  have rank' : t.inputRank m = r := rank
  rw [(List.getElem_eq_iff within_adjoints).2 component, List.getElem_map, List.getElem_range,
    ← tangent_eq_sweepAdjoints clean.topological clean.complete clean.unswept within found' input,
    rank']

end Tape

namespace StraightLine

variable {t T : Tape ℝ} {r n : Nat}

def Declared (t : Tape ℝ) (h : Var ℝ) (x : ℝ × Nat) : Prop :=
  Valid t h ∧ h.value = x.1 ∧ t.kindAt h.index.toNat = some .input ∧
    t.inputRank h.index.toNat = x.2

theorem Declared.entry {h : Var ℝ} {x : ℝ × Nat} (declared : Declared t h x) :
    ∃ e, t.entries[h.index.toNat]? = some e ∧ e.kind = .input := by
  simpa [Tape.kindAt] using declared.2.2.1

theorem Declared.mono {h : Var ℝ} {x : ℝ × Nat} (declared : Declared t h x) (ext : T.Extends t) :
    Declared T h x := by
  obtain ⟨⟨nonneg, below, stored⟩, value, kind, rank⟩ := declared
  refine ⟨⟨nonneg, lt_of_lt_of_le below ext.1, stored.trans (ext.valueAt below).symm⟩, value,
    ?_, ?_⟩
  · simpa [Tape.kindAt, ext.2 _ below] using kind
  · rw [ext.inputRank below.le, rank]

theorem Declared.tracks {h : Var ℝ} {x : ℝ × Nat} (declared : Declared t h x) (r : Nat) :
    Tracks t r h (x.1, if x.2 = r then 1 else 0) := by
  obtain ⟨e, found, input⟩ := declared.entry
  exact ⟨declared.1, declared.2.1, by rw [Tape.tangent_of_input found input, declared.2.2.2]⟩

theorem declare_input (clean : t.Clean) (x : ℝ) :
    ∃ h u, run (Record.input x) t = (.ok h, u) ∧ u.Clean ∧ u.Extends t ∧
      u.inputRank u.size = t.inputRank t.size + 1 ∧ Declared u h (x, t.inputRank t.size) := by
  have none_below : ∀ i ∈ (none : Option Nat), i < t.size := by simp
  have complete : (⟨.input, none, none, x, 0.0, 0.0⟩ : Entry ℝ).Complete :=
    Entry.complete_input _ _ _
  have found : (t.appended .input none none x 0.0).entries[t.size]? =
      some ⟨.input, none, none, x, 0.0, 0.0⟩ := by
    simp [Tape.appended_getElem?]
  refine ⟨_, _, Record.run_entry_of_fresh clean.fresh .input none_below none_below x 0.0,
    clean.appended none_below none_below x 0.0 complete,
    Tape.extends_appended t .input none none x 0.0, ?_, valid_appended_last, rfl, ?_, ?_⟩
  · rw [Tape.appended_size, Tape.inputRank_appended_size, if_pos rfl]
  · simp only [Tape.kindAt, Int.toNat_natCast, found, Option.map_some]
  · rw [Int.toNat_natCast, Tape.inputRank_appended t .input none none x 0.0 le_rfl]

theorem run_inputs (clean : t.Clean) (xs : List ℝ) :
    ∃ hs u, run (Record.inputs xs) t = (.ok hs, u) ∧ u.Clean ∧ u.Extends t ∧
      u.inputRank u.size = t.inputRank t.size + xs.length ∧
      List.Forall₂ (Declared u) hs (xs.zipIdx (t.inputRank t.size)) := by
  induction xs generalizing t with
  | nil => exact ⟨[], t, rfl, clean, Tape.Extends.refl t, rfl, .nil⟩
  | cons x xs ih =>
    obtain ⟨h, u, ran, clean', ext, count, declared⟩ := declare_input clean x
    obtain ⟨hs, u', ran', clean'', ext', count', rest⟩ := ih clean'
    rw [count] at count' rest
    refine ⟨h :: hs, u', ?_, clean'', ext'.trans ext, by simp only [count', List.length_cons]; omega,
      .cons (declared.mono ext') rest⟩
    simp only [Record.inputs, List.mapM_cons] at ran' ⊢
    rw [run_bind_of_ok ran, run_bind_of_ok ran']
    rfl

theorem Yields.tracks_of_run {m : Recorder ℝ (Var ℝ)} {d : ℝ × ℝ} {v : Var ℝ} {u : Tape ℝ}
    (yields : Yields r n m t d) (ran : run m t = (.ok v, u)) : Tracks u r v d := by
  obtain ⟨v', u', ran', -, -, -, tracks, -⟩ := yields
  rw [ran] at ran'
  simp only [Prod.mk.injEq, Except.ok.injEq] at ran'
  obtain ⟨rfl, rfl⟩ := ran'
  exact tracks

theorem adjointOf_swept (clean : t.Clean) {s : Nat} (within : s < t.size) {h : Var ℝ}
    {x : ℝ × Nat} (declared : Declared t h x) :
    ({ t.withAdjoints (t.sweepAdjoints s) with interpreted := true } : Tape ℝ).adjointOf h =
      t.tangent x.2 s := by
  obtain ⟨e, found, input⟩ := declared.entry
  rw [← declared.2.2.2,
    Tape.tangent_eq_sweepAdjoints clean.topological clean.complete clean.unswept within found input]
  simp [Tape.adjointOf, found]

theorem ofRecording_eq_onTape {m : Recorder ℝ (Var ℝ)} {k : Nat} {value : ℝ} {rates : Nat → ℝ}
    (yields : ∀ r, Yields r k m Tape.empty (value, rates r)) :
    ∃ summary,
      Evaluation.ofRecording m = .ok (.onTape value ((List.range k).map rates) summary) := by
  obtain ⟨v, u, ran, clean, count, -, tracks, last⟩ := yields 0
  have within : u.size - 1 < u.size := by omega
  -- the handle is on the last entry, where the sweep starts
  have rate (r : Nat) : u.tangent r (u.size - 1) = rates r := by
    rw [← last, Nat.add_sub_cancel]
    exact ((yields r).tracks_of_run ran).2.2
  -- the sweep changes adjoints only, so the summary is taken as on the recording
  obtain ⟨s, summarized⟩ : ∃ s, ({ u.withAdjoints (u.sweepAdjoints (u.size - 1)) with
      interpreted := true } : Tape ℝ).summary = .ok s := by
    have topo : ({ u.withAdjoints (u.sweepAdjoints (u.size - 1)) with
        interpreted := true } : Tape ℝ).Topological := clean.topological.withAdjoints _
    have same : ({ u.withAdjoints (u.sweepAdjoints (u.size - 1)) with
        interpreted := true } : Tape ℝ).slots = u.slots := Tape.slots_withAdjoints u _
    have whole : u.slots.any Operand.isReal = false := by simpa using clean.whole
    exact ⟨_, by rw [topo.summary_eq, same, whole, if_neg Bool.false_ne_true]⟩
  refine ⟨s, ?_⟩
  simp only [Evaluation.ofRecording]
  rw [run_bind_of_ok ran, run_bind_of_ok (Tape.run_interpret_none clean (by omega)), run_seq_get,
    run_bind, run_lift, Tape.gradient?_swept clean within]
  simp only [run_bind, run_lift, summarized, run_pure, count, rate, tracks.2.1]

theorem sum_zipWith_unit (g : List ℝ) {r : Nat} (inside : r < g.length) :
    (List.zipWith (· * ·) g ((List.range g.length).map fun i => if i = r then 1 else 0)).sum =
      g[r] := by
  have pointwise : List.zipWith (· * ·) g ((List.range g.length).map fun i => if i = r then 1 else 0) =
      (List.range g.length).map fun i => if i = r then g[r] else 0 := by
    apply List.ext_getElem (by simp)
    intro i _ within
    simp only [List.length_map, List.length_range] at within
    by_cases same : i = r
    · subst same
      simp
    · simp [same]
  rw [pointwise, List.sum_map_ite_eq,
    List.count_eq_one_of_mem List.nodup_range (List.mem_range.2 inside)]
  simp

theorem map_sum_zipWith_unit (g : List ℝ) :
    (List.range g.length).map (fun r =>
      (List.zipWith (· * ·) g ((List.range g.length).map fun i => if i = r then 1 else 0)).sum) =
      g := by
  apply List.ext_getElem (by simp)
  intro r within _
  simp only [List.length_map, List.length_range] at within
  simp only [List.getElem_map, List.getElem_range]
  exact sum_zipWith_unit g within

theorem yields_inputs {record : List (Var ℝ) → Recorder ℝ (Var ℝ)} (xs : List ℝ)
    {value : ℝ} {g : List ℝ}
    (yields : ∀ {t : Tape ℝ} {r n : Nat} {hs : List (Var ℝ)} {ds : List (ℝ × ℝ)}, t.Clean →
      t.inputRank t.size = n → List.Forall₂ (Tracks t r) hs ds → ds.map Prod.fst = xs →
      Yields r n (record hs) t (value, (List.zipWith (· * ·) g (ds.map Prod.snd)).sum))
    (r : Nat) :
    Yields r xs.length (Record.inputs xs >>= record) Tape.empty
      (value, (List.zipWith (· * ·) g
        ((List.range xs.length).map fun i => if i = r then 1 else 0)).sum) := by
  obtain ⟨hs, u, ran, clean, ext, count, declared⟩ := run_inputs Tape.clean_empty xs
  simp only [Tape.inputRank_empty, zero_add] at count declared
  -- moving with input `r`, each input moves at rate one if it is input `r` and zero otherwise
  let unit : List (ℝ × ℝ) := xs.zipIdx.map fun p => (p.1, if p.2 = r then 1 else 0)
  have tracked : List.Forall₂ (Tracks u r) hs unit :=
    List.forall₂_map_right_iff.2 (declared.imp fun _ _ input => input.tracks r)
  have values : unit.map Prod.fst = xs := by
    simp [unit, Function.comp_def]
  have rates : unit.map Prod.snd = (List.range xs.length).map fun i => if i = r then 1 else 0 := by
    have ranks : xs.zipIdx.map Prod.snd = List.range xs.length := by
      rw [List.zipIdx_map_snd, List.range_eq_range']
    simp only [unit, List.map_map, ← ranks]
    rfl
  rw [← rates]
  exact Yields.of_run_bind ran ext (yields clean count tracked values)

theorem ofRecording_inputs {record : List (Var ℝ) → Recorder ℝ (Var ℝ)} (xs : List ℝ)
    {value : ℝ} {g : List ℝ} (length : g.length = xs.length)
    (yields : ∀ {t : Tape ℝ} {r n : Nat} {hs : List (Var ℝ)} {ds : List (ℝ × ℝ)}, t.Clean →
      t.inputRank t.size = n → List.Forall₂ (Tracks t r) hs ds → ds.map Prod.fst = xs →
      Yields r n (record hs) t (value, (List.zipWith (· * ·) g (ds.map Prod.snd)).sum)) :
    ∃ summary, Evaluation.ofRecording (Record.inputs xs >>= record) =
      .ok (.onTape value g summary) := by
  obtain ⟨summary, evaluated⟩ := ofRecording_eq_onTape (yields_inputs xs yields)
  refine ⟨summary, ?_⟩
  rw [evaluated, ← length, map_sum_zipWith_unit]

end StraightLine

end AdjointDiff
