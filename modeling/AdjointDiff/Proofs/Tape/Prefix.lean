import AdjointDiff.Proofs.Tape.Reachable

set_option autoImplicit false

namespace AdjointDiff

open Recorder

namespace Tape

variable {α : Type}

def take (t : Tape α) (n : Nat) : Tape α := { t with entries := t.entries.extract 0 n }

def extend (t : Tape α) (es : List (Entry α)) : Tape α :=
  { t with entries := t.entries ++ es.toArray }

@[simp] theorem extend_nil (t : Tape α) : t.extend [] = t := by
  simp [extend]

theorem extend_extend (t : Tape α) (es fs : List (Entry α)) :
    (t.extend es).extend fs = t.extend (es ++ fs) := by
  simp [extend, Array.append_assoc]

theorem take_getElem? (t : Tape α) {n i : Nat} (below : i < n) :
    (t.take n).entries[i]? = t.entries[i]? := by
  simp [take, Array.getElem?_extract]
  omega

@[simp] theorem take_size (t : Tape α) (n : Nat) : (t.take n).size = min n t.size := by
  simp [take, size]

@[simp] theorem take_interpreted (t : Tape α) (n : Nat) : (t.take n).interpreted = t.interpreted :=
  rfl

theorem take_extend_drop (t : Tape α) (n : Nat) : (t.take n).extend (t.entries.toList.drop n) = t := by
  have same : (t.take n).entries ++ (t.entries.toList.drop n).toArray = t.entries :=
    Array.toList_inj.mp (by simp [take])
  cases t
  simp_all [extend]

theorem eq_extend_of_frame {t t' : Tape α} {n : Nat}
    (frame : ∀ j, n ≤ j → t'.entries[j]? = t.entries[j]?) :
    t' = (t'.take n).extend (t.entries.toList.drop n) := by
  have later : t.entries.toList.drop n = t'.entries.toList.drop n := by
    apply List.ext_getElem?
    intro j
    simp only [List.getElem?_drop, Array.getElem?_toList]
    exact (frame (n + j) (Nat.le_add_right n j)).symm
  rw [later, take_extend_drop]

theorem take_modify (t : Tape α) {n i : Nat} (below : i < n) (f : Entry α → Entry α) :
    ({ t with entries := t.entries.modify i f } : Tape α).take n =
      { t.take n with entries := (t.take n).entries.modify i f } := by
  simp only [take, mk.injEq, and_true]
  apply Array.ext_getElem?
  intro j
  by_cases inside : j < n
  · simp only [Array.getElem?_extract, Array.getElem?_modify, Array.size_modify, Nat.sub_zero,
      Nat.zero_add]
    by_cases same : i = j <;> by_cases short : j < min n t.entries.size <;> simp [same, short]
  · have other : i ≠ j := by omega
    simp [Array.getElem?_extract, Array.getElem?_modify, other]

variable [Scalar α]

theorem take_valueAt (t : Tape α) {n i : Nat} (below : i < n) : (t.take n).valueAt i = t.valueAt i := by
  simp only [valueAt, take_getElem? t below]

end Tape

namespace Recorder

variable {α β γ : Type}

def Local (n : Nat) (m : Recorder α β) : Prop :=
  ∀ u : Tape α, u.Topological →
    run m (u.take n) = ((run m u).1, (run m u).2.take n) ∧
      (∀ j, n ≤ j → (run m u).2.entries[j]? = u.entries[j]?) ∧ (run m u).2.Topological

namespace Local

variable {n : Nat}

theorem of_pure (b : β) : Local n (pure b : Recorder α β) :=
  fun _ topo => ⟨rfl, fun _ _ => rfl, topo⟩

theorem of_throw (f : Fault) : Local n (throw f : Recorder α β) :=
  fun _ topo => ⟨rfl, fun _ _ => rfl, topo⟩

theorem bind {m : Recorder α β} {g : β → Recorder α γ} (first : Local n m)
    (rest : ∀ b, Local n (g b)) : Local n (m >>= g) := by
  intro u topo
  obtain ⟨cut, frame, topo'⟩ := first u topo
  rw [run_bind, run_bind, cut]
  rcases outcome : run m u with ⟨_ | b, u'⟩
  · rw [outcome] at frame topo'
    exact ⟨rfl, frame, topo'⟩
  · rw [outcome] at frame topo'
    obtain ⟨cut', frame', topo''⟩ := rest b u' topo'
    exact ⟨cut', fun j above => (frame' j above).trans (frame j above), topo''⟩

end Local

open Tape

theorem local_markSwept (n : Nat) :
    Local n (modify fun t => { t with interpreted := true } : Recorder α PUnit) := by
  intro u topo
  exact ⟨rfl, fun _ _ => rfl, topo⟩

variable [Scalar α]

theorem local_addAdjoint {n i : Nat} (below : i < n) (a : α) : Local n (addAdjoint i a) := by
  intro u topo
  refine ⟨?_, fun j above => ?_, fun k e found => ?_⟩
  · simp only [addAdjoint, run_modify]
    rw [take_modify u below]
  · have other : i ≠ j := by omega
    simp [addAdjoint, Array.getElem?_modify, other]
  · -- only an adjoint changes, so every entry keeps its operands
    simp only [addAdjoint, run_modify, Array.getElem?_modify] at found
    split at found
    · obtain ⟨e₀, found₀, rfl⟩ := Option.map_eq_some_iff.mp found
      exact topo k e₀ found₀
    · exact topo k e found

theorem local_pull {n : Nat} (p : Pull α) (below : ∀ i a, p = .add i a → i < n) :
    Local n (pull p) := by
  cases p with
  | add i a => exact local_addAdjoint (below i a rfl) a
  | stop f => exact Local.of_throw f

theorem local_forM_pull {n : Nat} (ps : List (Pull α)) (below : ∀ i a, .add i a ∈ ps → i < n) :
    Local n (ps.forM pull) := by
  induction ps with
  | nil => exact Local.of_pure _
  | cons p rest ih =>
    exact Local.bind (local_pull p fun i a same => below i a (by simp [same]))
      fun _ => ih fun i a mem => below i a (by simp [mem])

theorem local_visit {n k : Nat} (below : k < n) : Local n (visit k : Recorder α Unit) := by
  intro u topo
  have same_entry := take_getElem? u below
  simp only [visit, run_seq_get, same_entry]
  cases found : u.entries[k]? with
  | none => exact Local.of_pure () u topo
  | some e =>
    -- the rule reads its operands, which lie below `k`, the same on both tapes
    have inside : e.Inside k := topo k e found
    have within : k < u.size := (Array.getElem?_eq_some_iff.1 found).1
    have reads : e.pulls (u.take n).size (u.take n).valueAt = e.pulls u.size u.valueAt := by
      rw [Entry.pulls_mono inside (by simp; omega), Entry.pulls_mono inside (Nat.le_of_lt within),
        e.pulls_congr k fun i mem => take_valueAt u (by have := inside.position_lt mem; omega)]
    simp only [reads]
    exact local_forM_pull _ (fun i a pulled => by have := topo.target_lt found pulled; omega) u topo

theorem local_forM_visit {n : Nat} (ks : List Nat) (below : ∀ k ∈ ks, k < n) :
    Local n (ks.forM visit : Recorder α Unit) := by
  induction ks with
  | nil => exact Local.of_pure _
  | cons k rest ih =>
    exact Local.bind (local_visit (below k (by simp))) fun _ => ih fun j mem => below j (by simp [mem])

namespace Tape

theorem run_sweepFrom_take (u : Tape α) (topo : u.Topological) {s n : Nat} (below : s < n)
    (within : s < u.size) :
    run (sweepFrom s) (u.take n) = ((run (sweepFrom s) u).1, (run (sweepFrom s) u).2.take n) ∧
      ∀ j, n ≤ j → (run (sweepFrom s) u).2.entries[j]? = u.entries[j]? := by
  have inside : s < (u.take n).size := by simp; omega
  have steps : Local n (do
      addAdjoint s 1.0
      (List.range (s + 1)).reverse.forM visit
      modify fun t => { t with interpreted := true } : Recorder α PUnit) :=
    Local.bind (local_addAdjoint below 1.0) fun _ =>
      Local.bind (local_forM_visit _ fun k mem => by simp at mem; omega) fun _ => local_markSwept n
  obtain ⟨cut, frame, -⟩ := steps u topo
  rw [run_sweepFrom_of_lt _ inside, run_sweepFrom_of_lt u within]
  exact ⟨cut, frame⟩

theorem run_interpret_take (u : Tape α) (topo : u.Topological) {s : Nat} (within : s < u.size) :
    run (interpret none) (u.take (s + 1)) =
        ((run (interpret (some s)) u).1, (run (interpret (some s)) u).2.take (s + 1)) ∧
      ∀ j, s + 1 ≤ j → (run (interpret (some s)) u).2.entries[j]? = u.entries[j]? := by
  have cut_size : (u.take (s + 1)).size = s + 1 := by simp; omega
  rw [run_interpret, run_interpret, cut_size]
  by_cases swept : u.interpreted
  · -- both are refused untouched
    simp only [take_interpreted, swept, if_true, Nat.add_one_ne_zero, if_false,
      show u.size ≠ 0 by omega]
    exact ⟨by simp, by simp⟩
  · simp only [take_interpreted, swept, Bool.false_eq_true, if_false, Nat.add_one_ne_zero,
      show u.size ≠ 0 by omega, Option.getD_none, Option.getD_some]
    have start : ((s + 1 : Nat) : Int) - 1 = (s : Int) := by omega
    rw [start]
    exact run_sweepFrom_take u topo (Nat.lt_succ_self s) within

end Tape

end Recorder

end AdjointDiff
