import Mathlib.Logic.Function.Basic
import AdjointDiff.Proofs.Tape.Shape

/-!
The backward sweep as a fold over adjoints.

During a sweep only adjoints change, so every tape the sweep passes through is the starting tape
with other adjoints, `t.withAdjoints adj`. Visiting an entry folds its rule's additions into
`adj` (`Tape.visitAdjoints`), and a whole sweep from `s` is the fold over `s, s-1, …, 0` after
the seed (`Tape.sweepAdjoints`). The monadic sweep follows that fold exactly as long as the
visited entries are complete; at the first entry that is not, it stops with a type error and
leaves the adjoints written so far. `interpret` either refuses before touching the tape, or
seeds and sweeps in this way.
-/

set_option autoImplicit false

namespace AdjointDiff

open Recorder

def Pull.addTo {α : Type} [Add α] (adj : Nat → α) : Pull α → Nat → α
  | .add i a => Function.update adj i (adj i + a)
  | .stop _ => adj

namespace Tape

variable {α : Type}

/-- The tape with the adjoint of every entry `i` replaced by `adj i`. -/
def withAdjoints (t : Tape α) (adj : Nat → α) : Tape α :=
  { t with entries := t.entries.mapIdx fun i e => { e with adjoint := adj i } }

@[simp] theorem withAdjoints_getElem? (t : Tape α) (adj : Nat → α) (i : Nat) :
    (t.withAdjoints adj).entries[i]? = t.entries[i]?.map fun e => { e with adjoint := adj i } := by
  simp [withAdjoints, Array.getElem?_mapIdx]

@[simp] theorem withAdjoints_size (t : Tape α) (adj : Nat → α) :
    (t.withAdjoints adj).size = t.size := by
  simp [withAdjoints, size]

@[simp] theorem withAdjoints_interpreted (t : Tape α) (adj : Nat → α) :
    (t.withAdjoints adj).interpreted = t.interpreted := rfl

@[simp] theorem withAdjoints_withAdjoints (t : Tape α) (adj adj' : Nat → α) :
    (t.withAdjoints adj).withAdjoints adj' = t.withAdjoints adj' := by
  simp only [withAdjoints, Array.mapIdx_mapIdx]
  rfl

theorem Topological.withAdjoints {t : Tape α} (topo : t.Topological) (adj : Nat → α) :
    (t.withAdjoints adj).Topological := by
  intro i e found
  rw [withAdjoints_getElem?, Option.map_eq_some_iff] at found
  obtain ⟨e₀, found₀, rfl⟩ := found
  exact topo i e₀ found₀

@[simp] theorem completeAt_withAdjoints (t : Tape α) (adj : Nat → α) (k : Nat) :
    (t.withAdjoints adj).CompleteAt k ↔ t.CompleteAt k := by
  simp [CompleteAt, Entry.Complete, Entry.first, Entry.second]

variable [Scalar α]

def adjointAt (t : Tape α) (i : Nat) : α := (t.entries[i]?.map (·.adjoint)).getD 0.0

def visitAdjoints (t : Tape α) (adj : Nat → α) (k : Nat) : Nat → α :=
  match t.entries[k]? with
  | some e => ({ e with adjoint := adj k }.pulls t.size t.valueAt).foldl Pull.addTo adj
  | none => adj

/-- The adjoints a sweep from `s` leaves: entry `s` seeded with one more, then entries
`s, s-1, …, 0` visited. -/
def sweepAdjoints (t : Tape α) (s : Nat) : Nat → α :=
  (List.range (s + 1)).reverse.foldl t.visitAdjoints
    (Function.update t.adjointAt s (t.adjointAt s + 1.0))

@[simp] theorem withAdjoints_valueAt (t : Tape α) (adj : Nat → α) :
    (t.withAdjoints adj).valueAt = t.valueAt := by
  funext i
  simp only [valueAt, withAdjoints_getElem?, Option.map_map]
  rfl

theorem withAdjoints_adjointAt (t : Tape α) : t.withAdjoints t.adjointAt = t := by
  have same : (t.withAdjoints t.adjointAt).entries = t.entries := by
    apply Array.ext_getElem?
    intro i
    rw [withAdjoints_getElem?]
    cases found : t.entries[i]? <;> simp [adjointAt, found]
  cases t
  simp_all [withAdjoints]

theorem run_addAdjoint (t : Tape α) (adj : Nat → α) (i : Nat) (a : α) :
    run (addAdjoint i a) (t.withAdjoints adj) =
      (.ok (), t.withAdjoints (Function.update adj i (adj i + a))) := by
  simp only [addAdjoint, run_modify, Prod.mk.injEq, true_and]
  congr 1
  apply Array.ext_getElem?
  intro j
  simp only [Array.getElem?_modify, withAdjoints, Array.getElem?_mapIdx]
  by_cases same : i = j
  · subst same
    cases t.entries[i]? <;> simp
  · have other : j ≠ i := Ne.symm same
    simp [same, Function.update_of_ne other]

theorem run_pull_add (t : Tape α) (adj : Nat → α) (i : Nat) (a : α) :
    run (pull (.add i a)) (t.withAdjoints adj) =
      (.ok (), t.withAdjoints (Pull.addTo adj (.add i a))) :=
  run_addAdjoint t adj i a

theorem run_forM_pull (t : Tape α) (ps : List (Pull α)) (adds : ∀ f, Pull.stop f ∉ ps)
    (adj : Nat → α) :
    run (ps.forM pull) (t.withAdjoints adj) = (.ok (), t.withAdjoints (ps.foldl Pull.addTo adj)) := by
  induction ps generalizing adj with
  | nil => rfl
  | cons p rest ih =>
    cases p with
    | stop f => exact absurd List.mem_cons_self (adds f)
    | add i a =>
      simp only [List.forM, List.foldl_cons]
      rw [run_bind_of_ok (run_pull_add t adj i a)]
      exact ih (fun f stops => adds f (List.mem_cons_of_mem _ stops)) _

theorem run_forM_pull_stop (t : Tape α) (ps : List (Pull α)) (stops : ∃ f, Pull.stop f ∈ ps)
    (adj : Nat → α) :
    ∃ f adj', Pull.stop f ∈ ps ∧
      run (ps.forM pull) (t.withAdjoints adj) = (.error f, t.withAdjoints adj') := by
  induction ps generalizing adj with
  | nil => simp at stops
  | cons p rest ih =>
    simp only [List.forM]
    cases p with
    | stop f => exact ⟨f, adj, List.mem_cons_self, rfl⟩
    | add i a =>
      have later : ∃ f, Pull.stop f ∈ rest := by simpa using stops
      rw [run_bind_of_ok (run_pull_add t adj i a)]
      obtain ⟨f, adj', mem, stopped⟩ := ih later _
      exact ⟨f, adj', List.mem_cons_of_mem _ mem, stopped⟩

theorem run_visit (t : Tape α) (topo : t.Topological) (adj : Nat → α) {k : Nat}
    (complete : t.CompleteAt k) :
    run (visit k) (t.withAdjoints adj) = (.ok (), t.withAdjoints (t.visitAdjoints adj k)) := by
  simp only [visit, run_seq_get, withAdjoints_getElem?, withAdjoints_valueAt, withAdjoints_size,
    visitAdjoints]
  cases found : t.entries[k]? with
  | none => rfl
  | some e =>
    have inside : ({ e with adjoint := adj k } : Entry α).Inside t.size :=
      fun o mem => topo.inside found o mem
    have adds : ∀ f, Pull.stop f ∉ ({ e with adjoint := adj k }.pulls t.size t.valueAt) :=
      fun f stops => (Entry.stop_mem_pulls_iff inside _).mp ⟨f, stops⟩ (complete e found)
    exact run_forM_pull t _ adds adj

theorem run_visit_incomplete (t : Tape α) (topo : t.Topological) (adj : Nat → α) {k : Nat}
    (incomplete : ¬ t.CompleteAt k) :
    ∃ f adj', f.UnreadSlot ∧ run (visit k) (t.withAdjoints adj) = (.error f, t.withAdjoints adj') := by
  simp only [CompleteAt, not_forall] at incomplete
  obtain ⟨e, found, open_slot⟩ := incomplete
  have inside : ({ e with adjoint := adj k } : Entry α).Inside t.size :=
    fun o mem => topo.inside found o mem
  simp only [visit, run_seq_get, withAdjoints_getElem?, found, Option.map_some,
    withAdjoints_valueAt, withAdjoints_size]
  obtain ⟨f, adj', stop, stopped⟩ := run_forM_pull_stop t _
    ((Entry.stop_mem_pulls_iff inside t.valueAt).mpr open_slot) adj
  exact ⟨f, adj', Entry.unreadSlot_of_stop_mem inside stop, stopped⟩

theorem run_forM_visit (t : Tape α) (topo : t.Topological) (ks : List Nat)
    (complete : ∀ k ∈ ks, t.CompleteAt k) (adj : Nat → α) :
    run (ks.forM visit) (t.withAdjoints adj) =
      (.ok (), t.withAdjoints (ks.foldl t.visitAdjoints adj)) := by
  induction ks generalizing adj with
  | nil => rfl
  | cons k rest ih =>
    simp only [List.forM, List.foldl_cons]
    rw [run_bind_of_ok (run_visit t topo adj (complete k (by simp)))]
    exact ih (fun j member => complete j (by simp [member])) _

theorem run_forM_visit_incomplete (t : Tape α) (topo : t.Topological) (ks : List Nat)
    (stops : ∃ k ∈ ks, ¬ t.CompleteAt k) (adj : Nat → α) :
    ∃ f adj', f.UnreadSlot ∧
      run (ks.forM visit) (t.withAdjoints adj) = (.error f, t.withAdjoints adj') := by
  induction ks generalizing adj with
  | nil => simp at stops
  | cons k rest ih =>
    simp only [List.forM]
    by_cases here : t.CompleteAt k
    · have later : ∃ j ∈ rest, ¬ t.CompleteAt j := by
        obtain ⟨j, member, open_slot⟩ := stops
        rcases List.mem_cons.mp member with rfl | member
        · exact absurd here open_slot
        · exact ⟨j, member, open_slot⟩
      rw [run_bind_of_ok (run_visit t topo adj here)]
      exact ih later _
    · obtain ⟨f, adj', unread, stopped⟩ := run_visit_incomplete t topo adj here
      exact ⟨f, adj', unread, run_bind_of_error stopped⟩

omit [Scalar α] in
theorem run_checkSweepable (t : Tape α) :
    run checkSweepable t =
      if t.size = 0 then (.error .emptyTape, t)
      else if t.interpreted then (.error .alreadyInterpreted, t) else (.ok (), t) := by
  simp only [checkSweepable, run_seq_get]
  by_cases empty : t.size = 0
  · simp [empty, run_bind]
  · cases t.interpreted <;> simp [empty]

theorem run_sweepFrom_of_lt (t : Tape α) {s : Nat} (within : s < t.size) :
    run (sweepFrom s) t =
      run (do
        addAdjoint s 1.0
        (List.range (s + 1)).reverse.forM visit
        modify fun t => { t with interpreted := true }) t := by
  have found : t.get? (s : Int) = .ok t.entries[s] := by
    have inside : s < t.entries.size := within
    simp only [get?, Int.natCast_nonneg, if_true, Int.toNat_natCast, inside, dif_pos]
    rfl
  simp only [sweepFrom, run_seq_get, Int.toNat_natCast]
  rw [run_bind_of_ok (by rw [run_lift, found])]

theorem run_seed (t : Tape α) (s : Nat) :
    run (addAdjoint s 1.0) t =
      (.ok (), t.withAdjoints (Function.update t.adjointAt s (t.adjointAt s + 1.0))) := by
  have seeded := run_addAdjoint t t.adjointAt s 1.0
  rwa [withAdjoints_adjointAt] at seeded

theorem run_sweepFrom (t : Tape α) (topo : t.Topological) {s : Nat} (within : s < t.size)
    (complete : ∀ k ≤ s, t.CompleteAt k) :
    run (sweepFrom s) t = (.ok (), { t.withAdjoints (t.sweepAdjoints s) with interpreted := true }) := by
  have swept := run_forM_visit t topo (List.range (s + 1)).reverse
    (fun k member => complete k (by simpa [Nat.lt_succ_iff] using member))
    (Function.update t.adjointAt s (t.adjointAt s + 1.0))
  rw [run_sweepFrom_of_lt t within, run_bind_of_ok (run_seed t s), run_bind_of_ok swept]
  rfl

theorem run_sweepFrom_incomplete (t : Tape α) (topo : t.Topological) {s : Nat}
    (within : s < t.size) (stops : ∃ k ≤ s, ¬ t.CompleteAt k) :
    ∃ f adj, f.UnreadSlot ∧ run (sweepFrom s) t = (.error f, t.withAdjoints adj) := by
  obtain ⟨f, adj, unread, stopped⟩ := run_forM_visit_incomplete t topo (List.range (s + 1)).reverse
    (by
      obtain ⟨k, below, open_slot⟩ := stops
      exact ⟨k, by simpa [Nat.lt_succ_iff] using below, open_slot⟩)
    (Function.update t.adjointAt s (t.adjointAt s + 1.0))
  refine ⟨f, adj, unread, ?_⟩
  rw [run_sweepFrom_of_lt t within, run_bind_of_ok (run_seed t s), run_bind_of_error stopped]

theorem run_sweepFrom_outside (t : Tape α) {s : Int} (outside : ¬ (0 ≤ s ∧ s.toNat < t.size)) :
    run (sweepFrom s) t = (.error (.tapeIndex (toString s) t.size), t) := by
  have refused : t.get? s = .error (.tapeIndex (toString s) t.size) := by
    simp only [get?]
    by_cases nonneg : 0 ≤ s
    · have beyond : ¬ s.toNat < t.entries.size := fun lt => outside ⟨nonneg, lt⟩
      simp [nonneg, beyond]
    · simp [nonneg]
  simp only [sweepFrom, run_seq_get]
  rw [run_bind_of_error (by rw [run_lift, refused])]

theorem run_interpret (t : Tape α) (output : Option Int) :
    run (interpret output) t =
      if t.size = 0 then (.error .emptyTape, t)
      else if t.interpreted then (.error .alreadyInterpreted, t)
      else run (sweepFrom (output.getD ((t.size : Int) - 1))) t := by
  simp only [interpret]
  rw [run_bind, run_checkSweepable]
  by_cases empty : t.size = 0
  · simp [empty]
  · by_cases swept : t.interpreted
    · simp [empty, swept]
    · simp only [empty, swept, if_false, Bool.false_eq_true, run_seq_get]

theorem run_interpret_at (t : Tape α) {s : Nat} (within : s < t.size)
    (fresh : t.interpreted = false) :
    run (interpret (some (s : Int))) t = run (sweepFrom s) t := by
  have nonempty : t.size ≠ 0 := by omega
  simp [run_interpret, nonempty, fresh]

end Tape

end AdjointDiff
