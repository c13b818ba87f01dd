import AdjointDiff.Proofs.Tape.Backward

set_option autoImplicit false

namespace AdjointDiff

open Recorder

namespace Tape

variable {α : Type} [Scalar α]

/-- The tapes reached from the empty tape by recording entries and sweeping, each step refused
or not. -/
inductive Reachable : Tape α → Prop
  | empty : Reachable empty
  | entry {t : Tape α} (kind : Kind) (value : α) (o1 o2 : Option Operand) (extra : α) :
      Reachable t → Reachable (run (Record.entry kind value o1 o2 extra) t).2
  | interpret {t : Tape α} (output : Option Int) :
      Reachable t → Reachable (run (interpret output) t).2

theorem sweepFrom_tape (t : Tape α) (topo : t.Topological) (s : Int) :
    (run (sweepFrom s) t).2 = t ∨
      ((run (sweepFrom s) t).1 = .ok () ∧
        ∃ adj, (run (sweepFrom s) t).2 = { t.withAdjoints adj with interpreted := true }) ∨
      ((∃ f, (run (sweepFrom s) t).1 = .error f ∧ f.UnreadSlot) ∧
        (∃ k, ¬ t.CompleteAt k) ∧ ∃ adj, (run (sweepFrom s) t).2 = t.withAdjoints adj) := by
  by_cases inside : 0 ≤ s ∧ s.toNat < t.size
  · obtain ⟨nonneg, within⟩ := inside
    have start : s = (s.toNat : Int) := (Int.toNat_of_nonneg nonneg).symm
    rw [start]
    by_cases complete : ∀ k ≤ s.toNat, t.CompleteAt k
    · exact .inr (.inl ⟨by rw [run_sweepFrom t topo within complete], _,
        by rw [run_sweepFrom t topo within complete]⟩)
    · simp only [not_forall, exists_prop] at complete
      obtain ⟨f, adj, unread, stopped⟩ := run_sweepFrom_incomplete t topo within complete
      obtain ⟨k, -, open_slot⟩ := complete
      exact .inr (.inr ⟨⟨f, by rw [stopped], unread⟩, ⟨k, open_slot⟩, adj, by rw [stopped]⟩)
  · exact .inl (by rw [run_sweepFrom_outside t inside])

theorem interpret_tape (t : Tape α) (topo : t.Topological) (output : Option Int) :
    (run (interpret output) t).2 = t ∨
      ((run (interpret output) t).1 = .ok () ∧
        ∃ adj, (run (interpret output) t).2 = { t.withAdjoints adj with interpreted := true }) ∨
      ((∃ f, (run (interpret output) t).1 = .error f ∧ f.UnreadSlot) ∧
        (∃ k, ¬ t.CompleteAt k) ∧ ∃ adj, (run (interpret output) t).2 = t.withAdjoints adj) := by
  rw [run_interpret]
  split
  · exact .inl rfl
  · split
    · exact .inl rfl
    · exact sweepFrom_tape t topo _

theorem entry_tape (t : Tape α) (kind : Kind) (value : α) (o1 o2 : Option Operand) (extra : α) :
    (run (Record.entry kind value o1 o2 extra) t).2 = t ∨
      (∀ x ∈ o1, x.below t.size = .ok true) ∧ (∀ x ∈ o2, x.below t.size = .ok true) ∧
        (run (Record.entry kind value o1 o2 extra) t).2 = t.withEntry kind o1 o2 value extra := by
  rw [Record.run_entry]
  split
  next t' i accepted =>
    obtain ⟨-, below1, below2, same⟩ := append_eq_ok accepted
    simp only [Prod.mk.injEq] at same
    exact .inr ⟨below1, below2, same.1⟩
  next => exact .inl rfl

theorem Reachable.topological {t : Tape α} (reach : t.Reachable) : t.Topological := by
  induction reach with
  | empty => exact topological_empty (α := α)
  | @entry t kind value o1 o2 extra _ topo =>
    rcases entry_tape t kind value o1 o2 extra with same | ⟨below1, below2, grown⟩
    · rwa [same]
    · rw [grown]
      exact topo.withEntry below1 below2 value extra
  | @interpret t output _ topo =>
    rcases interpret_tape t topo output with same | ⟨-, adj, swept⟩ | ⟨-, -, adj, stopped⟩
    · rwa [same]
    · rw [swept]
      exact topo.withAdjoints adj
    · rw [stopped]
      exact topo.withAdjoints adj

theorem adjointAt_withEntry (t : Tape α) (kind : Kind) (o1 o2 : Option Operand) (value extra : α)
    (j : Nat) :
    (t.withEntry kind o1 o2 value extra).adjointAt j = if j = t.size then 0.0 else t.adjointAt j := by
  simp only [adjointAt, withEntry_getElem?]
  split <;> rfl

theorem valueAt_appended_of_lt {t : Tape α} {kind : Kind} {p1 p2 : Option Nat} {value extra : α}
    {j : Nat} (below : j < t.size) : (t.appended kind p1 p2 value extra).valueAt j = t.valueAt j := by
  simp only [valueAt, appended_getElem?_of_lt t kind p1 p2 value extra below]

theorem Reachable.adjointAt_eq_zero {t : Tape α} (reach : t.Reachable)
    (fresh : t.interpreted = false) (complete : ∀ k, t.CompleteAt k) (j : Nat) :
    t.adjointAt j = 0.0 := by
  induction reach with
  | empty => simp [adjointAt, Tape.empty]
  | @entry t kind value o1 o2 extra _ ih =>
    rcases entry_tape t kind value o1 o2 extra with same | ⟨-, -, grown⟩
    · rw [same] at fresh complete ⊢
      exact ih fresh complete
    · rw [grown] at fresh complete ⊢
      -- the entries already there are still there, unchanged
      have earlier : ∀ k, t.CompleteAt k := by
        intro k e found
        have below : k < t.size := (Array.getElem?_eq_some_iff.1 found).1
        exact complete k e ((withEntry_getElem?_of_lt t kind o1 o2 value extra below).trans found)
      rw [adjointAt_withEntry]
      split
      · rfl
      · exact ih fresh earlier
  | @interpret t output reach ih =>
    rcases interpret_tape t reach.topological output with
      same | ⟨-, adj, swept⟩ | ⟨-, ⟨k, open_slot⟩, adj, stopped⟩
    · rw [same] at fresh complete ⊢
      exact ih fresh complete
    · rw [swept] at fresh
      cases fresh
    · rw [stopped] at complete
      exact absurd ((completeAt_withAdjoints t adj k).1 (complete k)) open_slot

end Tape

end AdjointDiff
