import AdjointDiff.Proofs.Tape.Outcome
import AdjointDiff.Tape.Sweep
import AdjointDiff.Tape.Summary

set_option autoImplicit false

namespace AdjointDiff

def Kind.binary : Kind → Bool
  | .add | .sub | .mul | .div | .pow => true
  | _ => false

/-- The refusals of a look-up inside the tape that selects no entry: an empty slot, or a
double. -/
def Fault.UnreadSlot (f : Fault) : Prop :=
  f = .incomparableIndex "NoneType" ∨ f = .fractionalIndex "float"

namespace Operand

theorem realBelow_mono {k n : Nat} {x : Float} (below : realBelow k x = true) (le : k ≤ n) :
    realBelow n x = true := by
  unfold realBelow at below ⊢
  split at below
  · simp only [Bool.and_eq_true, decide_eq_true_eq] at below ⊢
    exact ⟨below.1, Nat.lt_of_lt_of_le below.2 (Nat.mul_le_mul_right _ le)⟩
  all_goals cases below

theorem below_mono {o : Operand} {k n : Nat} (below : o.below k = .ok true) (le : k ≤ n) :
    o.below n = .ok true := by
  cases o with
  | int i =>
    simp only [Operand.below, Except.ok.injEq, decide_eq_true_eq] at below ⊢
    omega
  | flag b =>
    simp only [Operand.below, Except.ok.injEq, decide_eq_true_eq] at below ⊢
    omega
  | real x =>
    simp only [Operand.below, Except.ok.injEq] at below ⊢
    exact realBelow_mono below le
  | other t => cases below

theorem position_lt {o : Operand} {n p : Nat} (below : o.below n = .ok true)
    (selects : o.position? = some p) : p < n := by
  cases o with
  | int i =>
    simp only [Operand.below, Except.ok.injEq, decide_eq_true_eq, position?,
      Option.some.injEq] at below selects
    omega
  | flag b =>
    simp only [Operand.below, Except.ok.injEq, decide_eq_true_eq, position?,
      Option.some.injEq] at below selects
    omega
  | real x => cases selects
  | other t => cases selects

theorem lookup_cases {n : Nat} {o : Option Operand} (inside : ∀ x ∈ o, x.below n = .ok true) :
    (∃ p, o.bind position? = some p ∧ lookup n o = .ok p) ∨
      ∃ f, o.bind position? = none ∧ lookup n o = .error f ∧ f.UnreadSlot := by
  cases o with
  | none => exact .inr ⟨_, rfl, rfl, .inl rfl⟩
  | some x =>
    have compares : x.below n = .ok true := inside x rfl
    cases x with
    | int i => exact .inl ⟨_, rfl, by simp [lookup, compares, position?]⟩
    | flag b => exact .inl ⟨_, rfl, by simp [lookup, compares, position?]⟩
    | real y => exact .inr ⟨_, rfl, by simp [lookup, compares, position?], .inr rfl⟩
    | other t => cases compares

theorem position_of_lookup {n p : Nat} {o : Option Operand} (found : lookup n o = .ok p) :
    o.bind position? = some p := by
  cases o with
  | none => cases found
  | some x =>
    simp only [lookup] at found
    split at found <;> simp_all

theorem lookup_ofNat {n i : Nat} (below : i < n) : lookup n (some (ofNat i)) = .ok i := by
  simp [lookup, below]

theorem lookup_mono {k n : Nat} {o : Option Operand} (inside : ∀ x ∈ o, x.below k = .ok true)
    (le : k ≤ n) : lookup n o = lookup k o := by
  cases o with
  | none => rfl
  | some x =>
    have compares := inside x rfl
    simp only [lookup, below_mono compares le, compares]
    cases x.position? <;> rfl

end Operand

namespace Entry

variable {α : Type}

def first (e : Entry α) : Option Nat := e.operand1.bind Operand.position?

def second (e : Entry α) : Option Nat := e.operand2.bind Operand.position?

def positions (e : Entry α) : List Nat := e.first.toList ++ e.second.toList

/-- The entry's rule finds every operand slot it reads: the first for every kind but an input,
the second as well for the two-operand kinds and, when it is present, for a manual entry. -/
def Complete (e : Entry α) : Prop :=
  (e.kind ≠ .input → e.first.isSome) ∧ (e.kind.binary → e.second.isSome) ∧
    (e.kind = .manual → e.operand2.isSome → e.second.isSome)

instance (e : Entry α) : Decidable e.Complete := inferInstanceAs (Decidable (_ ∧ _ ∧ _))

def Inside (e : Entry α) (n : Nat) : Prop := ∀ o ∈ e.operands, o.below n = .ok true

@[simp] theorem first_mk (kind : Kind) (o1 o2 : Option Operand) (value extra adjoint : α) :
    (⟨kind, o1, o2, value, extra, adjoint⟩ : Entry α).first = o1.bind Operand.position? := rfl

@[simp] theorem second_mk (kind : Kind) (o1 o2 : Option Operand) (value extra adjoint : α) :
    (⟨kind, o1, o2, value, extra, adjoint⟩ : Entry α).second = o2.bind Operand.position? := rfl

@[simp] theorem bind_position?_map_ofNat (p : Option Nat) :
    (p.map Operand.ofNat).bind Operand.position? = p := by
  cases p <;> simp

theorem complete_input (value extra adjoint : α) :
    (⟨.input, none, none, value, extra, adjoint⟩ : Entry α).Complete :=
  ⟨fun other => absurd rfl other, fun binary => absurd binary (by simp [Kind.binary]),
    fun manual => nomatch manual⟩

theorem complete_unary {kind : Kind} (unary : kind.binary = false) (i : Nat)
    (value extra adjoint : α) :
    (⟨kind, some (.ofNat i), none, value, extra, adjoint⟩ : Entry α).Complete :=
  ⟨fun _ => rfl, fun binary => absurd binary (by simp [unary]),
    fun _ absent => absurd absent (by simp)⟩

theorem complete_binary (kind : Kind) (i j : Nat) (value extra adjoint : α) :
    (⟨kind, some (.ofNat i), some (.ofNat j), value, extra, adjoint⟩ : Entry α).Complete :=
  ⟨fun _ => rfl, fun _ => rfl, fun _ _ => rfl⟩

theorem Inside.first {e : Entry α} {n : Nat} (inside : e.Inside n) :
    ∀ x ∈ e.operand1, x.below n = .ok true :=
  fun x mem => inside x (List.mem_append_left _ (Option.mem_toList.2 mem))

theorem Inside.second {e : Entry α} {n : Nat} (inside : e.Inside n) :
    ∀ x ∈ e.operand2, x.below n = .ok true :=
  fun x mem => inside x (List.mem_append_right _ (Option.mem_toList.2 mem))

theorem Inside.mono {e : Entry α} {k n : Nat} (inside : e.Inside k) (le : k ≤ n) : e.Inside n :=
  fun o mem => Operand.below_mono (inside o mem) le

theorem Inside.position_lt {e : Entry α} {n p : Nat} (inside : e.Inside n) (mem : p ∈ e.positions) :
    p < n := by
  rcases List.mem_append.1 mem with selects | selects
  · obtain ⟨o, found, at_p⟩ := Option.bind_eq_some_iff.1 (Option.mem_toList.1 selects)
    exact Operand.position_lt (inside.first o found) at_p
  · obtain ⟨o, found, at_p⟩ := Option.bind_eq_some_iff.1 (Option.mem_toList.1 selects)
    exact Operand.position_lt (inside.second o found) at_p

theorem forall_mem_operands {P : Operand → Prop} {kind : Kind} {o1 o2 : Option Operand}
    {value extra adjoint : α} (first : ∀ o ∈ o1, P o) (second : ∀ o ∈ o2, P o) :
    ∀ o ∈ (⟨kind, o1, o2, value, extra, adjoint⟩ : Entry α).operands, P o := by
  intro o mem
  simp only [operands, List.mem_append, Option.mem_toList] at mem
  exact mem.elim (first o) (second o)

theorem forall_mem_positions_ofNat {P : Nat → Prop} {kind : Kind} {p1 p2 : Option Nat}
    {value extra adjoint : α} (first : ∀ i ∈ p1, P i) (second : ∀ i ∈ p2, P i) :
    ∀ i ∈ (⟨kind, p1.map .ofNat, p2.map .ofNat, value, extra, adjoint⟩ : Entry α).positions, P i := by
  intro i mem
  simp only [positions, first_mk, second_mk, bind_position?_map_ofNat, List.mem_append,
    Option.mem_toList] at mem
  exact mem.elim (first i) (second i)

variable [Scalar α]

theorem pulls_of_inside {e : Entry α} {n : Nat} (inside : e.Inside n) (valueAt : Nat → α) :
    ((∃ f, Pull.stop f ∈ e.pulls n valueAt) ↔ ¬ e.Complete) ∧
      (∀ f, Pull.stop f ∈ e.pulls n valueAt → f.UnreadSlot) ∧
      ∀ i a, Pull.add i a ∈ e.pulls n valueAt → i ∈ e.positions := by
  rcases e with ⟨kind, o1, o2, v, c, b⟩
  -- each slot is read by a look-up that finds the position it selects or stops at it
  rcases Operand.lookup_cases inside.first with ⟨p1, sel1, look1⟩ | ⟨f1, sel1, look1, unread1⟩ <;>
  rcases Operand.lookup_cases inside.second with ⟨p2, sel2, look2⟩ | ⟨f2, sel2, look2, unread2⟩ <;>
  cases o2 <;> cases kind <;>
  simp_all [pulls, slot, Complete, positions, Kind.binary] <;> grind

theorem pulls_mono {e : Entry α} {k n : Nat} (inside : e.Inside k) (le : k ≤ n) (valueAt : Nat → α) :
    e.pulls n valueAt = e.pulls k valueAt := by
  rcases e with ⟨kind, o1, o2, v, c, b⟩
  simp only [pulls, slot, Operand.lookup_mono inside.first le, Operand.lookup_mono inside.second le]

theorem pulls_congr (e : Entry α) (n : Nat) {V W : Nat → α} (agree : ∀ i ∈ e.positions, V i = W i) :
    e.pulls n V = e.pulls n W := by
  rcases e with ⟨kind, o1, o2, v, c, b⟩
  have at1 : ∀ p, Operand.lookup n o1 = .ok p → V p = W p := fun p found =>
    agree p (List.mem_append_left _ (by simp [Operand.position_of_lookup found]))
  have at2 : ∀ p, Operand.lookup n o2 = .ok p → V p = W p := fun p found =>
    agree p (List.mem_append_right _ (by simp [Operand.position_of_lookup found]))
  cases l1 : Operand.lookup n o1 <;> cases l2 : Operand.lookup n o2 <;> cases kind <;>
    simp_all [pulls, slot]

theorem stop_mem_pulls_iff {e : Entry α} {n : Nat} (inside : e.Inside n) (valueAt : Nat → α) :
    (∃ f, Pull.stop f ∈ e.pulls n valueAt) ↔ ¬ e.Complete :=
  (pulls_of_inside inside valueAt).1

theorem unreadSlot_of_stop_mem {e : Entry α} {n : Nat} (inside : e.Inside n) {valueAt : Nat → α}
    {f : Fault} (stopped : Pull.stop f ∈ e.pulls n valueAt) : f.UnreadSlot :=
  (pulls_of_inside inside valueAt).2.1 f stopped

theorem mem_positions_of_pull {e : Entry α} {n : Nat} (inside : e.Inside n) {valueAt : Nat → α}
    {i : Nat} {a : α} (pulled : Pull.add i a ∈ e.pulls n valueAt) : i ∈ e.positions :=
  (pulls_of_inside inside valueAt).2.2 i a pulled

end Entry

namespace Tape

variable {α : Type}

/-- Every entry's operands compare as positions before it. -/
def Topological (t : Tape α) : Prop :=
  ∀ (i : Nat) (e : Entry α), t.entries[i]? = some e → e.Inside i

def CompleteAt (t : Tape α) (k : Nat) : Prop :=
  ∀ e : Entry α, t.entries[k]? = some e → e.Complete

theorem topological_empty [Scalar α] : (empty : Tape α).Topological := by
  simp [Topological, empty]

theorem Topological.withEntry [Scalar α] {t : Tape α} (topo : t.Topological) {kind : Kind}
    {o1 o2 : Option Operand} (below1 : ∀ x ∈ o1, x.below t.size = .ok true)
    (below2 : ∀ x ∈ o2, x.below t.size = .ok true) (value extra : α) :
    (t.withEntry kind o1 o2 value extra).Topological := by
  intro i e found
  rw [withEntry_getElem?] at found
  split at found
  next last =>
    simp only [Option.some.injEq] at found
    subst found last
    exact Entry.forall_mem_operands below1 below2
  next => exact topo i e found

theorem Topological.appended [Scalar α] {t : Tape α} (topo : t.Topological) {kind : Kind}
    {p1 p2 : Option Nat} (below1 : ∀ i ∈ p1, i < t.size) (below2 : ∀ i ∈ p2, i < t.size)
    (value extra : α) : (t.appended kind p1 p2 value extra).Topological := by
  have selects (p : Option Nat) (below : ∀ i ∈ p, i < t.size) :
      ∀ x ∈ p.map Operand.ofNat, x.below t.size = .ok true := by
    intro x mem
    obtain ⟨i, found, rfl⟩ := Option.map_eq_some_iff.1 mem
    simpa using below i found
  exact topo.withEntry (selects p1 below1) (selects p2 below2) value extra

theorem completeAt_appended [Scalar α] {t : Tape α} (complete : ∀ k, t.CompleteAt k) {kind : Kind}
    {p1 p2 : Option Nat} {value extra : α}
    (last : (⟨kind, p1.map .ofNat, p2.map .ofNat, value, extra, 0.0⟩ : Entry α).Complete) (k : Nat) :
    (t.appended kind p1 p2 value extra).CompleteAt k := by
  intro e found
  rw [appended_getElem?] at found
  split at found
  · cases found
    exact last
  · exact complete k e found

theorem Topological.inside {t : Tape α} (topo : t.Topological) {k : Nat} {e : Entry α}
    (found : t.entries[k]? = some e) : e.Inside t.size :=
  (topo k e found).mono (Nat.le_of_lt (Array.getElem?_eq_some_iff.1 found).1)

theorem Topological.position_lt {t : Tape α} (topo : t.Topological) {k : Nat} {e : Entry α}
    (found : t.entries[k]? = some e) {p : Nat} (mem : p ∈ e.positions) : p < k :=
  (topo k e found).position_lt mem

theorem forM_require_eq_ok (i : Nat) (tag : String) (os : List Operand) :
    (os.forM fun o => o.require i (.operandNotEarlier i tag o.text)) =
      (.ok () : Except Fault Unit) ↔ ∀ o ∈ os, o.below i = .ok true := by
  induction os with
  | nil => simp [List.forM, pure, Except.pure]
  | cons o os ih =>
    by_cases below : o.below i = .ok true
    · have passes : o.require i (.operandNotEarlier i tag o.text) = .ok () :=
        Operand.require_eq_ok.2 below
      simpa [List.forM, passes, below, bind, Except.bind] using ih
    · cases refused : o.require i (.operandNotEarlier i tag o.text) with
      | error f => simp [List.forM, refused, below, bind, Except.bind]
      | ok u => exact absurd (Operand.require_eq_ok.1 refused) below

theorem operandsEarlier_eq_ok (i : Nat) (es : List (Entry α)) :
    operandsEarlier i es = .ok () ↔
      ∀ (k : Nat) (e : Entry α), es[k]? = some e → e.Inside (i + k) := by
  induction es generalizing i with
  | nil => simp [operandsEarlier]
  | cons e es ih =>
    -- the head is checked against `i`, the rest against `i + 1` from position 0 of the tail
    have split_ok : operandsEarlier i (e :: es) = .ok () ↔
        e.Inside i ∧ operandsEarlier (i + 1) es = .ok () := by
      rw [Entry.Inside, ← forM_require_eq_ok i e.kind.tag]
      simp only [operandsEarlier, bind, Except.bind]
      split <;> simp_all
    rw [split_ok, ih]
    constructor
    · rintro ⟨first, rest⟩ (_ | k) e' found
      · simp only [List.getElem?_cons_zero, Option.some.injEq] at found
        subst found
        simpa using first
      · simpa [Nat.add_assoc, Nat.add_comm 1 k] using rest k e' (by simpa using found)
    · intro all
      refine ⟨by simpa using all 0 e (by simp), fun k e' found => ?_⟩
      simpa [Nat.add_assoc, Nat.add_comm 1 k] using all (k + 1) e' (by simpa using found)

theorem checkTopological_eq_ok_iff (t : Tape α) : t.checkTopological = .ok () ↔ t.Topological := by
  simp [checkTopological, operandsEarlier_eq_ok, Topological]

theorem Topological.target_lt [Scalar α] {t : Tape α} (topo : t.Topological) {k : Nat}
    {e : Entry α} (found : t.entries[k]? = some e) {valueAt : Nat → α} {i : Nat} {a : α}
    (pulled : Pull.add i a ∈ e.pulls t.size valueAt) : i < k :=
  topo.position_lt found (Entry.mem_positions_of_pull (topo.inside found) pulled)

end Tape

end AdjointDiff
