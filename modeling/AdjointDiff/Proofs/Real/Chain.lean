import AdjointDiff.Proofs.Real.Splice

set_option autoImplicit false

namespace AdjointDiff

open Recorder

namespace Record

variable {α : Type} [Scalar α]

theorem run_entry_eq_ok {t u : Tape α} {kind : Kind} {value extra : α} {o1 o2 : Option Operand}
    {v : Var α} (ran : run (entry kind value o1 o2 extra) t = (.ok v, u)) :
    u = t.withEntry kind o1 o2 value extra ∧ v = ⟨value, t.size⟩ := by
  rw [run_entry] at ran
  split at ran
  next t' i accepted =>
    obtain ⟨-, -, -, same⟩ := Tape.append_eq_ok accepted
    simp only [Prod.mk.injEq, Except.ok.injEq] at ran same
    obtain ⟨rfl, rfl⟩ := ran
    obtain ⟨rfl, rfl⟩ := same
    exact ⟨rfl, rfl⟩
  next => simp at ran

end Record

namespace Tape

variable {t u : Tape ℝ}

theorem run_chainRest (fresh : t.interpreted = false) {out : Var ℝ} (nonempty : 0 < t.size)
    (pairs : List (Var ℝ × ℝ)) (valid : ∀ q ∈ pairs, 0 ≤ q.1.index ∧ q.1.index.toNat < t.size)
    (last : out.index = ((t.size - 1 : Nat) : Int)) :
    ∃ w u, run (Record.chainRest out pairs) t = (.ok w, u) ∧ u.size = t.size + pairs.length ∧
      (∀ i < t.size, u.entries[i]? = t.entries[i]?) ∧
      ∀ k < pairs.length, u.entries[t.size + k]? =
        some ⟨.manual, some (.ofNat (pairs.getD k (⟨0, 0⟩, 0)).1.index.toNat),
          some (.ofNat (t.size + k - 1)), out.value, (pairs.getD k (⟨0, 0⟩, 0)).2, 0⟩ := by
  induction pairs generalizing t out with
  | nil => exact ⟨out, t, rfl, by simp, fun _ _ => rfl, by simp⟩
  | cons q rest ih =>
    obtain ⟨nonneg, below⟩ := valid q (by simp)
    have below_out : ∀ i ∈ some (t.size - 1), i < t.size := by simp; omega
    have below_q : ∀ i ∈ some q.1.index.toNat, i < t.size := by simpa using below
    have linked := Record.run_entry_of_fresh fresh .manual below_q below_out out.value q.2
    simp only [Option.map_some, Operand.ofNat, Int.toNat_of_nonneg nonneg, ← last] at linked
    -- the next link continues from the one just appended
    obtain ⟨w, u, ran, size, kept, links⟩ := @ih (t.appended .manual (some q.1.index.toNat)
      (some (t.size - 1)) out.value q.2) fresh ⟨out.value, t.size⟩ (by simp)
      (fun q' mem => by have := valid q' (by simp [mem]); simp; omega) (by simp)
    refine ⟨w, u, ?_, by simp [size]; omega, fun i below_i => ?_, fun k inside => ?_⟩
    · simp only [Record.chainRest, Record.manual, Option.map_some]
      rw [run_bind_of_ok linked, ran]
    · rw [kept i (by simp; omega), appended_getElem?, if_neg (by omega)]
    · cases k with
      | zero =>
        rw [kept _ (by simp), appended_getElem?, if_pos (by simp)]
        simp
      | succ k =>
        have link := links k (by simpa using inside)
        simp only [appended_size] at link
        rw [show t.size + (k + 1) = t.size + 1 + k by omega, link]
        simp

theorem run_manualChain (fresh : t.interpreted = false) {xs : List (Var ℝ)}
    (valid : ∀ a ∈ xs, 0 ≤ a.index ∧ a.index.toNat < t.size) (ps : List ℝ)
    (same : xs.length = ps.length) (nonempty : xs ≠ []) (v : ℝ) :
    ∃ w u, run (Record.manualChain xs ps v) t = (.ok w, u) ∧ u.size = t.size + xs.length ∧
      (∀ i < t.size, u.entries[i]? = t.entries[i]?) ∧
      ∀ k < xs.length, u.entries[t.size + k]? =
        some ⟨.manual, some (.ofNat (xs.getD k ⟨0, 0⟩).index.toNat),
          if k = 0 then none else some (.ofNat (t.size + k - 1)), v, ps.getD k 0, 0⟩ := by
  obtain ⟨a, as, rfl⟩ := List.exists_cons_of_ne_nil nonempty
  obtain ⟨p, ps, rfl⟩ : ∃ p ps', ps = p :: ps' := List.exists_cons_of_length_eq_add_one same.symm
  have lengths : as.length = ps.length := by simpa using same
  obtain ⟨nonneg, below⟩ := valid a (by simp)
  have below_a : ∀ i ∈ some a.index.toNat, i < t.size := by simpa using below
  have none_below : ∀ i ∈ (none : Option Nat), i < t.size := by simp
  have first := Record.run_entry_of_fresh fresh .manual below_a none_below v p
  simp only [Option.map_some, Option.map_none, Operand.ofNat, Int.toNat_of_nonneg nonneg] at first
  -- the rest of the chain continues from the first link
  obtain ⟨w, u, ran, size, kept, links⟩ := @run_chainRest
    (t.appended .manual (some a.index.toNat) none v p) fresh ⟨v, t.size⟩ (by simp) (as.zip ps)
    (fun q mem => by
      have := valid q.1 (by simp [List.of_mem_zip mem |>.1])
      simp
      omega) (by simp)
  refine ⟨w, u, ?_, by simp [size, lengths]; omega, fun i below_i => ?_, fun k inside => ?_⟩
  · simp only [Record.manualChain, if_pos lengths, Record.manual, Option.map_none]
    rw [run_bind_of_ok first, ran]
  · rw [kept i (by simp; omega), appended_getElem?, if_neg (by omega)]
  · cases k with
    | zero =>
      rw [kept _ (by simp), appended_getElem?, if_pos (by simp)]
      simp
    | succ k =>
      have inside' : k < as.length := by simpa using inside
      have link := links k (by simpa [lengths] using inside')
      simp only [appended_size] at link
      rw [show t.size + (k + 1) = t.size + 1 + k by omega, link]
      simp [List.getD_eq_getElem?_getD, inside', lengths ▸ inside']

def Avoids (u : Tape ℝ) (lo hi : Nat) : Prop :=
  ∀ k e, hi < k → u.entries[k]? = some e → ∀ p ∈ e.positions, p < lo ∨ hi ≤ p

variable {lo hi : Nat}

theorem avoids_of_size_le (short : t.size ≤ hi + 1) : t.Avoids lo hi := by
  intro k e after found
  simp [Array.getElem?_eq_none (show t.entries.size ≤ k from by simp only [size] at short; omega)]
    at found

theorem Avoids.withEntry (avoids : t.Avoids lo hi) {kind : Kind} {o1 o2 : Option Operand}
    {value extra : ℝ}
    (reads : ∀ p ∈ (⟨kind, o1, o2, value, extra, 0.0⟩ : Entry ℝ).positions, p < lo ∨ hi ≤ p) :
    (t.withEntry kind o1 o2 value extra).Avoids lo hi := by
  intro k e after found
  rw [withEntry_getElem?] at found
  split at found
  next =>
    simp only [Option.some.injEq] at found
    subst found
    exact reads
  next => exact avoids k e after found

theorem avoids_entry {kind : Kind} {value extra : ℝ} {o1 o2 : Option Operand} {v : Var ℝ}
    (ran : run (Record.entry kind value o1 o2 extra) t = (.ok v, u)) (avoids : t.Avoids lo hi)
    (past : hi < t.size) (first : ∀ x ∈ o1, ∀ p ∈ x.position?, p < lo ∨ hi ≤ p)
    (second : ∀ x ∈ o2, ∀ p ∈ x.position?, p < lo ∨ hi ≤ p) :
    u.Avoids lo hi ∧ hi < u.size ∧ hi < v.index.toNat := by
  obtain ⟨rfl, rfl⟩ := Record.run_entry_eq_ok ran
  refine ⟨avoids.withEntry fun p mem => ?_, by simp; omega, by simp; omega⟩
  -- a position an entry reads is selected by one of its slots
  rcases List.mem_append.1 mem with selected | selected <;>
    obtain ⟨x, slot, at_p⟩ := Option.bind_eq_some_iff.1 (Option.mem_toList.1 selected)
  · exact first x slot p at_p
  · exact second x slot p at_p

theorem localPartial_eq_zero_of_unread {k j : Nat} {e : Entry ℝ} (found : t.entries[k]? = some e)
    (unread : j ∉ e.positions) : t.localPartial k j = 0 := by
  simp only [localPartial, found, Entry.partialSum]
  apply List.sum_eq_zero
  intro y listed
  obtain ⟨q, slot, rfl⟩ := List.mem_map.1 listed
  have operand := Entry.mem_positions_of_partial slot
  rw [if_neg fun (same : q.1 = j) => unread (same ▸ operand)]

section Chain

variable {m n s : Nat} {xs : Nat → Nat} {ps : Nat → ℝ} {v : ℝ}

theorem sweepAdjoints_link (clean : t.Clean)
    (links : ∀ k < n, t.entries[m + k]? =
      some ⟨.manual, some (.ofNat (xs k)), if k = 0 then none else some (.ofNat (m + k - 1)), v,
        ps k, 0⟩)
    (operands_before : ∀ k < n, xs k < m) (avoids : t.Avoids m (m + n - 1))
    (from_later : m + n - 1 ≤ s) {k : Nat} (inner : k + 1 < n) :
    t.sweepAdjoints s (m + k) = t.sweepAdjoints s (m + k + 1) := by
  -- the link after reads this one with partial one
  have next : t.localPartial (m + k + 1) (m + k) = 1 := by
    have found := links (k + 1) inner
    rw [← Nat.add_assoc] at found
    have other : xs (k + 1) ≠ m + k := by have := operands_before (k + 1) inner; omega
    simp [localPartial, found, Entry.partialSum, Entry.partials, other]
  -- every other entry up to `s` leaves it alone
  have others : ∀ j ∈ Finset.Ioc (m + k) s, j ≠ m + k + 1 → t.localPartial j (m + k) = 0 := by
    intro j member other
    simp only [Finset.mem_Ioc] at member
    cases found : t.entries[j]? with
    | none => simp [localPartial, found]
    | some e =>
      refine localPartial_eq_zero_of_unread found fun operand => ?_
      by_cases in_chain : j < m + n
      · -- a later link reads its operand and the link just before it
        have link := links (j - m) (by omega)
        rw [show m + (j - m) = j by omega, found] at link
        cases link
        have := operands_before (j - m) (by omega)
        by_cases first_link : j - m = 0 <;> simp [Entry.positions, first_link] at operand <;> omega
      · rcases avoids j e (by omega) found (m + k) operand with below | above <;> omega
  rw [sweepAdjoints_eq t clean.topological (fun j _ => clean.complete j) (m + k), clean.unswept,
    if_neg (by omega), Finset.sum_eq_single (m + k + 1) (fun j member other => by
      rw [others j member other, mul_zero]) (fun outside => absurd (by simp; omega) outside),
    next]
  simp

theorem sweepAdjoints_chain (clean : t.Clean)
    (links : ∀ k < n, t.entries[m + k]? =
      some ⟨.manual, some (.ofNat (xs k)), if k = 0 then none else some (.ofNat (m + k - 1)), v,
        ps k, 0⟩)
    (operands_before : ∀ k < n, xs k < m) (avoids : t.Avoids m (m + n - 1))
    (from_later : m + n - 1 ≤ s) {k : Nat} (inside : k < n) :
    t.sweepAdjoints s (m + k) = t.sweepAdjoints s (m + n - 1) := by
  -- down the chain from the last link, one link at a time
  induction h : n - 1 - k generalizing k with
  | zero => rw [show m + k = m + n - 1 by omega]
  | succ j ih =>
    rw [sweepAdjoints_link clean links operands_before avoids from_later (by omega)]
    exact ih (k := k + 1) (by omega) (by omega)

theorem swept_chain (clean : t.Clean)
    (links : ∀ k < n, t.entries[m + k]? =
      some ⟨.manual, some (.ofNat (xs k)), if k = 0 then none else some (.ofNat (m + k - 1)), v,
        ps k, 0⟩)
    (operands_before : ∀ k < n, xs k < m) (avoids : t.Avoids m (m + n - 1))
    (from_later : m + n - 1 ≤ s) {k : Nat} (inside : k < n) :
    ({ t.withAdjoints (t.sweepAdjoints s) with interpreted := true } : Tape ℝ).entries[m + k]? =
      some ⟨.manual, some (.ofNat (xs k)), if k = 0 then none else some (.ofNat (m + k - 1)), v, ps k,
        ({ t.withAdjoints (t.sweepAdjoints s) with interpreted := true } : Tape ℝ).adjointAt
          (m + n - 1)⟩ := by
  have last := links (n - 1) (by omega)
  rw [show m + (n - 1) = m + n - 1 by omega] at last
  have carried : ({ t.withAdjoints (t.sweepAdjoints s) with interpreted := true } : Tape ℝ).adjointAt
      (m + n - 1) = t.sweepAdjoints s (m + n - 1) := by
    simp [adjointAt, last]
  rw [carried, ← sweepAdjoints_chain clean links operands_before avoids from_later inside]
  simp [links k inside]

end Chain

end Tape

namespace StraightLine

variable {t u : Tape ℝ} {lo hi : Nat}

theorem avoids_call {x : Nat → ℝ} {n : Nat} {vs : List (Var ℝ)} {c : Call} {v : Var ℝ}
    (ran : run (c.record x n vs) t = (.ok v, u)) (avoids : t.Avoids lo hi) (past : hi < t.size)
    (handles : ∀ a ∈ c.operands,
      (vs.getD a ⟨0, 0⟩).index.toNat < lo ∨ hi ≤ (vs.getD a ⟨0, 0⟩).index.toNat) :
    u.Avoids lo hi ∧ hi < u.size ∧ hi < v.index.toNat := by
  cases c with
  | rsubConst c a =>
    -- `c - x` appends `-x` and then reads it
    simp only [Call.record, Record.rsubConst, Record.neg, Record.mulConst] at ran
    rw [run_bind] at ran
    split at ran
    next negated t' recorded =>
      obtain ⟨avoids', past', after⟩ := Tape.avoids_entry recorded avoids past
        (fun x slot p at_p => by
          cases slot
          cases at_p
          exact handles _ (by simp [Call.operands]))
        (by simp)
      exact Tape.avoids_entry ran avoids' past' (fun x slot p at_p => by
        cases slot
        cases at_p
        omega) (by simp)
    next => simp at ran
  | _ =>
    -- every other call records one entry, whose operands are handles of its own operands
    exact Tape.avoids_entry ran avoids past
      (fun x slot p at_p => by cases slot <;> cases at_p <;> exact handles _ (by simp [Call.operands]))
      (fun x slot p at_p => by cases slot <;> cases at_p <;> exact handles _ (by simp [Call.operands]))

theorem avoids_recordFrom (x : Nat → ℝ) (calls : List Call) {n : Nat} {vs ws : List (Var ℝ)}
    (ran : run (recordFrom x n vs calls) t = (.ok ws, u)) (avoids : t.Avoids lo hi)
    (past : hi < t.size) (handles : ∀ w ∈ vs, w.index.toNat < lo ∨ hi ≤ w.index.toNat)
    (earlier : ∀ (p : Nat) (c : Call), calls[p]? = some c → ∀ a ∈ c.operands, a < vs.length + p) :
    u.Avoids lo hi := by
  induction calls generalizing n vs t with
  | nil =>
    simp only [recordFrom, run_pure, Prod.mk.injEq] at ran
    rw [← ran.2]
    exact avoids
  | cons c cs ih =>
    simp only [recordFrom] at ran
    rw [run_bind] at ran
    split at ran
    next v t' called =>
      obtain ⟨avoids', past', after⟩ := avoids_call called avoids past fun a mem => by
        have inside : a < vs.length := by simpa using earlier 0 c rfl a mem
        exact handles _ (by rw [List.getD_eq_getElem _ _ inside]; exact List.getElem_mem inside)
      refine ih ran avoids' past' (fun w mem => ?_) fun p c' found a mem => ?_
      · rcases List.mem_append.1 mem with old | new
        · exact handles w old
        · simp only [List.mem_singleton] at new
          subst new
          omega
      · have below := earlier (p + 1) c' (by simpa using found) a mem
        simp only [List.length_append, List.length_singleton]
        omega
    next => simp at ran

end StraightLine

end AdjointDiff
