import AdjointDiff.Proofs.Real.Scalar
import AdjointDiff.Proofs.Tape.Reachable

set_option autoImplicit false

namespace AdjointDiff

open ProbabilityTheory Recorder

namespace Entry

/-- The local partial of each operand slot the entry fills, first slot first. -/
noncomputable def partials (e : Entry ℝ) (valueAt : Nat → ℝ) : List (Nat × ℝ) :=
  let v := e.value
  let c := e.extra
  let unary (p : ℝ → ℝ) : List (Nat × ℝ) := e.first.toList.map fun i => (i, p (valueAt i))
  let binary (p q : ℝ → ℝ → ℝ) : List (Nat × ℝ) :=
    match e.first, e.second with
    | some i, some j => [(i, p (valueAt i) (valueAt j)), (j, q (valueAt i) (valueAt j))]
    | _, _ => []
  match e.kind with
  | .input => []
  | .manual => e.first.toList.map (fun i => (i, c)) ++ e.second.toList.map (fun j => (j, 1))
  | .add => binary (fun _ _ => 1) (fun _ _ => 1)
  | .addConst => unary fun _ => 1
  | .sub => binary (fun _ _ => 1) (fun _ _ => -1)
  | .mul => binary (fun _ b => b) (fun a _ => a)
  | .mulConst => unary fun _ => c
  | .div => binary (fun _ b => 1 / b) (fun a b => -a / b ^ 2)
  | .pow => binary (fun a b => b * v / a) (fun a _ => v * Real.log a)
  | .powConst => unary fun a => c * v / a
  | .sin => unary Real.cos
  | .cos => unary fun a => -Real.sin a
  | .exp => unary fun _ => v
  | .log => unary fun a => 1 / a
  | .sqrt => unary fun _ => 1 / 2 / v
  | .normalCdf => unary (gaussianPDFReal 0 1)

theorem pulls_eq_partials {e : Entry ℝ} {n : Nat} (complete : e.Complete) (inside : e.Inside n)
    (valueAt : Nat → ℝ) :
    e.pulls n valueAt = (e.partials valueAt).map fun p => .add p.1 (e.adjoint * p.2) := by
  rcases e with ⟨kind, o1, o2, v, c, b⟩
  rcases Operand.lookup_cases inside.first with ⟨p1, sel1, look1⟩ | ⟨f1, sel1, look1, -⟩ <;>
  rcases Operand.lookup_cases inside.second with ⟨p2, sel2, look2⟩ | ⟨f2, sel2, look2, -⟩ <;>
  cases o2 <;> cases kind <;>
    -- each rule's amount is the adjoint times the partial up to the order of the factors
    simp_all [pulls, partials, slot, Complete, Kind.binary, Scalar.normalPdf_real, div_eq_mul_inv,
      pow_two, mul_comm, mul_left_comm]

theorem mem_positions_of_partial {e : Entry ℝ} {valueAt : Nat → ℝ} {p : Nat × ℝ}
    (listed : p ∈ e.partials valueAt) : p.1 ∈ e.positions := by
  rcases e with ⟨kind, o1, o2, v, c, b⟩
  cases kind <;> cases h1 : o1.bind Operand.position? <;> cases h2 : o2.bind Operand.position? <;>
    simp only [partials, first_mk, second_mk, h1, h2] at listed <;> simp_all [positions]
  -- left are the two-operand kinds with both slots filled: the partial is one of the two slots
  all_goals rcases listed with rfl | rfl <;> simp

noncomputable def partialSum (e : Entry ℝ) (valueAt : Nat → ℝ) (j : Nat) : ℝ :=
  ((e.partials valueAt).map fun p => if p.1 = j then p.2 else 0).sum

end Entry

namespace Pull

theorem foldl_addTo (a : ℝ) (ps : List (Nat × ℝ)) (adj : Nat → ℝ) :
    (ps.map fun p => Pull.add p.1 (a * p.2)).foldl Pull.addTo adj =
      fun j => adj j + a * (ps.map fun p => if p.1 = j then p.2 else 0).sum := by
  induction ps generalizing adj with
  | nil => simp
  | cons p ps ih =>
    funext j
    simp only [List.map_cons, List.foldl_cons, ih, List.sum_cons, addTo, Function.update_apply]
    by_cases same : j = p.1
    · subst same
      simp only [if_true]
      ring
    · simp [same, Ne.symm same]

end Pull

namespace Tape

/-- The local partial of entry `k` by entry `j` (zero when there is no entry `k`). -/
noncomputable def localPartial (t : Tape ℝ) (k j : Nat) : ℝ :=
  match t.entries[k]? with
  | some e => e.partialSum t.valueAt j
  | none => 0

theorem visitAdjoints_eq {t : Tape ℝ} (topo : t.Topological) (adj : Nat → ℝ) {k : Nat}
    (complete : t.CompleteAt k) :
    t.visitAdjoints adj k = fun j => adj j + adj k * t.localPartial k j := by
  unfold visitAdjoints localPartial
  cases found : t.entries[k]? with
  | none => simp
  | some e =>
    -- the rule reads the adjoint the sweep has reached, the partials do not read it at all
    have rule := Entry.pulls_eq_partials (e := { e with adjoint := adj k }) (complete e found)
      (fun o mem => topo.inside found o mem) t.valueAt
    simp only [rule, Pull.foldl_addTo]
    rfl

theorem localPartial_eq_zero {t : Tape ℝ} (topo : t.Topological) {k j : Nat} (above : k ≤ j) :
    t.localPartial k j = 0 := by
  unfold localPartial
  cases found : t.entries[k]? with
  | none => rfl
  | some e =>
    -- every slot selects an entry below `k`, so none selects `j`
    apply List.sum_eq_zero
    intro x listed
    obtain ⟨p, slot, rfl⟩ := List.mem_map.1 listed
    have below := topo.position_lt found (Entry.mem_positions_of_partial slot)
    simp only [ite_eq_right_iff]
    omega

theorem foldl_visitAdjoints (t : Tape ℝ) (topo : t.Topological) {n : Nat}
    (complete : ∀ k < n, t.CompleteAt k) (adj : Nat → ℝ) (j : Nat) :
    (List.range n).reverse.foldl t.visitAdjoints adj j =
      adj j + ∑ k ∈ Finset.range n,
        (List.range n).reverse.foldl t.visitAdjoints adj k * t.localPartial k j := by
  induction n generalizing adj j with
  | zero => simp
  | succ n ih =>
    -- entry `n` is visited first, with the adjoint it started with
    have visited (j : Nat) : t.visitAdjoints adj n j = adj j + adj n * t.localPartial n j :=
      congrFun (visitAdjoints_eq topo adj (complete n (by omega))) j
    have rest := ih (fun k below => complete k (by omega)) (t.visitAdjoints adj n)
    simp only [List.range_succ, List.reverse_append, List.reverse_cons, List.reverse_nil,
      List.nil_append, List.singleton_append, List.foldl_cons]
    -- the later visits add only below `n`, so entry `n` keeps that adjoint
    have kept : (List.range n).reverse.foldl t.visitAdjoints (t.visitAdjoints adj n) n = adj n := by
      have below : ∀ k ∈ Finset.range n, (List.range n).reverse.foldl t.visitAdjoints
          (t.visitAdjoints adj n) k * t.localPartial k n = 0 := by
        intro k member
        rw [localPartial_eq_zero topo (Finset.mem_range.1 member).le, mul_zero]
      rw [rest n, Finset.sum_eq_zero below, visited n, localPartial_eq_zero topo le_rfl]
      ring
    rw [rest j, visited j, Finset.sum_range_succ, kept]
    ring

theorem sweepAdjoints_eq (t : Tape ℝ) (topo : t.Topological) {s : Nat}
    (complete : ∀ k ≤ s, t.CompleteAt k) (j : Nat) :
    t.sweepAdjoints s j = t.adjointAt j + (if j = s then 1 else 0) +
      ∑ k ∈ Finset.Ioc j s, t.sweepAdjoints s k * t.localPartial k j := by
  have swept : t.sweepAdjoints s j =
      Function.update t.adjointAt s (t.adjointAt s + 1.0) j +
        ∑ k ∈ Finset.range (s + 1), t.sweepAdjoints s k * t.localPartial k j :=
    foldl_visitAdjoints t topo (fun k below => complete k (by omega)) _ j
  -- of the entries up to `s`, only those above `j` have a partial by it
  have above : ∑ k ∈ Finset.Ioc j s, t.sweepAdjoints s k * t.localPartial k j =
      ∑ k ∈ Finset.range (s + 1), t.sweepAdjoints s k * t.localPartial k j := by
    apply Finset.sum_subset
    · intro k member
      simp only [Finset.mem_Ioc, Finset.mem_range] at member ⊢
      omega
    · intro k member outside
      simp only [Finset.mem_range] at member
      simp only [Finset.mem_Ioc, not_and, not_le] at outside
      have below : k ≤ j := by
        by_contra above_j
        have := outside (by omega)
        omega
      rw [localPartial_eq_zero topo below, mul_zero]
  rw [swept, ← above, Function.update_apply]
  split
  next same =>
    subst same
    simp only [Scalar.one_real]
  next => simp

end Tape

/-- On a reachable unswept tape, the sweep from any `s` whose entries at or below it are
complete runs to the end and marks the tape, changing adjoints only. Each adjoint ends as it
began plus the seed on `s` plus, over the entries `k` above it and up to `s`, `k`'s final adjoint
times its local partial by it. The adjoints it began with are all zero when every entry of the
tape is complete. -/
theorem interpret_adjoints_eq_sum_partials {t : Tape ℝ} (reach : t.Reachable)
    (fresh : t.interpreted = false) {s : Nat} (within : s < t.size)
    (complete : ∀ k ≤ s, t.CompleteAt k) :
    ∃ adj : Nat → ℝ,
      run (Tape.interpret (some (s : Int))) t =
        (.ok (), { t.withAdjoints adj with interpreted := true }) ∧
      (∀ j, adj j = t.adjointAt j + (if j = s then 1 else 0) +
        ∑ k ∈ Finset.Ioc j s, adj k * t.localPartial k j) ∧
      ((∀ k, t.CompleteAt k) → ∀ j, t.adjointAt j = 0) := by
  have topo := reach.topological
  refine ⟨t.sweepAdjoints s, ?_, t.sweepAdjoints_eq topo complete, fun all j => ?_⟩
  · rw [Tape.run_interpret_at t within fresh, Tape.run_sweepFrom t topo within complete]
  · simpa using reach.adjointAt_eq_zero fresh all j

theorem square_sweep_adjoints :
    let t : Tape ℝ := (run (Record.mul ⟨2, 0⟩ ⟨2, 0⟩) (run (Record.input 2) Tape.empty).2).2
    t.Reachable ∧ t.interpreted = false ∧ 1 < t.size ∧ (∀ k ≤ 1, t.CompleteAt k) ∧
      ∃ adj : Nat → ℝ,
        run (Tape.interpret (some ((1 : Nat) : Int))) t =
          (.ok (), { t.withAdjoints adj with interpreted := true }) ∧
        (∀ j, adj j = t.adjointAt j + (if j = 1 then 1 else 0) +
          ∑ k ∈ Finset.Ioc j 1, adj k * t.localPartial k j) ∧
        ((∀ k, t.CompleteAt k) → ∀ j, t.adjointAt j = 0) := by
  intro t
  have reach : t.Reachable := .entry _ _ _ _ _ (.entry _ _ _ _ _ .empty)
  have literal : t.entries =
      #[⟨.input, none, none, 2, 0.0, 0.0⟩, ⟨.mul, some (.int 0), some (.int 0), 2 * 2, 0.0, 0.0⟩] :=
    rfl
  have complete : ∀ k ≤ 1, t.CompleteAt k := by
    intro k below e found
    rw [literal] at found
    interval_cases k <;> cases found <;> decide
  exact ⟨reach, rfl, by decide, complete,
    interpret_adjoints_eq_sum_partials reach rfl (by decide) complete⟩

theorem sweep_stops_before_input :
    let t : Tape ℝ := (run (Record.entry .add 0 (some (.int 1)) none 0)
      (run (Record.sin ⟨0, 0⟩) (run (Record.input 0) Tape.empty).2).2).2
    let after := (run (Tape.interpret (some 2)) t).2
    t.Reachable ∧ t.interpreted = false ∧ t.size = 3 ∧
      (run (Tape.interpret (some 2)) t).1 = .error (.incomparableIndex "NoneType") ∧
      after.adjointAt 1 = 1 ∧ after.adjointAt 2 = 1 ∧ after.adjointAt 0 = 0 ∧
      t.localPartial 1 0 = 1 := by
  intro t after
  have reach : t.Reachable := .entry _ _ _ _ _ (.entry _ _ _ _ _ (.entry _ _ _ _ _ .empty))
  have literal : t = ⟨#[⟨.input, none, none, 0, 0.0, 0.0⟩,
      ⟨.sin, some (.int 0), none, Scalar.sin 0, 0.0, 0.0⟩, ⟨.add, some (.int 1), none, 0, 0, 0.0⟩],
      false⟩ := rfl
  have stopped : run (Tape.interpret (some 2)) t = (.error (.incomparableIndex "NoneType"),
      ⟨#[⟨.input, none, none, 0, 0.0, 0.0⟩,
        ⟨.sin, some (.int 0), none, Scalar.sin 0, 0.0, 0.0 + (0.0 + 1.0)⟩,
        ⟨.add, some (.int 1), none, 0, 0, 0.0 + 1.0⟩], false⟩) := by
    rw [literal]
    rfl
  refine ⟨reach, rfl, rfl, by rw [stopped], ?_, ?_, ?_, ?_⟩
  · simp [after, stopped, Tape.adjointAt]
  · simp [after, stopped, Tape.adjointAt]
  · simp [after, stopped, Tape.adjointAt]
  · rw [literal]
    simp [Tape.localPartial, Entry.partialSum, Entry.partials, Entry.first, Operand.position?,
      Tape.valueAt]

end AdjointDiff
