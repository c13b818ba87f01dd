import AdjointDiff.Proofs.Real.Recording

/-!
The gradient of a straight-line program.

Record a program on a fresh tape, sweep from one call's handle and read the adjoints of the input
entries: there is one for every input the program declares, in the order it declares them, and
each is the partial derivative, at the recorded input values, of the value that call's handle
takes when the program is recorded again with that input moved. This holds wherever every
recorded entry sits in the domain its local rule assumes.

The proof pairs two runs. Recording at a moved input gives a tape of the same shape whose
values move at the rate of the tangent; the sweep gives adjoints that satisfy their own
recursion; and summed over the inputs, adjoint times tangent is the tangent of the output.
-/

set_option autoImplicit false

namespace AdjointDiff

open Recorder

def inputAdjoints : List (Entry ℝ) → (Nat → ℝ) → List ℝ
  | [], _ => []
  | e :: es, A => (if e.kind = .input then [A 0] else []) ++ inputAdjoints es fun i => A (i + 1)

section InputAdjoints

abbrev isInputEntry (e : Entry ℝ) : Bool := e.kind == .input

theorem filterMap_withAdjoints (es : List (Entry ℝ)) (A : Nat → ℝ) :
    (es.mapIdx fun i e => { e with adjoint := A i }).filterMap
        (fun e => if e.kind == .input then some e.adjoint else none) =
      inputAdjoints es A := by
  induction es generalizing A with
  | nil => rfl
  | cons e es ih =>
    rw [List.mapIdx_cons, List.filterMap_cons, inputAdjoints, ← ih]
    by_cases input : e.kind = .input <;> simp [input]

theorem length_inputAdjoints (es : List (Entry ℝ)) (A : Nat → ℝ) :
    (inputAdjoints es A).length = es.countP isInputEntry := by
  induction es generalizing A with
  | nil => rfl
  | cons e es ih =>
    by_cases input : e.kind = .input <;> simp [inputAdjoints, input, ih]

theorem inputAdjoints_getElem? (es : List (Entry ℝ)) (A : Nat → ℝ) {m : Nat} {e : Entry ℝ}
    (found : es[m]? = some e) (input : e.kind = .input) :
    (inputAdjoints es A)[(es.take m).countP isInputEntry]? = some (A m) := by
  induction es generalizing A m with
  | nil => simp at found
  | cons e₀ es ih =>
    cases m with
    | zero =>
      simp only [List.getElem?_cons_zero, Option.some.injEq] at found
      subst found
      simp [inputAdjoints, input]
    | succ m =>
      simp only [List.getElem?_cons_succ] at found
      have rest := ih (fun i => A (i + 1)) found
      by_cases first : e₀.kind = .input <;> simp_all [inputAdjoints]

theorem exists_input_of_lt_count (es : List (Entry ℝ)) {r : Nat}
    (below : r < es.countP isInputEntry) :
    ∃ m e, es[m]? = some e ∧ e.kind = .input ∧ (es.take m).countP isInputEntry = r := by
  induction es generalizing r with
  | nil => simp at below
  | cons e₀ es ih =>
    by_cases first : e₀.kind = .input
    · cases r with
      | zero => exact ⟨0, e₀, rfl, first, by simp⟩
      | succ r =>
        have later : r < es.countP isInputEntry := by simp_all
        obtain ⟨m, e, found, input, rank⟩ := ih later
        exact ⟨m + 1, e, found, input, by simp [first, rank]⟩
    · have later : r < es.countP isInputEntry := by simp_all
      obtain ⟨m, e, found, input, rank⟩ := ih later
      exact ⟨m + 1, e, found, input, by simp [first, rank]⟩

end InputAdjoints

namespace Tape

theorem tangent_of_input {t : Tape ℝ} {k : Nat} {e : Entry ℝ} (found : t.entries[k]? = some e)
    (input : e.kind = .input) (r : Nat) : t.tangent r k = if t.inputRank k = r then 1 else 0 := by
  rw [tangent, found]
  simp [input]

theorem inputRank_lt {t : Tape ℝ} {j m : Nat} {e : Entry ℝ} (found : t.entries[j]? = some e)
    (input : e.kind = .input) (before : j < m) : t.inputRank j < t.inputRank m := by
  have counted : t.inputRank (j + 1) = t.inputRank j + 1 := by
    simp [inputRank, List.take_add_one, found, input, List.countP_append]
  have grows : t.inputRank (j + 1) ≤ t.inputRank m :=
    (List.take_prefix_take_left (Nat.succ_le_of_lt before)).countP_le
  omega

theorem tangent_eq_sweepAdjoints {t : Tape ℝ} (topo : t.Topological)
    (complete : ∀ k, t.CompleteAt k) (unswept : ∀ j, t.adjointAt j = 0) {s : Nat}
    (within : s < t.size) {m : Nat} {e : Entry ℝ} (found : t.entries[m]? = some e)
    (input : e.kind = .input) : t.tangent (t.inputRank m) s = t.sweepAdjoints s m := by
  have adjoints (j : Nat) : t.sweepAdjoints s j = (if j = s then 1 else 0) +
      ∑ k ∈ Finset.Ioc j s, t.sweepAdjoints s k * t.localPartial k j := by
    rw [sweepAdjoints_eq t topo (fun k _ => complete k) j, unswept j, zero_add]
  have tangents (k : Nat) (below : k ≤ s) (computed : t.kindAt k ≠ some .input) :
      t.tangent (t.inputRank m) k =
        ∑ j ∈ Finset.range k, t.localPartial k j * t.tangent (t.inputRank m) j := by
    have inside : k < t.entries.size := by simp only [size] at within; omega
    have found_k : t.entries[k]? = some t.entries[k] := Array.getElem?_eq_getElem inside
    exact tangent_of_computed found_k (fun input_k => computed (by simp [kindAt, found_k, input_k])) _
  -- of all the inputs, only `m` moves with the input it is numbered by
  have only_m (j : Nat) : (if t.kindAt j = some .input then
      t.sweepAdjoints s j * t.tangent (t.inputRank m) j else 0) =
      if m = j then t.sweepAdjoints s m else 0 := by
    by_cases same : m = j
    · subst same
      simp [kindAt, found, input, tangent_of_input found input]
    · rw [if_neg same]
      cases found_j : t.entries[j]? with
      | none => simp [kindAt, found_j]
      | some ej =>
        by_cases input_j : ej.kind = .input
        · have ranks : t.inputRank j ≠ t.inputRank m := by
            rcases Nat.lt_or_gt_of_ne same with before | after
            · exact (inputRank_lt found input before).ne'
            · exact (inputRank_lt found_j input_j after).ne
          simp [kindAt, found_j, input_j, tangent_of_input found_j input_j, ranks]
        · simp [kindAt, found_j, input_j]
  have paired := sum_input_adjoint_mul_tangent t (t.sweepAdjoints s) _ adjoints tangents
  simp only [only_m, Finset.sum_ite_eq, Finset.mem_range] at paired
  split at paired
  · exact paired.symm
  · -- an input above `s` receives nothing from the sweep
    have above : t.sweepAdjoints s m = 0 := by
      rw [adjoints m, if_neg (by omega), Finset.Ioc_eq_empty (by omega), Finset.sum_empty, add_zero]
    rw [← paired, above]

end Tape

namespace StraightLine

noncomputable def tape (calls : List Call) (x : Nat → ℝ) : Tape ℝ :=
  (run (record x calls) Tape.empty).2

noncomputable def value (calls : List Call) (o : Nat) (x : Nat → ℝ) : ℝ :=
  match (run (record x calls) Tape.empty).1 with
  | .ok vs => (vs.getD o ⟨0, 0⟩).value
  | .error _ => 0

noncomputable def gradient (calls : List Call) (o : Nat) (x : Nat → ℝ) :
    Except Fault (List ℝ) :=
  (run (do
    let vs ← record x calls
    Tape.interpret (some (vs.getD o ⟨0, 0⟩).index)
    let t ← get
    Recorder.lift t.gradient?) Tape.empty).1

theorem recorded_alike {calls : List Call} (reads_earlier : Scoped calls) {x : Nat → ℝ}
    {ws : List (Var ℝ)} {t : Tape ℝ} (ran : run (record x calls) Tape.empty = (.ok ws, t))
    (x' : Nat → ℝ) :
    ∃ ws', run (record x' calls) Tape.empty = (.ok ws', tape calls x') ∧
      Recording x' (tape calls x') (inputCount calls) ∧ (tape calls x').SameShape t ∧
      (∀ v ∈ ws', Valid (tape calls x') v) ∧ ws'.map (·.index) = ws.map (·.index) := by
  obtain ⟨ws', ws₀, u', u, ran', ran₀, step, valid', -, same, -⟩ :=
    record_lockstep reads_earlier x' x
  simp only [ran, Prod.mk.injEq, Except.ok.injEq] at ran₀
  obtain ⟨rfl, rfl⟩ := ran₀
  have at_x' : tape calls x' = u' := by rw [tape, ran']
  rw [at_x']
  exact ⟨ws', ran', step.left, step.shape, valid', same⟩

theorem hasDerivAt_update (x : Nat → ℝ) (r q : Nat) :
    HasDerivAt (fun u => Function.update x r u q) (if q = r then 1 else 0) (x r) := by
  by_cases same : q = r
  · subst same
    simpa using hasDerivAt_id' (x q)
  · simpa [Function.update_of_ne same, same] using hasDerivAt_const (x r) (x q)

theorem hasDerivAt_value {calls : List Call} (reads_earlier : Scoped calls) {x : Nat → ℝ}
    {ws : List (Var ℝ)} {t : Tape ℝ} (ran : run (record x calls) Tape.empty = (.ok ws, t))
    (regular : t.Regular) {o : Nat} (output : o < ws.length) (r : Nat) :
    HasDerivAt (fun u => value calls o (Function.update x r u))
      (t.tangent r (ws.getD o ⟨0, 0⟩).index.toNat) (x r) := by
  have at_x : tape calls x = t := by rw [tape, ran]
  have base : tape calls (Function.update x r (x r)) = t := by rw [Function.update_eq_self, at_x]
  obtain ⟨-, -, inv, -, -, -⟩ := recorded_alike reads_earlier ran x
  rw [at_x] at inv
  have value_at (u : ℝ) : value calls o (Function.update x r u) =
      (tape calls (Function.update x r u)).valueAt (ws.getD o ⟨0, 0⟩).index.toNat := by
    obtain ⟨ws', ran', -, -, valid', same⟩ := recorded_alike reads_earlier ran (Function.update x r u)
    have inside : o < ws'.length := by
      have lengths := congrArg List.length same
      simp only [List.length_map] at lengths
      omega
    simp only [value, ran']
    rw [(valid_getD valid' inside).2.2, index_getD same o]
  have shape (u : ℝ) : (tape calls (Function.update x r u)).SameShape
      (tape calls (Function.update x r (x r))) := by
    obtain ⟨-, -, -, shaped, -, -⟩ := recorded_alike reads_earlier ran (Function.update x r u)
    rwa [base]
  have consistent (u : ℝ) : (tape calls (Function.update x r u)).Consistent := by
    obtain ⟨-, -, recording, -, -, -⟩ := recorded_alike reads_earlier ran (Function.update x r u)
    exact recording.consistent
  -- an input entry moves with its own input value only
  have inputs (k : Nat) (e : Entry ℝ)
      (found : (tape calls (Function.update x r (x r))).entries[k]? = some e)
      (input : e.kind = .input) :
      HasDerivAt (fun u => (tape calls (Function.update x r u)).valueAt k)
        ((tape calls (Function.update x r (x r))).tangent r k) (x r) := by
    rw [base] at found ⊢
    have moved (u : ℝ) :
        (tape calls (Function.update x r u)).valueAt k = Function.update x r u (t.inputRank k) := by
      obtain ⟨-, -, recording, shaped, -, -⟩ :=
        recorded_alike reads_earlier ran (Function.update x r u)
      have same := shaped k
      rw [found, Option.map_some, Option.map_eq_some_iff] at same
      obtain ⟨e', found', same_shape⟩ := same
      have input' : e'.kind = .input := (congrArg Prod.fst same_shape).trans input
      rw [Tape.valueAt, found', Option.map_some, Option.getD_some,
        recording.inputs k e' found' input', shaped.inputRank_eq k]
    rw [funext moved, Tape.tangent_of_input found input]
    exact hasDerivAt_update x r (t.inputRank k)
  have rate := Tape.hasDerivAt_valueAt (fun u => tape calls (Function.update x r u)) (x r) r
    shape consistent (base ▸ inv.topological) (base ▸ inv.complete) (base ▸ regular) inputs
    (ws.getD o ⟨0, 0⟩).index.toNat
  simp only [base] at rate
  rw [funext value_at]
  exact rate

/-- Recorded at `x` and swept from the handle of call `o`, a program whose calls read only earlier
handles yields one gradient component per input it declares, in order; component `r` is the
partial derivative in input `r`, at `x`, of the value that handle takes when the program is
recorded again. This holds wherever every recorded entry sits in the domain of its local rule. -/
theorem gradient_eq_partial_derivatives {calls : List Call} (reads_earlier : Scoped calls)
    {o : Nat} (output : o < calls.length) (x : Nat → ℝ) (regular : (tape calls x).Regular) :
    ∃ g, gradient calls o x = .ok g ∧ g.length = inputCount calls ∧
      ∀ (r : Nat) (within : r < g.length),
        HasDerivAt (fun u => value calls o (Function.update x r u)) g[r] (x r) := by
  obtain ⟨ws, _, t, _, ran, -, step, valid, -, -, length⟩ := record_lockstep reads_earlier x x
  have inv := step.left
  have at_x : tape calls x = t := by rw [tape, ran]
  rw [at_x] at regular
  have inside : o < ws.length := by omega
  obtain ⟨nonneg, within_s, -⟩ := valid_getD valid inside
  set s := (ws.getD o ⟨0, 0⟩).index.toNat with s_def
  have swept : run (Tape.interpret (some (ws.getD o ⟨0, 0⟩).index)) t =
      (.ok (), { t.withAdjoints (t.sweepAdjoints s) with interpreted := true }) := by
    rw [← Int.toNat_of_nonneg nonneg, Tape.run_interpret_at t within_s inv.fresh,
      Tape.run_sweepFrom t inv.topological within_s fun k _ => inv.complete k]
  have read : gradient calls o x = .ok (inputAdjoints t.entries.toList (t.sweepAdjoints s)) := by
    simp only [gradient]
    rw [run_bind_of_ok ran, run_bind_of_ok swept, run_seq_get, run_lift]
    simp only [Tape.gradient?, if_true, Tape.withAdjoints, Array.toList_mapIdx,
      filterMap_withAdjoints]
  have count : t.entries.toList.countP isInputEntry = inputCount calls := by
    rw [← inv.count, Tape.inputRank, Tape.size, ← Array.length_toList, List.take_length]
  refine ⟨_, read, by rw [length_inputAdjoints, count], fun r within => ?_⟩
  have counted : r < t.entries.toList.countP isInputEntry := by
    rwa [length_inputAdjoints] at within
  obtain ⟨m, e, found, input, rank⟩ := exists_input_of_lt_count t.entries.toList counted
  have found' : t.entries[m]? = some e := by simpa using found
  -- component `r` is the adjoint of the input numbered `r`
  have component : (inputAdjoints t.entries.toList (t.sweepAdjoints s))[r]? =
      some (t.sweepAdjoints s m) := by
    rw [← rank]
    exact inputAdjoints_getElem? _ _ found input
  have rank' : t.inputRank m = r := rank
  rw [(List.getElem_eq_iff within).2 component, ← Tape.tangent_eq_sweepAdjoints inv.topological inv.complete
    inv.unswept within_s found' input, rank']
  exact hasDerivAt_value reads_earlier ran regular inside r

theorem sine_ratio_gradient :
    let calls := [.input, .sin 0, .input, .div 1 2]
    Scoped calls ∧ 3 < calls.length ∧ (tape calls fun _ => 1).Regular ∧
      ∃ g, gradient calls 3 (fun _ => 1) = .ok g ∧ g.length = inputCount calls ∧
        ∀ (r : Nat) (within : r < g.length),
          HasDerivAt (fun u => value calls 3 (Function.update (fun _ => 1) r u)) g[r] 1 := by
  intro calls
  have reads_earlier : Scoped calls := by
    intro p c found a mem
    rcases p with _ | _ | _ | _ | p <;> simp [calls] at found <;> subst found <;>
      simp [Call.operands] at mem <;> omega
  have regular : (tape calls fun _ => 1).Regular := by
    intro k e found
    have slots : (tape calls fun _ => 1).entries.toList.map (fun e => (e.kind, e.operand2)) =
        [(.input, none), (.sin, none), (.input, none), (.div, some (.int 2))] := rfl
    have denominator : (tape calls fun _ => 1).valueAt 2 = 1 := rfl
    have listed := congrArg (·[k]?) slots
    simp only [List.getElem?_map, Array.getElem?_toList, found, Option.map_some] at listed
    rcases k with _ | _ | _ | _ | k <;> simp at listed
    all_goals obtain ⟨kind, second⟩ := listed
    all_goals simp [Entry.Regular, Entry.second, Operand.position?, kind, second, denominator]
  exact ⟨reads_earlier, by decide, regular,
    gradient_eq_partial_derivatives reads_earlier (by decide) (fun _ => 1) regular⟩

end StraightLine

end AdjointDiff
