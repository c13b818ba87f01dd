import AdjointDiff.Proofs.Program.Refusal

set_option autoImplicit false

namespace AdjointDiff

open Recorder Tape

namespace Tape

variable {α : Type}

theorem gradient?_extend (t : Tape α) (es : List (Entry α)) :
    (t.extend es).gradient? =
      (· ++ es.filterMap fun e => if e.kind == .input then some e.adjoint else none) <$>
        t.gradient? := by
  simp only [gradient?, extend]
  by_cases swept : t.interpreted = true
  · simp [swept, List.filterMap_append, Functor.map, Except.map]
  · simp [swept, Functor.map, Except.map]

variable [Scalar α]

theorem filterMap_inputs_of_zero (es : List (Entry α)) (zero : ∀ e ∈ es, e.adjoint = 0.0) :
    es.filterMap (fun e => if e.kind == .input then some e.adjoint else none) =
      List.replicate (es.countP (·.kind == .input)) 0.0 := by
  induction es with
  | nil => rfl
  | cons e es ih =>
    have rest := ih fun e' mem => zero e' (List.mem_cons_of_mem e mem)
    rw [List.filterMap_cons, rest]
    cases input : e.kind == .input
    · simp [input]
    · simp [input, zero e List.mem_cons_self, List.replicate_succ]

theorem adjoint_of_mem {t : Tape α} (zero : ∀ j, t.adjointAt j = 0.0) {e : Entry α}
    (mem : e ∈ t.entries.toList) : e.adjoint = 0.0 := by
  obtain ⟨j, found⟩ := List.mem_iff_getElem?.mp mem
  have at_j := zero j
  simp only [adjointAt, ← Array.getElem?_toList, found, Option.map_some, Option.getD_some] at at_j
  exact at_j

theorem gradient?_interpret_take (u : Tape α) (topo : u.Topological) {s : Nat} (within : s < u.size)
    (zero : ∀ e ∈ u.entries.toList.drop (s + 1), e.adjoint = 0.0) :
    (run (interpret (some s)) u).2.gradient? =
      (· ++ List.replicate ((u.entries.toList.drop (s + 1)).countP (·.kind == .input)) 0.0) <$>
        (run (interpret none) (u.take (s + 1))).2.gradient? := by
  obtain ⟨cut, frame⟩ := run_interpret_take u topo within
  rw [eq_extend_of_frame frame, gradient?_extend, filterMap_inputs_of_zero _ zero, cut]

end Tape

namespace Program

theorem sweep_of_names {output : Arg} {s : Nat}
    (names : output = .int s ∨ ∃ v : Var Float, output = .handle v ∧ v.index = s) :
    sweep (some output) = (interpret (some (s : Int)) : Recorder Float Unit) := by
  rcases names with rfl | ⟨v, rfl, index⟩
  · exact sweep_int s
  · rw [sweep_handle, index]

theorem runUntilRefused_blank (env : Env) (steps : List Step) {t t' : Tape Float}
    {r : Env × String} (reach : t.Reachable) (blank : t.Blank)
    (returned : run (runUntilRefused env steps) t = (.ok r, t')) : t'.Blank := by
  induction steps generalizing env t r with
  | nil =>
    cases returned
    exact blank
  | cons s rest ih =>
    simp only [runUntilRefused] at returned
    rw [run_bind] at returned
    split at returned
    next reply u stepped =>
      -- a step that returns is no sweep stopped on the way
      have blank' := runAction_blank env s.action reach.topological blank fun _ _ _ _ stopped => by
        rw [stepped] at stopped
        cases stopped
      have reach' := keeps_runAction Keeps.of_entry env s.action (fun _ _ => keeps_sweep) t reach
      rw [stepped] at blank' reach'
      rw [run_bind] at returned
      split at returned
      next _ u' rested =>
        cases returned
        exact ih _ reach' blank' rested
      next => cases returned
    next => cases returned

theorem keeps_inputs {P : Tape Float → Prop} (entries : KeptByEntries P) (x0 : List Arg) :
    Keeps P (x0.mapM fun x => do Record.input (← lift (x.asReal "input value"))) := by
  induction x0 with
  | nil => exact Keeps.of_pure _
  | cons x rest ih =>
    simp only [List.mapM_cons]
    exact Keeps.bind (Keeps.lift_bind fun _ => entries _ _ _ _ _) fun _ =>
      Keeps.bind ih fun _ => Keeps.of_pure _

theorem keeps_reachable_runUntilRefused (env : Env) (steps : List Step) :
    Keeps Reachable (runUntilRefused env steps) := by
  induction steps generalizing env with
  | nil => exact Keeps.of_pure _
  | cons s rest ih =>
    refine Keeps.bind (keeps_runAction Keeps.of_entry env s.action fun _ _ => keeps_sweep) fun r => ?_
    obtain ⟨reply, printed⟩ := r
    exact Keeps.bind (ih _) fun _ => Keeps.of_pure _

theorem keeps_reachable_record (x0 : List Arg) (steps : List Step) (result : Term) :
    Keeps Reachable (record x0 steps result) := by
  refine Keeps.bind (keeps_inputs Keeps.of_entry x0) fun xs =>
    Keeps.bind (keeps_reachable_runUntilRefused _ steps) fun r => ?_
  obtain ⟨env, printed⟩ := r
  exact Keeps.lift_bind fun _ => Keeps.of_pure _

theorem record_blank (x0 : List Arg) (steps : List Step) (result : Term) {t : Tape Float}
    {r : Arg × String} (returned : run (record x0 steps result) Tape.empty = (.ok r, t)) :
    t.Blank := by
  simp only [record] at returned
  rw [run_bind] at returned
  split at returned
  next xs u declared =>
    have blank : u.Blank := by
      have kept := keeps_inputs keptByEntries_blank x0 Tape.empty blank_empty
      rwa [declared] at kept
    have reach : u.Reachable := by
      have kept := keeps_inputs Keeps.of_entry x0 Tape.empty .empty
      rwa [declared] at kept
    rw [run_bind] at returned
    split at returned
    next out u' ran =>
      -- the result is read off the names bound, without touching the tape
      obtain ⟨env, printed⟩ := out
      have reads : ReadsOnly (lift (result.eval env) >>= fun y =>
          (pure (y, printed) : Recorder Float (Arg × String))) :=
        ReadsOnly.lift_bind fun _ => ReadsOnly.of_pure _
      have same := reads u'
      simp only [returned] at same
      rw [same]
      exact runUntilRefused_blank _ steps reach blank ran
    next => cases returned
  next => cases returned

theorem gradientAt_of_record {x0 : List Arg} {steps : List Step} {result : Term} {v : Var Float}
    {printed : String} {t : Tape Float}
    (recorded : run (record x0 steps result) Tape.empty = (.ok (.handle v, printed), t)) :
    gradientAt x0 steps result =
      (fun g => (v.value, g)) <$> ((run (interpret (some v.index)) t).1 >>= fun _ =>
        (run (interpret (some v.index)) t).2.gradient?) := by
  simp only [gradientAt]
  rw [run_bind, recorded]
  dsimp only
  rw [run_bind_of_ok (run_pure v t), run_bind]
  rcases run (interpret (some v.index)) t with ⟨_ | _, u⟩
  · rfl
  · simp only [run_seq_get]
    rw [run_bind, run_lift]
    cases u.gradient? <;> rfl

/-- The sweep from a position `s` that a program names by an integer or a handle, on a reachable
tape, is the sweep from the last entry of the tape cut after `s`, with every later entry put back
as it was: the same outcome, and the same adjoints on the entries up to `s`. On a tape that
carries no adjoint, every later entry keeps zero, and the gradient is the cut tape's followed by a
zero for each later input. So the gradient of a program's result is read off the tape cut after
the result, whatever the program records after it. -/
theorem sweep_from_output_is_prefix_sweep (t : Tape Float) (s : Nat) (within : s < t.size) :
    (∀ output : Arg, t.Reachable →
      (output = .int s ∨ ∃ v : Var Float, output = .handle v ∧ v.index = s) →
      (run (sweep (some output)) t).1 = (run (sweep none) (t.take (s + 1))).1 ∧
        (run (sweep (some output)) t).2 =
          (run (sweep none) (t.take (s + 1))).2.extend (t.entries.toList.drop (s + 1)) ∧
        ((∀ j, t.adjointAt j = 0.0) →
          (∀ j, s < j → (run (sweep (some output)) t).2.adjointAt j = 0.0) ∧
          (run (sweep (some output)) t).2.gradient? =
            (· ++ List.replicate ((t.entries.toList.drop (s + 1)).countP (·.kind == .input)) 0.0) <$>
              (run (sweep none) (t.take (s + 1))).2.gradient?)) ∧
    (∀ (x0 : List Arg) (steps : List Step) (result : Term) (v : Var Float) (printed : String),
      run (record x0 steps result) Tape.empty = (.ok (.handle v, printed), t) → v.index = s →
      gradientAt x0 steps result =
        (fun g => (v.value,
            g ++ List.replicate ((t.entries.toList.drop (s + 1)).countP (·.kind == .input)) 0.0)) <$>
          ((run (interpret none) (t.take (s + 1))).1 >>= fun _ =>
            (run (interpret none) (t.take (s + 1))).2.gradient?)) := by
  refine ⟨fun output reach names => ?_, fun x0 steps result v printed recorded index => ?_⟩
  · have topo := reach.topological
    obtain ⟨cut, frame⟩ := run_interpret_take t topo within
    rw [sweep_of_names names, sweep_none, cut]
    refine ⟨rfl, eq_extend_of_frame frame, fun zero => ⟨fun j later => ?_, ?_⟩⟩
    · simp only [adjointAt, frame j later]
      exact zero j
    · rw [← cut]
      exact gradient?_interpret_take t topo within fun e mem =>
        adjoint_of_mem zero (List.mem_of_mem_drop mem)
  · have reach : t.Reachable := by
      have kept := keeps_reachable_record x0 steps result Tape.empty .empty
      rwa [recorded] at kept
    have topo := reach.topological
    obtain ⟨cut, -⟩ := run_interpret_take t topo within
    have outcome : (run (interpret (some (s : Int))) t).1 = (run (interpret none) (t.take (s + 1))).1 := by
      rw [cut]
    rw [gradientAt_of_record recorded, index, outcome]
    cases swept : t.interpreted
    · -- unmarked, the tape carries no adjoint yet, so the later entries keep zero
      have zero := record_blank x0 steps result recorded swept
      rw [gradient?_interpret_take t topo within fun e mem =>
        adjoint_of_mem zero (List.mem_of_mem_drop mem)]
      rcases run (interpret none) (t.take (s + 1)) with ⟨_ | _, u⟩
      · rfl
      · cases u.gradient? <;> rfl
    · -- marked, both sweeps are refused
      have refused : (run (interpret none) (t.take (s + 1))).1 = .error .alreadyInterpreted := by
        simp [run_interpret, swept, show t.size ≠ 0 by omega]
      rw [refused]
      rfl

theorem sine_result_ignores_later_cosine :
    let x0 : List Arg := [.real 2.0]
    let steps : List Step := [⟨.build .sin [.ref "x0"], some "y"⟩, ⟨.build .cos [.ref "x0"], none⟩]
    let t := (run (record x0 steps (.ref "y")) Tape.empty).2
    (run (sweep (some (.int 1))) t).2.adjointAt 2 = 0.0 ∧
      gradientAt x0 steps (.ref "y") =
        (fun g => (Scalar.sin 2.0,
            g ++ List.replicate ((t.entries.toList.drop 2).countP (·.kind == .input)) 0.0)) <$>
          ((run (interpret none) (t.take 2)).1 >>= fun _ => (run (interpret none) (t.take 2)).2.gradient?) := by
  intro x0 steps t
  have reach : t.Reachable := keeps_reachable_record x0 steps (.ref "y") Tape.empty .empty
  have zero : ∀ j, t.adjointAt j = 0.0 := record_blank x0 steps (.ref "y") rfl rfl
  have within : 1 < t.size := by decide
  exact ⟨(((sweep_from_output_is_prefix_sweep t 1 within).1 (.int 1) reach (.inl rfl)).2.2 zero).1 2
      (by decide),
    (sweep_from_output_is_prefix_sweep t 1 within).2 x0 steps (.ref "y") ⟨Scalar.sin 2.0, 1⟩ _ rfl rfl⟩

end Program

theorem stale_adjoint_after_output :
    let t : Tape ℝ := (run (Record.entry .sin 0 (some (.int 2)) none 0) (run (Record.entry .input 0 none none 0)
      (run (Record.entry .sin 0 none none 0) (run (Record.entry .input 0 none none 0)
        Tape.empty).2).2).2).2
    let stopped := (run (interpret none) t).2
    let swept := (run (interpret (some 0)) stopped).2
    stopped.Reachable ∧ stopped.interpreted = false ∧ swept.adjointAt 2 = 1 ∧
      swept.gradient? = .ok [1, 1] ∧ (run (interpret none) (stopped.take 1)).2.gradient? = .ok [1] := by
  intro t stopped swept
  have stopped_literal : stopped = ⟨#[⟨.input, none, none, 0, 0, 0.0⟩, ⟨.sin, none, none, 0, 0, 0.0⟩,
      ⟨.input, none, none, 0, 0, 0.0 + Scalar.cos 0 * (0.0 + 1.0)⟩,
      ⟨.sin, some (.int 2), none, 0, 0, 0.0 + 1.0⟩], false⟩ := rfl
  have swept_literal : swept = ⟨#[⟨.input, none, none, 0, 0, 0.0 + 1.0⟩,
      ⟨.sin, none, none, 0, 0, 0.0⟩, ⟨.input, none, none, 0, 0, 0.0 + Scalar.cos 0 * (0.0 + 1.0)⟩,
      ⟨.sin, some (.int 2), none, 0, 0, 0.0 + 1.0⟩], true⟩ := by
    simp only [swept]
    rw [stopped_literal]
    rfl
  have cut_literal : (run (interpret none) (stopped.take 1)).2 =
      ⟨#[⟨.input, none, none, 0, 0, 0.0 + 1.0⟩], true⟩ := by
    rw [stopped_literal]
    rfl
  have reach : stopped.Reachable :=
    .interpret _ (.entry _ _ _ _ _ (.entry _ _ _ _ _ (.entry _ _ _ _ _ (.entry _ _ _ _ _ .empty))))
  refine ⟨reach, by rw [stopped_literal], ?_, ?_, ?_⟩
  · simp [swept_literal, adjointAt]
  · simp [swept_literal, gradient?]
  · simp [cut_literal, gradient?]

end AdjointDiff
