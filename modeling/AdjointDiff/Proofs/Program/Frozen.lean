import AdjointDiff.Proofs.Program.Reach
import AdjointDiff.Proofs.Real.Scalar

set_option autoImplicit false

namespace AdjointDiff

open Recorder Tape

namespace Tape

variable {α : Type} [Scalar α]

theorem append_of_interpreted {t : Tape α} (swept : t.interpreted = true) (kind : Kind)
    (o1 o2 : Option Operand) (value extra : α) :
    t.append kind o1 o2 value extra = .error .alreadyInterpreted := by
  simp [append, swept]
  rfl

theorem run_entry_of_interpreted {t : Tape α} (swept : t.interpreted = true) (kind : Kind)
    (value : α) (o1 o2 : Option Operand) (extra : α) :
    run (Record.entry kind value o1 o2 extra) t = (.error .alreadyInterpreted, t) := by
  rw [Record.run_entry, append_of_interpreted swept]

/-- An unmarked tape carries no adjoint. -/
def Blank (t : Tape α) : Prop := t.interpreted = false → ∀ j, t.adjointAt j = 0.0

theorem blank_empty : (empty : Tape α).Blank := fun _ j => by simp [adjointAt, empty]

theorem Blank.withEntry {t : Tape α} (blank : t.Blank) (kind : Kind) (o1 o2 : Option Operand)
    (value extra : α) : (t.withEntry kind o1 o2 value extra).Blank := by
  intro fresh j
  rw [adjointAt_withEntry]
  split
  · rfl
  · exact blank fresh j

end Tape

namespace Recorder

theorem run_bind_pure {α β γ : Type} (m : Recorder α β) (f : β → γ) (t : Tape α) :
    run (m >>= fun b => pure (f b)) t = (f <$> (run m t).1, (run m t).2) := by
  rw [run_bind]
  rcases run m t with ⟨_ | _, u⟩ <;> rfl

end Recorder

namespace Program

theorem sweep_none : sweep none = (interpret none : Recorder Float Unit) := by
  simp [sweep, interpret]

theorem sweep_int (i : Int) : sweep (some (.int i)) = (interpret (some i) : Recorder Float Unit) := by
  simp [sweep, interpret]

theorem sweep_handle (v : Var Float) :
    sweep (some (.handle v)) = (interpret (some v.index) : Recorder Float Unit) := by
  simp [sweep, interpret]

theorem sweep_tape (t : Tape Float) (topo : t.Topological) (output : Option Arg) :
    (run (sweep output) t).2 = t ∨
      ((run (sweep output) t).1 = .ok () ∧
        ∃ adj, (run (sweep output) t).2 = { t.withAdjoints adj with interpreted := true }) ∨
      ((∃ f, (run (sweep output) t).1 = .error f ∧ f.UnreadSlot) ∧ t.interpreted = false ∧
        (∃ k, ¬ t.CompleteAt k) ∧ ∃ adj, (run (sweep output) t).2 = t.withAdjoints adj) := by
  by_cases checked : t.size ≠ 0 ∧ t.interpreted = false
  · obtain ⟨nonempty, fresh⟩ := checked
    -- past the checks, the output names a start, or is refused before anything changes
    have started : (∃ s, run (sweep output) t = run (sweepFrom s) t) ∨
        ∃ f, run (sweep output) t = (.error f, t) := by
      simp only [sweep, run_bind, run_checkSweepable, nonempty, fresh, if_false,
        Bool.false_eq_true]
      match output with
      | none | some .none | some (.int _) | some (.handle _) => exact .inl ⟨_, rfl⟩
      | some (.real _) | some (.text _) | some (.flag _) | some (.list _) | some (.dict _) =>
        exact .inr ⟨_, rfl⟩
    rcases started with ⟨s, same⟩ | ⟨f, refused⟩
    · rw [same]
      rcases sweepFrom_tape t topo s with kept | swept | ⟨stopped, open_slot, adj, changed⟩
      · exact .inl kept
      · exact .inr (.inl swept)
      · exact .inr (.inr ⟨stopped, fresh, open_slot, adj, changed⟩)
    · exact .inl (by rw [refused])
  · -- an empty or a marked tape is refused by the checks
    refine .inl ?_
    simp only [not_and_or, ne_eq, not_not, Bool.not_eq_false] at checked
    simp only [sweep, run_bind, run_checkSweepable]
    rcases checked with empty | swept
    · simp [empty]
    · by_cases empty : t.size = 0 <;> simp [empty, swept]

theorem runAction_interpret_tape (env : Env) (output : Option Term) (t : Tape Float)
    (topo : t.Topological) :
    (run (runAction env (.interpret output)) t).2 = t ∨
      ((run (runAction env (.interpret output)) t).1 = .ok (.nothing, "") ∧
        ∃ adj, (run (runAction env (.interpret output)) t).2 =
          { t.withAdjoints adj with interpreted := true }) ∨
      ((∃ f, (run (runAction env (.interpret output)) t).1 = .error f ∧ f.UnreadSlot) ∧
        t.interpreted = false ∧ (∃ k, ¬ t.CompleteAt k) ∧
        ∃ adj, (run (runAction env (.interpret output)) t).2 = t.withAdjoints adj) := by
  simp only [runAction]
  rw [run_bind, run_lift]
  cases evalOpt env output with
  | error f => exact .inl rfl
  | ok o =>
    dsimp only
    rw [run_bind_pure]
    rcases sweep_tape t topo o with kept | ⟨swept, changed⟩ | ⟨⟨f, stopped, unread⟩, rest⟩
    · exact .inl kept
    · exact .inr (.inl ⟨by rw [swept]; rfl, changed⟩)
    · exact .inr (.inr ⟨⟨f, by rw [stopped]; rfl, unread⟩, rest⟩)

theorem run_sweep_of_interpreted {t : Tape Float} (swept : t.interpreted = true)
    (output : Option Arg) : (run (sweep output) t).2 = t := by
  simp only [sweep, run_bind, run_checkSweepable]
  by_cases empty : t.size = 0 <;> simp [empty, swept]

theorem runAction_of_interpreted (env : Env) (action : Action) {t : Tape Float}
    (swept : t.interpreted = true) : (run (runAction env action) t).2 = t := by
  have frozen : Keeps (· = t) (runAction env action) :=
    keeps_runAction
      (fun kind value o1 o2 extra u same => by
        subst same
        rw [run_entry_of_interpreted swept])
      env action
      (fun _ _ o u same => by
        subst same
        exact run_sweep_of_interpreted swept o)
  exact frozen t rfl

theorem runAction_extractGradient (env : Env) (t : Tape Float) :
    run (runAction env .extractGradient) t =
      ((fun g => (Reply.reals g, "")) <$> t.gradient?, t) := by
  simp only [runAction]
  rw [run_seq_get, run_bind_pure, run_lift]

def envAfter (env : Env) (name : Option String) : Except Fault (Reply × String) → Env
  | .ok (reply, _) => bind env name reply
  | .error _ => env

theorem runAll_cons_outcomes (env : Env) (t : Tape Float) (s : Step) (rest : List Step) :
    (runAll env t (s :: rest)).1 =
      (Prod.fst <$> (run (runAction env s.action) t).1) ::
        (runAll (envAfter env s.name (run (runAction env s.action) t).1)
          (run (runAction env s.action) t).2 rest).1 := by
  simp only [runAll]
  split <;> simp_all [envAfter, Functor.map, Except.map]

theorem runAll_cons_tape (env : Env) (t : Tape Float) (s : Step) (rest : List Step) :
    (runAll env t (s :: rest)).2.2 =
      (runAll (envAfter env s.name (run (runAction env s.action) t).1)
        (run (runAction env s.action) t).2 rest).2.2 := by
  simp only [runAll]
  split <;> simp_all [envAfter]

theorem runAll_of_interpreted (env : Env) {t : Tape Float} (swept : t.interpreted = true)
    (steps : List Step) :
    (runAll env t steps).2.2 = t ∧
      ∀ i : Nat, (steps[i]?).map Step.action = some .extractGradient →
        (runAll env t steps).1[i]? = some (Reply.reals <$> t.gradient?) := by
  induction steps generalizing env with
  | nil => exact ⟨rfl, fun i read => by simp at read⟩
  | cons s rest ih =>
    -- the first step leaves the tape, so the rest run on it as well
    have stays := runAction_of_interpreted env s.action swept
    rw [runAll_cons_tape, runAll_cons_outcomes, stays]
    refine ⟨(ih _).1, fun i reads => ?_⟩
    cases i with
    | zero =>
      have first : s.action = .extractGradient := by simpa using reads
      rw [first, runAction_extractGradient]
      cases t.gradient? <;> rfl
    | succ i => simpa using (ih _).2 i (by simpa using reads)

theorem keptByEntries_blank : KeptByEntries (Blank (α := Float)) := by
  intro kind value o1 o2 extra t blank
  rcases entry_tape t kind value o1 o2 extra with same | ⟨-, -, grown⟩
  · rwa [same]
  · rw [grown]
    exact blank.withEntry kind o1 o2 value extra

theorem runAction_blank (env : Env) (action : Action) {t : Tape Float} (topo : t.Topological)
    (blank : t.Blank)
    (not_stopped : ∀ output, action = .interpret output →
      ∀ f, f.UnreadSlot → (run (runAction env action) t).1 ≠ .error f) :
    (run (runAction env action) t).2.Blank := by
  by_cases sweeps : ∃ output, action = .interpret output
  · obtain ⟨output, rfl⟩ := sweeps
    rcases runAction_interpret_tape env output t topo with
      kept | ⟨-, adj, swept⟩ | ⟨⟨f, stopped, unread⟩, -⟩
    · rwa [kept]
    · rw [swept]
      intro fresh
      cases fresh
    · exact absurd stopped (not_stopped output rfl f unread)
  · exact keeps_runAction keptByEntries_blank env action
      (fun output same => absurd ⟨output, same⟩ sweeps) t blank

theorem runAll_blank (env : Env) {t : Tape Float} (reach : t.Reachable) (blank : t.Blank)
    (steps : List Step)
    (not_stopped : ∀ (i : Nat) (output : Option Term),
      (steps[i]?).map Step.action = some (.interpret output) →
        ∀ f, f.UnreadSlot → (runAll env t steps).1[i]? ≠ some (.error f)) :
    (runAll env t steps).2.2.Blank := by
  induction steps generalizing env t with
  | nil => exact blank
  | cons s rest ih =>
    rw [runAll_cons_outcomes] at not_stopped
    -- the first step's outcome heads the outcomes, the rest follow it
    have first : ∀ output, s.action = .interpret output →
        ∀ f, f.UnreadSlot → (run (runAction env s.action) t).1 ≠ .error f := by
      intro output sweeps f unread stopped
      have head := not_stopped 0 output (by simp [sweeps]) f unread
      rw [List.getElem?_cons_zero, stopped] at head
      exact head rfl
    have next := keeps_runAction Keeps.of_entry env s.action (fun _ _ => keeps_sweep) t reach
    rw [runAll_cons_tape]
    exact ih _ next (runAction_blank env s.action reach.topological blank first)
      fun i output sweeps f unread => by
        simpa using not_stopped (i + 1) output (by simpa using sweeps) f unread

/-- On every tape that steps from a fresh tape reach: while it is unmarked, every adjoint is zero
unless one of the steps was a sweep that stopped at a slot that selects no entry, empty or holding
a double; once marked, every later step leaves it as it is, so every later read of the gradient
gives the same list. -/
theorem swept_tape_is_frozen (steps : List Step) :
    let t := (runFresh steps).2.2
    ((∀ (i : Nat) (output : Option Term), (steps[i]?).map Step.action = some (.interpret output) →
        ∀ f, f.UnreadSlot → (runFresh steps).1[i]? ≠ some (.error f)) →
      t.interpreted = false → ∀ j, t.adjointAt j = 0.0) ∧
    (t.interpreted = true → ∀ (env : Env) (later : List Step),
      (runAll env t later).2.2 = t ∧
        ∀ i : Nat, (later[i]?).map Step.action = some .extractGradient →
          (runAll env t later).1[i]? = some (Reply.reals <$> t.gradient?)) := by
  intro t
  exact ⟨fun not_stopped => runAll_blank [] Reachable.empty blank_empty steps not_stopped,
    fun swept env later => runAll_of_interpreted env swept later⟩

theorem sine_tape_blank_then_frozen :
    let recorded : List Step :=
      [⟨.build .input [.lit (.real 2.0)], some "x"⟩, ⟨.build .sin [.ref "x"], none⟩]
    let swept := (runFresh (recorded ++ [⟨.interpret none, none⟩])).2.2
    (runFresh recorded).2.2.adjointAt 1 = 0.0 ∧ swept.interpreted = true ∧
      (runAll [("x", ⟨2.0, 0⟩)] swept [⟨.build .cos [.ref "x"], none⟩]).2.2 = swept := by
  intro recorded swept
  have no_sweep : ∀ (i : Nat) (output : Option Term),
      (recorded[i]?).map Step.action = some (.interpret output) →
        ∀ f, f.UnreadSlot → (runFresh recorded).1[i]? ≠ some (.error f) := by
    intro i output found
    rcases i with _ | _ | i <;> simp [recorded] at found
  have marked : swept.interpreted = true := by rfl
  exact ⟨(swept_tape_is_frozen recorded).1 no_sweep rfl 1, marked,
    ((swept_tape_is_frozen (recorded ++ [⟨.interpret none, none⟩])).2 marked _ _).1⟩

end Program

theorem stopped_sweep_leaves_adjoint :
    let t : Tape ℝ := (run (Record.entry .sin 0 none none 0) Tape.empty).2
    let after := (run (Tape.interpret none) t).2
    after.Reachable ∧ (run (Tape.interpret none) t).1 = .error (.incomparableIndex "NoneType") ∧
      after.interpreted = false ∧ after.adjointAt 0 = 1 := by
  intro t after
  have literal : t = ⟨#[⟨.sin, none, none, 0, 0, 0.0⟩], false⟩ := rfl
  have stopped : run (Tape.interpret none) t = (.error (.incomparableIndex "NoneType"),
      ⟨#[⟨.sin, none, none, 0, 0, 0.0 + 1.0⟩], false⟩) := by
    rw [literal]
    rfl
  refine ⟨.interpret _ (.entry _ _ _ _ _ .empty), by rw [stopped], by simp [after, stopped], ?_⟩
  simp [after, stopped, Tape.adjointAt]

end AdjointDiff
