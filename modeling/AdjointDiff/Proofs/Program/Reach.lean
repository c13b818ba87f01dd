import AdjointDiff.Proofs.Tape.Reachable
import AdjointDiff.Program.Run

set_option autoImplicit false

namespace AdjointDiff

open Recorder Tape

namespace Keeps

variable {α β γ : Type}

theorem of_stays {P : Tape α → Prop} {m : Recorder α β} (stays : ∀ t, (run m t).2 = t) :
    Keeps P m := by
  intro t keep
  rwa [stays t]

theorem lift_bind {P : Tape α → Prop} {r : Except Fault β} {f : β → Recorder α γ}
    (rest : ∀ b, Keeps P (f b)) : Keeps P (Recorder.lift r >>= f) :=
  bind (of_lift r) rest

variable [Scalar α]

theorem of_entry (kind : Kind) (value : α) (o1 o2 : Option Operand) (extra : α) :
    Keeps Reachable (Record.entry kind value o1 o2 extra) :=
  fun _ reach => reach.entry kind value o1 o2 extra

end Keeps

namespace Program

open Keeps

def KeptByEntries {α : Type} [Scalar α] (P : Tape α → Prop) : Prop :=
  ∀ kind value o1 o2 extra, Keeps P (Record.entry kind value o1 o2 extra)

section Recording

variable {P : Tape Float → Prop}

theorem keeps_operandThenConstant (cname : String)
    (record : Var Float → Float → Recorder Float (Var Float))
    (recorded : ∀ v k, Keeps P (record v k)) (x c : Arg) :
    Keeps P (operandThenConstant cname record x c) :=
  lift_bind fun v => lift_bind fun k => recorded v k

theorem keeps_callBuilder (entries : KeptByEntries P) (b : Builder) (args : List Arg) :
    Keeps P (callBuilder b args) := by
  unfold callBuilder
  split
  · exact lift_bind fun _ => entries _ _ _ _ _
  · exact lift_bind fun _ => lift_bind fun _ => entries _ _ _ _ _
  · exact lift_bind fun _ => lift_bind fun _ => entries _ _ _ _ _
  · exact lift_bind fun _ => lift_bind fun _ => entries _ _ _ _ _
  · exact lift_bind fun _ => lift_bind fun _ => entries _ _ _ _ _
  · exact lift_bind fun _ => lift_bind fun _ => entries _ _ _ _ _
  · exact keeps_operandThenConstant _ _ (fun _ _ => entries _ _ _ _ _) _ _
  · exact keeps_operandThenConstant _ _ (fun _ _ => entries _ _ _ _ _) _ _
  · exact keeps_operandThenConstant _ _ (fun _ _ => entries _ _ _ _ _) _ _
  · exact lift_bind fun _ => lift_bind fun _ => entries _ _ _ _ _
  · -- `c - x` records the negation before it reads `c`
    exact lift_bind fun _ => Keeps.bind (entries _ _ _ _ _) fun _ => lift_bind fun _ =>
      entries _ _ _ _ _
  · exact lift_bind fun _ => entries _ _ _ _ _
  · exact lift_bind fun _ => entries _ _ _ _ _
  · exact lift_bind fun _ => entries _ _ _ _ _
  · exact lift_bind fun _ => entries _ _ _ _ _
  · exact lift_bind fun _ => entries _ _ _ _ _
  · exact lift_bind fun _ => entries _ _ _ _ _
  · exact lift_bind fun _ => entries _ _ _ _ _
  · exact of_throw _

theorem keeps_callManual (entries : KeptByEntries P) (operand partial_ : Arg)
    (value previous : Option Arg) : Keeps P (callManual operand partial_ value previous) := by
  unfold callManual
  simp only [lift_bind_iff]
  intro x _ p _
  -- the previous entry and then the value are settled without touching the tape
  split <;> simp only [pure_bind, throw_bind_iff]
  all_goals split <;> simp only [throw_bind_iff, lift_bind_iff]
  all_goals exact fun _ _ => entries _ _ _ _ _

theorem keeps_chainLinks (entries : KeptByEntries P) (out : Var Float) (xs ps : List Arg) :
    Keeps P (chainLinks out xs ps) := by
  induction xs generalizing out ps with
  | nil => exact of_pure _
  | cons x xs ih =>
    cases ps with
    | nil => exact of_pure _
    | cons p ps => exact Keeps.bind (keeps_callManual entries _ _ _ _) fun next => ih next ps

theorem keeps_callManualChain (entries : KeptByEntries P) (operands partials value : Arg) :
    Keeps P (callManualChain operands partials value) := by
  unfold callManualChain
  split
  next xs ps =>
    split
    · exact of_throw _
    · split
      · exact Keeps.bind (keeps_callManual entries _ _ _ _) fun first =>
          keeps_chainLinks entries first _ _
      · exact of_throw _
  all_goals exact of_throw _

theorem keeps_appendRaw (entries : KeptByEntries P) (kind operand1 operand2 value extra : Option Arg) :
    Keeps P (appendRaw kind operand1 operand2 value extra) := by
  unfold appendRaw
  simp only [lift_bind_iff]
  intro fields _ t keep
  obtain ⟨k, v, e⟩ := fields
  -- past its fields, a raw append is the recording of one entry with the operands as given
  have recorded := entries k v (rawOperand operand1) (rawOperand operand2) e t keep
  rw [Record.run_entry] at recorded
  simp only [run_bind, run_lift]
  cases appended : t.append k (rawOperand operand1) (rawOperand operand2) v e with
  | error f => simpa [appended] using keep
  | ok r => simpa [appended] using recorded

theorem keeps_lookup (index : Arg) : Keeps P (lookup index) := by
  refine of_stays fun t => ?_
  unfold lookup
  rw [run_seq_get, run_bind, run_lift]
  cases Operand.lookup t.size (rawOperand (some index)) <;> simp

theorem keeps_runAction (entries : KeptByEntries P) (env : Env) (action : Action)
    (sweeps : ∀ output, action = .interpret output → ∀ o, Keeps P (sweep o)) :
    Keeps P (runAction env action) := by
  cases action with
  | build b args =>
    exact lift_bind fun _ => Keeps.bind (keeps_callBuilder entries b _) fun _ => of_pure _
  | manual args value previous =>
    refine lift_bind fun as => lift_bind fun _ => lift_bind fun _ => ?_
    split
    · exact Keeps.bind (keeps_callManual entries _ _ _ _) fun _ => of_pure _
    · exact of_throw _
  | manualChain args =>
    refine lift_bind fun as => ?_
    split
    · exact Keeps.bind (keeps_callManualChain entries _ _ _) fun _ => of_pure _
    · exact of_throw _
  | append kind o1 o2 value extra =>
    exact lift_bind fun _ => lift_bind fun _ => lift_bind fun _ => lift_bind fun _ =>
      lift_bind fun _ => Keeps.bind (keeps_appendRaw entries _ _ _ _ _) fun _ => of_pure _
  | get index => exact lift_bind fun _ => Keeps.bind (keeps_lookup _) fun _ => of_pure _
  | size => exact get_bind fun _ => of_pure _
  | interpret output =>
    exact lift_bind fun _ => Keeps.bind (sweeps output rfl _) fun _ => of_pure _
  | extractGradient => exact get_bind fun _ => lift_bind fun _ => of_pure _
  | checkTopological => exact get_bind fun _ => lift_bind fun _ => of_pure _
  | summary verbose => exact lift_bind fun _ => get_bind fun _ => lift_bind fun _ => of_pure _
  | value arg =>
    refine lift_bind fun a => ?_
    split
    · exact of_pure _
    · exact of_pure _
  | entries => exact get_bind fun _ => of_pure _

end Recording

theorem keeps_sweep (output : Option Arg) : Keeps Reachable (sweep output) := by
  intro t reach
  unfold sweep
  rw [run_bind, run_checkSweepable]
  by_cases empty : t.size = 0
  · simpa [empty] using reach
  by_cases swept : t.interpreted
  · simpa [empty, swept] using reach
  have fresh : t.interpreted = false := by simpa using swept
  -- past the checks, a sweep from any start is `interpret` from that start
  have swept_from (s : Int) : (run (sweepFrom s) t).2.Reachable := by
    have same : (run (sweepFrom s) t).2 = (run (interpret (some s)) t).2 := by
      simp [run_interpret, fresh, empty]
    rw [same]
    exact reach.interpret _
  simp only [empty, swept, if_false, Bool.false_eq_true, run_bind]
  rcases output with _ | ⟨_ | _ | _ | _ | _ | _ | _ | _⟩
  all_goals simp [swept_from, reach, run_bind]

theorem runAll_reachable (env : Env) {t : Tape Float} (reach : t.Reachable) (steps : List Step) :
    (runAll env t steps).2.2.Reachable := by
  induction steps generalizing env t with
  | nil => exact reach
  | cons s rest ih =>
    have next := keeps_runAction of_entry env s.action (fun _ _ => keeps_sweep) t reach
    simp only [runAll]
    -- whether the step replied or refused, the rest runs on the tape it left
    split
    next => exact ih _ next
    next => exact ih _ next

/-- Whatever steps ran on a fresh tape, refused or not, every operand compares as a position
before its entry: the topology check passes and every rule adds to an entry below the one it
visits. Past its own checks, a sweep runs to the end and marks the tape exactly when every entry
at or below its start has a position in each slot its rule reads; otherwise it stops at a slot
that is empty or holds a double, having changed adjoints only, with the tape left unmarked. -/
theorem fresh_run_sweeps_iff_complete (steps : List Step) :
    let t := (runFresh steps).2.2
    t.Topological ∧ t.checkTopological = .ok () ∧
      (∀ (k : Nat) (e : Entry Float), t.entries[k]? = some e →
        ∀ valueAt i a, Pull.add i a ∈ e.pulls t.size valueAt → i < k) ∧
      ∀ s < t.size, t.interpreted = false →
        ((∀ k ≤ s, t.CompleteAt k) →
          run (interpret (some (s : Int))) t =
            (.ok (), { t.withAdjoints (t.sweepAdjoints s) with interpreted := true })) ∧
        ((∃ k ≤ s, ¬ t.CompleteAt k) →
          ∃ f adj, f.UnreadSlot ∧ run (interpret (some (s : Int))) t = (.error f, t.withAdjoints adj))
    := by
  intro t
  have reach : t.Reachable := runAll_reachable [] Reachable.empty steps
  have topo := reach.topological
  refine ⟨topo, (checkTopological_eq_ok_iff t).2 topo,
    fun k e found valueAt i a pulled => topo.target_lt found pulled, ?_⟩
  intro s within fresh
  rw [run_interpret_at t within fresh]
  exact ⟨run_sweepFrom t topo within, run_sweepFrom_incomplete t topo within⟩

theorem fresh_run_sweeps_iff_complete_on_bare_sine :
    let t := (runFresh [⟨.append (some (.lit (.text "sin"))) none none none none, none⟩]).2.2
    t.Topological ∧ t.checkTopological = .ok () ∧
      (∀ (k : Nat) (e : Entry Float), t.entries[k]? = some e →
        ∀ valueAt i a, Pull.add i a ∈ e.pulls t.size valueAt → i < k) ∧
      ∀ s < t.size, t.interpreted = false →
        ((∀ k ≤ s, t.CompleteAt k) →
          run (interpret (some (s : Int))) t =
            (.ok (), { t.withAdjoints (t.sweepAdjoints s) with interpreted := true })) ∧
        ((∃ k ≤ s, ¬ t.CompleteAt k) →
          ∃ f adj, f.UnreadSlot ∧ run (interpret (some (s : Int))) t = (.error f, t.withAdjoints adj))
    :=
  fresh_run_sweeps_iff_complete _

theorem sweep_stops_at_missing_operand :
    let t := (runFresh [⟨.append (some (.lit (.text "sin"))) none none none none, none⟩]).2.2
    let u := (runFresh [⟨.build .input [.lit (.real 0.0)], none⟩,
      ⟨.append (some (.lit (.text "sin"))) (some (.lit (.real 0.5))) none none none, none⟩]).2.2
    t.size = 1 ∧ t.interpreted = false ∧ t.checkTopological = .ok () ∧
      (run (interpret (some 0)) t).1 = .error (.incomparableIndex "NoneType") ∧
      (run (interpret (some 0)) t).2.interpreted = false ∧
      u.size = 2 ∧ u.interpreted = false ∧ u.checkTopological = .ok () ∧
      (run (interpret (some 1)) u).1 = .error (.fractionalIndex "float") ∧
      (run (interpret (some 1)) u).2.interpreted = false := by
  exact ⟨rfl, rfl, rfl, rfl, rfl, rfl, rfl, rfl, rfl, rfl⟩

end Program

end AdjointDiff
