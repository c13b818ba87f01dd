import AdjointDiff.Proofs.Program.Frozen
import AdjointDiff.Proofs.Tape.Prefix

set_option autoImplicit false

namespace AdjointDiff

open Recorder Tape

namespace Tape

variable {α : Type} [Scalar α]

theorem withEntry_eq_extend (t : Tape α) (kind : Kind) (o1 o2 : Option Operand) (value extra : α) :
    t.withEntry kind o1 o2 value extra = t.extend [⟨kind, o1, o2, value, extra, 0.0⟩] := by
  simp [withEntry, extend]

def Grows (t t' : Tape α) (ks : List Kind) : Prop :=
  ∃ es : List (Entry α), es.map Entry.kind = ks ∧ (∀ e ∈ es, e.adjoint = 0.0) ∧ t' = t.extend es

theorem Grows.refl (t : Tape α) : t.Grows t [] := ⟨[], rfl, by simp, by simp⟩

theorem Grows.trans {t u v : Tape α} {ks ls : List Kind} (first : t.Grows u ks)
    (second : u.Grows v ls) : t.Grows v (ks ++ ls) := by
  obtain ⟨es, kinds, fresh, rfl⟩ := first
  obtain ⟨fs, kinds', fresh', rfl⟩ := second
  refine ⟨es ++ fs, by simp [kinds, kinds'], ?_, extend_extend t es fs⟩
  intro e mem
  rcases List.mem_append.mp mem with early | late
  · exact fresh e early
  · exact fresh' e late

theorem grows_withEntry (t : Tape α) (kind : Kind) (o1 o2 : Option Operand) (value extra : α) :
    t.Grows (t.withEntry kind o1 o2 value extra) [kind] :=
  ⟨[⟨kind, o1, o2, value, extra, 0.0⟩], rfl, by simp, withEntry_eq_extend t kind o1 o2 value extra⟩

def HandlesLast (t : Tape α) (v : Var α) : Prop :=
  ∃ e, t.entries.back? = some e ∧ v = ⟨e.value, ((t.size - 1 : Nat) : Int)⟩

theorem handlesLast_withEntry (t : Tape α) (kind : Kind) (o1 o2 : Option Operand) (value extra : α) :
    (t.withEntry kind o1 o2 value extra).HandlesLast ⟨value, t.size⟩ :=
  ⟨⟨kind, o1, o2, value, extra, 0.0⟩, by simp [withEntry], by simp⟩

end Tape

namespace Recorder

theorem run_bind_pure_of_error {α β γ : Type} {m : Recorder α β} {g : β → γ} {t t' : Tape α}
    {f : Fault} (refused : run (m >>= fun b => pure (g b)) t = (.error f, t')) :
    run m t = (.error f, t') := by
  rw [run_bind] at refused
  split at refused
  · cases refused
  next outcome =>
    simp only [Prod.mk.injEq, Except.error.injEq] at refused
    obtain ⟨rfl, rfl⟩ := refused
    exact outcome

end Recorder

namespace Builder

def records : Builder → List Kind
  | input => [.input]
  | add => [.add]
  | addConst | subConst => [.addConst]
  | sub => [.sub]
  | rsubConst => [.mulConst, .addConst]
  | mul => [.mul]
  | mulConst | neg => [.mulConst]
  | div => [.div]
  | pow => [.pow]
  | powConst => [.powConst]
  | sin => [.sin]
  | cos => [.cos]
  | exp => [.exp]
  | log => [.log]
  | sqrt => [.sqrt]
  | normalCdf => [.normalCdf]

end Builder

namespace Program

variable {β γ : Type}

def ReadsOnly (m : Recorder Float β) : Prop := ∀ t, (run m t).2 = t

/-- Every run of `m` that is refused leaves the tape it started from. -/
def Atomic (m : Recorder Float β) : Prop := ∀ t f t', run m t = (.error f, t') → t' = t

def Appends (ks : List Kind) (m : Recorder Float β) : Prop :=
  ∀ t b t', run m t = (.ok b, t') → t.Grows t' ks

def Builds (ks : List Kind) (m : Recorder Float (Var Float)) : Prop :=
  ∀ t v t', run m t = (.ok v, t') → t.Grows t' ks ∧ t'.HandlesLast v

namespace ReadsOnly

theorem of_pure (b : β) : ReadsOnly (pure b : Recorder Float β) := fun _ => rfl

theorem of_throw (f : Fault) : ReadsOnly (throw f : Recorder Float β) := fun _ => rfl

theorem of_lift (r : Except Fault β) : ReadsOnly (lift r : Recorder Float β) := fun t => by
  simp

theorem bind {m : Recorder Float β} {g : β → Recorder Float γ} (first : ReadsOnly m)
    (rest : ∀ b, ReadsOnly (g b)) : ReadsOnly (m >>= g) := by
  intro t
  have kept : Keeps (· = t) (m >>= g) :=
    Keeps.bind (fun u same => (first u).trans same) fun b u same => (rest b u).trans same
  exact kept t rfl

theorem get_bind {g : Tape Float → Recorder Float β} (rest : ∀ t, ReadsOnly (g t)) :
    ReadsOnly (get >>= g) := fun t => rest t t

theorem lift_bind {r : Except Fault β} {g : β → Recorder Float γ} (rest : ∀ b, ReadsOnly (g b)) :
    ReadsOnly (lift r >>= g) :=
  bind (of_lift r) rest

theorem atomic {m : Recorder Float β} (reads : ReadsOnly m) : Atomic m := by
  intro t f t' refused
  rw [← reads t, refused]

theorem appends {m : Recorder Float β} (reads : ReadsOnly m) : Appends [] m := by
  intro t b t' returned
  rw [← show (run m t).2 = t' by rw [returned], reads t]
  exact Grows.refl t

end ReadsOnly

namespace Atomic

theorem of_entry (kind : Kind) (value : Float) (o1 o2 : Option Operand) (extra : Float) :
    Atomic (Record.entry kind value o1 o2 extra) := by
  intro t f t' refused
  rw [Record.run_entry] at refused
  split at refused
  · cases refused
  · cases refused
    rfl

theorem bind_of_reads {m : Recorder Float β} {g : β → Recorder Float γ} (first : ReadsOnly m)
    (rest : ∀ b, Atomic (g b)) : Atomic (m >>= g) := by
  intro t f t' refused
  rw [run_bind] at refused
  have same := first t
  split at refused
  next b u outcome =>
    have back : u = t := by simpa [outcome] using same
    subst back
    exact rest b u f t' refused
  next e u outcome =>
    rw [outcome] at same
    cases refused
    exact same

theorem lift_bind {r : Except Fault β} {g : β → Recorder Float γ} (rest : ∀ b, Atomic (g b)) :
    Atomic (lift r >>= g) :=
  bind_of_reads (ReadsOnly.of_lift r) rest

@[simp] theorem throw_bind (f : Fault) (g : β → Recorder Float γ) :
    Atomic (throw f >>= g) ↔ True :=
  iff_true_intro (ReadsOnly.atomic fun t => by simp [run_bind])

@[simp] theorem lift_bind_iff (r : Except Fault β) (g : β → Recorder Float γ) :
    Atomic (lift r >>= g) ↔ ∀ b, r = .ok b → Atomic (g b) := by
  constructor
  · intro atomic b ok t f t' refused
    exact atomic t f t' (by rw [run_bind, run_lift, ok]; exact refused)
  · intro rest t f t' refused
    rw [run_bind, run_lift] at refused
    cases r with
    | error e =>
      cases refused
      rfl
    | ok b => exact rest b rfl t f t' refused

theorem bind_pure {m : Recorder Float β} (first : Atomic m) (g : β → γ) :
    Atomic (m >>= fun b => pure (g b)) :=
  fun t f t' refused => first t f t' (run_bind_pure_of_error refused)

end Atomic

namespace Appends

theorem of_throw (ks : List Kind) (f : Fault) : Appends ks (throw f : Recorder Float β) := by
  intro t b t' returned
  cases returned

theorem bind {ks ls : List Kind} {m : Recorder Float β} {g : β → Recorder Float γ}
    (first : Appends ks m) (rest : ∀ b, Appends ls (g b)) : Appends (ks ++ ls) (m >>= g) := by
  intro t c t' returned
  rw [run_bind] at returned
  split at returned
  next b u outcome => exact (first t b u outcome).trans (rest b u c t' returned)
  next => cases returned

end Appends

namespace Builds

theorem appends {ks : List Kind} {m : Recorder Float (Var Float)} (builds : Builds ks m) :
    Appends ks m :=
  fun t v t' returned => (builds t v t' returned).1

theorem of_entry (kind : Kind) (value : Float) (o1 o2 : Option Operand) (extra : Float) :
    Builds [kind] (Record.entry kind value o1 o2 extra) := by
  intro t v t' returned
  rw [Record.run_entry] at returned
  split at returned
  next u i accepted =>
    obtain ⟨-, -, -, same⟩ := append_eq_ok accepted
    simp only [Prod.mk.injEq, Except.ok.injEq] at same returned
    obtain ⟨rfl, rfl⟩ := same
    obtain ⟨rfl, rfl⟩ := returned
    exact ⟨grows_withEntry t kind o1 o2 value extra, handlesLast_withEntry t kind o1 o2 value extra⟩
  next => cases returned

theorem of_throw (ks : List Kind) (f : Fault) : Builds ks (throw f) := by
  intro t v t' returned
  cases returned

theorem bind {ks ls : List Kind} {m : Recorder Float β} {g : β → Recorder Float (Var Float)}
    (first : Appends ks m) (rest : ∀ b, Builds ls (g b)) : Builds (ks ++ ls) (m >>= g) := by
  intro t v t' returned
  rw [run_bind] at returned
  split at returned
  next b u outcome =>
    obtain ⟨grown, last⟩ := rest b u v t' returned
    exact ⟨(first t b u outcome).trans grown, last⟩
  next => cases returned

theorem bind_of_reads {ls : List Kind} {m : Recorder Float β} {g : β → Recorder Float (Var Float)}
    (first : ReadsOnly m) (rest : ∀ b, Builds ls (g b)) : Builds ls (m >>= g) :=
  bind first.appends rest

theorem lift_bind {ls : List Kind} {r : Except Fault β} {g : β → Recorder Float (Var Float)}
    (rest : ∀ b, Builds ls (g b)) : Builds ls (lift r >>= g) :=
  bind_of_reads (ReadsOnly.of_lift r) rest

@[simp] theorem throw_bind {ls : List Kind} (f : Fault) (g : β → Recorder Float (Var Float)) :
    Builds ls (throw f >>= g) ↔ True :=
  iff_true_intro fun t v t' returned => by simp [run_bind] at returned

@[simp] theorem lift_bind_iff {ls : List Kind} (r : Except Fault β)
    (g : β → Recorder Float (Var Float)) :
    Builds ls (lift r >>= g) ↔ ∀ b, r = .ok b → Builds ls (g b) := by
  constructor
  · intro builds b ok t v t' returned
    exact builds t v t' (by rw [run_bind, run_lift, ok]; exact returned)
  · intro rest t v t' returned
    rw [run_bind, run_lift] at returned
    cases r with
    | error e => cases returned
    | ok b => exact rest b rfl t v t' returned

end Builds

section Builders

open Builds

theorem builds_operandThenConstant (cname : String) {kind : Kind}
    {record : Var Float → Float → Recorder Float (Var Float)}
    (recorded : ∀ v k, Builds [kind] (record v k)) (x c : Arg) :
    Builds [kind] (operandThenConstant cname record x c) :=
  lift_bind fun v => lift_bind fun k => recorded v k

theorem builds_callBuilder (b : Builder) (args : List Arg) :
    Builds b.records (callBuilder b args) := by
  unfold callBuilder
  split
  · exact lift_bind fun _ => of_entry _ _ _ _ _
  · exact lift_bind fun _ => lift_bind fun _ => of_entry _ _ _ _ _
  · exact lift_bind fun _ => lift_bind fun _ => of_entry _ _ _ _ _
  · exact lift_bind fun _ => lift_bind fun _ => of_entry _ _ _ _ _
  · exact lift_bind fun _ => lift_bind fun _ => of_entry _ _ _ _ _
  · exact lift_bind fun _ => lift_bind fun _ => of_entry _ _ _ _ _
  · exact builds_operandThenConstant _ (fun _ _ => of_entry _ _ _ _ _) _ _
  · exact builds_operandThenConstant _ (fun _ _ => of_entry _ _ _ _ _) _ _
  · exact builds_operandThenConstant _ (fun _ _ => of_entry _ _ _ _ _) _ _
  · exact lift_bind fun _ => lift_bind fun _ => of_entry _ _ _ _ _
  · -- the negation, then the addition of the constant
    exact lift_bind fun _ => Builds.bind (of_entry _ _ _ _ _).appends fun _ => lift_bind fun _ =>
      of_entry _ _ _ _ _
  · exact lift_bind fun _ => of_entry _ _ _ _ _
  · exact lift_bind fun _ => of_entry _ _ _ _ _
  · exact lift_bind fun _ => of_entry _ _ _ _ _
  · exact lift_bind fun _ => of_entry _ _ _ _ _
  · exact lift_bind fun _ => of_entry _ _ _ _ _
  · exact lift_bind fun _ => of_entry _ _ _ _ _
  · exact lift_bind fun _ => of_entry _ _ _ _ _
  · exact of_throw _ _

theorem atomic_callBuilder {b : Builder} (single : b ≠ .rsubConst) (args : List Arg) :
    Atomic (callBuilder b args) := by
  unfold callBuilder
  split
  · exact Atomic.lift_bind fun _ => Atomic.of_entry _ _ _ _ _
  · exact Atomic.lift_bind fun _ => Atomic.lift_bind fun _ => Atomic.of_entry _ _ _ _ _
  · exact Atomic.lift_bind fun _ => Atomic.lift_bind fun _ => Atomic.of_entry _ _ _ _ _
  · exact Atomic.lift_bind fun _ => Atomic.lift_bind fun _ => Atomic.of_entry _ _ _ _ _
  · exact Atomic.lift_bind fun _ => Atomic.lift_bind fun _ => Atomic.of_entry _ _ _ _ _
  · exact Atomic.lift_bind fun _ => Atomic.lift_bind fun _ => Atomic.of_entry _ _ _ _ _
  · exact Atomic.lift_bind fun _ => Atomic.lift_bind fun _ => Atomic.of_entry _ _ _ _ _
  · exact Atomic.lift_bind fun _ => Atomic.lift_bind fun _ => Atomic.of_entry _ _ _ _ _
  · exact Atomic.lift_bind fun _ => Atomic.lift_bind fun _ => Atomic.of_entry _ _ _ _ _
  · exact Atomic.lift_bind fun _ => Atomic.lift_bind fun _ => Atomic.of_entry _ _ _ _ _
  · exact absurd rfl single
  · exact Atomic.lift_bind fun _ => Atomic.of_entry _ _ _ _ _
  · exact Atomic.lift_bind fun _ => Atomic.of_entry _ _ _ _ _
  · exact Atomic.lift_bind fun _ => Atomic.of_entry _ _ _ _ _
  · exact Atomic.lift_bind fun _ => Atomic.of_entry _ _ _ _ _
  · exact Atomic.lift_bind fun _ => Atomic.of_entry _ _ _ _ _
  · exact Atomic.lift_bind fun _ => Atomic.of_entry _ _ _ _ _
  · exact Atomic.lift_bind fun _ => Atomic.of_entry _ _ _ _ _
  · exact (ReadsOnly.of_throw _).atomic

theorem callBuilder_rsubConst_refused (args : List Arg) {t t' : Tape Float} {f : Fault}
    (refused : run (callBuilder .rsubConst args) t = (.error f, t')) :
    t' = t ∨ t.Grows t' [.mulConst] := by
  match args, refused with
  | [], refused | [_], refused | _ :: _ :: _ :: _, refused =>
    -- every other number of arguments is refused before anything is read
    exact .inl ((ReadsOnly.of_throw _).atomic t f t' refused)
  | [c, x], refused =>
    simp only [callBuilder] at refused
    rw [run_bind, run_lift] at refused
    revert refused
    rcases x.asHandle "x" with e | v
    · intro refused
      cases refused
      exact .inl rfl
    intro refused
    dsimp only at refused
    rw [run_bind] at refused
    split at refused
    next m u negated =>
      -- the negation is on the tape; the constant, then the addition, may still refuse
      have grown := (of_entry _ _ _ _ _).appends t m u negated
      rw [run_bind, run_lift] at refused
      revert refused
      rcases c.asReal "c" with e | k
      · intro refused
        cases refused
        exact .inr grown
      · intro refused
        rw [Atomic.of_entry _ _ _ _ _ u f t' refused]
        exact .inr grown
    next negated =>
      cases refused
      exact .inl (Atomic.of_entry _ _ _ _ _ t _ _ negated)

theorem builds_callManual (operand partial_ : Arg) (value previous : Option Arg) :
    Builds [.manual] (callManual operand partial_ value previous) := by
  unfold callManual
  refine lift_bind fun _ => lift_bind fun _ => ?_
  -- the previous entry and then the value are settled before anything is recorded
  split <;> simp only [pure_bind, throw_bind]
  all_goals split <;> simp only [throw_bind, lift_bind_iff]
  all_goals exact fun _ _ => of_entry _ _ _ _ _

theorem atomic_callManual (operand partial_ : Arg) (value previous : Option Arg) :
    Atomic (callManual operand partial_ value previous) := by
  unfold callManual
  refine Atomic.lift_bind fun _ => Atomic.lift_bind fun _ => ?_
  split <;> simp only [pure_bind, Atomic.throw_bind]
  all_goals split <;> simp only [Atomic.throw_bind, Atomic.lift_bind_iff]
  all_goals exact fun _ _ => Atomic.of_entry _ _ _ _ _

end Builders

section Chains

theorem appends_chainLinks (out : Var Float) (xs ps : List Arg) (same_length : xs.length = ps.length) :
    Appends (List.replicate xs.length .manual) (chainLinks out xs ps) := by
  induction xs generalizing out ps with
  | nil => exact (ReadsOnly.of_pure out).appends
  | cons x xs ih =>
    obtain ⟨p, ps, rfl⟩ := List.exists_cons_of_length_eq_add_one same_length.symm
    exact Appends.bind (builds_callManual _ _ _ _).appends fun next =>
      ih next ps (by simpa using same_length)

theorem chainLinks_refused (out : Var Float) (xs ps : List Arg) (same_length : xs.length = ps.length)
    {t t' : Tape Float} {f : Fault} (refused : run (chainLinks out xs ps) t = (.error f, t')) :
    ∃ k < xs.length, ∃ w, run (chainLinks out (xs.take k) (ps.take k)) t = (.ok w, t') := by
  induction xs generalizing out ps t with
  | nil => simp [chainLinks] at refused
  | cons x xs ih =>
    obtain ⟨p, ps, rfl⟩ := List.exists_cons_of_length_eq_add_one same_length.symm
    simp only [chainLinks] at refused
    rw [run_bind] at refused
    split at refused
    next next u linked =>
      -- this link is recorded, and a later one refuses
      obtain ⟨k, below, w, prefix_run⟩ := ih next ps (by simpa using same_length) refused
      refine ⟨k + 1, by simpa using below, w, ?_⟩
      simp only [List.take_succ_cons, chainLinks]
      rw [run_bind_of_ok linked]
      exact prefix_run
    next linked =>
      -- this link refuses before it writes
      cases refused
      refine ⟨0, by simp, out, ?_⟩
      rw [atomic_callManual _ _ _ _ t _ _ linked]
      rfl

theorem appends_callManualChain (xs ps : List Arg) (value : Arg) :
    Appends (List.replicate xs.length .manual) (callManualChain (.list xs) (.list ps) value) := by
  unfold callManualChain
  dsimp only
  split
  · exact Appends.of_throw _ _
  next same =>
    split
    next x xs p ps =>
      exact Appends.bind (builds_callManual _ _ _ _).appends fun first =>
        appends_chainLinks first xs ps (by simpa using same)
    next => exact Appends.of_throw _ _

theorem callManualChain_refused {xs ps : List Arg} (value : Arg) {t t' : Tape Float} {f : Fault}
    (refused : run (callManualChain (.list xs) (.list ps) value) t = (.error f, t')) :
    t' = t ∨ ∃ k, 0 < k ∧ k < xs.length ∧
      ∃ w, run (callManualChain (.list (xs.take k)) (.list (ps.take k)) value) t = (.ok w, t') := by
  unfold callManualChain at refused
  dsimp only at refused
  split at refused
  · cases refused
    exact .inl rfl
  next same =>
    split at refused
    next x xs p ps =>
      have same_length : xs.length = ps.length := by simpa using same
      rw [run_bind] at refused
      split at refused
      next first u linked =>
        obtain ⟨k, below, w, prefix_run⟩ := chainLinks_refused first xs ps same_length refused
        refine .inr ⟨k + 1, by omega, by simpa using below, w, ?_⟩
        -- the chain of the first `k + 1` links records the first link, then `k` links after it
        have lengths : (xs.take k).length = (ps.take k).length := by simp [same_length]
        simp only [List.take_succ_cons, callManualChain, List.length_cons, lengths, bne_self_eq_false,
          Bool.false_eq_true, if_false]
        rw [run_bind_of_ok linked]
        exact prefix_run
      next linked =>
        cases refused
        exact .inl (atomic_callManual _ _ _ _ t _ _ linked)
    next =>
      cases refused
      exact .inl rfl

end Chains

section Steps

theorem atomic_appendRaw (kind operand1 operand2 value extra : Option Arg) :
    Atomic (appendRaw kind operand1 operand2 value extra) := by
  unfold appendRaw
  refine Atomic.lift_bind fun _ => Atomic.bind_of_reads (fun _ => rfl) fun t => ?_
  refine Atomic.lift_bind fun _ => ?_
  -- the checked entry is set in place, which cannot be refused
  intro u f u' refused
  cases refused

theorem readsOnly_lookup (index : Arg) : ReadsOnly (lookup index) :=
  fun t => @keeps_lookup (· = t) index t rfl

theorem atomic_runAction (env : Env) (action : Action)
    (single : ∀ args, action ≠ .build .rsubConst args)
    (not_chain : ∀ args, action ≠ .manualChain args)
    (not_sweep : ∀ output, action ≠ .interpret output) :
    Atomic (runAction env action) := by
  cases action with
  | build b args =>
    refine Atomic.lift_bind fun as => (atomic_callBuilder ?_ as).bind_pure _
    rintro rfl
    exact single args rfl
  | manual args value previous =>
    refine Atomic.lift_bind fun as => Atomic.lift_bind fun _ => Atomic.lift_bind fun _ => ?_
    split
    · exact (atomic_callManual _ _ _ _).bind_pure _
    · exact (ReadsOnly.of_throw _).atomic
  | manualChain args => exact absurd rfl (not_chain args)
  | append kind o1 o2 value extra =>
    exact Atomic.lift_bind fun _ => Atomic.lift_bind fun _ => Atomic.lift_bind fun _ =>
      Atomic.lift_bind fun _ => Atomic.lift_bind fun _ => (atomic_appendRaw _ _ _ _ _).bind_pure _
  | get index => exact Atomic.lift_bind fun _ => (readsOnly_lookup _).atomic.bind_pure _
  | size => exact (ReadsOnly.get_bind fun _ => ReadsOnly.of_pure _).atomic
  | interpret output => exact absurd rfl (not_sweep output)
  | extractGradient =>
    exact (ReadsOnly.get_bind fun _ => ReadsOnly.lift_bind fun _ => ReadsOnly.of_pure _).atomic
  | checkTopological =>
    exact (ReadsOnly.get_bind fun _ => ReadsOnly.lift_bind fun _ => ReadsOnly.of_pure _).atomic
  | summary verbose =>
    exact (ReadsOnly.lift_bind fun _ => ReadsOnly.get_bind fun _ => ReadsOnly.lift_bind fun _ =>
      ReadsOnly.of_pure _).atomic
  | value arg =>
    refine (ReadsOnly.lift_bind fun a => ?_).atomic
    split <;> exact ReadsOnly.of_pure _
  | entries => exact (ReadsOnly.get_bind fun _ => ReadsOnly.of_pure _).atomic

theorem runAction_refused (env : Env) (action : Action)
    (not_chain : ∀ args, action ≠ .manualChain args) {t t' : Tape Float} (topo : t.Topological)
    {f : Fault} (refused : run (runAction env action) t = (.error f, t')) :
    t' = t ∨
      ((∃ output, action = .interpret output) ∧ f.UnreadSlot ∧
        t.interpreted = false ∧ (∃ k, ¬ t.CompleteAt k) ∧ ∃ adj, t' = t.withAdjoints adj) ∨
      ((∃ args, action = .build .rsubConst args) ∧ t.Grows t' [.mulConst]) := by
  by_cases sweeps : ∃ output, action = .interpret output
  · obtain ⟨output, rfl⟩ := sweeps
    rcases runAction_interpret_tape env output t topo with kept | ⟨returned, -⟩ |
        ⟨⟨g, stopped, unread⟩, fresh, open_slot, adj, changed⟩
    · rw [refused] at kept
      exact .inl kept
    · rw [refused] at returned
      cases returned
    · rw [refused] at stopped changed
      cases stopped
      exact .inr (.inl ⟨⟨output, rfl⟩, unread, fresh, open_slot, adj, changed⟩)
  by_cases negates : ∃ args, action = .build .rsubConst args
  · obtain ⟨args, rfl⟩ := negates
    simp only [runAction] at refused
    rw [run_bind, run_lift] at refused
    revert refused
    rcases Term.evalList env args with e | as
    · intro refused
      cases refused
      exact .inl rfl
    · intro refused
      rcases callBuilder_rsubConst_refused as (run_bind_pure_of_error refused) with same | grown
      · exact .inl same
      · exact .inr (.inr ⟨⟨args, rfl⟩, grown⟩)
  exact .inl (atomic_runAction env action (fun args same => negates ⟨args, same⟩) not_chain
    (fun output same => sweeps ⟨output, same⟩) t f t' refused)

end Steps

/-- On a tape whose every operand compares as a position before its entry, as on every tape that
steps reach, a refused step other than a chain of manual entries leaves the tape as it was, but
for a sweep that stops at a slot that selects no entry, empty or holding a double, having changed
adjoints only, and an `rsub_const` refused after recording its negation, which it leaves behind.
A builder or a manual entry that returns has appended its entries, fresh, and answers the handle
on the last of them. A chain refused after its length checks leaves the entries of the chain of
its first `k` links, for some `k` below its length. -/
theorem refused_step_leaves_tape (env : Env) (t : Tape Float) (topo : t.Topological) :
    (∀ (action : Action) (f : Fault) (t' : Tape Float), (∀ args, action ≠ .manualChain args) →
      run (runAction env action) t = (.error f, t') →
      t' = t ∨
        ((∃ output, action = .interpret output) ∧ f.UnreadSlot ∧
          t.interpreted = false ∧ (∃ k, ¬ t.CompleteAt k) ∧ ∃ adj, t' = t.withAdjoints adj) ∨
        ((∃ args, action = .build .rsubConst args) ∧ t.Grows t' [.mulConst])) ∧
    (∀ (b : Builder) (args : List Arg) (v : Var Float) (t' : Tape Float),
      run (callBuilder b args) t = (.ok v, t') → t.Grows t' b.records ∧ t'.HandlesLast v) ∧
    (∀ (operand partial_ : Arg) (value previous : Option Arg) (v : Var Float) (t' : Tape Float),
      run (callManual operand partial_ value previous) t = (.ok v, t') →
        t.Grows t' [.manual] ∧ t'.HandlesLast v) ∧
    (∀ (xs ps : List Arg) (value : Arg) (f : Fault) (t' : Tape Float), xs ≠ [] →
      run (callManualChain (.list xs) (.list ps) value) t = (.error f, t') →
      ∃ k < xs.length, t.Grows t' (List.replicate k .manual) ∧
        (0 < k → ∃ w,
          run (callManualChain (.list (xs.take k)) (.list (ps.take k)) value) t = (.ok w, t'))) := by
  refine ⟨fun action f t' not_chain refused => runAction_refused env action not_chain topo refused,
    fun b args => builds_callBuilder b args t,
    fun operand partial_ value previous => builds_callManual operand partial_ value previous t, ?_⟩
  intro xs ps value f t' linked refused
  rcases callManualChain_refused value refused with untouched | ⟨k, positive, below, w, prefix_run⟩
  · -- refused at its first link: nothing is left
    refine ⟨0, List.length_pos_iff.mpr linked, ?_, fun none => absurd none (Nat.lt_irrefl 0)⟩
    rw [untouched]
    exact Grows.refl t
  · -- the chain of the first `k` links records `k` manual entries
    have grown := appends_callManualChain (xs.take k) (ps.take k) value t w t' prefix_run
    rw [List.length_take, Nat.min_eq_left below.le] at grown
    exact ⟨k, below, grown, fun _ => ⟨w, prefix_run⟩⟩

theorem refusals_after_one_input :
    let t := (run (Record.input (2.0 : Float)) Tape.empty).2
    let x : Arg := .handle ⟨2.0, 0⟩
    (run (runAction [] (.build .add [.lit (.int 1), .lit (.int 2)])) t).2 = t ∧
      t.Grows (run (callBuilder .sin [x]) t).2 [.sin] ∧
      t.Grows (run (callManual x (.real 0.5) (some (.real 1.0)) none) t).2 [.manual] ∧
      ∃ k < 2, t.Grows (run (callManualChain (.list [x, .int 1]) (.list [.real 1.0, .real 1.0])
        (.real 3.0)) t).2 (List.replicate k .manual) := by
  intro t x
  have reach : t.Reachable := .entry _ _ _ _ _ .empty
  have refusals := refused_step_leaves_tape [] t reach.topological
  refine ⟨?_, (refusals.2.1 .sin [x] _ _ rfl).1, (refusals.2.2.1 x (.real 0.5) (some (.real 1.0)) none _ _ rfl).1, ?_⟩
  · rcases refusals.1 (.build .add [.lit (.int 1), .lit (.int 2)]) _ _ (fun _ chain => by cases chain)
        rfl with same | ⟨⟨_, sweep⟩, -⟩ | ⟨⟨_, negation⟩, -⟩
    · exact same
    · cases sweep
    · cases negation
  · obtain ⟨k, below, grown, -⟩ := refusals.2.2.2 [x, .int 1] [.real 1.0, .real 1.0] (.real 3.0) _ _
      (by simp) rfl
    exact ⟨k, below, grown⟩

end Program

theorem stopped_sweep_changes_tape :
    let t : Tape ℝ :=
      (run (Record.entry .mul 0 (some (.int 0)) none 0) (run (Record.input 2) Tape.empty).2).2
    t.Reachable ∧ (run (Tape.interpret none) t).1 = .error (.incomparableIndex "NoneType") ∧
      t.adjointAt 1 = 0 ∧ (run (Tape.interpret none) t).2.adjointAt 1 = 1 := by
  intro t
  have literal : t = ⟨#[⟨.input, none, none, 2, 0.0, 0.0⟩, ⟨.mul, some (.int 0), none, 0, 0, 0.0⟩],
      false⟩ := rfl
  have stopped : run (Tape.interpret none) t = (.error (.incomparableIndex "NoneType"),
      ⟨#[⟨.input, none, none, 2, 0.0, 0.0⟩, ⟨.mul, some (.int 0), none, 0, 0, 0.0 + 1.0⟩],
        false⟩) := by
    rw [literal]
    rfl
  have reach : t.Reachable := .entry _ _ _ _ _ (.entry _ _ _ _ _ .empty)
  refine ⟨reach, by rw [stopped], by simp [literal, Tape.adjointAt], ?_⟩
  simp [stopped, Tape.adjointAt]

end AdjointDiff
