import AdjointDiff.Proofs.Real.Gradient
import AdjointDiff.Proofs.Real.Linear

set_option autoImplicit false

namespace AdjointDiff

open Recorder

theorem Entry.regular_congr {e : Entry ℝ} (complete : e.Complete) {V W : Nat → ℝ}
    (agree : ∀ o ∈ e.positions, V o = W o) : e.Regular V ↔ e.Regular W := by
  rcases e with ⟨kind, o1, o2, v, c, b⟩
  simp only [Entry.Regular, Entry.Complete, Entry.positions, Entry.first_mk,
    Entry.second_mk] at complete agree ⊢
  -- the domain reads the operands only through the positions they select
  generalize o1.bind Operand.position? = p1 at complete agree ⊢
  generalize o2.bind Operand.position? = p2 at complete agree ⊢
  cases kind <;> cases p1 <;> cases p2 <;> simp_all [Kind.binary]

namespace Tape

variable {t : Tape ℝ}

theorem Regular.appended (regular : t.Regular) (clean : t.Clean) {kind : Kind} {p1 p2 : Option Nat}
    (below1 : ∀ i ∈ p1, i < t.size) (below2 : ∀ i ∈ p2, i < t.size) (value extra : ℝ)
    (complete : (⟨kind, p1.map .ofNat, p2.map .ofNat, value, extra, 0.0⟩ : Entry ℝ).Complete)
    (new : (⟨kind, p1.map .ofNat, p2.map .ofNat, value, extra, 0.0⟩ : Entry ℝ).Regular t.valueAt) :
    (t.appended kind p1 p2 value extra).Regular := by
  intro k e found
  rw [appended_getElem?] at found
  split at found
  · cases found
    exact (Entry.regular_congr complete fun o mem =>
      valueAt_appended_of_lt (Entry.forall_mem_positions_ofNat below1 below2 o mem)).2 new
  · have inside : k < t.size := (Array.getElem?_eq_some_iff.1 found).1
    exact (Entry.regular_congr (clean.complete k e found) fun o mem =>
      valueAt_appended_of_lt (lt_trans (clean.topological.position_lt found mem) inside)).2
        (regular k e found)

end Tape

namespace StraightLine

def Call.Regular (value : Nat → ℝ) : Call → Prop
  | .div _ b => value b ≠ 0
  | .log a | .sqrt a | .pow a _ => 0 < value a
  | .powConst a _ => value a ≠ 0
  | _ => True

theorem Call.regular_congr {c : Call} {V W : Nat → ℝ} (agree : ∀ a ∈ c.operands, V a = W a) :
    c.Regular V ↔ c.Regular W := by
  cases c <;> simp_all [Call.Regular, Call.operands]

variable {t : Tape ℝ}

theorem regular_entry (regular : t.Regular) (clean : t.Clean) {kind : Kind} {p1 p2 : Option Nat}
    (below1 : ∀ i ∈ p1, i < t.size) (below2 : ∀ i ∈ p2, i < t.size) (value extra : ℝ)
    (complete : (⟨kind, p1.map .ofNat, p2.map .ofNat, value, extra, 0.0⟩ : Entry ℝ).Complete)
    (new : (⟨kind, p1.map .ofNat, p2.map .ofNat, value, extra, 0.0⟩ : Entry ℝ).Regular t.valueAt)
    {v : Var ℝ} {u : Tape ℝ}
    (ran : run (Record.entry kind value (p1.map .ofNat) (p2.map .ofNat) extra) t = (.ok v, u)) :
    u.Regular := by
  rw [Record.run_entry_of_fresh clean.fresh kind below1 below2, Prod.mk.injEq] at ran
  rw [← ran.2]
  exact regular.appended clean below1 below2 value extra complete new

theorem regular_unary (regular : t.Regular) (clean : t.Clean) (kind : Kind) (value extra : ℝ)
    (unary : kind.binary = false) {w : Var ℝ} (valid : Valid t w)
    (new : (⟨kind, some (.ofNat w.index.toNat), none, value, extra, 0.0⟩ : Entry ℝ).Regular
      t.valueAt)
    {v : Var ℝ} {u : Tape ℝ}
    (ran : run (Record.entry kind value (some (.int w.index)) none extra) t = (.ok v, u)) :
    u.Regular := by
  rw [valid.cast] at ran
  have none_below : ∀ i ∈ (none : Option Nat), i < t.size := by simp
  exact regular_entry regular clean valid.below none_below value extra
    (Entry.complete_unary unary _ _ _ _) new ran

theorem regular_binary (regular : t.Regular) (clean : t.Clean) (kind : Kind) (value : ℝ)
    {w w' : Var ℝ} (valid : Valid t w) (valid' : Valid t w')
    (new : (⟨kind, some (.ofNat w.index.toNat), some (.ofNat w'.index.toNat), value, 0.0, 0.0⟩ :
      Entry ℝ).Regular t.valueAt)
    {v : Var ℝ} {u : Tape ℝ}
    (ran : run (Record.entry kind value (some (.int w.index)) (some (.int w'.index)) 0.0) t =
      (.ok v, u)) :
    u.Regular := by
  rw [valid.cast, valid'.cast] at ran
  exact regular_entry regular clean valid.below valid'.below value 0.0
    (Entry.complete_binary _ _ _ _ _ _) new ran

theorem regular_call (regular : t.Regular) (clean : t.Clean) {r : Nat} {vs : List (Var ℝ)}
    {ds : List (ℝ × ℝ)} (tracked : TracksAll t r vs ds) (x : Nat → ℝ) (n : Nat) (c : Call)
    (earlier : ∀ a ∈ c.operands, a < vs.length) (domain : c.Regular fun a => (ds.getD a (0, 0)).1)
    {v : Var ℝ} {u : Tape ℝ} (ran : run (c.record x n vs) t = (.ok v, u)) : u.Regular := by
  -- each operand's handle stands for an entry holding the operand's value
  have handle (a : Nat) (mem : a ∈ c.operands) : Valid t (vs.getD a ⟨0, 0⟩) ∧
      t.valueAt (vs.getD a ⟨0, 0⟩).index.toNat = (ds.getD a (0, 0)).1 := by
    obtain ⟨valid, value, -⟩ := tracked.2 a (earlier a mem)
    exact ⟨valid, valid.2.2.symm.trans value⟩
  cases c with
  | input =>
    have none_below : ∀ i ∈ (none : Option Nat), i < t.size := by simp
    exact regular_entry regular clean none_below none_below _ _ (Entry.complete_input _ _ _)
      trivial ran
  | add a b =>
    exact regular_binary regular clean .add _ (handle a (by simp [Call.operands])).1
      (handle b (by simp [Call.operands])).1 trivial ran
  | addConst a c =>
    exact regular_unary regular clean .addConst _ c rfl (handle a (by simp [Call.operands])).1 trivial ran
  | sub a b =>
    exact regular_binary regular clean .sub _ (handle a (by simp [Call.operands])).1
      (handle b (by simp [Call.operands])).1 trivial ran
  | subConst a c =>
    exact regular_unary regular clean .addConst _ _ rfl (handle a (by simp [Call.operands])).1 trivial ran
  | rsubConst c a =>
    -- `c - x` records `-x` first and then adds `c` to it
    obtain ⟨valid, -⟩ := handle a (by simp [Call.operands])
    have none_below : ∀ i ∈ (none : Option Nat), i < t.size := by simp
    have complete : (⟨.mulConst, some (.ofNat (vs.getD a ⟨0, 0⟩).index.toNat), none,
        (vs.getD a ⟨0, 0⟩).value * -1.0, -1.0, 0.0⟩ : Entry ℝ).Complete :=
      Entry.complete_unary rfl _ _ _ _
    have negated := Record.run_entry_of_fresh clean.fresh .mulConst valid.below none_below
      ((vs.getD a ⟨0, 0⟩).value * -1.0) (-1.0)
    rw [← valid.cast, Option.map_none] at negated
    simp only [Call.record, Record.rsubConst, Record.neg, Record.mulConst] at ran
    rw [run_bind_of_ok negated] at ran
    exact regular_unary (regular.appended clean valid.below none_below _ _ complete trivial)
      (clean.appended valid.below none_below _ _ complete) .addConst _ c rfl valid_appended_last trivial ran
  | mul a b =>
    exact regular_binary regular clean .mul _ (handle a (by simp [Call.operands])).1
      (handle b (by simp [Call.operands])).1 trivial ran
  | mulConst a c =>
    exact regular_unary regular clean .mulConst _ c rfl (handle a (by simp [Call.operands])).1 trivial ran
  | neg a =>
    exact regular_unary regular clean .mulConst _ _ rfl (handle a (by simp [Call.operands])).1 trivial ran
  | div a b =>
    obtain ⟨valid', value'⟩ := handle b (by simp [Call.operands])
    exact regular_binary regular clean .div _ (handle a (by simp [Call.operands])).1 valid'
      (by simp only [Entry.Regular, Entry.second_mk, Option.bind_some, Operand.position?_ofNat,
        Option.getD_some]; rw [value']; exact domain) ran
  | pow a b =>
    obtain ⟨valid, value⟩ := handle a (by simp [Call.operands])
    exact regular_binary regular clean .pow _ valid (handle b (by simp [Call.operands])).1
      (by simp only [Entry.Regular, Entry.first_mk, Option.bind_some, Operand.position?_ofNat,
        Option.getD_some]; rw [value]; exact domain) ran
  | powConst a p =>
    obtain ⟨valid, value⟩ := handle a (by simp [Call.operands])
    exact regular_unary regular clean .powConst _ p rfl valid
      (by simp only [Entry.Regular, Entry.first_mk, Option.bind_some, Operand.position?_ofNat,
        Option.getD_some]; rw [value]; exact domain) ran
  | sin a =>
    exact regular_unary regular clean .sin _ _ rfl (handle a (by simp [Call.operands])).1 trivial ran
  | cos a =>
    exact regular_unary regular clean .cos _ _ rfl (handle a (by simp [Call.operands])).1 trivial ran
  | exp a =>
    exact regular_unary regular clean .exp _ _ rfl (handle a (by simp [Call.operands])).1 trivial ran
  | log a =>
    obtain ⟨valid, value⟩ := handle a (by simp [Call.operands])
    exact regular_unary regular clean .log _ _ rfl valid
      (by simp only [Entry.Regular, Entry.first_mk, Option.bind_some, Operand.position?_ofNat,
        Option.getD_some]; rw [value]; exact domain) ran
  | sqrt a =>
    obtain ⟨valid, value⟩ := handle a (by simp [Call.operands])
    exact regular_unary regular clean .sqrt _ _ rfl valid
      (by simp only [Entry.Regular, Entry.first_mk, Option.bind_some, Operand.position?_ofNat,
        Option.getD_some]; rw [value]; exact domain) ran
  | normalCdf a =>
    exact regular_unary regular clean .normalCdf _ _ rfl (handle a (by simp [Call.operands])).1
      trivial ran

theorem regular_recordFrom (x : Nat → ℝ) (calls : List Call) {r n : Nat} {vs : List (Var ℝ)}
    {ds : List (ℝ × ℝ)} (regular : t.Regular) (clean : t.Clean) (count : t.inputRank t.size = n)
    (tracked : TracksAll t r vs ds)
    (earlier : ∀ (p : Nat) (c : Call), calls[p]? = some c → ∀ a ∈ c.operands, a < vs.length + p)
    (domain : ∀ c ∈ calls, c.Regular fun a =>
      ((dualFrom x (fun m => if m = r then 1 else 0) n ds calls).getD a (0, 0)).1)
    {ws : List (Var ℝ)} {u : Tape ℝ} (ran : run (recordFrom x n vs calls) t = (.ok ws, u)) :
    u.Regular := by
  induction calls generalizing n t vs ds with
  | nil =>
    simp only [recordFrom, run_pure, Prod.mk.injEq] at ran
    rw [← ran.2]
    exact regular
  | cons c cs ih =>
    have first : ∀ a ∈ c.operands, a < vs.length := fun a mem => by
      simpa using earlier 0 c rfl a mem
    obtain ⟨v, u', called, clean', count', ext, tracks, -⟩ :=
      yields_call clean count tracked x c first
    -- the first call's operands are handles given before the calls, which the calls leave alone
    have own : c.Regular fun a => (ds.getD a (0, 0)).1 := by
      refine (Call.regular_congr fun a mem => ?_).1 (domain c List.mem_cons_self)
      rw [dualFrom_getD_of_lt _ _ _ _ _ (tracked.1 ▸ first a mem)]
    have regular' := regular_call regular clean tracked x n c first own called
    simp only [recordFrom] at ran
    rw [run_bind_of_ok called] at ran
    refine ih regular' clean' count' ((tracked.mono ext clean.topological).append tracks)
      (fun p c' found a mem => ?_) (fun c' mem => domain c' (List.mem_cons_of_mem c mem)) ran
    have below := earlier (p + 1) c' (by simpa using found) a mem
    simp only [List.length_append, List.length_singleton]
    omega

theorem hasDerivAt_value_of_regular {calls : List Call} (reads_earlier : Scoped calls) {o : Nat}
    (output : o < calls.length) (x : Nat → ℝ) (r : Nat)
    (domain : ∀ c ∈ calls, c.Regular fun a =>
      ((dualFrom x (fun m => if m = r then 1 else 0) 0 [] calls).getD a (0, 0)).1) :
    HasDerivAt (fun u => value calls o (Function.update x r u))
      ((dualFrom x (fun m => if m = r then 1 else 0) 0 [] calls).getD o (0, 0)).2 (x r) := by
  obtain ⟨ws, u, ran, clean, -, tracked⟩ := run_record reads_earlier x
  have regular : u.Regular := regular_recordFrom x calls (fun k e found => by
    simp [Tape.empty] at found) Tape.clean_empty (Tape.inputRank_empty _)
    (⟨rfl, by simp⟩ : TracksAll Tape.empty r [] [])
    (fun p c found a mem => by simpa using reads_earlier p c found a mem) domain ran
  have inside : o < ws.length := by rw [length_of_tracksAll (tracked r)]; exact output
  rw [← ((tracked r).2 o inside).2.2]
  exact hasDerivAt_value reads_earlier ran regular inside r

end StraightLine

end AdjointDiff
