import AdjointDiff.Tape.Record

set_option autoImplicit false

namespace AdjointDiff

namespace Recorder

variable {α β γ : Type}

@[simp] theorem run_pure (b : β) (t : Tape α) : run (pure b : Recorder α β) t = (.ok b, t) := rfl

@[simp] theorem run_get (t : Tape α) : run (get : Recorder α (Tape α)) t = (.ok t, t) := rfl

@[simp] theorem run_set (t t' : Tape α) : run (set t' : Recorder α PUnit) t = (.ok .unit, t') :=
  rfl

@[simp] theorem run_modify (f : Tape α → Tape α) (t : Tape α) :
    run (modify f : Recorder α PUnit) t = (.ok .unit, f t) := rfl

@[simp] theorem run_throw (f : Fault) (t : Tape α) :
    run (throw f : Recorder α β) t = (.error f, t) := rfl

@[simp] theorem run_lift (r : Except Fault β) (t : Tape α) : run (lift r) t = (r, t) := by
  cases r <;> rfl

theorem run_bind (m : Recorder α β) (f : β → Recorder α γ) (t : Tape α) :
    run (m >>= f) t =
      match run m t with
      | (.ok b, t') => run (f b) t'
      | (.error e, t') => (.error e, t') := by
  simp only [run, EStateM.run_bind]
  cases EStateM.run m t <;> rfl

theorem run_bind_of_ok {m : Recorder α β} {f : β → Recorder α γ} {t t' : Tape α} {b : β}
    (ok : run m t = (.ok b, t')) : run (m >>= f) t = run (f b) t' := by
  rw [run_bind, ok]

theorem run_bind_of_error {m : Recorder α β} {f : β → Recorder α γ} {t t' : Tape α} {e : Fault}
    (refused : run m t = (.error e, t')) : run (m >>= f) t = (.error e, t') := by
  rw [run_bind, refused]

@[simp] theorem run_seq_get (f : Tape α → Recorder α β) (t : Tape α) :
    run (get >>= f) t = run (f t) t := rfl

end Recorder

open Recorder

/-- Every outcome of `m` from a tape with `P`, a refusal included, leaves a tape with `P`. -/
def Keeps {α β : Type} (P : Tape α → Prop) (m : Recorder α β) : Prop :=
  ∀ t, P t → P (run m t).2

namespace Keeps

variable {α β γ : Type} {P : Tape α → Prop}

theorem of_pure (b : β) : Keeps P (pure b : Recorder α β) := fun _ keep => keep

theorem of_get : Keeps P (get : Recorder α (Tape α)) := fun _ keep => keep

theorem of_throw (f : Fault) : Keeps P (throw f : Recorder α β) := fun _ keep => keep

theorem of_lift (r : Except Fault β) : Keeps P (Recorder.lift r : Recorder α β) := by
  intro t keep
  simpa using keep

theorem bind {m : Recorder α β} {f : β → Recorder α γ} (first : Keeps P m)
    (rest : ∀ b, Keeps P (f b)) : Keeps P (m >>= f) := by
  intro t keep
  rw [run_bind]
  have after := first t keep
  split
  next b t' outcome => exact rest b t' (by simpa [outcome] using after)
  next e t' outcome => simpa [outcome] using after

theorem get_bind {f : Tape α → Recorder α β} (rest : ∀ t, Keeps P (f t)) :
    Keeps P (get >>= f) :=
  bind of_get rest

@[simp] theorem pure_iff (b : β) : Keeps P (pure b : Recorder α β) ↔ True :=
  iff_true_intro (of_pure b)

@[simp] theorem throw_iff (f : Fault) : Keeps P (throw f : Recorder α β) ↔ True :=
  iff_true_intro (of_throw f)

@[simp] theorem throw_bind_iff (f : Fault) (g : β → Recorder α γ) :
    Keeps P (throw f >>= g) ↔ True :=
  iff_true_intro fun t keep => by simpa [run_bind] using keep

@[simp] theorem lift_bind_iff (r : Except Fault β) (g : β → Recorder α γ) :
    Keeps P (Recorder.lift r >>= g) ↔ ∀ b, r = .ok b → Keeps P (g b) := by
  constructor
  · intro keeps b ok t keep
    simpa [run_bind, ok] using keeps t keep
  · intro rest t keep
    cases r with
    | error f => simpa [run_bind] using keep
    | ok b => simpa [run_bind] using rest b rfl t keep

end Keeps

namespace Operand

theorem require_eq_ok {n : Nat} {refusal : Fault} {o : Operand} :
    o.require n refusal = .ok () ↔ o.below n = .ok true := by
  unfold require
  split <;> simp_all

def ofNat (i : Nat) : Operand := .int i

@[simp] theorem below_ofNat (i n : Nat) : (ofNat i).below n = .ok (decide (i < n)) := by
  simp [ofNat, below]

@[simp] theorem position?_ofNat (i : Nat) : (ofNat i).position? = some i := by
  simp [ofNat, position?]

end Operand

namespace Tape

variable {α : Type} [Scalar α]

theorem checkOperand_eq_ok {kind : Kind} {n : Nat} {o : Option Operand} :
    checkOperand kind n o = .ok () ↔ ∀ x ∈ o, x.below n = .ok true := by
  cases o <;> simp [checkOperand, Operand.require_eq_ok]

def withEntry (t : Tape α) (kind : Kind) (o1 o2 : Option Operand) (value extra : α) : Tape α :=
  { t with entries := t.entries.push ⟨kind, o1, o2, value, extra, 0.0⟩ }

def appended (t : Tape α) (kind : Kind) (p1 p2 : Option Nat) (value extra : α) : Tape α :=
  t.withEntry kind (p1.map .ofNat) (p2.map .ofNat) value extra

theorem append_eq_ok {t : Tape α} {kind : Kind} {o1 o2 : Option Operand} {value extra : α}
    {r : Tape α × Nat} (accepted : t.append kind o1 o2 value extra = .ok r) :
    t.interpreted = false ∧ (∀ x ∈ o1, x.below t.size = .ok true) ∧
      (∀ x ∈ o2, x.below t.size = .ok true) ∧ r = (t.withEntry kind o1 o2 value extra, t.size) := by
  simp only [append, bind, Except.bind] at accepted
  split at accepted
  · cases accepted
  next fresh =>
    split at accepted
    · cases accepted
    next first =>
      split at accepted
      · cases accepted
      next second =>
        simp only [pure, Except.pure, Except.ok.injEq] at accepted
        exact ⟨by simpa using fresh, checkOperand_eq_ok.1 first, checkOperand_eq_ok.1 second,
          accepted.symm⟩

theorem append_eq_ok_of_fresh {t : Tape α} (fresh : t.interpreted = false) (kind : Kind)
    {p1 p2 : Option Nat} (below1 : ∀ i ∈ p1, i < t.size) (below2 : ∀ i ∈ p2, i < t.size)
    (value extra : α) :
    t.append kind (p1.map .ofNat) (p2.map .ofNat) value extra =
      .ok (t.appended kind p1 p2 value extra, t.size) := by
  have accepts (p : Option Nat) (below : ∀ i ∈ p, i < t.size) :
      checkOperand kind t.size (p.map .ofNat) = .ok () := by
    cases p with
    | none => rfl
    | some i => simp [checkOperand, Operand.require, below i rfl]
  unfold append
  rw [if_neg (by simp [fresh])]
  simp only [accepts p1 below1, accepts p2 below2]
  rfl

@[simp] theorem withEntry_size (t : Tape α) (kind : Kind) (o1 o2 : Option Operand)
    (value extra : α) : (t.withEntry kind o1 o2 value extra).size = t.size + 1 := by
  simp [withEntry, size]

theorem withEntry_getElem? (t : Tape α) (kind : Kind) (o1 o2 : Option Operand) (value extra : α)
    (i : Nat) :
    (t.withEntry kind o1 o2 value extra).entries[i]? =
      if i = t.size then some ⟨kind, o1, o2, value, extra, 0.0⟩ else t.entries[i]? :=
  Array.getElem?_push

theorem withEntry_getElem?_of_lt (t : Tape α) (kind : Kind) (o1 o2 : Option Operand)
    (value extra : α) {i : Nat} (below : i < t.size) :
    (t.withEntry kind o1 o2 value extra).entries[i]? = t.entries[i]? := by
  rw [withEntry_getElem?, if_neg (Nat.ne_of_lt below)]

@[simp] theorem appended_size (t : Tape α) (kind : Kind) (p1 p2 : Option Nat) (value extra : α) :
    (t.appended kind p1 p2 value extra).size = t.size + 1 :=
  withEntry_size t kind _ _ value extra

theorem appended_getElem? (t : Tape α) (kind : Kind) (p1 p2 : Option Nat) (value extra : α)
    (i : Nat) :
    (t.appended kind p1 p2 value extra).entries[i]? =
      if i = t.size then some ⟨kind, p1.map .ofNat, p2.map .ofNat, value, extra, 0.0⟩
      else t.entries[i]? :=
  withEntry_getElem? t kind _ _ value extra i

theorem appended_getElem?_of_lt (t : Tape α) (kind : Kind) (p1 p2 : Option Nat) (value extra : α)
    {i : Nat} (below : i < t.size) :
    (t.appended kind p1 p2 value extra).entries[i]? = t.entries[i]? :=
  withEntry_getElem?_of_lt t kind _ _ value extra below

end Tape

namespace Record

variable {α : Type} [Scalar α]

theorem run_entry (kind : Kind) (value : α) (o1 o2 : Option Operand) (extra : α) (t : Tape α) :
    run (entry kind value o1 o2 extra) t =
      match t.append kind o1 o2 value extra with
      | .ok (t', i) => (.ok ⟨value, i⟩, t')
      | .error f => (.error f, t) := by
  simp only [entry, run_bind, run_get, run_lift]
  cases t.append kind o1 o2 value extra <;> rfl

theorem run_entry_of_fresh {t : Tape α} (fresh : t.interpreted = false) (kind : Kind)
    {p1 p2 : Option Nat} (below1 : ∀ i ∈ p1, i < t.size) (below2 : ∀ i ∈ p2, i < t.size)
    (value extra : α) :
    run (entry kind value (p1.map .ofNat) (p2.map .ofNat) extra) t =
      (.ok ⟨value, t.size⟩, t.appended kind p1 p2 value extra) := by
  rw [run_entry, Tape.append_eq_ok_of_fresh fresh kind below1 below2]

end Record

end AdjointDiff
