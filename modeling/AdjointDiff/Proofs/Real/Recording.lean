import AdjointDiff.Proofs.Real.Tangent

set_option autoImplicit false

namespace AdjointDiff

open Recorder

namespace StraightLine

/-- A builder call; operands are positions of earlier calls in the program. -/
inductive Call where
  | input
  | add (a b : Nat)
  | addConst (a : Nat) (c : ℝ)
  | sub (a b : Nat)
  | subConst (a : Nat) (c : ℝ)
  | rsubConst (c : ℝ) (a : Nat)
  | mul (a b : Nat)
  | mulConst (a : Nat) (c : ℝ)
  | neg (a : Nat)
  | div (a b : Nat)
  | pow (a b : Nat)
  | powConst (a : Nat) (p : ℝ)
  | sin (a : Nat)
  | cos (a : Nat)
  | exp (a : Nat)
  | log (a : Nat)
  | sqrt (a : Nat)
  | normalCdf (a : Nat)

namespace Call

def operands : Call → List Nat
  | .input => []
  | .add a b | .sub a b | .mul a b | .div a b | .pow a b => [a, b]
  | .addConst a _ | .subConst a _ | .rsubConst _ a | .mulConst a _ | .neg a | .powConst a _
  | .sin a | .cos a | .exp a | .log a | .sqrt a | .normalCdf a => [a]

def isInput : Call → Bool
  | .input => true
  | _ => false

noncomputable def record (x : Nat → ℝ) (n : Nat) (vs : List (Var ℝ)) (c : Call) :
    Recorder ℝ (Var ℝ) :=
  let h (a : Nat) : Var ℝ := vs.getD a ⟨0, 0⟩
  match c with
  | .input => Record.input (x n)
  | .add a b => Record.add (h a) (h b)
  | .addConst a c => Record.addConst (h a) c
  | .sub a b => Record.sub (h a) (h b)
  | .subConst a c => Record.subConst (h a) c
  | .rsubConst c a => Record.rsubConst c (h a)
  | .mul a b => Record.mul (h a) (h b)
  | .mulConst a c => Record.mulConst (h a) c
  | .neg a => Record.neg (h a)
  | .div a b => Record.div (h a) (h b)
  | .pow a b => Record.pow (h a) (h b)
  | .powConst a p => Record.powConst (h a) p
  | .sin a => Record.sin (h a)
  | .cos a => Record.cos (h a)
  | .exp a => Record.exp (h a)
  | .log a => Record.log (h a)
  | .sqrt a => Record.sqrt (h a)
  | .normalCdf a => Record.normalCdf (h a)

end Call

def Scoped (calls : List Call) : Prop :=
  ∀ (p : Nat) (c : Call), calls[p]? = some c → ∀ a ∈ c.operands, a < p

noncomputable def recordFrom (x : Nat → ℝ) : Nat → List (Var ℝ) → List Call →
    Recorder ℝ (List (Var ℝ))
  | _, vs, [] => pure vs
  | n, vs, c :: cs => do
    let v ← c.record x n vs
    recordFrom x (if c.isInput then n + 1 else n) (vs ++ [v]) cs

noncomputable def record (x : Nat → ℝ) (calls : List Call) : Recorder ℝ (List (Var ℝ)) :=
  recordFrom x 0 [] calls

def inputCount (calls : List Call) : Nat := calls.countP Call.isInput

end StraightLine

theorem Entry.forward_congr {e : Entry ℝ} (complete : e.Complete) {V W : Nat → ℝ}
    (agree : ∀ o ∈ e.positions, V o = W o) : e.forward V = e.forward W := by
  rcases e with ⟨kind, o1, o2, v, c, b⟩
  simp only [Entry.forward, Entry.Complete, Entry.positions, Entry.first_mk,
    Entry.second_mk] at complete agree ⊢
  -- the value reads the operands only through the positions they select
  generalize o1.bind Operand.position? = p1 at complete agree ⊢
  generalize o2.bind Operand.position? = p2 at complete agree ⊢
  cases kind <;> cases p1 <;> cases p2 <;> simp_all [Kind.binary]

namespace Tape

variable (t : Tape ℝ) (kind : Kind) (p1 p2 : Option Nat) (value extra : ℝ)

theorem valueAt_appended (j : Nat) :
    (t.appended kind p1 p2 value extra).valueAt j = if j = t.size then value else t.valueAt j := by
  simp only [valueAt, appended_getElem?]
  split <;> rfl

theorem inputRank_appended {k : Nat} (within : k ≤ t.size) :
    (t.appended kind p1 p2 value extra).inputRank k = t.inputRank k := by
  have within' : k ≤ t.entries.toList.length := by simpa [size] using within
  simp only [inputRank, appended, withEntry, Array.toList_push,
    List.take_append_of_le_length within']

theorem inputRank_appended_size :
    (t.appended kind p1 p2 value extra).inputRank (t.size + 1) =
      t.inputRank t.size + if kind = .input then 1 else 0 := by
  have whole : t.entries.toList.take t.size = t.entries.toList := by simp [size]
  simp only [inputRank, appended, withEntry, Array.toList_push, whole]
  rw [List.take_of_length_le (by simp [size])]
  by_cases input : kind = .input <;> simp [input, List.countP_append]

end Tape

namespace StraightLine

def Valid (t : Tape ℝ) (v : Var ℝ) : Prop :=
  0 ≤ v.index ∧ v.index.toNat < t.size ∧ v.value = t.valueAt v.index.toNat

/-- What recording keeps true of a tape after `n` inputs taken from `x`. -/
structure Recording (x : Nat → ℝ) (t : Tape ℝ) (n : Nat) : Prop where
  fresh : t.interpreted = false
  unswept : ∀ j, t.adjointAt j = 0
  topological : t.Topological
  complete : ∀ k, t.CompleteAt k
  consistent : t.Consistent
  inputs : ∀ k e, t.entries[k]? = some e → e.kind = .input → e.value = x (t.inputRank k)
  count : t.inputRank t.size = n

theorem recording_empty (x : Nat → ℝ) : Recording x Tape.empty 0 where
  fresh := rfl
  unswept j := by simp [Tape.adjointAt, Tape.empty]
  topological := Tape.topological_empty
  complete k e found := by simp [Tape.empty] at found
  consistent k e found := by simp [Tape.empty] at found
  inputs k e found := by simp [Tape.empty] at found
  count := by simp [Tape.inputRank, Tape.empty]

section Appended

variable {x : Nat → ℝ} {t : Tape ℝ} {n : Nat} {kind : Kind} {p1 p2 : Option Nat} {value extra : ℝ}

theorem Valid.appended {v : Var ℝ} (valid : Valid t v) :
    Valid (t.appended kind p1 p2 value extra) v := by
  obtain ⟨nonneg, below, stored⟩ := valid
  refine ⟨nonneg, by simp; omega, ?_⟩
  rw [Tape.valueAt_appended_of_lt below, stored]

theorem valid_appended_last : Valid (t.appended kind p1 p2 value extra) ⟨value, t.size⟩ := by
  refine ⟨Int.natCast_nonneg _, by simp, ?_⟩
  simp [Tape.valueAt_appended]

theorem Recording.appended (inv : Recording x t n)
    (below1 : ∀ i ∈ p1, i < t.size) (below2 : ∀ i ∈ p2, i < t.size)
    (complete : (⟨kind, p1.map .ofNat, p2.map .ofNat, value, extra, 0.0⟩ : Entry ℝ).Complete)
    (recorded : kind ≠ .manual)
    (computes : kind ≠ .input →
      value = (⟨kind, p1.map .ofNat, p2.map .ofNat, value, extra, 0.0⟩ : Entry ℝ).forward t.valueAt)
    (input : kind = .input → value = x n) :
    Recording x (t.appended kind p1 p2 value extra) (if kind = .input then n + 1 else n) := by
  have inside {k : Nat} {e : Entry ℝ} (found : t.entries[k]? = some e) : k < t.size :=
    (Array.getElem?_eq_some_iff.1 found).1
  constructor
  · exact inv.fresh
  · intro j
    rw [Tape.appended, Tape.adjointAt_withEntry]
    split
    · exact Scalar.zero_real
    · exact inv.unswept j
  · exact inv.topological.appended below1 below2 value extra
  · exact Tape.completeAt_appended inv.complete complete
  · intro k e found
    rw [Tape.appended_getElem?] at found
    split at found
    · cases found
      refine ⟨recorded, fun computed => (computes computed).trans ?_⟩
      exact Entry.forward_congr complete fun o mem =>
        (Tape.valueAt_appended_of_lt (Entry.forall_mem_positions_ofNat below1 below2 o mem)).symm
    · obtain ⟨manual, computed⟩ := inv.consistent k e found
      refine ⟨manual, fun other => ?_⟩
      rw [computed other]
      exact Entry.forward_congr (inv.complete k e found) fun o mem =>
        (Tape.valueAt_appended_of_lt
          (lt_trans (inv.topological.position_lt found mem) (inside found))).symm
  · intro k e found is_input
    rw [Tape.appended_getElem?] at found
    split at found
    next last =>
      cases found
      rw [last, Tape.inputRank_appended t kind p1 p2 value extra le_rfl, inv.count]
      exact input is_input
    next =>
      rw [Tape.inputRank_appended t kind p1 p2 value extra (inside found).le]
      exact inv.inputs k e found is_input
  · rw [Tape.appended_size, Tape.inputRank_appended_size, inv.count]
    split <;> simp

end Appended

end StraightLine

namespace Tape

variable {t t' : Tape ℝ}

theorem SameShape.size_eq (shape : t.SameShape t') : t.size = t'.size := by
  -- a position holds an entry on one tape exactly when it does on the other
  have on (k : Nat) : k < t.size ↔ k < t'.size := by
    have same := shape k
    have absent : t.entries[k]? = none ↔ t'.entries[k]? = none := by
      rw [← Option.map_eq_none_iff (f := Entry.shape), same, Option.map_eq_none_iff]
    simp only [Array.getElem?_eq_none_iff] at absent
    simp only [size]
    omega
  by_contra differ
  rcases Nat.lt_or_gt_of_ne differ with fewer | more
  · exact absurd ((on t.size).2 fewer) (lt_irrefl _)
  · exact absurd ((on t'.size).1 more) (lt_irrefl _)

theorem SameShape.appended (shape : t.SameShape t') (kind : Kind) (p1 p2 : Option Nat)
    (value value' extra : ℝ) :
    (t.appended kind p1 p2 value extra).SameShape (t'.appended kind p1 p2 value' extra) := by
  intro k
  rw [appended_getElem?, appended_getElem?, ← shape.size_eq]
  split
  · rfl
  · exact shape k

theorem SameShape.inputRank_eq (shape : t.SameShape t') (k : Nat) :
    t.inputRank k = t'.inputRank k := by
  have kinds : t.entries.toList.map (·.kind) = t'.entries.toList.map (·.kind) := by
    apply List.ext_getElem?
    intro i
    have same := congrArg (Option.map Prod.fst) (shape i)
    simpa [Option.map_map, Function.comp_def, Entry.shape] using same
  have rank (u : Tape ℝ) :
      u.inputRank k = ((u.entries.toList.map (·.kind)).take k).countP (· == .input) := by
    rw [inputRank, ← List.map_take, List.countP_map]
    rfl
  rw [rank t, rank t', kinds]

end Tape

namespace StraightLine

variable {x x' : Nat → ℝ} {t t' : Tape ℝ} {n : Nat}

/-- Recordings at two input points, each a recording, on tapes of one shape. -/
structure Lockstep (x x' : Nat → ℝ) (t t' : Tape ℝ) (n : Nat) : Prop where
  left : Recording x t n
  right : Recording x' t' n
  shape : t.SameShape t'

def Advances (x x' : Nat → ℝ) (n : Nat) (m m' : Recorder ℝ (Var ℝ)) (t t' : Tape ℝ) : Prop :=
  ∃ v v' u u', run m t = (.ok v, u) ∧ run m' t' = (.ok v', u') ∧ Lockstep x x' u u' n ∧
    Valid u v ∧ Valid u' v' ∧ v.index = v'.index ∧
      (∀ w, Valid t w → Valid u w) ∧ (∀ w, Valid t' w → Valid u' w)

theorem Lockstep.advances_entry (step : Lockstep x x' t t' n) (kind : Kind) {p1 p2 : Option Nat}
    (below1 : ∀ i ∈ p1, i < t.size) (below2 : ∀ i ∈ p2, i < t.size) (value value' extra : ℝ)
    (complete : (⟨kind, p1.map .ofNat, p2.map .ofNat, value, extra, 0.0⟩ : Entry ℝ).Complete)
    (recorded : kind ≠ .manual)
    (computes : kind ≠ .input →
      value = (⟨kind, p1.map .ofNat, p2.map .ofNat, value, extra, 0.0⟩ : Entry ℝ).forward t.valueAt)
    (computes' : kind ≠ .input →
      value' = (⟨kind, p1.map .ofNat, p2.map .ofNat, value', extra, 0.0⟩ : Entry ℝ).forward t'.valueAt)
    (input : kind = .input → value = x n) (input' : kind = .input → value' = x' n) :
    Advances x x' (if kind = .input then n + 1 else n)
      (Record.entry kind value (p1.map .ofNat) (p2.map .ofNat) extra)
      (Record.entry kind value' (p1.map .ofNat) (p2.map .ofNat) extra) t t' := by
  have sized := step.shape.size_eq
  have below1' : ∀ i ∈ p1, i < t'.size := fun i mem => sized ▸ below1 i mem
  have below2' : ∀ i ∈ p2, i < t'.size := fun i mem => sized ▸ below2 i mem
  refine ⟨_, _, _, _, Record.run_entry_of_fresh step.left.fresh kind below1 below2 value extra,
    Record.run_entry_of_fresh step.right.fresh kind below1' below2' value' extra,
    ⟨?_, ?_, ?_⟩, valid_appended_last, valid_appended_last, by simp [sized],
    fun _ valid => valid.appended, fun _ valid => valid.appended⟩
  · exact step.left.appended below1 below2 complete recorded computes input
  · exact step.right.appended below1' below2' complete recorded computes' input'
  · exact step.shape.appended kind p1 p2 value value' extra

theorem Valid.cast {t : Tape ℝ} {v : Var ℝ} (valid : Valid t v) :
    some (Operand.int v.index) = (some v.index.toNat).map .ofNat := by
  simp [Operand.ofNat, Int.toNat_of_nonneg valid.1]

theorem Valid.below {t : Tape ℝ} {v : Var ℝ} (valid : Valid t v) :
    ∀ i ∈ some v.index.toNat, i < t.size := fun i mem => by
  cases mem
  exact valid.2.1

theorem Lockstep.advances_unary (step : Lockstep x x' t t' n) {kind : Kind} (f : ℝ → ℝ)
    (extra : ℝ) (computed : kind ≠ .input) (recorded : kind ≠ .manual) (unary : kind.binary = false)
    (computes : ∀ (i : Nat) (value : ℝ) (V : Nat → ℝ),
      (⟨kind, some (.ofNat i), none, value, extra, 0.0⟩ : Entry ℝ).forward V = f (V i))
    {v v' : Var ℝ} (valid : Valid t v) (valid' : Valid t' v') (same : v.index = v'.index) :
    Advances x x' n (Record.entry kind (f v.value) (some (.int v.index)) none extra)
      (Record.entry kind (f v'.value) (some (.int v'.index)) none extra) t t' := by
  rw [← same, valid.cast]
  have none_below : ∀ i ∈ (none : Option Nat), i < t.size := by simp
  have advances := step.advances_entry kind valid.below none_below (f v.value) (f v'.value) extra
    (Entry.complete_unary unary _ _ _ _) recorded (fun _ => by rw [valid.2.2]; exact (computes _ _ _).symm)
    (fun _ => by rw [valid'.2.2, ← same]; exact (computes _ _ _).symm)
    (fun input => absurd input computed) (fun input => absurd input computed)
  simpa [computed] using advances

theorem Lockstep.advances_binary (step : Lockstep x x' t t' n) {kind : Kind} (f : ℝ → ℝ → ℝ)
    (computed : kind ≠ .input) (recorded : kind ≠ .manual)
    (computes : ∀ (i j : Nat) (value : ℝ) (V : Nat → ℝ),
      (⟨kind, some (.ofNat i), some (.ofNat j), value, 0.0, 0.0⟩ : Entry ℝ).forward V = f (V i) (V j))
    {v v' w w' : Var ℝ} (valid_v : Valid t v) (valid_v' : Valid t' v') (same_v : v.index = v'.index)
    (valid_w : Valid t w) (valid_w' : Valid t' w') (same_w : w.index = w'.index) :
    Advances x x' n
      (Record.entry kind (f v.value w.value) (some (.int v.index)) (some (.int w.index)) 0.0)
      (Record.entry kind (f v'.value w'.value) (some (.int v'.index)) (some (.int w'.index)) 0.0)
      t t' := by
  rw [← same_v, ← same_w, valid_v.cast, valid_w.cast]
  have advances := step.advances_entry kind valid_v.below valid_w.below (f v.value w.value)
    (f v'.value w'.value) 0.0 (Entry.complete_binary _ _ _ _ _ _) recorded
    (fun _ => by rw [valid_v.2.2, valid_w.2.2]; exact (computes _ _ _ _).symm)
    (fun _ => by rw [valid_v'.2.2, valid_w'.2.2, ← same_v, ← same_w]; exact (computes _ _ _ _).symm)
    (fun input => absurd input computed) (fun input => absurd input computed)
  simpa [computed] using advances

theorem Advances.bind {n₁ n₂ : Nat} {m m' : Recorder ℝ (Var ℝ)} {g g' : Var ℝ → Recorder ℝ (Var ℝ)}
    (first : Advances x x' n₁ m m' t t')
    (rest : ∀ v v' u u', Lockstep x x' u u' n₁ → Valid u v → Valid u' v' → v.index = v'.index →
      Advances x x' n₂ (g v) (g' v') u u') :
    Advances x x' n₂ (m >>= g) (m' >>= g') t t' := by
  obtain ⟨v, v', u, u', ran, ran', step, valid, valid', same, kept, kept'⟩ := first
  obtain ⟨r, r', w, w', ran_rest, ran_rest', step', valid_r, valid_r', same_r, kept_r, kept_r'⟩ :=
    rest v v' u u' step valid valid' same
  exact ⟨r, r', w, w', by rw [run_bind_of_ok ran, ran_rest], by rw [run_bind_of_ok ran', ran_rest'],
    step', valid_r, valid_r', same_r, fun z kept_z => kept_r z (kept z kept_z),
    fun z kept_z => kept_r' z (kept' z kept_z)⟩

theorem valid_getD {vs : List (Var ℝ)} (valid : ∀ v ∈ vs, Valid t v) {a : Nat}
    (inside : a < vs.length) : Valid t (vs.getD a ⟨0, 0⟩) := by
  rw [List.getD_eq_getElem?_getD, List.getElem?_eq_getElem inside, Option.getD_some]
  exact valid _ (List.getElem_mem inside)

theorem index_getD {vs vs' : List (Var ℝ)} (indices : vs.map (·.index) = vs'.map (·.index))
    (a : Nat) : (vs.getD a ⟨0, 0⟩).index = (vs'.getD a ⟨0, 0⟩).index := by
  have at_a := congrArg (fun l : List Int => l[a]?) indices
  simp only [List.getElem?_map] at at_a
  simp only [List.getD_eq_getElem?_getD]
  cases found : vs[a]? <;> cases found' : vs'[a]? <;> simp_all

theorem Lockstep.advances_call (step : Lockstep x x' t t' n) {vs vs' : List (Var ℝ)}
    (valid : ∀ v ∈ vs, Valid t v) (valid' : ∀ v ∈ vs', Valid t' v)
    (indices : vs.map (·.index) = vs'.map (·.index)) (c : Call)
    (earlier : ∀ a ∈ c.operands, a < vs.length) :
    Advances x x' (if c.isInput then n + 1 else n) (c.record x n vs) (c.record x' n vs') t t' := by
  have lengths : vs.length = vs'.length := by simpa using congrArg List.length indices
  -- every operand is a handle returned before, at one position in both recordings
  have handle (a : Nat) (mem : a ∈ c.operands) : Valid t (vs.getD a ⟨0, 0⟩) ∧
      Valid t' (vs'.getD a ⟨0, 0⟩) ∧ (vs.getD a ⟨0, 0⟩).index = (vs'.getD a ⟨0, 0⟩).index :=
    ⟨valid_getD valid (earlier a mem), valid_getD valid' (lengths ▸ earlier a mem),
      index_getD indices a⟩
  cases c with
  | input =>
    have none_below : ∀ i ∈ (none : Option Nat), i < t.size := by simp
    exact step.advances_entry .input none_below none_below (x n) (x' n) 0.0
      (Entry.complete_input _ _ _) (by decide)
      (fun other => absurd rfl other) (fun other => absurd rfl other) (fun _ => rfl) (fun _ => rfl)
  | add a b =>
    obtain ⟨va, va', ia⟩ := handle a (by simp [Call.operands])
    obtain ⟨vb, vb', ib⟩ := handle b (by simp [Call.operands])
    exact step.advances_binary (· + ·) (by decide) (by decide) (fun _ _ _ _ => rfl) va va' ia vb vb' ib
  | addConst a c =>
    obtain ⟨va, va', ia⟩ := handle a (by simp [Call.operands])
    exact step.advances_unary (· + c) c (by decide) (by decide) rfl (fun _ _ _ => rfl) va va' ia
  | sub a b =>
    obtain ⟨va, va', ia⟩ := handle a (by simp [Call.operands])
    obtain ⟨vb, vb', ib⟩ := handle b (by simp [Call.operands])
    exact step.advances_binary (· - ·) (by decide) (by decide) (fun _ _ _ _ => rfl) va va' ia vb vb' ib
  | subConst a c =>
    obtain ⟨va, va', ia⟩ := handle a (by simp [Call.operands])
    exact step.advances_unary (· + -c) (-c) (by decide) (by decide) rfl (fun _ _ _ => rfl) va va' ia
  | rsubConst c a =>
    obtain ⟨va, va', ia⟩ := handle a (by simp [Call.operands])
    -- `c - x` records `-x` first and then adds `c` to it
    refine (step.advances_unary (· * -1.0) (-1.0) (by decide) (by decide) rfl (fun _ _ _ => rfl)
      va va' ia).bind fun m m' u u' step' valid_m valid_m' same_m => ?_
    exact step'.advances_unary (· + c) c (by decide) (by decide) rfl (fun _ _ _ => rfl)
      valid_m valid_m' same_m
  | mul a b =>
    obtain ⟨va, va', ia⟩ := handle a (by simp [Call.operands])
    obtain ⟨vb, vb', ib⟩ := handle b (by simp [Call.operands])
    exact step.advances_binary (· * ·) (by decide) (by decide) (fun _ _ _ _ => rfl) va va' ia vb vb' ib
  | mulConst a c =>
    obtain ⟨va, va', ia⟩ := handle a (by simp [Call.operands])
    exact step.advances_unary (· * c) c (by decide) (by decide) rfl (fun _ _ _ => rfl) va va' ia
  | neg a =>
    obtain ⟨va, va', ia⟩ := handle a (by simp [Call.operands])
    exact step.advances_unary (· * -1.0) (-1.0) (by decide) (by decide) rfl (fun _ _ _ => rfl)
      va va' ia
  | div a b =>
    obtain ⟨va, va', ia⟩ := handle a (by simp [Call.operands])
    obtain ⟨vb, vb', ib⟩ := handle b (by simp [Call.operands])
    exact step.advances_binary (· / ·) (by decide) (by decide) (fun _ _ _ _ => rfl) va va' ia vb vb' ib
  | pow a b =>
    obtain ⟨va, va', ia⟩ := handle a (by simp [Call.operands])
    obtain ⟨vb, vb', ib⟩ := handle b (by simp [Call.operands])
    exact step.advances_binary Scalar.pow (by decide) (by decide) (fun _ _ _ _ => rfl)
      va va' ia vb vb' ib
  | powConst a p =>
    obtain ⟨va, va', ia⟩ := handle a (by simp [Call.operands])
    exact step.advances_unary (Scalar.pow · p) p (by decide) (by decide) rfl (fun _ _ _ => rfl)
      va va' ia
  | sin a =>
    obtain ⟨va, va', ia⟩ := handle a (by simp [Call.operands])
    exact step.advances_unary Scalar.sin 0.0 (by decide) (by decide) rfl (fun _ _ _ => rfl) va va' ia
  | cos a =>
    obtain ⟨va, va', ia⟩ := handle a (by simp [Call.operands])
    exact step.advances_unary Scalar.cos 0.0 (by decide) (by decide) rfl (fun _ _ _ => rfl) va va' ia
  | exp a =>
    obtain ⟨va, va', ia⟩ := handle a (by simp [Call.operands])
    exact step.advances_unary Scalar.exp 0.0 (by decide) (by decide) rfl (fun _ _ _ => rfl) va va' ia
  | log a =>
    obtain ⟨va, va', ia⟩ := handle a (by simp [Call.operands])
    exact step.advances_unary Scalar.log 0.0 (by decide) (by decide) rfl (fun _ _ _ => rfl) va va' ia
  | sqrt a =>
    obtain ⟨va, va', ia⟩ := handle a (by simp [Call.operands])
    exact step.advances_unary Scalar.sqrt 0.0 (by decide) (by decide) rfl (fun _ _ _ => rfl) va va' ia
  | normalCdf a =>
    obtain ⟨va, va', ia⟩ := handle a (by simp [Call.operands])
    exact step.advances_unary Scalar.normalCdf 0.0 (by decide) (by decide) rfl (fun _ _ _ => rfl)
      va va' ia

theorem Lockstep.recordFrom (calls : List Call) {n : Nat} {t t' : Tape ℝ} {vs vs' : List (Var ℝ)}
    (step : Lockstep x x' t t' n) (valid : ∀ v ∈ vs, Valid t v) (valid' : ∀ v ∈ vs', Valid t' v)
    (indices : vs.map (·.index) = vs'.map (·.index))
    (earlier : ∀ (p : Nat) (c : Call), calls[p]? = some c → ∀ a ∈ c.operands, a < vs.length + p) :
    ∃ ws ws' u u', run (recordFrom x n vs calls) t = (.ok ws, u) ∧
      run (recordFrom x' n vs' calls) t' = (.ok ws', u') ∧
      Lockstep x x' u u' (n + inputCount calls) ∧ (∀ v ∈ ws, Valid u v) ∧
      (∀ v ∈ ws', Valid u' v) ∧ ws.map (·.index) = ws'.map (·.index) ∧
      ws.length = vs.length + calls.length := by
  induction calls generalizing n t t' vs vs' with
  | nil => exact ⟨vs, vs', t, t', rfl, rfl, step, valid, valid', indices, rfl⟩
  | cons c cs ih =>
    obtain ⟨v, v', u, u', ran, ran', step', valid_v, valid_v', same, kept, kept'⟩ :=
      step.advances_call valid valid' indices c fun a mem => by simpa using earlier 0 c rfl a mem
    -- the handle just returned joins the ones before
    have valid_all : ∀ z ∈ vs ++ [v], Valid u z := by
      simpa [or_imp, forall_and] using ⟨fun z mem => kept z (valid z mem), valid_v⟩
    have valid_all' : ∀ z ∈ vs' ++ [v'], Valid u' z := by
      simpa [or_imp, forall_and] using ⟨fun z mem => kept' z (valid' z mem), valid_v'⟩
    have indices' : (vs ++ [v]).map (·.index) = (vs' ++ [v']).map (·.index) := by
      simp [indices, same]
    obtain ⟨ws, ws', w, w', rest, rest', step'', valid_ws, valid_ws', same_ws, length⟩ :=
      ih step' valid_all valid_all' indices' fun p c' found a mem => by
        have below := earlier (p + 1) c' (by simpa using found) a mem
        simp only [List.length_append, List.length_singleton]
        omega
    refine ⟨ws, ws', w, w', ?_, ?_, ?_, valid_ws, valid_ws', same_ws, ?_⟩
    · simp only [StraightLine.recordFrom]
      rw [run_bind_of_ok ran, rest]
    · simp only [StraightLine.recordFrom]
      rw [run_bind_of_ok ran', rest']
    · have counted : (if c.isInput then n + 1 else n) + inputCount cs = n + inputCount (c :: cs) := by
        cases input : c.isInput
        · simp [inputCount, input]
        · simp [inputCount, input]
          omega
      rw [← counted]
      exact step''
    · rw [length]
      simp only [List.length_append, List.length_cons, List.length_nil]
      omega

theorem record_lockstep {calls : List Call} (reads_earlier : Scoped calls) (x x' : Nat → ℝ) :
    ∃ ws ws' u u', run (record x calls) Tape.empty = (.ok ws, u) ∧
      run (record x' calls) Tape.empty = (.ok ws', u') ∧
      Lockstep x x' u u' (inputCount calls) ∧ (∀ v ∈ ws, Valid u v) ∧ (∀ v ∈ ws', Valid u' v) ∧
      ws.map (·.index) = ws'.map (·.index) ∧ ws.length = calls.length := by
  have start : Lockstep x x' Tape.empty Tape.empty 0 :=
    ⟨recording_empty x, recording_empty x', fun _ => rfl⟩
  have none_valid (t : Tape ℝ) : ∀ v ∈ ([] : List (Var ℝ)), Valid t v := by simp
  obtain ⟨ws, ws', u, u', ran, ran', step, valid, valid', same, length⟩ :=
    start.recordFrom calls (none_valid _) (none_valid _) rfl
      fun p c found a mem => by simpa using reads_earlier p c found a mem
  exact ⟨ws, ws', u, u', ran, ran', by simpa using step, valid, valid', same, by simpa using length⟩

end StraightLine

end AdjointDiff
