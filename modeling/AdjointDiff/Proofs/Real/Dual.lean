import Mathlib.Data.List.GetD
import AdjointDiff.Proofs.Real.Gradient
import AdjointDiff.Proofs.Tape.Summary

set_option autoImplicit false

namespace AdjointDiff

open ProbabilityTheory Recorder

theorem Entry.partials_congr {e : Entry ℝ} {V W : Nat → ℝ} (agree : ∀ o ∈ e.positions, V o = W o) :
    e.partials V = e.partials W := by
  rcases e with ⟨kind, o1, o2, v, c, b⟩
  simp only [Entry.partials, Entry.positions, Entry.first_mk, Entry.second_mk] at agree ⊢
  -- the partials read the operands only through the positions they select
  generalize o1.bind Operand.position? = p1 at agree ⊢
  generalize o2.bind Operand.position? = p2 at agree ⊢
  cases kind <;> cases p1 <;> cases p2 <;> simp_all

namespace Tape

def Extends (T t : Tape ℝ) : Prop :=
  t.size ≤ T.size ∧ ∀ i < t.size, T.entries[i]? = t.entries[i]?

variable {T t u : Tape ℝ}

theorem Extends.refl (t : Tape ℝ) : t.Extends t := ⟨le_rfl, fun _ _ => rfl⟩

theorem Extends.trans (later : T.Extends u) (earlier : u.Extends t) : T.Extends t :=
  ⟨earlier.1.trans later.1, fun i below =>
    (later.2 i (lt_of_lt_of_le below earlier.1)).trans (earlier.2 i below)⟩

theorem extends_appended (t : Tape ℝ) (kind : Kind) (p1 p2 : Option Nat) (value extra : ℝ) :
    (t.appended kind p1 p2 value extra).Extends t := by
  exact ⟨by simp, fun i below => appended_getElem?_of_lt t kind p1 p2 value extra below⟩

theorem Extends.valueAt (ext : T.Extends t) {i : Nat} (below : i < t.size) :
    T.valueAt i = t.valueAt i := by
  simp only [Tape.valueAt, ext.2 i below]

theorem Extends.inputRank (ext : T.Extends t) {k : Nat} (within : k ≤ t.size) :
    T.inputRank k = t.inputRank k := by
  have first : T.entries.toList.take k = t.entries.toList.take k := by
    apply List.ext_getElem?
    intro i
    simp only [List.getElem?_take]
    split
    · simp [ext.2 i (by omega)]
    · rfl
  simp only [Tape.inputRank, first]

theorem Extends.tangent (ext : T.Extends t) (topo : t.Topological) (r : Nat) {k : Nat}
    (below : k < t.size) : T.tangent r k = t.tangent r k := by
  induction k using Nat.strong_induction_on with
  | _ k ih =>
  have inside : k < t.entries.size := below
  have found : t.entries[k]? = some t.entries[k] := Array.getElem?_eq_getElem inside
  have found' : T.entries[k]? = some t.entries[k] := (ext.2 k below).trans found
  by_cases input : t.entries[k].kind = .input
  · rw [tangent_of_input found' input, tangent_of_input found input, ext.inputRank below.le]
  · rw [tangent_of_computed found' input, tangent_of_computed found input]
    refine Finset.sum_congr rfl fun j member => ?_
    have earlier : j < k := Finset.mem_range.1 member
    -- the entry reads the same values of its operands on both tapes
    have same_partial : T.localPartial k j = t.localPartial k j := by
      simp only [localPartial, found, found', Entry.partialSum]
      rw [Entry.partials_congr fun o mem =>
        ext.valueAt (lt_trans (topo.position_lt found mem) below)]
    rw [same_partial, ih j earlier (lt_trans earlier below)]

/-- The tape is unswept and carries no adjoint, every entry is complete and reads only entries
before it, and no operand slot holds a double. -/
structure Clean (t : Tape ℝ) : Prop where
  fresh : t.interpreted = false
  unswept : ∀ j, t.adjointAt j = 0
  topological : t.Topological
  complete : ∀ k, t.CompleteAt k
  whole : ∀ o ∈ t.slots, o.isReal = false

theorem clean_empty : (Tape.empty : Tape ℝ).Clean where
  fresh := rfl
  unswept j := by simp [adjointAt, Tape.empty]
  topological := topological_empty
  complete k e found := by simp [Tape.empty] at found
  whole o mem := by simp [slots, Tape.empty] at mem

theorem Clean.appended (clean : t.Clean) {kind : Kind} {p1 p2 : Option Nat}
    (below1 : ∀ i ∈ p1, i < t.size) (below2 : ∀ i ∈ p2, i < t.size) (value extra : ℝ)
    (complete : (⟨kind, p1.map .ofNat, p2.map .ofNat, value, extra, 0.0⟩ : Entry ℝ).Complete) :
    (t.appended kind p1 p2 value extra).Clean where
  fresh := clean.fresh
  unswept j := by
    rw [Tape.appended, adjointAt_withEntry]
    split
    · exact Scalar.zero_real
    · exact clean.unswept j
  topological := clean.topological.appended below1 below2 value extra
  complete := completeAt_appended clean.complete complete
  whole o mem := by
    rw [Tape.appended, slots_withEntry, List.mem_append] at mem
    rcases mem with old | new
    · exact clean.whole o old
    · -- a builder's operands are integers
      simp only [List.mem_append, Option.mem_toList, Option.map_eq_some_iff] at new
      rcases new with ⟨i, -, rfl⟩ | ⟨i, -, rfl⟩ <;> rfl

theorem tangent_appended_last (clean : t.Clean) {kind : Kind} (computed : kind ≠ .input)
    {p1 p2 : Option Nat} (below1 : ∀ i ∈ p1, i < t.size) (below2 : ∀ i ∈ p2, i < t.size)
    (value extra : ℝ)
    (complete : (⟨kind, p1.map .ofNat, p2.map .ofNat, value, extra, 0.0⟩ : Entry ℝ).Complete)
    (r : Nat) :
    (t.appended kind p1 p2 value extra).tangent r t.size =
      (((⟨kind, p1.map .ofNat, p2.map .ofNat, value, extra, 0.0⟩ : Entry ℝ).partials t.valueAt).map
        fun p => p.2 * t.tangent r p.1).sum := by
  set e : Entry ℝ := ⟨kind, p1.map .ofNat, p2.map .ofNat, value, extra, 0.0⟩
  have found : (t.appended kind p1 p2 value extra).entries[t.size]? = some e := by
    simp [appended_getElem?, e]
  have grown := extends_appended t kind p1 p2 value extra
  have topo := (clean.appended below1 below2 value extra complete).topological
  -- every operand is below the new entry, where the two tapes agree
  have operand_below (i : Nat) (mem : i ∈ e.positions) : i < t.size :=
    Entry.forall_mem_positions_ofNat below1 below2 i mem
  rw [tangent_of_computed found computed, sum_localPartial_mul topo found,
    Entry.partials_congr fun o mem => grown.valueAt (operand_below o mem)]
  congr 1
  refine List.map_congr_left fun p listed => ?_
  rw [grown.tangent clean.topological r (operand_below p.1 (Entry.mem_positions_of_partial listed))]

end Tape

namespace StraightLine

variable {t u T : Tape ℝ} {r n : Nat}

def Tracks (t : Tape ℝ) (r : Nat) (v : Var ℝ) (d : ℝ × ℝ) : Prop :=
  Valid t v ∧ v.value = d.1 ∧ t.tangent r v.index.toNat = d.2

theorem Tracks.mono {v : Var ℝ} {d : ℝ × ℝ} (tracks : Tracks t r v d) (ext : T.Extends t)
    (topo : t.Topological) : Tracks T r v d := by
  obtain ⟨⟨nonneg, below, stored⟩, value, rate⟩ := tracks
  exact ⟨⟨nonneg, lt_of_lt_of_le below ext.1, stored.trans (ext.valueAt below).symm⟩, value,
    (ext.tangent topo r below).trans rate⟩

/-- Recording `m` on `t` succeeds, leaves a clean tape with `n` inputs that keeps every entry of
`t`, and returns a handle on its last entry, with value and rate `d`. -/
def Yields (r n : Nat) (m : Recorder ℝ (Var ℝ)) (t : Tape ℝ) (d : ℝ × ℝ) : Prop :=
  ∃ v u, run m t = (.ok v, u) ∧ u.Clean ∧ u.inputRank u.size = n ∧ u.Extends t ∧
    Tracks u r v d ∧ v.index.toNat + 1 = u.size

theorem Yields.of_eq {m : Recorder ℝ (Var ℝ)} {d d' : ℝ × ℝ} (yields : Yields r n m t d)
    (same : d = d') : Yields r n m t d' := same ▸ yields

theorem Yields.bind {n₁ n₂ : Nat} {m : Recorder ℝ (Var ℝ)} {g : Var ℝ → Recorder ℝ (Var ℝ)}
    {d₁ d₂ : ℝ × ℝ} (first : Yields r n₁ m t d₁)
    (rest : ∀ v u, u.Clean → u.inputRank u.size = n₁ → u.Extends t → Tracks u r v d₁ →
      v.index.toNat + 1 = u.size → Yields r n₂ (g v) u d₂) :
    Yields r n₂ (m >>= g) t d₂ := by
  obtain ⟨v, u, ran, clean, count, ext, tracks, last⟩ := first
  obtain ⟨w, u', ran', clean', count', ext', tracks', last'⟩ := rest v u clean count ext tracks last
  exact ⟨w, u', by rw [run_bind_of_ok ran, ran'], clean', count', ext'.trans ext, tracks', last'⟩

theorem Yields.of_run_bind {β : Type} {m : Recorder ℝ β} {g : β → Recorder ℝ (Var ℝ)} {b : β}
    {u : Tape ℝ} {d : ℝ × ℝ} (ran : run m t = (.ok b, u)) (ext : u.Extends t)
    (rest : Yields r n (g b) u d) : Yields r n (m >>= g) t d := by
  obtain ⟨w, u', ran', clean', count', ext', tracks', last⟩ := rest
  exact ⟨w, u', by rw [run_bind_of_ok ran, ran'], clean', count', ext'.trans ext, tracks', last⟩

theorem yields_pure (clean : t.Clean) (count : t.inputRank t.size = n) {v : Var ℝ} {d : ℝ × ℝ}
    (tracks : Tracks t r v d) (last : v.index.toNat + 1 = t.size) : Yields r n (pure v) t d :=
  ⟨v, t, rfl, clean, count, Tape.Extends.refl t, tracks, last⟩

theorem yields_entry (clean : t.Clean) (count : t.inputRank t.size = n) {kind : Kind}
    (computed : kind ≠ .input) {p1 p2 : Option Nat}
    (below1 : ∀ i ∈ p1, i < t.size) (below2 : ∀ i ∈ p2, i < t.size) (value extra : ℝ)
    (complete : (⟨kind, p1.map .ofNat, p2.map .ofNat, value, extra, 0.0⟩ : Entry ℝ).Complete) :
    Yields r n (Record.entry kind value (p1.map .ofNat) (p2.map .ofNat) extra) t
      (value, (((⟨kind, p1.map .ofNat, p2.map .ofNat, value, extra, 0.0⟩ : Entry ℝ).partials
        t.valueAt).map fun p => p.2 * t.tangent r p.1).sum) := by
  refine ⟨_, _, Record.run_entry_of_fresh clean.fresh kind below1 below2 value extra,
    clean.appended below1 below2 value extra complete, ?_, Tape.extends_appended t kind p1 p2 value extra,
    ⟨valid_appended_last, rfl, ?_⟩, by simp⟩
  · rw [Tape.appended_size, Tape.inputRank_appended_size, count, if_neg computed, add_zero]
  · rw [Int.toNat_natCast]
    exact Tape.tangent_appended_last clean computed below1 below2 value extra complete r

theorem yields_input (clean : t.Clean) (count : t.inputRank t.size = n) (value : ℝ) :
    Yields r (n + 1) (Record.entry .input value none none 0.0) t
      (value, if n = r then 1 else 0) := by
  have none_below : ∀ i ∈ (none : Option Nat), i < t.size := by simp
  have complete : (⟨.input, none, none, value, 0.0, 0.0⟩ : Entry ℝ).Complete :=
    Entry.complete_input _ _ _
  have found : (t.appended .input none none value 0.0).entries[t.size]? =
      some ⟨.input, none, none, value, 0.0, 0.0⟩ := by
    simp [Tape.appended_getElem?]
  refine ⟨_, _, Record.run_entry_of_fresh clean.fresh .input none_below none_below value 0.0,
    clean.appended none_below none_below value 0.0 complete, ?_,
    Tape.extends_appended t .input none none value 0.0, ⟨valid_appended_last, rfl, ?_⟩, by simp⟩
  · rw [Tape.appended_size, Tape.inputRank_appended_size, count, if_pos rfl]
  · rw [Int.toNat_natCast, Tape.tangent_of_input found rfl,
      Tape.inputRank_appended t .input none none value 0.0 le_rfl, count]

theorem yields_unary (clean : t.Clean) (count : t.inputRank t.size = n) (kind : Kind)
    (f : ℝ → ℝ) (p : ℝ → ℝ → ℝ) (extra : ℝ) (computed : kind ≠ .input)
    (unary : kind.binary = false)
    (partials : ∀ (i : Nat) (V : Nat → ℝ),
      (⟨kind, some (.ofNat i), none, f (V i), extra, 0.0⟩ : Entry ℝ).partials V =
        [(i, p (V i) (f (V i)))])
    {v : Var ℝ} {d : ℝ × ℝ} (tracks : Tracks t r v d) :
    Yields r n (Record.entry kind (f v.value) (some (.int v.index)) none extra) t
      (f d.1, p d.1 (f d.1) * d.2) := by
  obtain ⟨valid, value, rate⟩ := tracks
  have none_below : ∀ i ∈ (none : Option Nat), i < t.size := by simp
  have yields := yields_entry (r := r) clean count computed valid.below none_below (f v.value) extra
    (Entry.complete_unary unary _ _ _ _)
  simp only [Option.map_some, Option.map_none] at yields
  rw [valid.2.2, partials] at yields
  rw [valid.cast]
  simpa [← valid.2.2, value, rate] using yields

theorem yields_binary (clean : t.Clean) (count : t.inputRank t.size = n) (kind : Kind)
    (f : ℝ → ℝ → ℝ) (p q : ℝ → ℝ → ℝ → ℝ) (computed : kind ≠ .input)
    (partials : ∀ (i j : Nat) (V : Nat → ℝ),
      (⟨kind, some (.ofNat i), some (.ofNat j), f (V i) (V j), 0.0, 0.0⟩ : Entry ℝ).partials V =
        [(i, p (V i) (V j) (f (V i) (V j))), (j, q (V i) (V j) (f (V i) (V j)))])
    {v w : Var ℝ} {d e : ℝ × ℝ} (tracks_v : Tracks t r v d) (tracks_w : Tracks t r w e) :
    Yields r n
      (Record.entry kind (f v.value w.value) (some (.int v.index)) (some (.int w.index)) 0.0) t
      (f d.1 e.1, p d.1 e.1 (f d.1 e.1) * d.2 + q d.1 e.1 (f d.1 e.1) * e.2) := by
  obtain ⟨valid_v, value_v, rate_v⟩ := tracks_v
  obtain ⟨valid_w, value_w, rate_w⟩ := tracks_w
  have yields := yields_entry (r := r) clean count computed valid_v.below valid_w.below
    (f v.value w.value) 0.0 (Entry.complete_binary _ _ _ _ _ _)
  simp only [Option.map_some] at yields
  rw [valid_v.2.2, valid_w.2.2, partials] at yields
  rw [valid_v.cast, valid_w.cast]
  simpa [← valid_v.2.2, ← valid_w.2.2, value_v, value_w, rate_v, rate_w] using yields

noncomputable def Call.dual (x dx : Nat → ℝ) (n : Nat) (d : Nat → ℝ × ℝ) : Call → ℝ × ℝ
  | .input => (x n, dx n)
  | .add a b => ((d a).1 + (d b).1, (d a).2 + (d b).2)
  | .addConst a c => ((d a).1 + c, (d a).2)
  | .sub a b => ((d a).1 - (d b).1, (d a).2 - (d b).2)
  | .subConst a c => ((d a).1 + -c, (d a).2)
  | .rsubConst c a => ((d a).1 * -1.0 + c, -(d a).2)
  | .mul a b => ((d a).1 * (d b).1, (d b).1 * (d a).2 + (d a).1 * (d b).2)
  | .mulConst a c => ((d a).1 * c, c * (d a).2)
  | .neg a => ((d a).1 * -1.0, -(d a).2)
  | .div a b => ((d a).1 / (d b).1, (d a).2 / (d b).1 - (d a).1 / (d b).1 ^ 2 * (d b).2)
  | .pow a b =>
    (Scalar.pow (d a).1 (d b).1, (d b).1 * Scalar.pow (d a).1 (d b).1 / (d a).1 * (d a).2 +
      Scalar.pow (d a).1 (d b).1 * Real.log (d a).1 * (d b).2)
  | .powConst a p => (Scalar.pow (d a).1 p, p * Scalar.pow (d a).1 p / (d a).1 * (d a).2)
  | .sin a => (Scalar.sin (d a).1, Real.cos (d a).1 * (d a).2)
  | .cos a => (Scalar.cos (d a).1, -Real.sin (d a).1 * (d a).2)
  | .exp a => (Scalar.exp (d a).1, Scalar.exp (d a).1 * (d a).2)
  | .log a => (Scalar.log (d a).1, (d a).2 / (d a).1)
  | .sqrt a => (Scalar.sqrt (d a).1, (d a).2 / (2.0 * Scalar.sqrt (d a).1))
  | .normalCdf a => (Scalar.normalCdf (d a).1, gaussianPDFReal 0 1 (d a).1 * (d a).2)

noncomputable def dualFrom (x dx : Nat → ℝ) : Nat → List (ℝ × ℝ) → List Call → List (ℝ × ℝ)
  | _, ds, [] => ds
  | n, ds, c :: cs =>
    dualFrom x dx (if c.isInput then n + 1 else n) (ds ++ [c.dual x dx n fun a => ds.getD a (0, 0)]) cs

theorem Call.dual_congr (x dx : Nat → ℝ) (n : Nat) (c : Call) {d d' : Nat → ℝ × ℝ}
    (agree : ∀ a ∈ c.operands, d a = d' a) : c.dual x dx n d = c.dual x dx n d' := by
  cases c <;> simp_all [Call.dual, Call.operands]

def ReadsBefore : Nat → List Call → Prop
  | _, [] => True
  | m, c :: cs => (∀ a ∈ c.operands, a < m) ∧ ReadsBefore (m + 1) cs

theorem ReadsBefore.getElem? {m : Nat} {calls : List Call} (reads : ReadsBefore m calls) :
    ∀ (p : Nat) (c : Call), calls[p]? = some c → ∀ a ∈ c.operands, a < m + p := by
  induction calls generalizing m with
  | nil => simp
  | cons c' cs ih =>
    intro p c found a mem
    cases p with
    | zero =>
      simp only [List.getElem?_cons_zero, Option.some.injEq] at found
      subst found
      exact reads.1 a mem
    | succ p =>
      have below := ih reads.2 p c (by simpa using found) a mem
      omega

theorem scoped_inputs_append {m : Nat} {body : List Call} (reads : ReadsBefore m body) :
    Scoped (List.replicate m .input ++ body) := by
  intro p c found a mem
  by_cases argument : p < m
  · rw [List.getElem?_append_left (by simpa using argument), List.getElem?_replicate,
      if_pos argument] at found
    cases found
    simp [Call.operands] at mem
  · rw [List.getElem?_append_right (by simp; omega)] at found
    have below := reads.getElem? _ c (by simpa using found) a mem
    omega

section dualFrom

variable (x dx : Nat → ℝ)

theorem length_dualFrom (n : Nat) (ds : List (ℝ × ℝ)) (calls : List Call) :
    (dualFrom x dx n ds calls).length = ds.length + calls.length := by
  induction calls generalizing n ds with
  | nil => simp [dualFrom]
  | cons c cs ih =>
    simp only [dualFrom, ih, List.length_append, List.length_cons, List.length_nil]
    omega

theorem dualFrom_getD_of_lt (n : Nat) (ds : List (ℝ × ℝ)) (calls : List Call) {i : Nat}
    (below : i < ds.length) : (dualFrom x dx n ds calls).getD i (0, 0) = ds.getD i (0, 0) := by
  induction calls generalizing n ds with
  | nil => rfl
  | cons c cs ih =>
    simp only [dualFrom]
    rw [ih _ _ (by simp; omega), List.getD_append _ _ _ _ below]

theorem dualFrom_append (n : Nat) (ds : List (ℝ × ℝ)) (first rest : List Call) :
    dualFrom x dx n ds (first ++ rest) =
      dualFrom x dx (n + inputCount first) (dualFrom x dx n ds first) rest := by
  induction first generalizing n ds with
  | nil => simp [dualFrom, inputCount]
  | cons c cs ih =>
    simp only [List.cons_append, dualFrom, ih]
    congr 1
    cases input : c.isInput
    · simp [inputCount, input]
    · simp [inputCount, input]
      omega

theorem dualFrom_getD_call (n : Nat) (ds : List (ℝ × ℝ)) {calls : List Call} {k : Nat}
    {c : Call} (found : calls[k]? = some c) (earlier : ∀ a ∈ c.operands, a < ds.length + k) :
    (dualFrom x dx n ds calls).getD (ds.length + k) (0, 0) =
      c.dual x dx (n + inputCount (calls.take k)) fun a => (dualFrom x dx n ds calls).getD a (0, 0) := by
  induction calls generalizing n ds k with
  | nil => simp at found
  | cons c' cs ih =>
    cases k with
    | zero =>
      simp only [List.getElem?_cons_zero, Option.some.injEq] at found
      subst found
      have own : (dualFrom x dx n ds (c' :: cs)).getD ds.length (0, 0) =
          c'.dual x dx n fun a => ds.getD a (0, 0) := by
        simp only [dualFrom]
        rw [dualFrom_getD_of_lt _ _ _ _ _ (by simp)]
        simp
      rw [add_zero, own, List.take_zero]
      simp only [inputCount, List.countP_nil, add_zero]
      exact Call.dual_congr x dx n c' fun a mem =>
        (dualFrom_getD_of_lt x dx n ds (c' :: cs) (by simpa using earlier a mem)).symm
    | succ k =>
      have step := ih (if c'.isInput then n + 1 else n) (ds ++ [c'.dual x dx n fun a => ds.getD a (0, 0)])
        (by simpa using found) (fun a mem => by simpa [Nat.add_assoc, Nat.add_comm 1] using earlier a mem)
      simp only [List.length_append, List.length_singleton] at step
      have counted : (if c'.isInput then n + 1 else n) + inputCount (cs.take k) =
          n + inputCount ((c' :: cs).take (k + 1)) := by
        cases input : c'.isInput
        · simp [inputCount, input]
        · simp [inputCount, input]
          omega
      rw [show ds.length + (k + 1) = ds.length + 1 + k by omega]
      simpa only [dualFrom, counted] using step

end dualFrom

def TracksAll (t : Tape ℝ) (r : Nat) (vs : List (Var ℝ)) (ds : List (ℝ × ℝ)) : Prop :=
  vs.length = ds.length ∧ ∀ i < vs.length, Tracks t r (vs.getD i ⟨0, 0⟩) (ds.getD i (0, 0))

theorem TracksAll.mono {vs : List (Var ℝ)} {ds : List (ℝ × ℝ)} (tracked : TracksAll t r vs ds)
    (ext : T.Extends t) (topo : t.Topological) : TracksAll T r vs ds :=
  ⟨tracked.1, fun i inside => (tracked.2 i inside).mono ext topo⟩

theorem TracksAll.append {vs : List (Var ℝ)} {ds : List (ℝ × ℝ)} (tracked : TracksAll t r vs ds)
    {v : Var ℝ} {d : ℝ × ℝ} (tracks : Tracks t r v d) : TracksAll t r (vs ++ [v]) (ds ++ [d]) := by
  refine ⟨by simp [tracked.1], fun i inside => ?_⟩
  simp only [List.length_append, List.length_singleton] at inside
  rcases Nat.lt_or_ge i vs.length with before | last
  · rw [List.getD_append _ _ _ _ before, List.getD_append _ _ _ _ (tracked.1 ▸ before)]
    exact tracked.2 i before
  · have at_end : i = vs.length := by omega
    subst at_end
    rw [List.getD_append_right _ _ _ _ le_rfl, List.getD_append_right _ _ _ _ tracked.1.symm.le]
    simpa [tracked.1] using tracks

theorem tracksAll_of_forall₂ {vs : List (Var ℝ)} {ds : List (ℝ × ℝ)}
    (tracked : List.Forall₂ (Tracks t r) vs ds) : TracksAll t r vs ds := by
  induction tracked with
  | nil => exact ⟨rfl, by simp⟩
  | @cons v d vs ds head _ ih =>
    refine ⟨by simp [ih.1], fun i inside => ?_⟩
    cases i with
    | zero => simpa using head
    | succ i => simpa using ih.2 i (by simpa using inside)

theorem yields_call (clean : t.Clean) (count : t.inputRank t.size = n) {vs : List (Var ℝ)}
    {ds : List (ℝ × ℝ)} (tracked : TracksAll t r vs ds) (x : Nat → ℝ) (c : Call)
    (earlier : ∀ a ∈ c.operands, a < vs.length) :
    Yields r (if c.isInput then n + 1 else n) (c.record x n vs) t
      (c.dual x (fun m => if m = r then 1 else 0) n fun a => ds.getD a (0, 0)) := by
  have handle (a : Nat) (mem : a ∈ c.operands) :
      Tracks t r (vs.getD a ⟨0, 0⟩) (ds.getD a (0, 0)) :=
    tracked.2 a (earlier a mem)
  cases c with
  | input => exact yields_input clean count (x n)
  | add a b =>
    have yields := yields_binary clean count .add (· + ·) (fun _ _ _ => 1) (fun _ _ _ => 1) (by decide)
      (fun _ _ _ => rfl) (handle a (by simp [Call.operands])) (handle b (by simp [Call.operands]))
    exact yields.of_eq (by simp [Call.dual])
  | addConst a c =>
    have yields := yields_unary clean count .addConst (· + c) (fun _ _ => 1) c (by decide) rfl
      (fun _ _ => rfl) (handle a (by simp [Call.operands]))
    exact yields.of_eq (by simp [Call.dual])
  | sub a b =>
    have yields := yields_binary clean count .sub (· - ·) (fun _ _ _ => 1) (fun _ _ _ => -1) (by decide)
      (fun _ _ _ => rfl) (handle a (by simp [Call.operands])) (handle b (by simp [Call.operands]))
    exact yields.of_eq (by simp [Call.dual]; ring)
  | subConst a c =>
    have yields := yields_unary clean count .addConst (· + -c) (fun _ _ => 1) (-c) (by decide) rfl
      (fun _ _ => rfl) (handle a (by simp [Call.operands]))
    exact yields.of_eq (by simp [Call.dual])
  | rsubConst c a =>
    -- `c - x` records `-x` first and then adds `c` to it
    refine (yields_unary clean count .mulConst (· * -1.0) (fun _ _ => -1.0) (-1.0) (by decide) rfl
      (fun _ _ => rfl) (handle a (by simp [Call.operands]))).bind
      fun m u clean' count' _ tracks_m _ => ?_
    have yields := yields_unary clean' count' .addConst (· + c) (fun _ _ => 1) c (by decide) rfl
      (fun _ _ => rfl) tracks_m
    exact yields.of_eq (by simp [Call.dual])
  | mul a b =>
    have yields := yields_binary clean count .mul (· * ·) (fun _ b _ => b) (fun a _ _ => a) (by decide)
      (fun _ _ _ => rfl) (handle a (by simp [Call.operands])) (handle b (by simp [Call.operands]))
    exact yields.of_eq rfl
  | mulConst a c =>
    have yields := yields_unary clean count .mulConst (· * c) (fun _ _ => c) c (by decide) rfl
      (fun _ _ => rfl) (handle a (by simp [Call.operands]))
    exact yields.of_eq rfl
  | neg a =>
    have yields := yields_unary clean count .mulConst (· * -1.0) (fun _ _ => -1.0) (-1.0) (by decide) rfl
      (fun _ _ => rfl) (handle a (by simp [Call.operands]))
    exact yields.of_eq (by simp [Call.dual])
  | div a b =>
    have yields := yields_binary clean count .div (· / ·) (fun _ b _ => 1 / b) (fun a b _ => -a / b ^ 2)
      (by decide) (fun _ _ _ => rfl) (handle a (by simp [Call.operands]))
      (handle b (by simp [Call.operands]))
    exact yields.of_eq (by simp only [Call.dual, Prod.mk.injEq, true_and]; ring)
  | pow a b =>
    have yields := yields_binary clean count .pow Scalar.pow (fun a b v => b * v / a)
      (fun a _ v => v * Real.log a) (by decide) (fun _ _ _ => rfl)
      (handle a (by simp [Call.operands])) (handle b (by simp [Call.operands]))
    exact yields.of_eq rfl
  | powConst a p =>
    have yields := yields_unary clean count .powConst (Scalar.pow · p) (fun a v => p * v / a) p (by decide) rfl
      (fun _ _ => rfl) (handle a (by simp [Call.operands]))
    exact yields.of_eq rfl
  | sin a =>
    have yields := yields_unary clean count .sin Scalar.sin (fun a _ => Real.cos a) 0.0 (by decide) rfl
      (fun _ _ => rfl) (handle a (by simp [Call.operands]))
    exact yields.of_eq rfl
  | cos a =>
    have yields := yields_unary clean count .cos Scalar.cos (fun a _ => -Real.sin a) 0.0 (by decide) rfl
      (fun _ _ => rfl) (handle a (by simp [Call.operands]))
    exact yields.of_eq rfl
  | exp a =>
    have yields := yields_unary clean count .exp Scalar.exp (fun _ v => v) 0.0 (by decide) rfl
      (fun _ _ => rfl) (handle a (by simp [Call.operands]))
    exact yields.of_eq rfl
  | log a =>
    have yields := yields_unary clean count .log Scalar.log (fun a _ => 1 / a) 0.0 (by decide) rfl
      (fun _ _ => rfl) (handle a (by simp [Call.operands]))
    exact yields.of_eq (by simp only [Call.dual, Prod.mk.injEq, true_and]; ring)
  | sqrt a =>
    have yields := yields_unary clean count .sqrt Scalar.sqrt (fun _ v => 1 / 2 / v) 0.0 (by decide) rfl
      (fun _ _ => rfl) (handle a (by simp [Call.operands]))
    exact yields.of_eq (by simp only [Call.dual, Scalar.two_real, Prod.mk.injEq, true_and]; ring)
  | normalCdf a =>
    have yields := yields_unary clean count .normalCdf Scalar.normalCdf (fun a _ => gaussianPDFReal 0 1 a) 0.0
      (by decide) rfl (fun _ _ => rfl) (handle a (by simp [Call.operands]))
    exact yields.of_eq rfl

theorem yields_recordFrom (x : Nat → ℝ) (calls : List Call) {n : Nat} {t : Tape ℝ}
    {vs : List (Var ℝ)} {ds : List (ℝ × ℝ)} (clean : t.Clean) (count : t.inputRank t.size = n)
    (tracked : TracksAll t r vs ds)
    (earlier : ∀ (p : Nat) (c : Call), calls[p]? = some c → ∀ a ∈ c.operands, a < vs.length + p) :
    ∃ ws u, run (recordFrom x n vs calls) t = (.ok ws, u) ∧ u.Clean ∧
      u.inputRank u.size = n + inputCount calls ∧ u.Extends t ∧
      TracksAll u r ws (dualFrom x (fun m => if m = r then 1 else 0) n ds calls) ∧
      (calls ≠ [] → (ws.getD (vs.length + calls.length - 1) ⟨0, 0⟩).index.toNat + 1 = u.size) := by
  induction calls generalizing n t vs ds with
  | nil => exact ⟨vs, t, rfl, clean, count, Tape.Extends.refl t, tracked,
    fun nonempty => absurd rfl nonempty⟩
  | cons c cs ih =>
    obtain ⟨v, u, ran, clean', count', ext, tracks, last⟩ :=
      yields_call clean count tracked x c fun a mem => by simpa using earlier 0 c rfl a mem
    -- the handle just returned joins the ones before
    have tracked' := (tracked.mono ext clean.topological).append tracks
    obtain ⟨ws, w, rest, clean'', count'', ext', tracked'', last''⟩ :=
      ih clean' count' tracked' fun p c' found a mem => by
        have below := earlier (p + 1) c' (by simpa using found) a mem
        simp only [List.length_append, List.length_singleton]
        omega
    refine ⟨ws, w, ?_, clean'', ?_, ext'.trans ext, tracked'', fun _ => ?_⟩
    · simp only [StraightLine.recordFrom]
      rw [run_bind_of_ok ran, rest]
    · have counted : (if c.isInput then n + 1 else n) + inputCount cs = n + inputCount (c :: cs) := by
        cases input : c.isInput
        · simp [inputCount, input]
        · simp [inputCount, input]
          omega
      rw [count'', counted]
    · cases cs with
      | nil =>
        -- the last call returned the last handle, and nothing was recorded after it
        simp only [recordFrom, run_pure, Prod.mk.injEq, Except.ok.injEq] at rest
        obtain ⟨rfl, rfl⟩ := rest
        simpa using last
      | cons c'' cs' =>
        simpa [Nat.add_assoc, Nat.add_comm 1] using last'' (List.cons_ne_nil c'' cs')

theorem yields_recordFrom_last (x : Nat → ℝ) (calls : List Call) {n : Nat} {t : Tape ℝ}
    {vs : List (Var ℝ)} {ds : List (ℝ × ℝ)} (clean : t.Clean) (count : t.inputRank t.size = n)
    (tracked : TracksAll t r vs ds)
    (earlier : ∀ (p : Nat) (c : Call), calls[p]? = some c → ∀ a ∈ c.operands, a < vs.length + p)
    (nonempty : calls ≠ []) :
    Yields r (n + inputCount calls)
      (recordFrom x n vs calls >>= fun ws => pure (ws.getD (vs.length + calls.length - 1) ⟨0, 0⟩)) t
      ((dualFrom x (fun m => if m = r then 1 else 0) n ds calls).getD
        (vs.length + calls.length - 1) (0, 0)) := by
  obtain ⟨ws, u, ran, clean', count', ext, tracked', last⟩ :=
    yields_recordFrom x calls clean count tracked earlier
  have some_call : 0 < calls.length := List.length_pos_of_ne_nil nonempty
  have inside : vs.length + calls.length - 1 < ws.length := by
    rw [tracked'.1, length_dualFrom, ← tracked.1]
    omega
  exact ⟨_, u, by rw [run_bind_of_ok ran]; rfl, clean', count', ext, tracked'.2 _ inside,
    last nonempty⟩

end StraightLine

end AdjointDiff
