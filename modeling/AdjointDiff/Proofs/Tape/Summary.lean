import Mathlib.Algebra.BigOperators.Group.List.Lemmas
import Mathlib.Algebra.BigOperators.Group.Finset.Piecewise
import Mathlib.Algebra.GroupWithZero.Nat
import Mathlib.Data.List.Dedup
import Mathlib.Data.List.Induction
import AdjointDiff.Proofs.Tape.Reachable
import AdjointDiff.Scalar.Float

set_option autoImplicit false

namespace AdjointDiff

namespace Kind

theorem ofTag?_tag (k : Kind) : ofTag? k.tag = some k := by
  cases k <;> decide

theorem tag_injective : Function.Injective tag := fun a b same => by
  simpa [ofTag?_tag] using congrArg ofTag? same

end Kind

section Folds

variable {β : Type}

theorem foldl_count_eq_countP (p : β → Bool) (l : List β) (a : Nat) :
    l.foldl (fun n e => if p e then n + 1 else n) a = a + l.countP p := by
  induction l generalizing a with
  | nil => simp
  | cons b l ih =>
    by_cases holds : p b
    · simp only [List.foldl_cons, holds, if_true, ih, List.countP_cons_of_pos holds]
      omega
    · simp [ih, holds]

theorem le_foldl_max (f : β → Nat) {l : List β} {b : β} (mem : b ∈ l) (a : Nat) :
    f b ≤ l.foldl (fun m e => max m (f e)) a := by
  induction l generalizing a with
  | nil => cases mem
  | cons c l ih =>
    rw [List.foldl_cons]
    rcases List.mem_cons.1 mem with rfl | later
    · -- the running maximum never drops below what it has seen
      have grows : ∀ (l : List β) (m : Nat), m ≤ l.foldl (fun m e => max m (f e)) m := by
        intro l
        induction l with
        | nil => exact fun m => Nat.le_refl m
        | cons d l ih' => exact fun m => Nat.le_trans (Nat.le_max_left m (f d)) (ih' _)
      exact Nat.le_trans (Nat.le_max_right a (f b)) (grows l _)
    · exact ih later _

theorem foldl_max_eq (f : β → Nat) (l : List β) (a : Nat) :
    l.foldl (fun m e => max m (f e)) a = a ∨
      ∃ b ∈ l, l.foldl (fun m e => max m (f e)) a = f b := by
  induction l generalizing a with
  | nil => exact .inl rfl
  | cons c l ih =>
    rw [List.foldl_cons]
    rcases ih (max a (f c)) with kept | ⟨b, mem, reached⟩
    · rw [kept]
      rcases Nat.le_total (f c) a with first | second
      · exact .inl (Nat.max_eq_left first)
      · exact .inr ⟨c, List.mem_cons_self, Nat.max_eq_right second⟩
    · exact .inr ⟨b, List.mem_cons_of_mem c mem, reached⟩

end Folds

section Tags

theorem eraseDups_append_singleton {β : Type} [BEq β] [LawfulBEq β] (l : List β) (a : β) :
    (l ++ [a]).eraseDups = if a ∈ l then l.eraseDups else l.eraseDups ++ [a] := by
  rw [List.eraseDups_append]
  by_cases seen : a ∈ l <;> simp [List.removeAll, seen, List.eraseDups_cons]

theorem nodup_eraseDups {β : Type} [BEq β] [LawfulBEq β] (l : List β) : l.eraseDups.Nodup := by
  induction l using List.reverseRecOn with
  | nil => simp
  | append_singleton l a ih =>
    rw [eraseDups_append_singleton]
    split
    · exact ih
    · next seen =>
      simpa [List.nodup_append, List.mem_eraseDups] using
        ⟨ih, fun x mem same => seen (same ▸ mem)⟩

theorem eraseDups_map {β γ : Type} [BEq β] [LawfulBEq β] [BEq γ] [LawfulBEq γ] {f : β → γ}
    (injective : Function.Injective f) (l : List β) : (l.map f).eraseDups = l.eraseDups.map f := by
  induction l using List.reverseRecOn with
  | nil => simp
  | append_singleton l a ih =>
    rw [List.map_append, List.map_singleton, eraseDups_append_singleton, eraseDups_append_singleton, ih]
    by_cases seen : a ∈ l
    · simp [seen, List.mem_map_of_mem seen]
    · simp [seen, injective.eq_iff]

theorem countTag_eraseDups (l : List String) (tag : String) :
    countTag (l.eraseDups.map fun x => (x, l.count x)) tag =
      (l ++ [tag]).eraseDups.map fun x => (x, (l ++ [tag]).count x) := by
  rw [eraseDups_append_singleton]
  by_cases seen : tag ∈ l
  · have present : (l.eraseDups.map fun x => (x, l.count x)).any (·.1 == tag) = true := by
      simpa [List.mem_eraseDups] using seen
    rw [countTag, present, if_pos rfl, if_pos seen, List.map_map]
    refine List.map_congr_left fun x _ => ?_
    by_cases same : x = tag
    · simp [same, List.count_append]
    · simp [same, Ne.symm same, List.count_append]
  · have absent : (l.eraseDups.map fun x => (x, l.count x)).any (·.1 == tag) = false := by
      simp only [List.any_map, List.any_eq_false, Function.comp_def, List.mem_eraseDups]
      intro x mem
      simpa using fun same : x = tag => seen (same ▸ mem)
    have others : ∀ x ∈ l.eraseDups, (x, l.count x) = (x, (l ++ [tag]).count x) := by
      intro x mem
      have differ : tag ≠ x := fun same => seen (same ▸ List.mem_eraseDups.1 mem)
      simp [List.count_append, differ]
    rw [countTag, absent, if_neg Bool.false_ne_true, if_neg seen, List.map_append,
      ← List.map_congr_left others]
    simp [List.count_append, List.count_eq_zero_of_not_mem seen]

theorem foldl_countTag (l : List String) :
    l.foldl countTag [] = l.eraseDups.map fun x => (x, l.count x) := by
  induction l using List.reverseRecOn with
  | nil => rfl
  | append_singleton l tag ih =>
    rw [List.foldl_append, ih, List.foldl_cons, List.foldl_nil, countTag_eraseDups]

example : ["add", "mul", "add", "input"].foldl countTag [] = [("add", 2), ("mul", 1), ("input", 1)] := by
  decide

theorem sum_count_eraseDups (l : List String) :
    (l.eraseDups.map fun x => l.count x).sum = l.length := by
  have same : l.eraseDups.Perm l.dedup :=
    (List.perm_ext_iff_of_nodup (nodup_eraseDups l) (List.nodup_dedup l)).2 fun x => by
      simp [List.mem_eraseDups]
  rw [(same.map _).sum_eq, List.sum_map_count_dedup_eq_length]

end Tags

theorem foldlM_flatMap {m : Type → Type} [Monad m] [LawfulMonad m] {β γ δ : Type}
    (f : δ → γ → m δ) (g : β → List γ) (l : List β) (init : δ) :
    (l.flatMap g).foldlM f init = l.foldlM (fun d b => (g b).foldlM f d) init := by
  induction l generalizing init with
  | nil => rfl
  | cons b l ih =>
    simp only [List.flatMap_cons, List.foldlM_append, List.foldlM_cons]
    exact bind_congr fun d => ih d

namespace Operand

def isInt : Operand → Bool
  | int _ => true
  | _ => false

def isTrue : Operand → Bool
  | flag b => b
  | _ => false

def isReal : Operand → Bool
  | real _ => true
  | _ => false

def marks (j : Nat) : Operand → Bool
  | int i => i == j
  | flag b => b
  | real _ | other _ => false

theorem bump_eq {o : Operand} {counts : Array Nat} (inside : o.below counts.size = .ok true) :
    o.bump counts = if o.isReal then .error .notArrayIndex
      else .ok (counts.mapIdx fun j c => c + if o.marks j then 1 else 0) := by
  cases o with
  | int i =>
    simp only [below, Except.ok.injEq, decide_eq_true_eq] at inside
    have within : i.toNat < counts.size := by omega
    simp only [bump, inside.1, within, if_true, isReal, Bool.false_eq_true, if_false]
    congr 1
    ext j below below'
    · simp
    · simp only [Array.getElem_modify, Array.getElem_mapIdx, marks, beq_iff_eq]
      split <;> split <;> omega
  | flag b =>
    cases b <;> simp only [bump, isReal, Bool.false_eq_true, if_false, if_true] <;> congr 1 <;>
      ext j below below' <;> simp [marks]
  | real x => rfl
  | other t => cases inside

theorem foldlM_bump {os : List Operand} {counts : Array Nat}
    (inside : ∀ o ∈ os, o.below counts.size = .ok true) :
    os.foldlM bump counts = if os.any isReal then .error .notArrayIndex
      else .ok (counts.mapIdx fun j c => c + os.countP (marks j)) := by
  induction os generalizing counts with
  | nil =>
    simp only [List.foldlM_nil, List.any_nil, Bool.false_eq_true, if_false, List.countP_nil,
      Nat.add_zero]
    congr 1
    ext j below below' <;> simp
  | cons o os ih =>
    rw [List.foldlM_cons, bump_eq (inside o List.mem_cons_self)]
    cases real : o.isReal
    · -- the rest is counted on the counts after `o`, which have the same size
      have rest : ∀ o' ∈ os, o'.below (counts.mapIdx fun j c => c + if o.marks j then 1 else 0).size =
          .ok true := fun o' mem => by simpa using inside o' (List.mem_cons_of_mem o mem)
      simp only [if_false, Bool.false_eq_true, bind, Except.bind]
      rw [ih rest]
      simp only [List.any_cons, real, Bool.false_or, Array.mapIdx_mapIdx, List.countP_cons]
      split
      · rfl
      · congr 2
        funext j c
        simp only [Function.comp_apply]
        omega
    · simp [real, bind, Except.bind]

theorem sum_marks {o : Operand} {n : Nat} (inside : o.below n = .ok true) (whole : o.isReal = false) :
    ∑ j ∈ Finset.range n, (if o.marks j then 1 else 0) =
      (if o.isInt then 1 else 0) + n * (if o.isTrue then 1 else 0) := by
  cases o with
  | int i =>
    simp only [below, Except.ok.injEq, decide_eq_true_eq] at inside
    have marks_at (j : Nat) : (int i).marks j = decide (i.toNat = j) := by
      by_cases same : i.toNat = j <;> simp [marks, same] <;> omega
    simp only [marks_at, decide_eq_true_eq, Finset.sum_ite_eq, Finset.mem_range, isInt, isTrue]
    simp only [show i.toNat < n by omega, if_true, if_false, Bool.false_eq_true, Nat.mul_zero]
  | flag b => cases b <;> simp [marks, isInt, isTrue]
  | real x => cases whole
  | other t => cases inside

theorem sum_countP_marks {os : List Operand} {n : Nat} (inside : ∀ o ∈ os, o.below n = .ok true)
    (whole : ∀ o ∈ os, o.isReal = false) :
    ∑ j ∈ Finset.range n, os.countP (marks j) = os.countP isInt + n * os.countP isTrue := by
  induction os with
  | nil => simp
  | cons o os ih =>
    have rest := ih (fun o' mem => inside o' (List.mem_cons_of_mem o mem))
      (fun o' mem => whole o' (List.mem_cons_of_mem o mem))
    have own := sum_marks (inside o List.mem_cons_self) (whole o List.mem_cons_self)
    simp only [List.countP_cons, Finset.sum_add_distrib, rest, own]
    split <;> split <;> simp only [Nat.mul_add, Nat.mul_one, Nat.mul_zero] <;> omega

end Operand

namespace Tape

variable {α : Type}

/-- Every operand slot of the tape, entry by entry, the first operand first. -/
def slots (t : Tape α) : List Operand := t.entries.toList.flatMap Entry.operands

theorem slots_withEntry [Scalar α] (t : Tape α) (kind : Kind) (o1 o2 : Option Operand) (value extra : α) :
    (t.withEntry kind o1 o2 value extra).slots = t.slots ++ (o1.toList ++ o2.toList) := by
  simp [slots, withEntry, Entry.operands]

theorem slots_withAdjoints (t : Tape α) (adj : Nat → α) : (t.withAdjoints adj).slots = t.slots := by
  -- the operands of an entry do not depend on its adjoint
  have same : (t.entries.toList.mapIdx fun i e => { e with adjoint := adj i }).map Entry.operands =
      t.entries.toList.map Entry.operands :=
    List.ext_getElem (by simp) fun i _ _ => by simp [Entry.operands]
  simp only [slots, withAdjoints, Array.toList_mapIdx, List.flatMap_def, same]

/-- The number of slots that count at position `j`. -/
def fanOut (t : Tape α) (j : Nat) : Nat := t.slots.countP (Operand.marks j)

def kindCount (t : Tape α) (k : Kind) : Nat := t.entries.toList.countP (·.kind == k)

def kinds (t : Tape α) : List Kind := t.entries.toList.map (·.kind)

/-- The summary of a tape whose fan-out counts can be taken, field by field. -/
def described (t : Tape α) : Summary where
  entries := t.size
  inputs := t.kindCount .input
  edges := ∑ j ∈ Finset.range t.size, t.fanOut j
  maxFanOut := ((List.range t.size).map t.fanOut).foldl max 0
  ops := (t.kinds.map Kind.tag).eraseDups.map fun x => (x, (t.kinds.map Kind.tag).count x)

theorem count_tag_kinds (t : Tape α) (k : Kind) :
    (t.kinds.map Kind.tag).count k.tag = t.kindCount k := by
  simp only [kinds, kindCount, List.map_map, List.count_eq_countP, List.countP_map]
  congr 1
  funext e
  simp [Kind.tag_injective.eq_iff]

theorem length_gradient? [Scalar α] {t : Tape α} {g : List α} (read : t.gradient? = .ok g) :
    g.length = t.kindCount .input := by
  unfold gradient? at read
  split at read
  · cases read
    simp [kindCount, List.length_filterMap_eq_countP, apply_ite Option.isSome]
    rfl
  · cases read

theorem Topological.slot_below {t : Tape α} (topo : t.Topological) {o : Operand}
    (mem : o ∈ t.slots) : o.below t.size = .ok true := by
  obtain ⟨e, found, slot⟩ := List.mem_flatMap.1 mem
  obtain ⟨k, inside, rfl⟩ := List.getElem_of_mem found
  exact topo.inside (k := k) (by simp) o slot

theorem Topological.fanOuts_eq {t : Tape α} (topo : t.Topological) :
    t.fanOuts = if t.slots.any Operand.isReal then .error .notArrayIndex
      else .ok ((Array.replicate t.size 0).mapIdx fun j c => c + t.fanOut j) := by
  rw [fanOuts, ← Array.foldlM_toList, ← foldlM_flatMap]
  exact Operand.foldlM_bump fun o mem => by simpa using topo.slot_below mem

theorem toList_fanOuts (t : Tape α) :
    ((Array.replicate t.size 0).mapIdx fun j c => c + t.fanOut j).toList =
      (List.range t.size).map t.fanOut := by
  apply List.ext_getElem (by simp)
  intro j _ _
  simp

theorem Topological.summary_eq {t : Tape α} (topo : t.Topological) :
    t.summary = if t.slots.any Operand.isReal then .error .notArrayIndex else .ok t.described := by
  unfold summary
  split
  next empty =>
    have none : t.entries.toList = [] := by simpa [size] using empty
    simp [described, slots, kinds, kindCount, none, empty]
  next =>
    rw [topo.fanOuts_eq]
    split
    · rfl
    · -- a sum over the positions is the sum of the list of their fan-outs
      have edges : ∑ j ∈ Finset.range t.size, t.fanOut j = ((List.range t.size).map t.fanOut).sum :=
        rfl
      simp only [bind, Except.bind, pure, Except.pure, described, ← Array.foldl_toList,
        toList_fanOuts, foldl_count_eq_countP, ← foldl_countTag, kindCount, kinds, List.foldl_map,
        edges, List.sum_eq_foldl, Nat.zero_add]

theorem Topological.sum_fanOut {t : Tape α} (topo : t.Topological)
    (whole : ∀ o ∈ t.slots, o.isReal = false) :
    ∑ j ∈ Finset.range t.size, t.fanOut j =
      t.slots.countP Operand.isInt + t.size * t.slots.countP Operand.isTrue :=
  Operand.sum_countP_marks (fun _ mem => topo.slot_below mem) whole

theorem maxFanOut_described (t : Tape α) :
    (∀ j < t.size, t.fanOut j ≤ t.described.maxFanOut) ∧
      (t.size = 0 ∧ t.described.maxFanOut = 0 ∨ ∃ j < t.size, t.fanOut j = t.described.maxFanOut) := by
  have bound (j : Nat) (below : j < t.size) : t.fanOut j ≤ t.described.maxFanOut := by
    simp only [described, List.foldl_map]
    exact le_foldl_max t.fanOut (List.mem_range.2 below) 0
  refine ⟨bound, ?_⟩
  rcases Nat.eq_zero_or_pos t.size with empty | nonempty
  · exact .inl ⟨empty, by simp [described, empty]⟩
  · -- the maximum is the start or a fan-out; if it is the start, position 0 reaches it
    refine .inr ?_
    rcases foldl_max_eq t.fanOut (List.range t.size) 0 with start | ⟨j, mem, at_j⟩
    · refine ⟨0, nonempty, ?_⟩
      have zero : t.described.maxFanOut = 0 := by simpa [described, List.foldl_map] using start
      have := bound 0 nonempty
      omega
    · exact ⟨j, List.mem_range.1 mem, by simpa [described, List.foldl_map] using at_j.symm⟩

end Tape

/-- The summary of every reachable tape. It is refused, with the refusal of a double as an array
index, exactly when some operand slot holds a double. Otherwise `entries` is the number of
entries; `ops` lists each tag present once, in order of first appearance, with the number of
entries of that kind, so its counts add up to the number of entries; `inputs` is the number of
input entries, the length of the gradient once the tape is swept; `edges` counts each integer
slot once and each slot holding a true flag once for every position of the tape, since such a
flag selects them all; and `maxFanOut` is the largest number of slots that count at one position
of the tape, or zero on the empty tape. -/
theorem summary_describes_tape {α : Type} [Scalar α] {t : Tape α} (reach : t.Reachable) :
    ((∃ o ∈ t.slots, o.isReal) ∧ t.summary = .error .notArrayIndex) ∨
    ((∀ o ∈ t.slots, o.isReal = false) ∧ ∃ s, t.summary = .ok s ∧
      s.entries = t.size ∧
      s.ops = t.kinds.eraseDups.map (fun k => (k.tag, t.kindCount k)) ∧
      (s.ops.map Prod.fst).Nodup ∧ (s.ops.map Prod.snd).sum = t.size ∧
      s.inputs = t.kindCount .input ∧ (∀ g, t.gradient? = .ok g → g.length = s.inputs) ∧
      s.edges = t.slots.countP Operand.isInt + t.size * t.slots.countP Operand.isTrue ∧
      (∀ j < t.size, t.fanOut j ≤ s.maxFanOut) ∧
      (t.size = 0 ∧ s.maxFanOut = 0 ∨ ∃ j < t.size, t.fanOut j = s.maxFanOut)) := by
  have topo := reach.topological
  rw [topo.summary_eq]
  by_cases real : t.slots.any Operand.isReal
  · exact .inl ⟨by simpa using real, by rw [if_pos real]⟩
  · have whole : ∀ o ∈ t.slots, o.isReal = false := by simpa using real
    have keys : t.described.ops.map Prod.fst = (t.kinds.map Kind.tag).eraseDups := by
      simp [Tape.described, List.map_map, Function.comp_def]
    refine .inr ⟨whole, t.described, by rw [if_neg real], rfl, ?_, keys ▸ nodup_eraseDups _, ?_, rfl,
      fun g read => Tape.length_gradient? read, topo.sum_fanOut whole, t.maxFanOut_described⟩
    · rw [Tape.described, eraseDups_map Kind.tag_injective, List.map_map]
      exact List.map_congr_left fun k _ => by simp [Tape.count_tag_kinds]
    · simp only [Tape.described, List.map_map]
      exact (sum_count_eraseDups _).trans (by simp [Tape.kinds, Tape.size])

theorem square_tape_summary :
    let t : Tape Float := (Recorder.run (Record.entry .mul 9.0 (some (.int 0)) (some (.int 0)) 0.0)
      (Recorder.run (Record.entry .input 3.0 none none 0.0) Tape.empty).2).2
    t.Reachable ∧
    (((∃ o ∈ t.slots, o.isReal) ∧ t.summary = .error .notArrayIndex) ∨
    ((∀ o ∈ t.slots, o.isReal = false) ∧ ∃ s, t.summary = .ok s ∧
      s.entries = t.size ∧
      s.ops = t.kinds.eraseDups.map (fun k => (k.tag, t.kindCount k)) ∧
      (s.ops.map Prod.fst).Nodup ∧ (s.ops.map Prod.snd).sum = t.size ∧
      s.inputs = t.kindCount .input ∧ (∀ g, t.gradient? = .ok g → g.length = s.inputs) ∧
      s.edges = t.slots.countP Operand.isInt + t.size * t.slots.countP Operand.isTrue ∧
      (∀ j < t.size, t.fanOut j ≤ s.maxFanOut) ∧
      (t.size = 0 ∧ s.maxFanOut = 0 ∨ ∃ j < t.size, t.fanOut j = s.maxFanOut))) := by
  intro t
  have reach : t.Reachable := .entry _ _ _ _ _ (.entry _ _ _ _ _ .empty)
  exact ⟨reach, summary_describes_tape reach⟩

theorem summary_counts_true_everywhere :
    let t : Tape Float := (Recorder.run (Record.entry .sin 0.0 (some (.flag true)) none 0.0)
      (Recorder.run (Record.input 0.0) (Recorder.run (Record.input 0.0) Tape.empty).2).2).2
    let u : Tape Float := (Recorder.run (Record.entry .sin 0.0 (some (.real 0.5)) none 0.0)
      (Recorder.run (Record.input 0.0) Tape.empty).2).2
    t.Reachable ∧ t.slots.length = 1 ∧
      t.summary = .ok ⟨3, 2, 3, 1, [("input", 2), ("sin", 1)]⟩ ∧
      u.Reachable ∧ u.slots.length = 1 ∧ u.summary = .error .notArrayIndex := by
  intro t u
  exact ⟨.entry _ _ _ _ _ (.entry _ _ _ _ _ (.entry _ _ _ _ _ .empty)), by decide +kernel,
    by decide +kernel, .entry _ _ _ _ _ (.entry _ _ _ _ _ .empty), by decide +kernel,
    by decide +kernel⟩

end AdjointDiff
