import AdjointDiff.Proofs.Real.Sweep
import Mathlib.Analysis.SpecialFunctions.Pow.Deriv
import Mathlib.Analysis.SpecialFunctions.Sqrt
import Mathlib.Analysis.SpecialFunctions.Trigonometric.Deriv

set_option autoImplicit false

namespace AdjointDiff

open ProbabilityTheory

namespace Entry

/-- The value the entry's kind computes from its operands' values and its extra; an input and a
manual entry keep their own. -/
noncomputable def forward (e : Entry ℝ) (valueAt : Nat → ℝ) : ℝ :=
  let a := valueAt (e.first.getD 0)
  let b := valueAt (e.second.getD 0)
  let c := e.extra
  match e.kind with
  | .input | .manual => e.value
  | .add => a + b
  | .addConst => a + c
  | .sub => a - b
  | .mul => a * b
  | .mulConst => a * c
  | .div => a / b
  | .pow => a ^ b
  | .powConst => a ^ c
  | .sin => Real.sin a
  | .cos => Real.cos a
  | .exp => Real.exp a
  | .log => Real.log a
  | .sqrt => Real.sqrt a
  | .normalCdf => gaussianCdf a

/-- The operands sit where the kind's local rule is its derivative. -/
def Regular (e : Entry ℝ) (valueAt : Nat → ℝ) : Prop :=
  let a := valueAt (e.first.getD 0)
  let b := valueAt (e.second.getD 0)
  match e.kind with
  | .div => b ≠ 0
  | .log | .sqrt | .pow => 0 < a
  | .powConst => a ≠ 0
  | _ => True

def shape (e : Entry ℝ) : Kind × Option Operand × Option Operand × ℝ :=
  (e.kind, e.operand1, e.operand2, e.extra)

theorem forward_eq_of_shape {e e' : Entry ℝ} (same : e.shape = e'.shape) (computed : e.kind ≠ .input)
    (recorded : e.kind ≠ .manual) (valueAt : Nat → ℝ) : e.forward valueAt = e'.forward valueAt := by
  rcases e with ⟨kind, o1, o2, v, c, b⟩
  rcases e' with ⟨kind', o1', o2', v', c', b'⟩
  simp only [shape, Prod.mk.injEq] at same
  obtain ⟨rfl, rfl, rfl, rfl⟩ := same
  cases kind <;> simp_all [forward]

theorem Complete.first {e : Entry ℝ} (complete : e.Complete) (computed : e.kind ≠ .input) :
    ∃ i, e.first = some i :=
  Option.isSome_iff_exists.1 (complete.1 computed)

theorem Complete.second {e : Entry ℝ} (complete : e.Complete) (binary : e.kind.binary) :
    ∃ j, e.second = some j :=
  Option.isSome_iff_exists.1 (complete.2.1 binary)

theorem hasDerivAt_forward {e : Entry ℝ} (complete : e.Complete) (computed : e.kind ≠ .input)
    (recorded : e.kind ≠ .manual) {V : ℝ → Nat → ℝ} {u₀ : ℝ} (value : e.value = e.forward (V u₀))
    (regular : e.Regular (V u₀)) {τ : Nat → ℝ}
    (moves : ∀ o ∈ e.positions, HasDerivAt (fun u => V u o) (τ o) u₀) :
    HasDerivAt (fun u => e.forward (V u))
      ((e.partials (V u₀)).map fun p => p.2 * τ p.1).sum u₀ := by
  obtain ⟨i, sel1⟩ := complete.first computed
  have moves_first := moves i (by simp [positions, sel1])
  -- the second operand is there for the two-operand kinds only
  have moves_second (binary : e.kind.binary) : ∃ j, e.second = some j ∧
      HasDerivAt (fun u => V u j) (τ j) u₀ := by
    obtain ⟨j, sel2⟩ := complete.second binary
    exact ⟨j, sel2, moves j (by simp [positions, sel2])⟩
  rcases e with ⟨kind, o1, o2, v, c, b⟩
  -- the rules read the operands only through the positions they select
  simp only [first_mk, second_mk] at sel1 moves_second
  cases kind
  case input => exact absurd rfl computed
  case manual => exact absurd rfl recorded
  case add =>
    obtain ⟨j, sel2, moves_other⟩ := moves_second rfl
    simp only [forward, partials, first_mk, second_mk, sel1, sel2, Option.getD_some]
    refine (moves_first.add moves_other).congr_deriv ?_
    simp
  case addConst =>
    simp only [forward, partials, first_mk, sel1, Option.getD_some]
    refine (moves_first.add_const c).congr_deriv ?_
    simp
  case sub =>
    obtain ⟨j, sel2, moves_other⟩ := moves_second rfl
    simp only [forward, partials, first_mk, second_mk, sel1, sel2, Option.getD_some]
    refine (moves_first.sub moves_other).congr_deriv ?_
    simp
    ring
  case mul =>
    obtain ⟨j, sel2, moves_other⟩ := moves_second rfl
    simp only [forward, partials, first_mk, second_mk, sel1, sel2, Option.getD_some]
    refine (moves_first.mul moves_other).congr_deriv ?_
    simp
    ring
  case mulConst =>
    simp only [forward, partials, first_mk, sel1, Option.getD_some]
    refine (moves_first.mul_const c).congr_deriv ?_
    simp
    ring
  case div =>
    obtain ⟨j, sel2, moves_other⟩ := moves_second rfl
    simp only [Regular, second_mk, sel2, Option.getD_some] at regular
    simp only [forward, partials, first_mk, second_mk, sel1, sel2, Option.getD_some]
    refine (moves_first.fun_div moves_other regular).congr_deriv ?_
    simp
    field_simp
    ring
  case pow =>
    obtain ⟨j, sel2, moves_other⟩ := moves_second rfl
    simp only [Regular, first_mk, sel1, Option.getD_some] at regular
    simp only [forward, first_mk, second_mk, sel1, sel2, Option.getD_some] at value
    subst value
    simp only [forward, partials, first_mk, second_mk, sel1, sel2, Option.getD_some]
    refine (moves_first.rpow moves_other regular).congr_deriv ?_
    simp [Real.rpow_sub_one regular.ne']
    ring
  case powConst =>
    simp only [Regular, first_mk, sel1, Option.getD_some] at regular
    simp only [forward, first_mk, sel1, Option.getD_some] at value
    subst value
    simp only [forward, partials, first_mk, sel1, Option.getD_some]
    refine (moves_first.rpow_const (.inl regular)).congr_deriv ?_
    simp [Real.rpow_sub_one regular]
    ring
  case sin =>
    simp only [forward, partials, first_mk, sel1, Option.getD_some]
    refine moves_first.sin.congr_deriv ?_
    simp
  case cos =>
    simp only [forward, partials, first_mk, sel1, Option.getD_some]
    refine moves_first.cos.congr_deriv ?_
    simp
  case exp =>
    simp only [forward, first_mk, sel1, Option.getD_some] at value
    subst value
    simp only [forward, partials, first_mk, sel1, Option.getD_some]
    refine moves_first.exp.congr_deriv ?_
    simp
  case log =>
    simp only [Regular, first_mk, sel1, Option.getD_some] at regular
    simp only [forward, partials, first_mk, sel1, Option.getD_some]
    refine (moves_first.log regular.ne').congr_deriv ?_
    simp
    ring
  case sqrt =>
    simp only [Regular, first_mk, sel1, Option.getD_some] at regular
    simp only [forward, first_mk, sel1, Option.getD_some] at value
    subst value
    simp only [forward, partials, first_mk, sel1, Option.getD_some]
    refine (moves_first.sqrt regular.ne').congr_deriv ?_
    simp
    ring
  case normalCdf =>
    simp only [forward, partials, first_mk, sel1, Option.getD_some]
    refine ((hasDerivAt_gaussianCdf _).comp u₀ moves_first).congr_deriv ?_
    simp [Scalar.normalPdf_real]

end Entry

namespace Tape

def Consistent (t : Tape ℝ) : Prop :=
  ∀ (k : Nat) (e : Entry ℝ), t.entries[k]? = some e →
    e.kind ≠ .manual ∧ (e.kind ≠ .input → e.value = e.forward t.valueAt)

def Regular (t : Tape ℝ) : Prop :=
  ∀ (k : Nat) (e : Entry ℝ), t.entries[k]? = some e → e.Regular t.valueAt

def SameShape (t t' : Tape ℝ) : Prop :=
  ∀ k : Nat, t.entries[k]?.map Entry.shape = t'.entries[k]?.map Entry.shape

def inputRank (t : Tape ℝ) (k : Nat) : Nat :=
  (t.entries.toList.take k).countP (·.kind == .input)

/-- How fast each stored value moves with input number `r`. -/
noncomputable def tangent (t : Tape ℝ) (r : Nat) (k : Nat) : ℝ :=
  match t.entries[k]? with
  | some e =>
    if e.kind = .input then (if t.inputRank k = r then 1 else 0)
    else ∑ j : Fin k, t.localPartial k j * t.tangent r j
  | none => 0
termination_by k
decreasing_by exact j.isLt

theorem tangent_of_computed {t : Tape ℝ} {k : Nat} {e : Entry ℝ} (found : t.entries[k]? = some e)
    (computed : e.kind ≠ .input) (r : Nat) :
    t.tangent r k = ∑ j ∈ Finset.range k, t.localPartial k j * t.tangent r j := by
  rw [tangent, found]
  simp only [computed, if_false]
  exact Fin.sum_univ_eq_sum_range (fun j => t.localPartial k j * t.tangent r j) k

theorem sum_slots_mul (ps : List (Nat × ℝ)) {k : Nat} (below : ∀ p ∈ ps, p.1 < k) (τ : Nat → ℝ) :
    ∑ j ∈ Finset.range k, (ps.map fun p => if p.1 = j then p.2 else 0).sum * τ j =
      (ps.map fun p => p.2 * τ p.1).sum := by
  induction ps with
  | nil => simp
  | cons p ps ih =>
    have first : p.1 ∈ Finset.range k := Finset.mem_range.2 (below p (by simp))
    simp only [List.map_cons, List.sum_cons, add_mul, Finset.sum_add_distrib, ite_mul, zero_mul,
      Finset.sum_ite_eq, first, if_true]
    rw [ih fun q member => below q (by simp [member])]

theorem sum_localPartial_mul {t : Tape ℝ} (topo : t.Topological) {k : Nat} {e : Entry ℝ}
    (found : t.entries[k]? = some e) (τ : Nat → ℝ) :
    ∑ j ∈ Finset.range k, t.localPartial k j * τ j =
      ((e.partials t.valueAt).map fun p => p.2 * τ p.1).sum := by
  simp only [localPartial, found, Entry.partialSum]
  exact sum_slots_mul _ (fun p listed => topo.position_lt found (Entry.mem_positions_of_partial listed))
    τ

theorem hasDerivAt_valueAt (T : ℝ → Tape ℝ) (u₀ : ℝ) (r : Nat)
    (shape : ∀ u, (T u).SameShape (T u₀)) (consistent : ∀ u, (T u).Consistent)
    (topo : (T u₀).Topological) (complete : ∀ k, (T u₀).CompleteAt k)
    (regular : (T u₀).Regular)
    (inputs : ∀ k e, (T u₀).entries[k]? = some e → e.kind = .input →
      HasDerivAt (fun u => (T u).valueAt k) ((T u₀).tangent r k) u₀) (k : Nat) :
    HasDerivAt (fun u => (T u).valueAt k) ((T u₀).tangent r k) u₀ := by
  induction k using Nat.strong_induction_on with
  | _ k ih =>
  cases found : (T u₀).entries[k]? with
  | none =>
    -- no tape of the family has an entry at `k`
    have gone (u : ℝ) : (T u).valueAt k = 0 := by
      have same := shape u k
      rw [found, Option.map_none, Option.map_eq_none_iff] at same
      simp [valueAt, same]
    simp only [gone]
    rw [tangent, found]
    exact hasDerivAt_const u₀ 0
  | some e =>
    by_cases input : e.kind = .input
    · exact inputs k e found input
    -- every tape of the family computes its entry at `k` from its operands as `e` does
    have computes (u : ℝ) : (T u).valueAt k = e.forward (T u).valueAt := by
      have same := shape u k
      rw [found, Option.map_some, Option.map_eq_some_iff] at same
      obtain ⟨e', found', shaped⟩ := same
      have kind_eq : e'.kind = e.kind := congrArg Prod.fst shaped
      have recorded := consistent u k e' found'
      rw [← kind_eq] at input
      simp only [valueAt, found', Option.map_some, Option.getD_some]
      rw [recorded.2 input, Entry.forward_eq_of_shape shaped input recorded.1]
    have value : e.value = e.forward (T u₀).valueAt := (consistent u₀ k e found).2 input
    have rate := Entry.hasDerivAt_forward (complete k e found) input (consistent u₀ k e found).1
      value (regular k e found) fun o mem => ih o (topo.position_lt found mem)
    rw [funext computes, tangent_of_computed found input, sum_localPartial_mul topo found]
    exact rate

def kindAt (t : Tape ℝ) (k : Nat) : Option Kind := t.entries[k]?.map (·.kind)

theorem localPartial_of_input {t : Tape ℝ} {k : Nat} (input : t.kindAt k = some .input) (j : Nat) :
    t.localPartial k j = 0 := by
  rw [kindAt, Option.map_eq_some_iff] at input
  obtain ⟨⟨kind, o1, o2, v, c, b⟩, found, rfl⟩ := input
  simp [localPartial, found, Entry.partialSum, Entry.partials]

theorem sum_input_adjoint_mul_tangent (t : Tape ℝ) {s : Nat} (A τ : Nat → ℝ)
    (adjoints : ∀ j, A j = (if j = s then 1 else 0) +
      ∑ k ∈ Finset.Ioc j s, A k * t.localPartial k j)
    (tangents : ∀ k ≤ s, t.kindAt k ≠ some .input →
      τ k = ∑ j ∈ Finset.range k, t.localPartial k j * τ j) :
    ∑ j ∈ Finset.range (s + 1), (if t.kindAt j = some .input then A j * τ j else 0) = τ s := by
  -- what each entry up to `s` passes down along its partials
  have passed (k : Nat) (below : k ≤ s) : ∑ j ∈ Finset.range k, t.localPartial k j * τ j =
      if t.kindAt k = some .input then 0 else τ k := by
    split
    next input => simp [localPartial_of_input input]
    next computed => exact (tangents k below computed).symm
  have swap : ∀ j k, j ∈ Finset.range (s + 1) ∧ k ∈ Finset.Ioc j s ↔
      j ∈ Finset.range k ∧ k ∈ Finset.range (s + 1) := by
    intro j k
    simp only [Finset.mem_range, Finset.mem_Ioc]
    omega
  -- expand every adjoint by its formula and exchange the order of summation
  have expanded : ∑ j ∈ Finset.range (s + 1), A j * τ j =
      τ s + ∑ k ∈ Finset.range (s + 1), (if t.kindAt k = some .input then 0 else A k * τ k) := by
    calc ∑ j ∈ Finset.range (s + 1), A j * τ j
        = ∑ j ∈ Finset.range (s + 1), ((if j = s then 1 else 0) * τ j +
            ∑ k ∈ Finset.Ioc j s, A k * t.localPartial k j * τ j) := by
          refine Finset.sum_congr rfl fun j _ => ?_
          rw [adjoints j, add_mul, Finset.sum_mul]
      _ = τ s + ∑ j ∈ Finset.range (s + 1), ∑ k ∈ Finset.Ioc j s,
            A k * t.localPartial k j * τ j := by
          rw [Finset.sum_add_distrib]
          simp
      _ = τ s + ∑ k ∈ Finset.range (s + 1), ∑ j ∈ Finset.range k,
            A k * t.localPartial k j * τ j := by
          rw [Finset.sum_comm' swap]
      _ = τ s + ∑ k ∈ Finset.range (s + 1),
            (if t.kindAt k = some .input then 0 else A k * τ k) := by
          congr 1
          refine Finset.sum_congr rfl fun k member => ?_
          simp only [mul_assoc, ← Finset.mul_sum]
          rw [passed k (Nat.lt_succ_iff.1 (Finset.mem_range.1 member))]
          split <;> simp
  have split_kinds : ∑ j ∈ Finset.range (s + 1), A j * τ j =
      ∑ j ∈ Finset.range (s + 1), (if t.kindAt j = some .input then A j * τ j else 0) +
        ∑ j ∈ Finset.range (s + 1), (if t.kindAt j = some .input then 0 else A j * τ j) := by
    rw [← Finset.sum_add_distrib]
    refine Finset.sum_congr rfl fun j _ => ?_
    split <;> simp
  linarith

end Tape

end AdjointDiff
