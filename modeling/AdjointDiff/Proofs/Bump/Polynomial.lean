import Mathlib.Analysis.Calculus.Deriv.Polynomial
import AdjointDiff.Bump.Derivative
import AdjointDiff.Proofs.Real.Scalar

set_option autoImplicit false

namespace AdjointDiff

open Polynomial

namespace Scheme

/-- The highest degree of a polynomial whose derivative the scheme's stencil gives exactly. -/
def exactDegree : Scheme → Nat
  | forward | backward => 1
  | symmetrical => 2
  | fourthOrder => 4

noncomputable def estimate (scheme : Scheme) (φ : ℝ → ℝ) (eps : ℝ) : ℝ :=
  match scheme with
  | forward => (φ eps - φ 0) / eps
  | backward => (φ 0 - φ (-eps)) / eps
  | symmetrical => (φ eps - φ (-eps)) / (2.0 * eps)
  | fourthOrder =>
    (-φ (2.0 * eps) + 8.0 * φ eps - 8.0 * φ (-eps) + φ (-2.0 * eps)) / (12.0 * eps)

theorem derivative_eval_zero (p : ℝ[X]) : p.derivative.eval 0 = p.coeff 1 := by
  rw [← coeff_zero_eq_eval_zero, coeff_derivative]
  simp

theorem estimate_eval (scheme : Scheme) {p : ℝ[X]} (degree : p.natDegree ≤ scheme.exactDegree)
    {eps : ℝ} (bump : eps ≠ 0) : scheme.estimate (fun t => p.eval t) eps = p.derivative.eval 0 := by
  -- a polynomial of degree at most `d` is its first `d + 1` monomials
  have expand (t : ℝ) := eval_eq_sum_range' (Nat.lt_succ_of_le degree) t
  rw [derivative_eval_zero]
  cases scheme <;>
    simp only [estimate, exactDegree, expand, Finset.sum_range_succ, Finset.sum_range_zero] <;>
    norm_num <;> field_simp <;> ring

end Scheme

namespace Bump

theorem bumped_eq_set {x : List ℝ} {i : Nat} (inside : i < x.length) (shift : ℝ) :
    bumped x i shift = x.set i (x[i] + shift) :=
  List.modify_eq_set_get (· + shift) inside

def line (f : List ℝ → ℝ) (x : List ℝ) (j : Nat) (t : ℝ) : ℝ := f (x.set j (x.getD j 0 + t))

theorem component_total (f : List ℝ → ℝ) (x : List ℝ) (eps : ℝ) {j : Nat} (inside : j < x.length)
    (scheme : Scheme) {y0 : ℝ} (start : scheme = .forward ∨ scheme = .backward → y0 = f x) :
    component (fun y => .ok (f y)) x eps y0 j scheme = .ok (scheme.estimate (line f x j) eps) := by
  have along (t : ℝ) : line f x j t = f (x.set j (x[j] + t)) := by
    simp [line, List.getElem?_eq_getElem inside]
  cases scheme <;>
    simp [component, Scheme.estimate, along, bumped_eq_set inside, start, bind, Except.bind, pure,
      Except.pure]

theorem mapM_eq_ok {β γ : Type} {h : β → Except Fault γ} {k : β → γ} {l : List β}
    (each : ∀ b ∈ l, h b = .ok (k b)) : l.mapM h = .ok (l.map k) := by
  induction l with
  | nil => rfl
  | cons b l ih =>
    simp only [List.mapM_cons, List.map_cons, each b List.mem_cons_self,
      ih fun c mem => each c (List.mem_cons_of_mem b mem)]
    rfl

theorem differentiate_total (f : List ℝ → ℝ) (x : List ℝ) (eps : ℝ) (scheme : Scheme) :
    differentiate (fun y => .ok (f y)) x eps scheme =
      .ok ((List.range x.length).map fun j => scheme.estimate (line f x j) eps) := by
  have each (y0 : ℝ) (start : scheme = .forward ∨ scheme = .backward → y0 = f x) :
      (List.range x.length).mapM (fun j => component (fun y => .ok (f y)) x eps y0 j scheme) =
        .ok ((List.range x.length).map fun j => scheme.estimate (line f x j) eps) :=
    mapM_eq_ok fun j mem => component_total f x eps (List.mem_range.1 mem) scheme start
  cases scheme with
  | forward => exact each (f x) fun _ => rfl
  | backward => exact each (f x) fun _ => rfl
  | symmetrical => exact each 0.0 (by simp)
  | fourthOrder => exact each 0.0 (by simp)

theorem getElem?_bumped {x : List ℝ} {i : Nat} (shift : ℝ) {k : Nat} (other : k ≠ i) :
    (bumped x i shift)[k]? = x[k]? := by
  simp [bumped, Ne.symm other]

end Bump

/-- Along a line on which the function is a polynomial of at most the scheme's degree, the
finite-difference estimate of that component is exactly the partial derivative, whatever the bump;
and every point the estimate evaluates differs from `x` in that component only. -/
theorem differentiate_exact_on_polynomials (scheme : Scheme) (f : List ℝ → ℝ) (x : List ℝ)
    {eps : ℝ} (bump : eps ≠ 0) {i : Nat} (inside : i < x.length) {p : ℝ[X]}
    (along : ∀ t, f (x.set i (x[i] + t)) = p.eval t) (degree : p.natDegree ≤ scheme.exactDegree) :
    (∃ g, Bump.differentiate (fun y => .ok (f y)) x eps scheme = .ok g ∧ g.length = x.length ∧
      ∃ within : i < g.length, g[i] = p.derivative.eval 0 ∧
        HasDerivAt (fun t => f (x.set i (x[i] + t))) g[i] 0) ∧
    ∀ shift, (Bump.bumped x i shift).length = x.length ∧
      ∀ k, k ≠ i → (Bump.bumped x i shift)[k]? = x[k]? := by
  -- along the line the function is the polynomial, so the stencil sees only `p`
  have line_eq : Bump.line f x i = fun t => p.eval t := by
    funext t
    simp [Bump.line, List.getElem?_eq_getElem inside, along]
  have exact : scheme.estimate (Bump.line f x i) eps = p.derivative.eval 0 := by
    rw [line_eq]
    exact scheme.estimate_eval degree bump
  refine ⟨⟨_, Bump.differentiate_total f x eps scheme, by simp, by simpa using inside, ?_⟩,
    fun shift => ⟨by simp [Bump.bumped], fun k other => Bump.getElem?_bumped shift other⟩⟩
  simp only [List.getElem_map, List.getElem_range, exact, true_and]
  rw [funext along]
  exact p.hasDerivAt 0

theorem cubic_exact_under_fourth_order :
    let x : List ℝ := [1, 2]
    let f : List ℝ → ℝ := fun y => y.getD 0 0 ^ 3 * y.getD 1 0
    let p : ℝ[X] := C 2 * (X + 1) ^ 3
    ((1 : ℝ) / 10 ≠ 0 ∧ (∀ t, f (x.set 0 (x[0] + t)) = p.eval t) ∧
      p.natDegree ≤ Scheme.fourthOrder.exactDegree) ∧
    (∃ g, Bump.differentiate (fun y => .ok (f y)) x (1 / 10) .fourthOrder = .ok g ∧
      g.length = x.length ∧ ∃ within : 0 < g.length, g[0] = p.derivative.eval 0 ∧
        HasDerivAt (fun t => f (x.set 0 (x[0] + t))) g[0] 0) ∧
    ∀ shift, (Bump.bumped x 0 shift).length = x.length ∧
      ∀ k, k ≠ 0 → (Bump.bumped x 0 shift)[k]? = x[k]? := by
  intro x f p
  have along : ∀ t, f (x.set 0 (x[0] + t)) = p.eval t := by
    intro t
    simp [x, f, p]
    ring
  have degree : p.natDegree ≤ Scheme.fourthOrder.exactDegree := by
    simp only [Scheme.exactDegree, p]
    compute_degree!
  exact ⟨⟨by norm_num, along, degree⟩,
    differentiate_exact_on_polynomials .fourthOrder f x (by norm_num) (by simp [x]) along degree⟩

end AdjointDiff
