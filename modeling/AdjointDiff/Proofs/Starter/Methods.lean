import AdjointDiff.Proofs.Real.Substitution
import AdjointDiff.Proofs.Smile.Interpolation

set_option autoImplicit false

namespace AdjointDiff

open Recorder StraightLine

namespace Starter

noncomputable def formula (a : List ℝ) : ℝ :=
  Real.cos (a.getD 0 0 + Real.exp (a.getD 1 0)) * (Real.sin (a.getD 2 0) + Real.cos (a.getD 3 0)) +
    a.getD 1 0 ^ (1.5 : ℝ) + a.getD 3 0

noncomputable def partials (a : List ℝ) : List ℝ :=
  let b1 := a.getD 0 0 + Real.exp (a.getD 1 0)
  let b2 := Real.sin (a.getD 2 0) + Real.cos (a.getD 3 0)
  [-(b2 * Real.sin b1), 1.5 * √(a.getD 1 0) - Real.exp (a.getD 1 0) * (b2 * Real.sin b1),
    Real.cos (a.getD 2 0) * Real.cos b1, 1 - Real.sin (a.getD 3 0) * Real.cos b1] ++
    List.replicate (a.length - 4) 0

theorem rpow_three_halves_div {x : ℝ} (positive : 0 < x) : x ^ (1.5 : ℝ) / x = √x := by
  rw [← Real.rpow_sub_one positive.ne', Real.sqrt_eq_rpow]
  norm_num

theorem hasDerivAt_rpow_three_halves {x : ℝ} (positive : 0 < x) :
    HasDerivAt (fun u : ℝ => u ^ (1.5 : ℝ)) (1.5 * √x) x := by
  have derivative := Real.hasDerivAt_rpow_const (p := 1.5) (Or.inl positive.ne')
  rw [Real.sqrt_eq_rpow]
  convert derivative using 2
  norm_num

theorem exists_four_cons {β : Type} {l : List β} (four : 4 ≤ l.length) :
    ∃ x0 x1 x2 x3 rest, l = x0 :: x1 :: x2 :: x3 :: rest := by
  match l, four with
  | x0 :: x1 :: x2 :: x3 :: rest, _ => exact ⟨x0, x1, x2, x3, rest, rfl⟩

theorem length_partials {a : List ℝ} (four : 4 ≤ a.length) : (partials a).length = a.length := by
  simp [partials]
  omega

variable (a0 a1 a2 a3 : ℝ) (rest : List ℝ)

theorem value_eq (ar : Arith) :
    value ar (a0 :: a1 :: a2 :: a3 :: rest) = .ok (formula (a0 :: a1 :: a2 :: a3 :: rest)) := by
  simp [value, formula, Arith.get_eq_ok, bind, Except.bind, pure, Except.pure]
  ring

theorem valueAdjoint_eq (ar : Arith) :
    valueAdjoint ar (a0 :: a1 :: a2 :: a3 :: rest) =
      .ok (formula (a0 :: a1 :: a2 :: a3 :: rest), partials (a0 :: a1 :: a2 :: a3 :: rest)) := by
  simp [valueAdjoint, formula, partials, gradient, Arith.get_eq_ok, bind, Except.bind, pure,
    Except.pure]
  constructor <;> ring

theorem valueAdjointOptimized_eq (ar : Arith) (positive : 0 < a1) :
    valueAdjointOptimized ar (a0 :: a1 :: a2 :: a3 :: rest) =
      .ok (formula (a0 :: a1 :: a2 :: a3 :: rest), partials (a0 :: a1 :: a2 :: a3 :: rest)) := by
  have power : 1.5 * a1 ^ (1.5 : ℝ) / a1 = 1.5 * √a1 := by
    rw [mul_div_assoc, rpow_three_halves_div positive]
  simp [valueAdjointOptimized, formula, partials, gradient, Arith.get_eq_ok, power, bind,
    Except.bind, pure, Except.pure]
  constructor <;> ring

theorem hasDerivAt_formula (positive : 0 < a1) {k : Nat}
    (within : k < (partials (a0 :: a1 :: a2 :: a3 :: rest)).length) :
    HasDerivAt (fun u => formula ((a0 :: a1 :: a2 :: a3 :: rest).set k u))
      (partials (a0 :: a1 :: a2 :: a3 :: rest))[k] ((a0 :: a1 :: a2 :: a3 :: rest).getD k 0) := by
  set b1 := a0 + Real.exp a1
  set b2 := Real.sin a2 + Real.cos a3
  match k, within with
  | 0, _ =>
    have along := ((((hasDerivAt_id a0).add_const (Real.exp a1)).cos.mul_const b2).add_const
      (a1 ^ (1.5 : ℝ))).add_const a3
    simp only [formula, partials, List.set_cons_zero]
    exact along.congr_deriv (by simp [b2]; ring)
  | 1, _ =>
    -- `a₁` moves the cosine's argument and the power
    have along := ((((hasDerivAt_id a1).exp.const_add a0).cos.mul_const b2).add
      (hasDerivAt_rpow_three_halves positive)).add_const a3
    simp only [formula, partials, List.set_cons_succ, List.set_cons_zero]
    exact along.congr_deriv (by simp [b2]; ring)
  | 2, _ =>
    have along := ((((hasDerivAt_id a2).sin.add_const (Real.cos a3)).const_mul (Real.cos b1)).add_const
      (a1 ^ (1.5 : ℝ))).add_const a3
    simp only [formula, partials, List.set_cons_succ, List.set_cons_zero]
    exact along.congr_deriv (by simp [b1]; ring)
  | 3, _ =>
    -- `a₃` moves the cosine and the last term
    have along := ((((hasDerivAt_id a3).cos.const_add (Real.sin a2)).const_mul (Real.cos b1)).add_const
      (a1 ^ (1.5 : ℝ))).add (hasDerivAt_id a3)
    simp only [formula, partials, List.set_cons_succ, List.set_cons_zero]
    exact along.congr_deriv (by simp [b1]; ring)
  | k + 4, _ =>
    have still : (fun u => formula ((a0 :: a1 :: a2 :: a3 :: rest).set (k + 4) u)) =
        fun _ => formula (a0 :: a1 :: a2 :: a3 :: rest) := by
      funext u
      simp [formula]
    rw [still]
    simpa [partials] using hasDerivAt_const (rest.getD k 0) (formula (a0 :: a1 :: a2 :: a3 :: rest))

noncomputable def calls : List Call :=
  [.exp 1, .add 0 4, .sin 2, .cos 3, .add 6 7, .powConst 1 1.5, .add 9 3, .cos 5, .mul 11 8,
    .add 12 10]

theorem reads_before : ReadsBefore 4 calls := by
  simp [calls, ReadsBefore, Call.operands]

theorem recorded_eq_recordFrom (x : Nat → ℝ) (n : Nat) (h0 h1 h2 h3 : Var ℝ)
    (hrest : List (Var ℝ)) :
    recorded (h0 :: h1 :: h2 :: h3 :: hrest) =
      recordFrom x n [h0, h1, h2, h3] calls >>= fun ws => pure (ws.getD 13 ⟨0, 0⟩) := by
  simp [recorded, elementAt, Recorder.lift, calls, recordFrom, Call.record]

theorem dual_calls (x dx : Nat → ℝ) (n : Nat) (d0 d1 d2 d3 : ℝ × ℝ) (positive : 0 < d1.1)
    (drest : List (ℝ × ℝ)) :
    (dualFrom x dx n [d0, d1, d2, d3] calls).getD 13 (0, 0) =
      (formula ((d0 :: d1 :: d2 :: d3 :: drest).map Prod.fst),
        (List.zipWith (· * ·) (partials ((d0 :: d1 :: d2 :: d3 :: drest).map Prod.fst))
          ((d0 :: d1 :: d2 :: d3 :: drest).map Prod.snd)).sum) := by
  set E := fun a => (dualFrom x dx n [d0, d1, d2, d3] calls).getD a (0, 0)
  -- each handle past the inputs is its call's dual number, read off the handles before it
  have step (k : Nat) (c : Call) (found : calls[k]? = some c) :
      E (4 + k) = c.dual x dx (n + inputCount (calls.take k)) E :=
    dualFrom_getD_call x dx n [d0, d1, d2, d3] found (reads_before.getElem? k c found)
  have input (i : Nat) (below : i < 4) : E i = [d0, d1, d2, d3].getD i (0, 0) :=
    dualFrom_getD_of_lt x dx n _ _ below
  obtain ⟨a0, ρ0⟩ := d0
  obtain ⟨a1, ρ1⟩ := d1
  obtain ⟨a2, ρ2⟩ := d2
  obtain ⟨a3, ρ3⟩ := d3
  simp only at positive
  have e5 : E 5 = (a0 + Real.exp a1, ρ0 + Real.exp a1 * ρ1) := by
    rw [step 1 _ rfl]
    simp only [Call.dual]
    rw [step 0 _ rfl]
    simp [Call.dual, input]
  have e8 : E 8 = (Real.sin a2 + Real.cos a3, Real.cos a2 * ρ2 + -Real.sin a3 * ρ3) := by
    rw [step 4 _ rfl]
    simp only [Call.dual]
    rw [step 2 _ rfl, step 3 _ rfl]
    simp [Call.dual, input]
  -- the power rule `p · y / a` is `1.5 · √a₁` at a positive `a₁`
  have e10 : E 10 = (a1 ^ (1.5 : ℝ) + a3, 1.5 * √a1 * ρ1 + ρ3) := by
    rw [step 6 _ rfl]
    simp only [Call.dual]
    rw [step 5 _ rfl]
    simp [Call.dual, input, mul_div_assoc, rpow_three_halves_div positive]
  have e13 : E 13 = (Real.cos (a0 + Real.exp a1) * (Real.sin a2 + Real.cos a3) +
      (a1 ^ (1.5 : ℝ) + a3),
      (Real.sin a2 + Real.cos a3) * (-Real.sin (a0 + Real.exp a1) * (ρ0 + Real.exp a1 * ρ1)) +
        Real.cos (a0 + Real.exp a1) * (Real.cos a2 * ρ2 + -Real.sin a3 * ρ3) +
        (1.5 * √a1 * ρ1 + ρ3)) := by
    rw [step 9 _ rfl]
    simp only [Call.dual]
    rw [step 8 _ rfl, e10]
    simp only [Call.dual]
    rw [step 7 _ rfl, e8]
    simp [Call.dual, e5]
  show E 13 = _
  rw [e13]
  refine Prod.ext (by simp [formula]; ring) ?_
  simp [partials, sum_zipWith_replicate_zero]
  ring

theorem yields_recorded {t : Tape ℝ} {r n : Nat} (clean : t.Clean)
    (count : t.inputRank t.size = n) {hs : List (Var ℝ)} {ds : List (ℝ × ℝ)}
    (tracked : List.Forall₂ (Tracks t r) hs ds) (four : 4 ≤ ds.length)
    (positive : 0 < (ds.map Prod.fst).getD 1 0) :
    Yields r n (recorded hs) t
      (formula (ds.map Prod.fst),
        (List.zipWith (· * ·) (partials (ds.map Prod.fst)) (ds.map Prod.snd)).sum) := by
  obtain ⟨d0, d1, d2, d3, drest, rfl⟩ := exists_four_cons four
  obtain ⟨h0, h1, h2, h3, hrest, rfl⟩ := exists_four_cons (tracked.length_eq ▸ four)
  -- the calls read the handles on the first four components only
  have first : List.Forall₂ (Tracks t r) [h0, h1, h2, h3] [d0, d1, d2, d3] := by
    simp only [List.forall₂_cons] at tracked ⊢
    exact ⟨tracked.1, tracked.2.1, tracked.2.2.1, tracked.2.2.2.1, .nil⟩
  have yields := yields_recordFrom_last (fun _ => 0) calls clean count
    (tracksAll_of_forall₂ first) reads_before.getElem? (by simp [calls])
  rw [recorded_eq_recordFrom (fun _ => 0) n, ← dual_calls (fun _ => 0)
    (fun m => if m = r then 1 else 0) n d0 d1 d2 d3 (by simpa using positive) drest]
  simpa [calls, inputCount, Call.isInput] using yields

end Starter

/-- The methods of the starter function agree: over the reals, for every input whose second
component is positive, the plain value, the two hand-written sweeps, the recording swept from its
last entry and the recording swept from the handle it answers give the function's value and one
gradient, and each component of that gradient is the function's partial derivative there. -/
theorem starter_methods_agree (a : List ℝ) (four : 4 ≤ a.length) (positive : 0 < a.getD 1 0) :
    ∃ g, g.length = a.length ∧
      StarterMethod.value.evaluate a = .ok (.value (Starter.formula a)) ∧
      StarterMethod.adjoint.evaluate a = .ok (.withGradient (Starter.formula a) g) ∧
      StarterMethod.adjointOptimized.evaluate a = .ok (.withGradient (Starter.formula a) g) ∧
      (∃ summary, StarterMethod.recorded.evaluate a = .ok (.onTape (Starter.formula a) g summary)) ∧
      readOut (Record.inputs a >>= Starter.recorded) = .ok (Starter.formula a, g) ∧
      ∀ k (within : k < g.length),
        HasDerivAt (fun u => Starter.formula (a.set k u)) g[k] (a.getD k 0) := by
  obtain ⟨a0, a1, a2, a3, rest, rfl⟩ := Starter.exists_four_cons four
  simp only [List.getD_cons_succ, List.getD_cons_zero] at positive
  -- from any handles that track the input, the recording yields the value and the partials
  have recorded {t : Tape ℝ} {r n : Nat} {hs : List (Var ℝ)} {ds : List (ℝ × ℝ)}
      (clean : t.Clean) (count : t.inputRank t.size = n)
      (tracked : List.Forall₂ (Tracks t r) hs ds)
      (values : ds.map Prod.fst = a0 :: a1 :: a2 :: a3 :: rest) :
      Yields r n (Starter.recorded hs) t (Starter.formula (a0 :: a1 :: a2 :: a3 :: rest),
        (List.zipWith (· * ·) (Starter.partials (a0 :: a1 :: a2 :: a3 :: rest))
          (ds.map Prod.snd)).sum) := by
    have lengths : ds.length = rest.length + 4 := by
      rw [← List.length_map Prod.fst, values]
      rfl
    have yields := Starter.yields_recorded clean count tracked (by omega) (by simpa [values])
    rwa [values] at yields
  have length := Starter.length_partials four
  refine ⟨_, length, ?_, ?_, ?_, ofRecording_inputs _ length recorded,
    readOut_inputs _ length recorded,
    fun k within => Starter.hasDerivAt_formula a0 a1 a2 a3 rest positive within⟩
  · simp [StarterMethod.evaluate, Starter.value_eq]
  · simp [StarterMethod.evaluate, Starter.valueAdjoint_eq, Evaluation.ofPair]
  · simp [StarterMethod.evaluate, Starter.valueAdjointOptimized_eq _ _ _ _ _ _ positive,
      Evaluation.ofPair]

theorem starter_methods_agree_on_five :
    let a : List ℝ := [0, 1, 0, 0, 5]
    (4 ≤ a.length ∧ 0 < a.getD 1 0) ∧
    ∃ g, g.length = a.length ∧
      StarterMethod.value.evaluate a = .ok (.value (Starter.formula a)) ∧
      StarterMethod.adjoint.evaluate a = .ok (.withGradient (Starter.formula a) g) ∧
      StarterMethod.adjointOptimized.evaluate a = .ok (.withGradient (Starter.formula a) g) ∧
      (∃ summary, StarterMethod.recorded.evaluate a = .ok (.onTape (Starter.formula a) g summary)) ∧
      readOut (Record.inputs a >>= Starter.recorded) = .ok (Starter.formula a, g) ∧
      ∀ k (within : k < g.length),
        HasDerivAt (fun u => Starter.formula (a.set k u)) g[k] (a.getD k 0) := by
  intro a
  exact ⟨⟨by simp [a], by simp [a]⟩, starter_methods_agree a (by simp [a]) (by simp [a])⟩

end AdjointDiff
