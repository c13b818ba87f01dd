import AdjointDiff.Proofs.Real.Scalar

set_option autoImplicit false

namespace AdjointDiff

/-- A real number, and whether every division, logarithm and square root that went into it met
its domain: a nonzero divisor, a positive argument. -/
structure Guarded where
  val : ℝ
  sound : Prop

namespace Guarded

def exact (x : ℝ) : Guarded := ⟨x, True⟩

noncomputable instance : Scalar Guarded where
  add a b := ⟨a.val + b.val, a.sound ∧ b.sound⟩
  sub a b := ⟨a.val - b.val, a.sound ∧ b.sound⟩
  mul a b := ⟨a.val * b.val, a.sound ∧ b.sound⟩
  div a b := ⟨a.val / b.val, a.sound ∧ b.sound ∧ b.val ≠ 0⟩
  neg a := ⟨-a.val, a.sound⟩
  lt a b := a.val < b.val
  le a b := a.val ≤ b.val
  ofScientific m s e := exact (OfScientific.ofScientific m s e)
  decLt _ _ := Classical.propDecidable _
  decLe _ _ := Classical.propDecidable _
  abs a := ⟨|a.val|, a.sound⟩
  sqrt a := ⟨√a.val, a.sound ∧ 0 < a.val⟩
  exp a := ⟨Real.exp a.val, a.sound⟩
  log a := ⟨Real.log a.val, a.sound ∧ 0 < a.val⟩
  sin a := ⟨Real.sin a.val, a.sound⟩
  cos a := ⟨Real.cos a.val, a.sound⟩
  pow a b := ⟨a.val ^ b.val, a.sound ∧ b.sound⟩
  pi := exact Real.pi
  normalCdf a := ⟨gaussianCdf a.val, a.sound⟩
  finite _ := true
  text _ := ""

variable (a b : Guarded)

@[simp] theorem val_exact (x : ℝ) : (exact x).val = x := rfl
@[simp] theorem sound_exact (x : ℝ) : (exact x).sound ↔ True := Iff.rfl
@[simp] theorem val_ofScientific (m : Nat) (s : Bool) (e : Nat) :
    (OfScientific.ofScientific m s e : Guarded).val = OfScientific.ofScientific m s e := rfl
@[simp] theorem sound_ofScientific (m : Nat) (s : Bool) (e : Nat) :
    (OfScientific.ofScientific m s e : Guarded).sound ↔ True := Iff.rfl
@[simp] theorem val_add : (a + b).val = a.val + b.val := rfl
@[simp] theorem sound_add : (a + b).sound ↔ a.sound ∧ b.sound := Iff.rfl
@[simp] theorem val_sub : (a - b).val = a.val - b.val := rfl
@[simp] theorem sound_sub : (a - b).sound ↔ a.sound ∧ b.sound := Iff.rfl
@[simp] theorem val_mul : (a * b).val = a.val * b.val := rfl
@[simp] theorem sound_mul : (a * b).sound ↔ a.sound ∧ b.sound := Iff.rfl
@[simp] theorem val_div : (a / b).val = a.val / b.val := rfl
@[simp] theorem sound_div : (a / b).sound ↔ a.sound ∧ b.sound ∧ b.val ≠ 0 := Iff.rfl
@[simp] theorem val_neg : (-a).val = -a.val := rfl
@[simp] theorem sound_neg : (-a).sound ↔ a.sound := Iff.rfl
@[simp] theorem val_abs : (Scalar.abs a).val = |a.val| := rfl
@[simp] theorem sound_abs : (Scalar.abs a).sound ↔ a.sound := Iff.rfl
@[simp] theorem val_sqrt : (Scalar.sqrt a).val = √a.val := rfl
@[simp] theorem sound_sqrt : (Scalar.sqrt a).sound ↔ a.sound ∧ 0 < a.val := Iff.rfl
@[simp] theorem val_log : (Scalar.log a).val = Real.log a.val := rfl
@[simp] theorem sound_log : (Scalar.log a).sound ↔ a.sound ∧ 0 < a.val := Iff.rfl
@[simp] theorem val_pow : (Scalar.pow a b).val = a.val ^ b.val := rfl
@[simp] theorem sound_pow : (Scalar.pow a b).sound ↔ a.sound ∧ b.sound := Iff.rfl
@[simp] theorem lt_iff : a < b ↔ a.val < b.val := Iff.rfl
@[simp] theorem le_iff : a ≤ b ↔ a.val ≤ b.val := Iff.rfl
@[simp] theorem finite_eq : Scalar.finite a = true := rfl
@[simp] theorem isZero_eq : Scalar.isZero a = decide (a.val = 0) := by
  simp [Scalar.isZero, le_antisymm_iff]

example : ¬ (exact 1 / exact 0).sound := by simp

end Guarded

end AdjointDiff
