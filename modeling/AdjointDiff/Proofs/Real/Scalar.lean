import Mathlib.Analysis.SpecialFunctions.Pow.Real
import Mathlib.Analysis.SpecialFunctions.Trigonometric.Basic
import Mathlib.MeasureTheory.Integral.IntervalIntegral.FundThmCalculus
import Mathlib.Probability.Distributions.Gaussian.Real
import AdjointDiff.Scalar.Basic

set_option autoImplicit false

open ProbabilityTheory

namespace AdjointDiff

noncomputable section

def gaussianCdf (x : ℝ) : ℝ := ∫ t in Set.Iic x, gaussianPDFReal 0 1 t

instance : Scalar ℝ where
  decLt _ _ := Classical.propDecidable _
  decLe _ _ := Classical.propDecidable _
  abs x := |x|
  sqrt := Real.sqrt
  exp := Real.exp
  log := Real.log
  sin := Real.sin
  cos := Real.cos
  pow x y := x ^ y
  pi := Real.pi
  normalCdf := gaussianCdf
  finite _ := true
  text _ := ""

end

namespace Scalar

@[simp] theorem abs_real (x : ℝ) : Scalar.abs x = |x| := rfl
@[simp] theorem sqrt_real (x : ℝ) : Scalar.sqrt x = Real.sqrt x := rfl
@[simp] theorem exp_real (x : ℝ) : Scalar.exp x = Real.exp x := rfl
@[simp] theorem log_real (x : ℝ) : Scalar.log x = Real.log x := rfl
@[simp] theorem sin_real (x : ℝ) : Scalar.sin x = Real.sin x := rfl
@[simp] theorem cos_real (x : ℝ) : Scalar.cos x = Real.cos x := rfl
@[simp] theorem pow_real (x y : ℝ) : Scalar.pow x y = x ^ y := rfl
@[simp] theorem pi_real : (Scalar.pi : ℝ) = Real.pi := rfl
@[simp] theorem normalCdf_real (x : ℝ) : Scalar.normalCdf x = gaussianCdf x := rfl

@[simp] theorem zero_real : (0.0 : ℝ) = 0 := by norm_num
@[simp] theorem one_real : (1.0 : ℝ) = 1 := by norm_num
@[simp] theorem half_real : (0.5 : ℝ) = 1 / 2 := by norm_num
@[simp] theorem two_real : (2.0 : ℝ) = 2 := by norm_num

@[simp] theorem isZero_real (x : ℝ) : Scalar.isZero x = decide (x = 0) := by
  simp [Scalar.isZero, le_antisymm_iff]

theorem omega_mul_self (isCall : Bool) : (Scalar.omega isCall : ℝ) * Scalar.omega isCall = 1 := by
  cases isCall <;> simp [Scalar.omega]

theorem normalPdf_real (x : ℝ) : normalPdf x = gaussianPDFReal 0 1 x := by
  simp only [normalPdf, gaussianPDFReal, exp_real, sqrt_real, pi_real, half_real, two_real]
  -- both are the density `exp (-x² / 2) / √(2π)`, written in two orders
  rw [div_eq_inv_mul]
  congr 2
  · simp
  · simp only [NNReal.coe_one, sub_zero, mul_one]
    ring

end Scalar

theorem continuous_gaussianPDFReal : Continuous (gaussianPDFReal 0 1) := by
  rw [gaussianPDFReal_def]
  fun_prop

theorem hasDerivAt_gaussianCdf (x : ℝ) : HasDerivAt gaussianCdf (Scalar.normalPdf x) x := by
  have integrable : ∀ a : ℝ, MeasureTheory.IntegrableOn (gaussianPDFReal 0 1) (Set.Iic a) :=
    fun a => (integrable_gaussianPDFReal 0 1).integrableOn
  -- below any point the mass is the mass below zero plus the integral from zero
  have split : gaussianCdf = fun u => gaussianCdf 0 + ∫ t in (0 : ℝ)..u, gaussianPDFReal 0 1 t := by
    funext u
    rw [← intervalIntegral.integral_Iic_sub_Iic (integrable 0) (integrable u)]
    simp only [gaussianCdf]
    ring
  have grows := intervalIntegral.integral_hasDerivAt_right
    (continuous_gaussianPDFReal.intervalIntegrable 0 x)
    continuous_gaussianPDFReal.aestronglyMeasurable.stronglyMeasurableAtFilter
    continuous_gaussianPDFReal.continuousAt
  rw [split, Scalar.normalPdf_real]
  exact grows.const_add _

end AdjointDiff
