import AdjointDiff.Bump.Scheme
import AdjointDiff.Scalar.Float

set_option autoImplicit false

namespace AdjointDiff

namespace Bump

variable {α : Type} [Scalar α]

def bumped (x : List α) (i : Nat) (shift : α) : List α := x.modify i (· + shift)

def component (f : List α → Except Fault α) (x : List α) (eps y0 : α) (i : Nat) :
    Scheme → Except Fault α
  | .forward => do pure (((← f (bumped x i eps)) - y0) / eps)
  | .backward => do pure ((y0 - (← f (bumped x i (-eps)))) / eps)
  | .symmetrical => do
    pure (((← f (bumped x i eps)) - (← f (bumped x i (-eps)))) / (2.0 * eps))
  | .fourthOrder => do
    let up2 ← f (bumped x i (2.0 * eps))
    let up1 ← f (bumped x i eps)
    let down1 ← f (bumped x i (-eps))
    let down2 ← f (bumped x i (-2.0 * eps))
    pure ((-up2 + 8.0 * up1 - 8.0 * down1 + down2) / (12.0 * eps))

/-- The finite-difference gradient of `f` at `x` with bump `eps`. The one-sided schemes
evaluate `f` at `x` once, first. -/
def differentiate (f : List α → Except Fault α) (x : List α) (eps : α) (scheme : Scheme) :
    Except Fault (List α) := do
  let y0 ← match scheme with
    | .forward | .backward => f x
    | .symmetrical | .fourthOrder => pure 0.0
  (List.range x.length).mapM fun i => component f x eps y0 i scheme

/-- A gradient compared with its finite-difference estimate. -/
structure Check (α : Type) where
  scheme : Scheme
  epsilon : α
  tolerance : α
  gradient : List α
  estimate : List α

namespace Check

def errors (c : Check α) : List α :=
  (c.gradient.zip c.estimate).map fun (g, d) => Scalar.abs (g - d)

def passed (c : Check α) : Bool := c.errors.all fun e => decide (e < c.tolerance)

end Check

def check (f : List α → Except Fault α) (gradient x : List α) (scheme : Scheme)
    (eps tolerance : α) : Except Fault (Check α) := do
  let estimate ← differentiate f x eps scheme
  if gradient.length ≠ estimate.length then
    throw (.gradientShape gradient.length estimate.length)
  pure ⟨scheme, eps, tolerance, gradient, estimate⟩

def Check.report (c : Check Float) : String :=
  let head := "Gradient check (" ++ c.scheme.value ++ ", eps=" ++
    Decimal.scientific 1 false c.epsilon ++ ", tol=" ++ Decimal.scientific 1 false c.tolerance ++
    ")\n"
  let rows := ((c.gradient.zip c.estimate).zip c.errors).zipIdx.map fun (((g, d), e), i) =>
    "  x[" ++ toString i ++ "]: adjoint=" ++ Decimal.scientific 10 true g ++ "  bumped=" ++
      Decimal.scientific 10 true d ++ "  err=" ++ Decimal.scientific 2 false e ++ "  " ++
      (if e < c.tolerance then "ok" else "FAIL") ++ "\n"
  head ++ String.join rows

end Bump

end AdjointDiff
