import AdjointDiff.Decimal.Notation
import AdjointDiff.Scalar.Float
import AdjointDiff.Program.Run
import AdjointDiff.Bump.Subject
import AdjointDiff.Proofs.Program.Refusal
import AdjointDiff.Proofs.Real.Sweep
import AdjointDiff.Proofs.Real.Gradient
import AdjointDiff.Proofs.Pricing.PriceMethods
import AdjointDiff.Proofs.Program.Output
import AdjointDiff.Proofs.Real.Substitution
import AdjointDiff.Proofs.Pricing.VolatilityDomain
import AdjointDiff.Proofs.Real.Domain
import AdjointDiff.Proofs.Pricing.VolatilityMethods
import AdjointDiff.Proofs.Smile.Interpolation
import AdjointDiff.Proofs.Pricing.Parity
import AdjointDiff.Proofs.Smile.Recording
import AdjointDiff.Proofs.Smile.Delta
import AdjointDiff.Proofs.Tape.Summary
import AdjointDiff.Proofs.Smile.Segment
import AdjointDiff.Proofs.Bump.Polynomial
import AdjointDiff.Proofs.Starter.Methods
