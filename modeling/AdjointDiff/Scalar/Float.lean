import AdjointDiff.Scalar.Basic
import AdjointDiff.Special.ErrorFunction
import AdjointDiff.Decimal.Notation

set_option autoImplicit false

namespace AdjointDiff

instance : Scalar Float where
  decLt := Float.decLt
  decLe := Float.decLe
  abs := Float.abs
  sqrt := Float.sqrt
  exp := Float.exp
  log := Float.log
  sin := Float.sin
  cos := Float.cos
  pow := Float.pow
  pi := 3.141592653589793
  normalCdf := Special.normalCdf
  finite := Float.isFinite
  text := Decimal.shortest

end AdjointDiff
