set_option autoImplicit false

namespace AdjointDiff

/-- The elementary operation behind a tape entry. -/
inductive Kind where
  | input
  | manual
  | add
  | addConst
  | sub
  | mul
  | mulConst
  | div
  | pow
  | powConst
  | sin
  | cos
  | exp
  | log
  | sqrt
  | normalCdf
deriving Repr, DecidableEq, Inhabited

namespace Kind

def all : List Kind :=
  [input, manual, add, addConst, sub, mul, mulConst, div, pow, powConst, sin, cos, exp, log,
   sqrt, normalCdf]

def tag : Kind → String
  | input => "input"
  | manual => "manual"
  | add => "add"
  | addConst => "add_const"
  | sub => "sub"
  | mul => "mul"
  | mulConst => "mul_const"
  | div => "div"
  | pow => "pow"
  | powConst => "pow_const"
  | sin => "sin"
  | cos => "cos"
  | exp => "exp"
  | log => "log"
  | sqrt => "sqrt"
  | normalCdf => "norm_cdf"

def ofTag? (s : String) : Option Kind := all.find? (·.tag == s)

end Kind

end AdjointDiff
