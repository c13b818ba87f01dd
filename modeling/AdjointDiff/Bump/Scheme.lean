set_option autoImplicit false

namespace AdjointDiff

inductive Scheme where
  | forward
  | backward
  | symmetrical
  | fourthOrder
deriving Repr, DecidableEq

namespace Scheme

def value : Scheme → String
  | forward => "forward"
  | backward => "backward"
  | symmetrical => "symmetrical"
  | fourthOrder => "fourth_order"

def ofValue? (s : String) : Option Scheme :=
  [forward, backward, symmetrical, fourthOrder].find? (·.value == s)

def defaults : Scheme → Float × Float
  | forward => (1.0e-6, 1.0e-2)
  | backward => (1.0e-6, 1.0e-2)
  | symmetrical => (1.0e-6, 1.0e-6)
  | fourthOrder => (1.0e-4, 1.0e-6)

end Scheme

end AdjointDiff
