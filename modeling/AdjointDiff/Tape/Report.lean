import AdjointDiff.Tape.Summary
import AdjointDiff.Decimal.Notation

set_option autoImplicit false

namespace AdjointDiff

namespace Tape

open Decimal

def rule : String := String.ofList (List.replicate 60 '=')

def breakdownLine (total : Nat) (tagCount : String × Nat) : String :=
  let share : Float := 100.0 * tagCount.2.toFloat / total.toFloat
  "  " ++ padRight 12 tagCount.1 ++ ": " ++ padLeft 6 (grouped tagCount.2) ++ " (" ++
    padLeft 5 (fixed 1 share) ++ "%)"

def entryLine (i : Nat) (e : Entry Float) : String :=
  "  [" ++ padLeft 3 (toString i) ++ "] " ++ padRight 10 e.kind.tag ++ " <- [" ++
    ", ".intercalate (e.operands.map Operand.text) ++ "]  value=" ++ general 6 e.value ++
    "  adjoint=" ++ general 6 e.adjoint

def report (t : Tape Float) (s : Summary) : String :=
  if t.size == 0 then "Empty tape\n" else
  let head :=
    ["", rule, "TAPE SUMMARY", rule,
     "Total entries:      " ++ grouped s.entries,
     "Inputs:             " ++ grouped s.inputs,
     "Total edges:        " ++ grouped s.edges,
     "Max fan-out:        " ++ toString s.maxFanOut,
     "Interpreted:        " ++ (if t.interpreted then "True" else "False"),
     "",
     "Operation breakdown:"]
  let breakdown := (mostCommon s.ops).map (breakdownLine s.entries)
  let listing :=
    if t.size ≤ 100 then "" :: (t.entries.toList.zipIdx.map fun (e, i) => entryLine i e) else []
  String.join ((head ++ breakdown ++ listing ++ [rule, ""]).map (· ++ "\n"))

end Tape

end AdjointDiff
