/-!
# Ranges of characters

A class of characters beyond ASCII is kept as the list of its ranges of code points.
-/

namespace LaunchGraph.Text

/-- Whether `n` lies in one of the ranges, ends included. -/
def inRanges (rs : List (Nat × Nat)) (n : Nat) : Bool :=
  rs.any fun r => r.1 ≤ n && n ≤ r.2

end LaunchGraph.Text
