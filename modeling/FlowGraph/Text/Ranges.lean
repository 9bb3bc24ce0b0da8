/-!
# Sets of characters as ranges of code points

The character classes this library needs beyond ASCII are tables of ranges, both ends included and
in ascending order.
-/

namespace FlowGraph.Text

/-- Whether the code point of `c` lies in one of the ranges. -/
def within (ranges : List (Nat × Nat)) (c : Char) : Bool :=
  ranges.any fun (first, last) => first ≤ c.toNat && c.toNat ≤ last

end FlowGraph.Text
