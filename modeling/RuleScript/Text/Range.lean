/-
# Tables of code points

A class of characters is given by a table of closed ranges of code points.

Key definitions: `inRanges`.
-/

namespace RuleScript.Text

/-- Whether the code point `n` lies in one of the closed ranges of a table. -/
def inRanges (table : Array (Nat × Nat)) (n : Nat) : Bool :=
  table.any fun r => r.1 ≤ n && n ≤ r.2

end RuleScript.Text
