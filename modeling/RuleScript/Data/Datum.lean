/-
# Data

Plain data: what the data formats can write and read. Integers are kept
apart from other numbers, because they are written without a fraction.

Key definitions: `Datum`, `Datum.depth`.
-/
import RuleScript.Number.Layout

namespace RuleScript

/-- Plain data. -/
inductive Datum where
  | null
  | bool (b : Bool)
  | integer (n : Int)
  | number (x : Float)
  | text (s : String)
  | list (items : List Datum)
  | table (entries : List (String × Datum))
deriving Repr, Inhabited

namespace Datum

mutual

/-- How deep lists and tables nest. -/
def depth : Datum → Nat
  | .list ds => depthOfAll ds + 1
  | .table es => depthOfEntries es + 1
  | _ => 0

/-- How deep lists and tables nest in the elements of a list. -/
def depthOfAll : List Datum → Nat
  | [] => 0
  | d :: ds => max d.depth (depthOfAll ds)

/-- How deep lists and tables nest in the entries of a table. -/
def depthOfEntries : List (String × Datum) → Nat
  | [] => 0
  | (_, d) :: es => max d.depth (depthOfEntries es)

end

end Datum

end RuleScript
