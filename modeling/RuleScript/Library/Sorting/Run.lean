/-
# Runs

A run is a stretch of a list that is in order. `frontRun` finds the run at
the front of a list: elements already in order, or strictly in the opposite
order, which are then reversed. `insertAll` makes a run longer: every further
element is put behind the elements of the run that it is not less than, and
its place is found by halving. A comparison may stop without an answer, and
then the elements are handed back as they stand, so none is lost.

Key definitions: `Comparison`, `frontRun`, `insertAll`.
-/
import RuleScript.Machine

namespace RuleScript

/-- Whether one value is less than another. -/
abbrev Comparison := Value → Value → Eval Bool

/-- A computation with its stop made a result. -/
def Eval.attempt {α : Type} (act : Eval α) : Eval (Except Stop α) := fun m =>
  match act m with
  | (.ok a, m') => (.ok (.ok a), m')
  | (.error e, m') => (.ok (.error e), m')

namespace Sorting

/-- How many elements after `last` continue a run: each less than the one
before it if `descending`, else none less than the one before it. -/
def runLength (lt : Comparison) (descending : Bool) (last : Value) : List Value → Eval Nat
  | [] => pure 0
  | x :: xs => do
    if (← lt x last) == descending then
      return (← runLength lt descending x xs) + 1
    else return 0

/-- The length of the run at the front, and whether it descends. -/
def frontRun (lt : Comparison) : List Value → Eval (Nat × Bool)
  | [] => pure (0, false)
  | [_] => pure (1, false)
  | x :: y :: rest => do
    let descending ← lt y x
    return ((← runLength lt descending y rest) + 2, descending)

/-- The place of `pivot` between positions `l` and `r` of the sorted
elements. -/
def placeBetween (lt : Comparison) (sorted : List Value) (pivot : Value) :
    (fuel l r : Nat) → Eval Nat
  | 0, l, _ => pure l
  | fuel + 1, l, r =>
    if l < r then do
      let p := l + (r - l) / 2
      if ← lt pivot (sorted.getD p .null) then placeBetween lt sorted pivot fuel l p
      else placeBetween lt sorted pivot fuel (p + 1) r
    else pure l

/-- Put the remaining elements in place one after the other. -/
def insertAll (lt : Comparison) (sorted : List Value) :
    List Value → Eval (List Value × Option Stop)
  | [] => pure (sorted, none)
  | x :: rest => do
    match ← Eval.attempt (placeBetween lt sorted x (sorted.length + 1) 0 sorted.length) with
    | .error e => return (sorted ++ x :: rest, some e)
    | .ok k => insertAll lt (sorted.take k ++ x :: sorted.drop k) rest

end Sorting

end RuleScript
