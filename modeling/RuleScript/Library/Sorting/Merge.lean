/-
# Merging two runs

Two runs that stand side by side become one. Elements that are in their
place already, at the front of the left run and at the end of the right one,
are left out first. The rest is merged from the end where the shorter run
stands: the shorter run is `short`, the other one `long`, both listed from
that end on, so that merging from the right is merging from the left of the
reversed runs with the comparison turned around.

Elements move one by one until one run has won several times in a row. Then
merging gallops: it finds by doubling and halving how many elements of one
run go next, and moves them together. The threshold for galloping falls while
galloping pays and rises when it does not; it is carried from merge to merge.

Equal elements keep their order: from the left run an element goes first
unless the one from the right run is less.

Key definitions: `gallop`, `Merge`, `mergeRuns`.
-/
import RuleScript.Library.Sorting.Run

namespace RuleScript.Sorting

/-- The end at which a merge starts. -/
inductive Side where
  | left
  | right
deriving Repr, DecidableEq

/-! ### Galloping -/

/-- Double the step from `last` to `next` until an element stops it or the
elements end: the last position that did not stop, and the first that may. -/
def reach (stops : Value → Eval Bool) (xs : List Value) : (fuel last next : Nat) → Eval (Nat × Nat)
  | 0, last, next => pure (last, min next xs.length)
  | fuel + 1, last, next =>
    if next < xs.length then do
      if ← stops (xs.getD next .null) then return (last, next)
      else reach stops xs fuel next (2 * next + 1)
    else pure (last, min next xs.length)

/-- The position that halves a stretch; an odd element out is on the side
away from the start. -/
def middle (side : Side) (l r : Nat) : Nat :=
  match side with
  | .left => l + (r - l) / 2
  | .right => r - 1 - (r - l) / 2

/-- The first position from `l` to `r` that stops. -/
def halve (side : Side) (stops : Value → Eval Bool) (xs : List Value) : (fuel l r : Nat) → Eval Nat
  | 0, l, _ => pure l
  | fuel + 1, l, r =>
    if l < r then do
      let p := middle side l r
      if ← stops (xs.getD p .null) then halve side stops xs fuel l p
      else halve side stops xs fuel (p + 1) r
    else pure l

/-- How many elements come before the first that stops. -/
def gallop (side : Side) (stops : Value → Eval Bool) (xs : List Value) : Eval Nat := do
  if ← stops (xs.getD 0 .null) then return 0
  let (last, next) ← reach stops xs xs.length 0 1
  halve side stops xs (xs.length + 1) (last + 1) next

/-- Whether an element of the short run has to wait for `y`, the next of the
long run. -/
def waitsFor (lt : Comparison) (side : Side) (y x : Value) : Eval Bool :=
  match side with
  | .left => lt y x
  | .right => lt x y

/-- Whether an element of the long run has to wait for `x`, the next of the
short run. -/
def givesWayTo (lt : Comparison) (side : Side) (x y : Value) : Eval Bool := do
  return !(← waitsFor lt side y x)

/-! ### One merge -/

/-- A merge under way: what has been merged, last first, and what is left of
the two runs. -/
structure Merge where
  done : List Value
  short : List Value
  long : List Value
  threshold : Nat

/-- A merge that has ended: the elements in their new order, and the stop of
a comparison, if one had none. -/
structure Merged where
  items : List Value
  threshold : Nat
  stop : Option Stop

/-- How a merge stands after a step: with a count of the elements that moved
together, or ended. -/
inductive Progress where
  | ongoing (count : Nat) (m : Merge)
  | ended (r : Merged)

/-- How elements move: one by one, with how often each run has just won in a
row, or galloping with a threshold. -/
inductive Pace where
  | single (shortWins longWins : Nat)
  | galloping (threshold : Nat)

namespace Merge

/-- Stop with what is left of the short run first. -/
def finish (m : Merge) (stop : Option Stop) : Merged :=
  ⟨m.done.reverse ++ (m.short ++ m.long), m.threshold, stop⟩

/-- Look whether a merge has ended: when the long run is used up, or when the
short run has one element left, which then goes last. -/
def settle (m : Merge) (count : Nat) : Progress :=
  match m.long, m.short with
  | [], _ => .ended (m.finish none)
  | _, [] => .ended (m.finish none)
  | long, [x] => .ended ⟨m.done.reverse ++ (long ++ [x]), m.threshold, none⟩
  | _, _ => .ongoing count m

/-- Move elements of the short run. -/
def moveShort (m : Merge) (n : Nat) : Merge :=
  { m with done := (m.short.take n).reverse ++ m.done, short := m.short.drop n }

/-- Move elements of the long run. -/
def moveLong (m : Merge) (n : Nat) : Merge :=
  { m with done := (m.long.take n).reverse ++ m.done, long := m.long.drop n }

/-- Move what the short run has before the next of the long run, and then
that one. -/
def gallopShort (lt : Comparison) (side : Side) (m : Merge) : Eval Progress := do
  match ← Eval.attempt (gallop side (waitsFor lt side (m.long.getD 0 .null)) m.short) with
  | .error e => return .ended (m.finish (some e))
  | .ok n =>
    match (m.moveShort n).settle n with
    | .ongoing n m => return (m.moveLong 1).settle n
    | ended => return ended

/-- Move what the long run has before the next of the short run, and then
that one. -/
def gallopLong (lt : Comparison) (side : Side) (m : Merge) : Eval Progress := do
  match ← Eval.attempt (gallop side (givesWayTo lt side (m.short.getD 0 .null)) m.long) with
  | .error e => return .ended (m.finish (some e))
  | .ok n =>
    match (m.moveLong n).settle n with
    | .ongoing n m => return (m.moveShort 1).settle n
    | ended => return ended

/-- Gallop through both runs, the left one first; the count is the greater
one. -/
def gallopBoth (lt : Comparison) (side : Side) (m : Merge) : Eval Progress := do
  let first := match side with | .left => gallopShort | .right => gallopLong
  let second := match side with | .left => gallopLong | .right => gallopShort
  match ← first lt side m with
  | .ended r => return .ended r
  | .ongoing n m =>
    match ← second lt side m with
    | .ended r => return .ended r
    | .ongoing k m => return .ongoing (max n k) m

/-- How many elements must move together for galloping to pay. -/
def leastGallop : Nat := 7

/-- Merge what is left of two runs. Each step moves an element. -/
def run (lt : Comparison) (side : Side) : (fuel : Nat) → Pace → Merge → Eval Merged
  | 0, _, m => return m.finish none
  | fuel + 1, .single shortWins longWins, m => do
    match ← Eval.attempt (waitsFor lt side (m.long.getD 0 .null) (m.short.getD 0 .null)) with
    | .error e => return m.finish (some e)
    | .ok longNext =>
      let (wins, moved) := if longNext then (longWins + 1, m.moveLong 1) else (shortWins + 1, m.moveShort 1)
      match moved.settle wins with
      | .ended r => return r
      | .ongoing wins m =>
        if m.threshold ≤ wins then run lt side fuel (.galloping (m.threshold + 1)) m
        else if longNext then run lt side fuel (.single 0 wins) m
        else run lt side fuel (.single wins 0) m
  | fuel + 1, .galloping threshold, m => do
    let threshold := max 1 (threshold - 1)
    match ← gallopBoth lt side { m with threshold } with
    | .ended r => return r
    | .ongoing count m =>
      if leastGallop ≤ count then run lt side fuel (.galloping threshold) m
      else run lt side fuel (.single 0 0) { m with threshold := threshold + 1 }

/-- Merge two runs, listed from the end where merging starts. The first of
the long run goes first. -/
def start (lt : Comparison) (side : Side) (threshold : Nat) (short long : List Value) :
    Eval Merged :=
  match ((⟨[], short, long, threshold⟩ : Merge).moveLong 1).settle 0 with
  | .ended r => pure r
  | .ongoing _ m => run lt side (short.length + long.length) (.single 0 0) m

end Merge

/-- Merge a part of the left run with a part of the right run, from the side
of the shorter one. -/
def mergeParts (lt : Comparison) (threshold : Nat) (a b : List Value) : Eval Merged := do
  if a.length ≤ b.length then Merge.start lt .left threshold a b
  else
    let r ← Merge.start lt .right threshold b.reverse a.reverse
    return { r with items := r.items.reverse }

/-- Merge two runs that stand side by side. -/
def mergeRuns (lt : Comparison) (threshold : Nat) (a b : List Value) : Eval Merged := do
  match ← Eval.attempt (gallop .left (waitsFor lt .left (b.getD 0 .null)) a) with
  | .error e => return ⟨a ++ b, threshold, some e⟩
  | .ok inPlace =>
    match (a.drop inPlace).getLast? with
    | none => return ⟨a ++ b, threshold, none⟩
    | some last =>
      match ← Eval.attempt (gallop .right (waitsFor lt .right last) b.reverse) with
      | .error e => return ⟨a ++ b, threshold, some e⟩
      | .ok behind =>
        let moving := b.take (b.length - behind)
        if moving.isEmpty then return ⟨a ++ b, threshold, none⟩
        else
          let r ← mergeParts lt threshold (a.drop inPlace) moving
          return { r with items := a.take inPlace ++ (r.items ++ b.drop (b.length - behind)) }

end RuleScript.Sorting
