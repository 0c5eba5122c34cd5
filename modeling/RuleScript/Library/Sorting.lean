/-
# Sorting

A stable sort that merges runs. It marches over the elements once and finds
the runs that are there; a run that is shorter than `leastRun` asks for is
made longer by insertion, so a short list is sorted by insertion alone. The
runs are piled up. Before a run is put on the pile, neighbours on the pile
are merged as long as the border between them lies deeper than the new one;
how deep a border lies (`borderDepth`) is its depth in a binary tree over
the positions of the list. In the end the whole pile is merged.

A comparison may stop without an answer, and then the elements are handed
back as they stand, so none is lost.

Key definitions: `Run`, `Pile`, `borderDepth`, `sortItems`.
-/
import RuleScript.Library.Sorting.Merge

namespace RuleScript

namespace Sorting

/-- A run on the pile: its elements, the position where it starts, and how
deep the border to the run above it lies. -/
structure Run where
  items : List Value
  start : Nat
  depth : Nat

/-- The runs found so far, last first, the threshold for galloping, and the
stop of a comparison, if one had none. -/
structure Pile where
  runs : List Run
  threshold : Nat
  stop : Option Stop

/-- The elements of runs that are listed last first. -/
def runItems (runs : List Run) : List Value := runs.reverse.flatMap (·.items)

/-- The shortest run that is not made longer in a list of `n` elements: `n`
halved until it is below 64, and one more if a bit was lost. -/
def leastRun : (fuel n lost : Nat) → Nat
  | 0, n, lost => n + lost
  | fuel + 1, n, lost => if n < 64 then n + lost else leastRun fuel (n / 2) (max lost (n % 2))

/-- The first binary digit in which the fractions `a / n` and `b / n`, each
below two, differ. -/
def borderDepthFrom (n : Nat) : (fuel a b depth : Nat) → Nat
  | 0, _, _, depth => depth
  | fuel + 1, a, b, depth =>
    if n ≤ a then borderDepthFrom n fuel (2 * (a - n)) (2 * (b - n)) (depth + 1)
    else if n ≤ b then depth + 1
    else borderDepthFrom n fuel (2 * a) (2 * b) (depth + 1)

/-- How deep the border between a run and the run of length `next` after it
lies in a list of `n` elements: the first binary digit in which the middles
of the two runs differ. -/
def borderDepth (n : Nat) (r : Run) (next : Nat) : Nat :=
  let a := 2 * r.start + r.items.length
  borderDepthFrom n (n + 1) a (a + r.items.length + next) 0

/-- Merge the two runs at the top of a pile. -/
def mergeTop (lt : Comparison) (threshold : Nat) (top below : Run) : Eval (Run × Nat × Option Stop) := do
  let r ← mergeRuns lt threshold below.items top.items
  return ({ below with items := r.items }, r.threshold, r.stop)

/-- Merge the top run with the runs below it whose border lies deeper than
`depth`. -/
def mergeDeeper (lt : Comparison) (depth threshold : Nat) (top : Run) : List Run → Eval Pile
  | [] => return ⟨[top], threshold, none⟩
  | below :: rest => do
    if depth < below.depth then
      match ← mergeTop lt threshold top below with
      | (merged, threshold, some e) => return ⟨merged :: rest, threshold, some e⟩
      | (merged, threshold, none) => mergeDeeper lt depth threshold merged rest
    else return ⟨top :: below :: rest, threshold, none⟩

/-- Put a run on a pile of runs of a list of `n` elements. -/
def Pile.add (lt : Comparison) (n : Nat) (p : Pile) (items : List Value) : Eval Pile := do
  match p.runs with
  | [] => return { p with runs := [⟨items, 0, 0⟩] }
  | top :: rest =>
    let depth := borderDepth n top items.length
    let merged ← mergeDeeper lt depth p.threshold top rest
    let start := top.start + top.items.length
    match merged.runs with
    | [] => return { merged with runs := [⟨items, start, 0⟩] }
    | top :: rest => return { merged with runs := ⟨items, start, 0⟩ :: { top with depth } :: rest }

/-- Merge all runs of a pile: the top two, or the second and third if the
third is shorter than the first. -/
def Pile.collapse (lt : Comparison) : (fuel : Nat) → Pile → Eval Pile
  | 0, p => return p
  | fuel + 1, p =>
    match p.stop, p.runs with
    | none, c :: b :: a :: rest => do
      if a.items.length < c.items.length then
        let (merged, threshold, stop) ← mergeTop lt p.threshold b a
        collapse lt fuel ⟨c :: merged :: rest, threshold, stop⟩
      else
        let (merged, threshold, stop) ← mergeTop lt p.threshold c b
        collapse lt fuel ⟨merged :: a :: rest, threshold, stop⟩
    | none, [c, b] => do
      let (merged, threshold, stop) ← mergeTop lt p.threshold c b
      return ⟨[merged], threshold, stop⟩
    | _, _ => return p

/-- A pile with the elements that are not yet in runs. -/
structure March where
  pile : Pile
  rest : List Value

/-- The run at the front of the elements, made longer up to `least`, and the
elements behind it. -/
def takeRun (lt : Comparison) (least : Nat) (xs : List Value) :
    Eval (List Value × List Value × Option Stop) := do
  match ← Eval.attempt (frontRun lt xs) with
  | .error e => return (xs, [], some e)
  | .ok (n, descending) =>
    let run := if descending then (xs.take n).reverse else xs.take n
    let (items, stop) ← insertAll lt run ((xs.drop n).take (least - n))
    return (items, xs.drop (max n least), stop)

/-- Take runs off the front and pile them up. Each run has an element. -/
def march (lt : Comparison) (n least : Nat) : (fuel : Nat) → March → Eval March
  | 0, m => return m
  | fuel + 1, m => do
    if m.rest.isEmpty || m.pile.stop.isSome then return m
    else
      let (items, rest, stop) ← takeRun lt least m.rest
      match stop with
      | some e => return ⟨{ m.pile with stop := some e }, items ++ rest⟩
      | none =>
        let pile ← m.pile.add lt n items
        march lt n least fuel ⟨pile, rest⟩

end Sorting

open Sorting in
/-- The elements sorted, or as they stood when a comparison stopped. -/
def sortItems (lt : Comparison) (xs : List Value) : Eval (List Value × Option Stop) := do
  let n := xs.length
  let m ← march lt n (leastRun n n 0) n ⟨⟨[], Merge.leastGallop, none⟩, xs⟩
  let pile ← m.pile.collapse lt n
  return (runItems pile.runs ++ m.rest, pile.stop)

end RuleScript
