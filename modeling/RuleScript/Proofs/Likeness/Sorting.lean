/-
# Sorting mirrors itself

A sort looks at its elements only through its comparison. On two comparisons
that mirror each other, and on elements and the elements they are carried over
to, every part of a sort does the same: it asks about the same places, and ends
with elements in the same order, or with the stop of the same question.

Key definitions: `Likeness.Compares`, `Likeness.merge`, `Likeness.merged`,
`Likeness.pile`.
Key theorems: `Likeness.Compares.sortItems`.
-/
import RuleScript.Library.Sorting
import RuleScript.Proofs.Likeness.Mirroring

namespace RuleScript

open Sorting

namespace Likeness

variable (L : Likeness)

/-- Two comparisons that mirror each other. -/
def Compares (bound : Nat) (lt lt' : Comparison) : Prop :=
  ∀ x y, L.Mirrors bound id (lt x y) (lt' (L.value x) (L.value y))

def merge (m : Merge) : Merge :=
  ⟨m.done.map L.value, m.short.map L.value, m.long.map L.value, m.threshold⟩

def merged (r : Merged) : Merged := ⟨r.items.map L.value, r.threshold, r.stop.map L.stop⟩

def progress : Progress → Progress
  | .ongoing count m => .ongoing count (L.merge m)
  | .ended r => .ended (L.merged r)

def run (r : Run) : Run := { r with items := r.items.map L.value }

def pile (p : Pile) : Pile := ⟨p.runs.map L.run, p.threshold, p.stop.map L.stop⟩

def march (m : March) : March := ⟨L.pile m.pile, m.rest.map L.value⟩

/-! ### Lists -/

theorem getD_map (xs : List Value) (i : Nat) :
    (xs.map L.value).getD i .null = L.value (xs.getD i .null) := by
  rw [List.getD_eq_getElem?_getD, List.getD_eq_getElem?_getD, List.getElem?_map]
  cases xs[i]? <;> rfl

theorem headD_map (xs : List Value) : (xs.map L.value).headD .null = L.value (xs.headD .null) := by
  cases xs <;> rfl

theorem runItems_map (runs : List Run) :
    runItems (runs.map L.run) = (runItems runs).map L.value := by
  unfold runItems
  rw [← List.map_reverse, List.flatMap_map, List.map_flatMap]
  rfl

theorem finish_merge (m : Merge) (stop : Option Stop) :
    (L.merge m).finish (stop.map L.stop) = L.merged (m.finish stop) := by
  simp only [Merge.finish, merge, merged, List.map_append, List.map_reverse]

theorem moveShort_merge (m : Merge) (n : Nat) :
    (L.merge m).moveShort n = L.merge (m.moveShort n) := by
  simp only [Merge.moveShort, merge, List.map_append, List.map_reverse, List.map_take, List.map_drop]

theorem moveLong_merge (m : Merge) (n : Nat) : (L.merge m).moveLong n = L.merge (m.moveLong n) := by
  simp only [Merge.moveLong, merge, List.map_append, List.map_reverse, List.map_take, List.map_drop]

theorem settle_merge (m : Merge) (count : Nat) :
    (L.merge m).settle count = L.progress (m.settle count) := by
  have hfinish := L.finish_merge m none
  obtain ⟨done, short, long, threshold⟩ := m
  match long, short with
  | [], _ => exact congrArg Progress.ended hfinish
  | _ :: _, [] => exact congrArg Progress.ended hfinish
  | y :: long, [x] =>
    simp only [Merge.settle, merge, progress, merged, List.map_cons, List.map_nil, List.map_append,
      List.map_reverse, Option.map_none]
  | _ :: _, _ :: _ :: _ => rfl

namespace Compares

variable {L} {bound : Nat} {lt lt' : Comparison} (hlt : L.Compares bound lt lt')

include hlt

/-! ### Runs -/

theorem runLength (descending : Bool) : ∀ (xs : List Value) (last : Value),
    L.Mirrors bound id (Sorting.runLength lt descending last xs)
      (Sorting.runLength lt' descending (L.value last) (xs.map L.value))
  | [], _ => .pure 0
  | x :: xs, last => by
    refine (hlt x last).bind fun b => .ite ?_ (.pure 0)
    exact (runLength descending xs x).then_return fun _ => rfl

theorem frontRun : ∀ xs : List Value,
    L.Mirrors bound id (Sorting.frontRun lt xs) (Sorting.frontRun lt' (xs.map L.value))
  | [] => .pure (0, false)
  | [_] => .pure (1, false)
  | x :: y :: rest => by
    refine (hlt y x).bind fun descending => ?_
    exact (hlt.runLength descending rest y).then_return fun _ => rfl

theorem placeBetween (sorted : List Value) (pivot : Value) : ∀ fuel l r : Nat,
    L.Mirrors bound id (Sorting.placeBetween lt sorted pivot fuel l r)
      (Sorting.placeBetween lt' (sorted.map L.value) (L.value pivot) fuel l r)
  | 0, l, _ => .pure l
  | fuel + 1, l, r => by
    unfold Sorting.placeBetween
    dsimp only
    rw [L.getD_map]
    refine .ite ((hlt pivot _).bind fun b => .ite ?_ ?_) (.pure l)
    · exact placeBetween sorted pivot fuel l _
    · exact placeBetween sorted pivot fuel _ r

theorem insertAll : ∀ rest sorted : List Value,
    L.Mirrors bound (Prod.map (List.map L.value) (Option.map L.stop)) (Sorting.insertAll lt sorted rest)
      (Sorting.insertAll lt' (sorted.map L.value) (rest.map L.value))
  | [], sorted => .pure (sorted, none)
  | x :: rest, sorted => by
    have hplace := (hlt.placeBetween sorted x (sorted.length + 1) 0 sorted.length).attempt
    unfold Sorting.insertAll
    rw [List.map_cons, List.length_map]
    refine hplace.bind fun found => ?_
    cases found with
    | error s =>
      refine .pure_of ?_
      rw [Prod.map_apply, List.map_append, List.map_cons]
      rfl
    | ok k =>
      have hrest := insertAll rest (sorted.take k ++ x :: sorted.drop k)
      rwa [List.map_append, List.map_cons, List.map_take, List.map_drop] at hrest

end Compares

/-! ### Galloping -/

section Gallop

variable {L} {bound : Nat} {stops stops' : Value → Eval Bool}
  (hstops : ∀ x, L.Mirrors bound id (stops x) (stops' (L.value x)))

include hstops

theorem reach_mirrors (xs : List Value) : ∀ fuel last next : Nat,
    L.Mirrors bound id (reach stops xs fuel last next) (reach stops' (xs.map L.value) fuel last next)
  | 0, last, next => .pure_of (by rw [List.length_map]; rfl)
  | fuel + 1, last, next => by
    unfold reach
    rw [L.getD_map, List.length_map]
    refine .ite ((hstops _).bind fun b => .ite (.pure _) ?_) (.pure _)
    exact reach_mirrors xs fuel next (2 * next + 1)

theorem halve_mirrors (side : Side) (xs : List Value) : ∀ fuel l r : Nat,
    L.Mirrors bound id (halve side stops xs fuel l r) (halve side stops' (xs.map L.value) fuel l r)
  | 0, l, _ => .pure l
  | fuel + 1, l, r => by
    unfold halve
    dsimp only
    rw [L.getD_map]
    refine .ite ((hstops _).bind fun b => .ite ?_ ?_) (.pure l)
    · exact halve_mirrors side xs fuel l _
    · exact halve_mirrors side xs fuel _ r

theorem gallop_mirrors (side : Side) (xs : List Value) :
    L.Mirrors bound id (gallop side stops xs) (gallop side stops' (xs.map L.value)) := by
  unfold gallop
  rw [L.getD_map, List.length_map]
  refine (hstops _).bind fun b => .ite (.pure 0) ?_
  refine (reach_mirrors hstops xs _ 0 1).bind fun p => ?_
  exact halve_mirrors hstops side xs _ _ p.2

end Gallop

namespace Compares

variable {L} {bound : Nat} {lt lt' : Comparison} (hlt : L.Compares bound lt lt')

include hlt

theorem waitsFor (side : Side) (y x : Value) :
    L.Mirrors bound id (Sorting.waitsFor lt side y x)
      (Sorting.waitsFor lt' side (L.value y) (L.value x)) := by
  cases side
  · exact hlt y x
  · exact hlt x y

theorem givesWayTo (side : Side) (x y : Value) :
    L.Mirrors bound id (Sorting.givesWayTo lt side x y)
      (Sorting.givesWayTo lt' side (L.value x) (L.value y)) :=
  (hlt.waitsFor side y x).then_return fun _ => rfl

/-! ### Merging -/

omit hlt in
/-- A merge that has settled after one move may settle after another. -/
theorem settle_twice (next : Merge → Merge) (hnext : ∀ m, next (L.merge m) = L.merge (next m))
    (m : Merge) (count : Nat) :
    L.Mirrors bound L.progress
      (match m.settle count with
        | .ongoing n m => pure ((next m).settle n)
        | ended => pure ended : Eval Progress)
      (match (L.merge m).settle count with
        | .ongoing n m => pure ((next m).settle n)
        | ended => pure ended : Eval Progress) := by
  rw [L.settle_merge]
  cases m.settle count with
  | ended r => exact .pure _
  | ongoing n m =>
    refine .pure_of ?_
    rw [hnext, L.settle_merge]

theorem gallopShort (side : Side) (m : Merge) :
    L.Mirrors bound L.progress (m.gallopShort lt side) ((L.merge m).gallopShort lt' side) := by
  have hask := gallop_mirrors (hlt.waitsFor side (m.long.getD 0 .null)) side m.short
  rw [← L.getD_map] at hask
  refine hask.attempt.bind fun found => ?_
  cases found with
  | error s => exact .pure_of (congrArg Progress.ended (L.finish_merge m (some s)))
  | ok n =>
    dsimp only [caught, id]
    rw [L.moveShort_merge]
    exact settle_twice (·.moveLong 1) (fun m => L.moveLong_merge m 1) (m.moveShort n) n

theorem gallopLong (side : Side) (m : Merge) :
    L.Mirrors bound L.progress (m.gallopLong lt side) ((L.merge m).gallopLong lt' side) := by
  have hask := gallop_mirrors (hlt.givesWayTo side (m.short.getD 0 .null)) side m.long
  rw [← L.getD_map] at hask
  refine hask.attempt.bind fun found => ?_
  cases found with
  | error s => exact .pure_of (congrArg Progress.ended (L.finish_merge m (some s)))
  | ok n =>
    dsimp only [caught, id]
    rw [L.moveLong_merge]
    exact settle_twice (·.moveShort 1) (fun m => L.moveShort_merge m 1) (m.moveLong n) n

theorem gallopBoth (side : Side) (m : Merge) :
    L.Mirrors bound L.progress (m.gallopBoth lt side) ((L.merge m).gallopBoth lt' side) := by
  cases side with
  | left =>
    refine (hlt.gallopShort .left m).bind fun p => ?_
    cases p with
    | ended r => exact .pure_of rfl
    | ongoing n m =>
      refine (hlt.gallopLong .left m).bind fun q => ?_
      cases q with
      | ended r => exact .pure_of rfl
      | ongoing k m => exact .pure_of rfl
  | right =>
    refine (hlt.gallopLong .right m).bind fun p => ?_
    cases p with
    | ended r => exact .pure_of rfl
    | ongoing n m =>
      refine (hlt.gallopShort .right m).bind fun q => ?_
      cases q with
      | ended r => exact .pure_of rfl
      | ongoing k m => exact .pure_of rfl

theorem mergeRun (side : Side) : ∀ (fuel : Nat) (pace : Pace) (m : Merge),
    L.Mirrors bound L.merged (m.run lt side fuel pace) ((L.merge m).run lt' side fuel pace)
  | 0, _, m => .pure_of (L.finish_merge m none)
  | fuel + 1, .single shortWins longWins, m => by
    have hask := hlt.waitsFor side (m.long.getD 0 .null) (m.short.getD 0 .null)
    rw [← L.getD_map, ← L.getD_map] at hask
    refine hask.attempt.bind fun found => ?_
    cases found with
    | error s => exact .pure_of (L.finish_merge m (some s))
    | ok longNext =>
      cases longNext with
      | true =>
        dsimp only [caught, id]
        simp only [if_true]
        rw [L.moveLong_merge, L.settle_merge]
        cases (m.moveLong 1).settle (longWins + 1) with
        | ended r => exact .pure r
        | ongoing wins m => exact .ite (mergeRun side fuel _ m) (mergeRun side fuel _ m)
      | false =>
        dsimp only [caught, id]
        simp only [Bool.false_eq_true, if_false]
        rw [L.moveShort_merge, L.settle_merge]
        cases (m.moveShort 1).settle (shortWins + 1) with
        | ended r => exact .pure r
        | ongoing wins m => exact .ite (mergeRun side fuel _ m) (mergeRun side fuel _ m)
  | fuel + 1, .galloping threshold, m => by
    refine (hlt.gallopBoth side { m with threshold := max 1 (threshold - 1) }).bind fun p => ?_
    cases p with
    | ended r => exact .pure r
    | ongoing count m =>
      exact .ite (mergeRun side fuel _ m) (mergeRun side fuel _ { m with threshold := _ })

theorem start (side : Side) (threshold : Nat) (short long : List Value) :
    L.Mirrors bound L.merged (Merge.start lt side threshold short long)
      (Merge.start lt' side threshold (short.map L.value) (long.map L.value)) := by
  have hsettle : ((⟨[], short.map L.value, long.map L.value, threshold⟩ : Merge).moveLong 1).settle 0 =
      L.progress (((⟨[], short, long, threshold⟩ : Merge).moveLong 1).settle 0) := by
    rw [← L.settle_merge, ← L.moveLong_merge]
    rfl
  unfold Merge.start
  rw [hsettle, List.length_map, List.length_map]
  cases ((⟨[], short, long, threshold⟩ : Merge).moveLong 1).settle 0 with
  | ended r => exact .pure r
  | ongoing _ m => exact hlt.mergeRun side _ _ m

theorem mergeParts (threshold : Nat) (a b : List Value) :
    L.Mirrors bound L.merged (Sorting.mergeParts lt threshold a b)
      (Sorting.mergeParts lt' threshold (a.map L.value) (b.map L.value)) := by
  unfold Sorting.mergeParts
  rw [List.length_map, List.length_map, ← List.map_reverse, ← List.map_reverse]
  refine .ite (hlt.start .left threshold a b) ?_
  refine (hlt.start .right threshold b.reverse a.reverse).then_return fun r => ?_
  simp only [merged, List.map_reverse]

theorem mergeRuns (threshold : Nat) (a b : List Value) :
    L.Mirrors bound L.merged (Sorting.mergeRuns lt threshold a b)
      (Sorting.mergeRuns lt' threshold (a.map L.value) (b.map L.value)) := by
  have hasIs (stop : Option Stop) :
      (⟨a.map L.value ++ b.map L.value, threshold, stop.map L.stop⟩ : Merged) =
      L.merged ⟨a ++ b, threshold, stop⟩ := by
    rw [merged, List.map_append]
  have hfront := gallop_mirrors (hlt.waitsFor .left (b.getD 0 .null)) .left a
  rw [← L.getD_map] at hfront
  refine hfront.attempt.bind fun found => ?_
  cases found with
  | error s => exact .pure_of (hasIs (some s))
  | ok inPlace =>
    dsimp only [caught, id]
    rw [← List.map_drop, List.getLast?_map]
    cases (a.drop inPlace).getLast? with
    | none => exact .pure_of (hasIs none)
    | some last =>
      have hback := gallop_mirrors (hlt.waitsFor .right last) .right b.reverse
      rw [List.map_reverse] at hback
      refine hback.attempt.bind fun found => ?_
      cases found with
      | error s => exact .pure_of (hasIs (some s))
      | ok behind =>
        dsimp only [caught, id]
        rw [List.length_map, ← List.map_take, List.isEmpty_map]
        refine .ite (.pure_of (hasIs none)) ?_
        refine (hlt.mergeParts threshold _ _).then_return fun r => ?_
        simp only [merged, List.map_append, List.map_take, List.map_drop]

/-! ### The pile of runs -/

theorem mergeTop (threshold : Nat) (top below : Run) :
    L.Mirrors bound (Prod.map L.run (Prod.map id (Option.map L.stop)))
      (Sorting.mergeTop lt threshold top below)
      (Sorting.mergeTop lt' threshold (L.run top) (L.run below)) :=
  (hlt.mergeRuns threshold below.items top.items).then_return fun _ => rfl

theorem mergeDeeper (depth : Nat) : ∀ (rest : List Run) (threshold : Nat) (top : Run),
    L.Mirrors bound L.pile (Sorting.mergeDeeper lt depth threshold top rest)
      (Sorting.mergeDeeper lt' depth threshold (L.run top) (rest.map L.run))
  | [], _, _ => .pure_of rfl
  | below :: rest, threshold, top => by
    refine .ite ?_ (.pure_of rfl)
    refine (hlt.mergeTop threshold top below).bind fun r => ?_
    obtain ⟨merged, threshold, stop⟩ := r
    cases stop with
    | some s => exact .pure_of rfl
    | none => exact mergeDeeper depth rest threshold merged

theorem add (n : Nat) (p : Pile) (items : List Value) :
    L.Mirrors bound L.pile (p.add lt n items) ((L.pile p).add lt' n (items.map L.value)) := by
  obtain ⟨runs, threshold, stop⟩ := p
  cases runs with
  | nil => exact .pure_of rfl
  | cons top rest =>
    have hdepth : borderDepth n (L.run top) (items.map L.value).length =
        borderDepth n top items.length := by
      simp only [borderDepth, run, List.length_map]
    show L.Mirrors bound L.pile _
      (Pile.add lt' n ⟨L.run top :: rest.map L.run, threshold, stop.map L.stop⟩ (items.map L.value))
    unfold Pile.add
    dsimp only
    rw [hdepth]
    refine (hlt.mergeDeeper _ rest threshold top).bind fun merged => ?_
    obtain ⟨runs, threshold, stop⟩ := merged
    cases runs <;> exact .pure_of (by simp only [pile, run, List.map_cons, List.map_nil, List.length_map])

theorem collapse : ∀ (fuel : Nat) (p : Pile),
    L.Mirrors bound L.pile (p.collapse lt fuel) ((L.pile p).collapse lt' fuel)
  | 0, p => .pure p
  | _ + 1, ⟨_, _, some _⟩ => .pure_of rfl
  | _ + 1, ⟨[], _, none⟩ => .pure_of rfl
  | _ + 1, ⟨[_], _, none⟩ => .pure_of rfl
  | _ + 1, ⟨[c, b], threshold, none⟩ => (hlt.mergeTop threshold c b).then_return fun _ => rfl
  | fuel + 1, ⟨c :: b :: a :: rest, threshold, none⟩ => by
    have hlengths (r : Run) : (L.run r).items.length = r.items.length := List.length_map L.value
    show L.Mirrors bound L.pile _
      (Pile.collapse lt' (fuel + 1) ⟨L.run c :: L.run b :: L.run a :: rest.map L.run, threshold, none⟩)
    unfold Pile.collapse
    dsimp only
    rw [hlengths, hlengths]
    refine .ite ((hlt.mergeTop threshold b a).bind fun r => ?_)
      ((hlt.mergeTop threshold c b).bind fun r => ?_)
    · exact collapse fuel ⟨c :: r.1 :: rest, r.2.1, r.2.2⟩
    · exact collapse fuel ⟨r.1 :: a :: rest, r.2.1, r.2.2⟩

/-! ### The march over the elements -/

theorem takeRun (least : Nat) (xs : List Value) :
    L.Mirrors bound (Prod.map (List.map L.value) (Prod.map (List.map L.value) (Option.map L.stop)))
      (Sorting.takeRun lt least xs) (Sorting.takeRun lt' least (xs.map L.value)) := by
  refine (hlt.frontRun xs).attempt.bind fun found => ?_
  cases found with
  | error s => exact .pure (xs, [], some s)
  | ok front =>
    obtain ⟨n, descending⟩ := front
    have hinsert := hlt.insertAll ((xs.drop n).take (least - n))
      (if descending then (xs.take n).reverse else xs.take n)
    rw [apply_ite (List.map L.value), List.map_reverse, List.map_take, List.map_take,
      List.map_drop] at hinsert
    refine hinsert.then_return fun r => ?_
    simp only [Prod.map, List.map_drop]

theorem march (n least : Nat) : ∀ (fuel : Nat) (m : March),
    L.Mirrors bound L.march (Sorting.march lt n least fuel m) (Sorting.march lt' n least fuel (L.march m))
  | 0, m => .pure m
  | fuel + 1, m => by
    have hends : ((L.march m).rest.isEmpty || (L.march m).pile.stop.isSome) =
        (m.rest.isEmpty || m.pile.stop.isSome) := by
      simp only [Likeness.march, pile, List.isEmpty_map, Option.isSome_map]
    unfold Sorting.march
    rw [hends]
    refine .ite (.pure m) ((hlt.takeRun least m.rest).bind fun r => ?_)
    obtain ⟨items, rest, stop⟩ := r
    cases stop with
    | some s =>
      refine .pure_of ?_
      simp only [Likeness.march, pile, List.map_append, Option.map_some]
    | none => exact (hlt.add n m.pile items).bind fun p => march n least fuel ⟨p, rest⟩

/-- **A sort mirrors itself.** -/
theorem sortItems (xs : List Value) :
    L.Mirrors bound (Prod.map (List.map L.value) (Option.map L.stop)) (RuleScript.sortItems lt xs)
      (RuleScript.sortItems lt' (xs.map L.value)) := by
  unfold RuleScript.sortItems
  dsimp only
  rw [List.length_map]
  refine (hlt.march _ _ _ ⟨⟨[], Merge.leastGallop, none⟩, xs⟩).bind fun m => ?_
  refine (hlt.collapse xs.length m.pile).then_return fun p => ?_
  simp only [Likeness.march, pile, Prod.map, List.map_append, L.runItems_map]

end Compares

end Likeness

end RuleScript
