/-
# Merging sorts

A merge under way is orderly: what has been merged is sorted together with what
is left of either run, all of it together is a rearrangement of the two runs,
and the last element of the short run comes behind everything in the long run
(`Merge.Orderly`). Moving elements of the short run that the long run does not
go before, or elements of the long run that go before the short run, keeps this
(`Merge.Orderly.moveShort`, `Merge.Orderly.moveLong`). Galloping and moving one
by one find such elements, so a merge ends with the sorted runs
(`mergeRuns_sorts`).

Merging from the right is merging from the left of the reversed runs by the
verdict turned around, so one argument serves both sides (`Side.verdict`).

Key definitions: `Answers`, `Side.verdict`, `Merge.Orderly`, `Merge.Pending`,
`Merged.Sorts`.
Key theorems: `Merge.kept_orderly`, `mergeParts_sorts`, `mergeRuns_sorts`.
-/
import RuleScript.Proofs.Sorting.Conservation
import RuleScript.Proofs.Sorting.Rearrangement

namespace RuleScript.Sorting

open Eval (Ensures)

/-! ### Answers -/

/-- A comparison that answers for all values with the property `U`, by a
verdict that is the same at every time. -/
def Answers (I : Machine → Prop) (U : Value → Prop) (less : Verdict) (lt : Comparison) : Prop :=
  ∀ x y, U x → U y → Ensures I (· = less x y) (lt x y)

/-- The verdict by which runs are merged from a side. -/
def Side.verdict : Side → Verdict → Verdict
  | .left, less => less
  | .right, less => turned less

section

variable {I : Machine → Prop} {U : Value → Prop} {less : Verdict} {lt : Comparison} {x y : Value}

theorem Answers.waitsFor (hlt : Answers I U less lt) (side : Side) (hx : U x) (hy : U y) :
    Ensures I (· = side.verdict less y x) (waitsFor lt side y x) := by
  cases side with
  | left => exact hlt y x hy hx
  | right => exact hlt x y hx hy

theorem Answers.givesWayTo (hlt : Answers I U less lt) (side : Side) (hx : U x) (hy : U y) :
    Ensures I (· = !side.verdict less y x) (givesWayTo lt side x y) := by
  refine (hlt.waitsFor side hx hy).bind ?_
  rintro _ rfl
  exact .pure rfl

/-- In a sorted list the elements behind one that is greater are greater. -/
theorem Sorted.persists (hless : WeakOrder less) {xs : List Value} (h : Sorted less xs) (y : Value) :
    Persists (less y) xs :=
  h.imp fun hxx' hyx => hless.less_of_less_of_not_less hyx hxx'

/-- In a sorted list the elements behind one that is not less are not less. -/
theorem Sorted.persists_not (hless : WeakOrder less) {xs : List Value} (h : Sorted less xs) (x : Value) :
    Persists (fun y => !less y x) xs := by
  refine h.imp fun {y y'} hyy' hyx => ?_
  rw [Bool.not_eq_true'] at hyx ⊢
  exact hless.trans hyx hyy'

end

theorem getLast?_of_drop {xs : List Value} {n : Nat} {x : Value} (h : (xs.drop n).getLast? = some x) :
    xs.getLast? = some x := by
  obtain ⟨rest, hrest⟩ := List.getLast?_eq_some_iff.mp h
  rw [← List.take_append_drop n xs, hrest, ← List.append_assoc, List.getLast?_concat]

/-! ### A merge under way -/

namespace Merge

variable {less : Verdict} {xs : List Value} {m : Merge} {n : Nat}

/-- A merge of `xs` that has done everything right so far. -/
structure Orderly (less : Verdict) (xs : List Value) (m : Merge) : Prop where
  same : Rearranges less m.all xs
  short : Sorted less (m.done.reverse ++ m.short)
  long : Sorted less (m.done.reverse ++ m.long)
  last : ∀ x, m.short.getLast? = some x → ∀ y ∈ m.long, less y x = true

namespace Orderly

theorem mem (h : Orderly less xs m) {v : Value} (hv : v ∈ m.short ∨ v ∈ m.long) : v ∈ xs :=
  h.same.perm.mem_iff.mp (List.mem_append_right _ (List.mem_append.mpr hv))

/-- Elements of the short run move when nothing in the long run goes before
them. -/
theorem moveShort (h : Orderly less xs m)
    (hn : ∀ x ∈ m.short.take n, ∀ y ∈ m.long, less y x = false) : Orderly less xs (m.moveShort n) where
  same := by
    rw [all_moveShort]
    exact h.same
  short := by
    rw [done_moveShort]
    show Sorted less (_ ++ m.short.drop n)
    rw [List.append_assoc, List.take_append_drop]
    exact h.short
  long := by
    rw [done_moveShort]
    refine (h.short.left.append (h.short.right.take n) ?_).append h.long.right ?_
    · exact fun d hd x hx => h.short.across d hd x (List.mem_of_mem_take hx)
    · exact fun d hd => (List.mem_append.mp hd).elim (h.long.across d) (hn d)
  last := fun x hx => h.last x (getLast?_of_drop hx)

/-- Elements of the long run move when they go before the short run. -/
theorem moveLong (hless : WeakOrder less) (h : Orderly less xs m)
    (hn : ∀ y ∈ m.long.take n, ∀ x ∈ m.short, less y x = true) : Orderly less xs (m.moveLong n) where
  same := by
    have hswap : Rearranges less (m.long.take n ++ m.short) (m.short ++ m.long.take n) :=
      (Rearranges.swap hless fun x hx y hy => hn y hy x hx).symm
    have hmoved := (hswap.append_right (m.long.drop n)).append_left m.done.reverse
    rw [List.append_assoc m.short, List.take_append_drop] at hmoved
    rw [all_moveLong]
    exact hmoved.trans h.same
  short := by
    rw [done_moveLong]
    refine (h.long.left.append (h.long.right.take n) ?_).append h.short.right ?_
    · exact fun d hd y hy => h.long.across d hd y (List.mem_of_mem_take hy)
    · exact fun d hd => (List.mem_append.mp hd).elim (h.short.across d)
        fun hd x hx => hless.asymm (hn d hd x hx)
  long := by
    rw [done_moveLong]
    show Sorted less (_ ++ m.long.drop n)
    rw [List.append_assoc, List.take_append_drop]
    exact h.long
  last := fun x hx y hy => h.last x hx y (List.mem_of_mem_drop hy)

end Orderly

end Merge

/-- A merge that has ended with the sorted elements. -/
structure Merged.Sorts (less : Verdict) (xs : List Value) (r : Merged) : Prop where
  stop : r.stop = none
  sorted : Sorted less r.items
  same : Rearranges less r.items xs

/-- What stands in front of the elements and behind them stays there. -/
theorem Merged.Sorts.between {less : Verdict} {front back xs : List Value} {r : Merged}
    (h : r.Sorts less xs) (hfront : Sorted less front) (hback : Sorted less back)
    (hbefore : ∀ x ∈ front, ∀ y ∈ xs ++ back, less y x = false)
    (hbehind : ∀ x ∈ xs, ∀ y ∈ back, less y x = false) :
    Merged.Sorts less (front ++ (xs ++ back)) { r with items := front ++ (r.items ++ back) } where
  stop := h.stop
  sorted := by
    refine hfront.append (h.sorted.append hback fun x hx => hbehind x (h.same.perm.mem_iff.mp hx)) ?_
    intro x hx y hy
    refine hbefore x hx y (List.mem_append.mpr ?_)
    exact (List.mem_append.mp hy).imp_left h.same.perm.mem_iff.mp
  same := (h.same.append_right back).append_left front

namespace Merge

variable {less : Verdict} {xs : List Value} {m : Merge} {k : Nat}

/-- An orderly merge with at most `k` elements left, at least one of either
run. -/
structure Pending (less : Verdict) (xs : List Value) (k : Nat) (m : Merge) : Prop where
  orderly : m.Orderly less xs
  short : m.short ≠ []
  long : m.long ≠ []
  size : m.short.length + m.long.length ≤ k

theorem settle_sorts (hless : WeakOrder less) {M : Merge → Prop} (h : Orderly less xs m)
    (hM : m.short ≠ [] → m.long ≠ [] → M m) (count : Nat) :
    (m.settle count).Meets M (Merged.Sorts less xs) := by
  have hshort := h.short
  have hlong := h.long
  have hsame := h.same
  unfold all at hsame
  unfold settle
  split
  · rename_i hnil
    refine ⟨rfl, ?_, hsame⟩
    show Sorted less (m.done.reverse ++ (m.short ++ m.long))
    rw [hnil, List.append_nil]
    exact hshort
  · rename_i hnil _
    refine ⟨rfl, ?_, hsame⟩
    show Sorted less (m.done.reverse ++ (m.short ++ m.long))
    rw [hnil, List.nil_append]
    exact hlong
  · -- One element of the short run is left, and everything else goes before it.
    rename_i x hx _
    have hlast : ∀ y ∈ m.long, less y x = true := h.last x (by rw [hx]; rfl)
    rw [hx] at hshort hsame
    refine ⟨rfl, ?_, ?_⟩
    · show Sorted less (m.done.reverse ++ (m.long ++ [x]))
      rw [← List.append_assoc]
      refine hlong.append (List.pairwise_singleton _ x) fun d hd x' hx' => ?_
      obtain rfl := List.mem_singleton.mp hx'
      rcases List.mem_append.mp hd with hd | hd
      · exact hshort.across d hd x' hx'
      · exact hless.asymm (hlast d hd)
    · have hswap : Rearranges less ([x] ++ m.long) (m.long ++ [x]) :=
        .swap hless fun x' hx' y hy => List.mem_singleton.mp hx' ▸ hlast y hy
      exact (hswap.symm.append_left m.done.reverse).trans hsame
  · rename_i hlongNil hshortNil _
    exact hM hshortNil hlongNil

/-- The long run's next element moves when it goes before the short run. -/
theorem settle_moveLong_sorts (hless : WeakOrder less) (h : Orderly less xs m) (hlong : m.long ≠ [])
    (hk : m.short.length + m.long.length ≤ k + 1)
    (hn : ∀ y ∈ m.long.take 1, ∀ x ∈ m.short, less y x = true) (count : Nat) :
    ((m.moveLong 1).settle count).Meets (Pending less xs k) (Merged.Sorts less xs) := by
  have hmoved := h.moveLong hless hn
  refine settle_sorts hless hmoved (fun hshort' hlong' => ⟨hmoved, hshort', hlong', ?_⟩) count
  have hpos := List.length_pos_iff.mpr hlong
  show m.short.length + (m.long.drop 1).length ≤ k
  rw [List.length_drop]
  omega

/-- The short run's next element moves when the long run does not go before
it. -/
theorem settle_moveShort_sorts (hless : WeakOrder less) (h : Orderly less xs m) (hshort : m.short ≠ [])
    (hk : m.short.length + m.long.length ≤ k + 1)
    (hn : ∀ x ∈ m.short.take 1, ∀ y ∈ m.long, less y x = false) (count : Nat) :
    ((m.moveShort 1).settle count).Meets (Pending less xs k) (Merged.Sorts less xs) := by
  have hmoved := h.moveShort hn
  refine settle_sorts hless hmoved (fun hshort' hlong' => ⟨hmoved, hshort', hlong', ?_⟩) count
  have hpos := List.length_pos_iff.mpr hshort
  show (m.short.drop 1).length + m.long.length ≤ k
  rw [List.length_drop]
  omega

section

variable {I : Machine → Prop} {U : Value → Prop} {less₀ : Verdict} {lt : Comparison} {side : Side}
  (hless : WeakOrder less) (hverdict : side.verdict less₀ = less) (hlt : Answers I U less₀ lt)
  (hU : ∀ v ∈ xs, U v)
include hless hverdict hlt hU

/-- Galloping through the short run. -/
theorem gallopShort_sorts (h : Pending less xs (k + 1) m) :
    Ensures I (Progress.Meets (Pending less xs k) (Merged.Sorts less xs)) (gallopShort lt side m) := by
  obtain ⟨h, hshort, hlong, hk⟩ := h
  obtain ⟨y, rest, hy⟩ := List.exists_cons_of_ne_nil hlong
  have hymem : y ∈ m.long := by rw [hy]; exact List.mem_cons_self
  have hhead : ∀ y' ∈ m.long, less y' y = false := h.long.right.head hless (by rw [hy]; rfl)
  have hstops : ∀ x ∈ m.short, Ensures I (· = less y x) (waitsFor lt side (m.long.getD 0 .null) x) := by
    intro x hx
    rw [hy, ← hverdict]
    exact hlt.waitsFor side (hU x (h.mem (.inl hx))) (hU y (h.mem (.inr hymem)))
  have hgallop := (gallop_parts hstops (h.short.right.persists hless y) side hshort).attempt
  -- The next element of the long run goes before what is left of the short run.
  refine gallopShort_meets (N := fun m' => Orderly less xs m' ∧ m'.long ≠ [] ∧
    m'.short.length + m'.long.length ≤ k + 1 ∧ ∀ y' ∈ m'.long.take 1, ∀ x ∈ m'.short, less y' x = true)
    hgallop (fun e he => ?_) (fun n hn => ?_) ?_
  · obtain ⟨n, ⟨⟩, -⟩ := he
  · obtain ⟨_, ⟨⟩, hparts⟩ := hn
    have hmoved : Orderly less xs (m.moveShort n) :=
      h.moveShort fun x hx y' hy' => hless.trans (hparts.before x hx) (hhead y' hy')
    refine settle_sorts hless hmoved (fun _ hlong' => ⟨hmoved, hlong', ?_, ?_⟩) n
    · show (m.short.drop n).length + m.long.length ≤ k + 1
      rw [List.length_drop]
      omega
    · show ∀ y' ∈ m.long.take 1, ∀ x ∈ m.short.drop n, less y' x = true
      rw [hy]
      exact fun y' hy' x hx => List.mem_singleton.mp hy' ▸ hparts.behind x hx
  · rintro m' ⟨hm', hlong', hk', hfirst⟩ count
    exact settle_moveLong_sorts hless hm' hlong' hk' hfirst count

/-- Galloping through the long run. -/
theorem gallopLong_sorts (h : Pending less xs (k + 1) m) :
    Ensures I (Progress.Meets (Pending less xs k) (Merged.Sorts less xs)) (gallopLong lt side m) := by
  obtain ⟨h, hshort, hlong, hk⟩ := h
  obtain ⟨x, rest, hx⟩ := List.exists_cons_of_ne_nil hshort
  have hxmem : x ∈ m.short := by rw [hx]; exact List.mem_cons_self
  have hhead : ∀ x' ∈ m.short, less x' x = false := h.short.right.head hless (by rw [hx]; rfl)
  have hstops : ∀ y ∈ m.long, Ensures I (· = !less y x) (givesWayTo lt side (m.short.getD 0 .null) y) := by
    intro y hy
    rw [hx, ← hverdict]
    exact hlt.givesWayTo side (hU x (h.mem (.inl hxmem))) (hU y (h.mem (.inr hy)))
  have hgallop := (gallop_parts hstops (h.long.right.persists_not hless x) side hlong).attempt
  -- Nothing that is left of the long run goes before the next element of the short run.
  refine gallopLong_meets (N := fun m' => Orderly less xs m' ∧ m'.short ≠ [] ∧
    m'.short.length + m'.long.length ≤ k + 1 ∧ ∀ x' ∈ m'.short.take 1, ∀ y ∈ m'.long, less y x' = false)
    hgallop (fun e he => ?_) (fun n hn => ?_) ?_
  · obtain ⟨n, ⟨⟩, -⟩ := he
  · obtain ⟨_, ⟨⟩, hparts⟩ := hn
    have hmoved : Orderly less xs (m.moveLong n) := by
      refine h.moveLong hless fun y hy x' hx' => ?_
      have hyx : less y x = true := by simpa using hparts.before y hy
      exact hless.less_of_less_of_not_less hyx (hhead x' hx')
    refine settle_sorts hless hmoved (fun hshort' _ => ⟨hmoved, hshort', ?_, ?_⟩) n
    · show m.short.length + (m.long.drop n).length ≤ k + 1
      rw [List.length_drop]
      omega
    · show ∀ x' ∈ m.short.take 1, ∀ y ∈ m.long.drop n, less y x' = false
      rw [hx]
      intro x' hx' y hy
      rw [List.mem_singleton.mp hx']
      simpa using hparts.behind y hy
  · rintro m' ⟨hm', hshort', hk', hfirst⟩ count
    exact settle_moveShort_sorts hless hm' hshort' hk' hfirst count

/-- Galloping through both runs. -/
theorem gallopBoth_sorts (h : Pending less xs (k + 1) m) :
    Ensures I (Progress.Meets (Pending less xs k) (Merged.Sorts less xs)) (gallopBoth lt side m) :=
  gallopBoth_meets (fun _ hm => gallopShort_sorts hless hverdict hlt hU hm)
    (fun _ hm => gallopLong_sorts hless hverdict hlt hU hm)
    (fun _ hm => ⟨hm.orderly, hm.short, hm.long, Nat.le_succ_of_le hm.size⟩) h

/-- **Every step of a merge keeps it orderly.** The answer to the question which
element is next is that of the verdict. -/
theorem kept_orderly : Kept I lt side (Pending less xs)
    (fun m r => ∃ x ∈ m.short.head?, ∃ y ∈ m.long.head?, r = .ok (less y x)) (Merged.Sorts less xs) where
  last h := by
    have hpos := List.length_pos_iff.mpr h.short
    have hsize := h.size
    omega
  ask {k m} h := by
    obtain ⟨x, shortRest, hx⟩ := List.exists_cons_of_ne_nil h.short
    obtain ⟨y, longRest, hy⟩ := List.exists_cons_of_ne_nil h.long
    have hxU : U x := hU x (h.orderly.mem (.inl (by rw [hx]; exact List.mem_cons_self)))
    have hyU : U y := hU y (h.orderly.mem (.inr (by rw [hy]; exact List.mem_cons_self)))
    rw [hx, hy, ← hverdict]
    refine (hlt.waitsFor side hxU hyU).attempt.weaken ?_
    rintro _ ⟨_, rfl, rfl⟩
    exact ⟨x, rfl, y, rfl, rfl⟩
  stop _ he := by
    obtain ⟨_, -, _, -, ⟨⟩⟩ := he
  long {k m} count h hanswer := by
    obtain ⟨x, hx, y, hy, hyx⟩ := hanswer
    have hhead := h.orderly.short.right.head hless hx
    refine settle_moveLong_sorts hless h.orderly h.long h.size (fun y' hy' x' hx' => ?_) count
    have hy'' : y' = y := by
      rw [List.take_one, hy] at hy'
      exact List.mem_singleton.mp hy'
    rw [hy'']
    exact hless.less_of_less_of_not_less (Except.ok.inj hyx).symm (hhead x' hx')
  short {k m} count h hanswer := by
    obtain ⟨x, hx, y, hy, hyx⟩ := hanswer
    have hhead := h.orderly.long.right.head hless hy
    refine settle_moveShort_sorts hless h.orderly h.short h.size (fun x' hx' y' hy' => ?_) count
    have hx'' : x' = x := by
      rw [List.take_one, hx] at hx'
      exact List.mem_singleton.mp hx'
    rw [hx'']
    exact hless.trans (Except.ok.inj hyx).symm (hhead y' hy')
  gallop h := gallopBoth_sorts hless hverdict hlt hU h
  threshold _ h := ⟨⟨h.orderly.same, h.orderly.short, h.orderly.long, h.orderly.last⟩, h.short, h.long, h.size⟩

omit hU in
/-- A merge starts with the first element of the long run. -/
theorem start_sorts {short long : List Value} (threshold : Nat) (hU : ∀ v ∈ short ++ long, U v)
    (hshort : Sorted less short) (hlong : Sorted less long)
    (hfirst : ∀ y, long.head? = some y → ∀ x ∈ short, less y x = true)
    (hlast : ∀ x, short.getLast? = some x → ∀ y ∈ long, less y x = true) :
    Ensures I (Merged.Sorts less (short ++ long)) (start lt side threshold short long) := by
  have hfirst' : ∀ y ∈ long.take 1, ∀ x ∈ short, less y x = true := by
    intro y hy
    rw [List.take_one, Option.mem_toList] at hy
    exact hfirst y hy
  have h : Orderly less (short ++ long) ⟨[], short, long, threshold⟩ := ⟨.refl _, hshort, hlong, hlast⟩
  have hmoved := h.moveLong hless hfirst'
  refine (kept_orderly hless hverdict hlt hU).start ?_
  refine settle_sorts hless hmoved (fun hshort' hlong' => ⟨hmoved, hshort', hlong', ?_⟩) 0
  show short.length + (long.drop 1).length ≤ _
  rw [List.length_drop]
  omega

end

end Merge

/-! ### Merging two runs -/

section

variable {I : Machine → Prop} {U : Value → Prop} {less : Verdict} {lt : Comparison}
  (hless : WeakOrder less) (hlt : Answers I U less lt) {a b : List Value} (hU : ∀ v ∈ a ++ b, U v)
  (ha : Sorted less a) (hb : Sorted less b)
include hless hlt hU ha hb

/-- The parts of two runs are merged from either side. -/
theorem mergeParts_sorts (threshold : Nat)
    (hfirst : ∀ y, b.head? = some y → ∀ x ∈ a, less y x = true)
    (hlast : ∀ x, a.getLast? = some x → ∀ y ∈ b, less y x = true) :
    Ensures I (Merged.Sorts less (a ++ b)) (mergeParts lt threshold a b) := by
  refine .ite (fun _ => ?_) fun _ => ?_
  · exact Merge.start_sorts hless rfl hlt threshold hU ha hb hfirst hlast
  · have hU' : ∀ v ∈ b.reverse ++ a.reverse, U v := by
      rw [← List.reverse_append]
      exact fun v hv => hU v (List.mem_reverse.mp hv)
    have hright : Side.right.verdict less = turned less := rfl
    refine (Merge.start_sorts hless.turned hright hlt threshold hU' hb.reverse_turned
      ha.reverse_turned ?_ ?_).bind ?_
    · intro x hx y hy
      rw [List.head?_reverse] at hx
      exact hlast x hx y (List.mem_reverse.mp hy)
    · intro y hy x hx
      rw [List.getLast?_reverse] at hy
      exact hfirst y hy x (List.mem_reverse.mp hx)
    · rintro r ⟨hstop, hsorted, hsame⟩
      have hsame' := hsame.of_turned.reverse
      rw [← List.reverse_append, List.reverse_reverse] at hsame'
      exact .pure ⟨hstop, hsorted.of_turned, hsame'⟩

/-- **Two runs that stand side by side are merged.** -/
theorem mergeRuns_sorts (threshold : Nat) (hane : a ≠ []) (hbne : b ≠ []) :
    Ensures I (Merged.Sorts less (a ++ b)) (mergeRuns lt threshold a b) := by
  obtain ⟨haU, hbU⟩ := List.forall_mem_append.mp hU
  obtain ⟨y, rest, hy⟩ := List.exists_cons_of_ne_nil hbne
  have hhead : ∀ y' ∈ b, less y' y = false := hb.head hless (by rw [hy]; rfl)
  have hsorted (h : ∀ x ∈ a, ∀ y ∈ b, less y x = false) (threshold : Nat) :
      Merged.Sorts less (a ++ b) ⟨a ++ b, threshold, none⟩ := ⟨rfl, ha.append hb h, .refl _⟩
  have hstops : ∀ x ∈ a, Ensures I (· = less y x) (waitsFor lt .left (b.getD 0 .null) x) := by
    intro x hx
    rw [hy]
    exact hlt.waitsFor .left (haU x hx) (hbU y (by rw [hy]; exact List.mem_cons_self))
  refine (gallop_parts hstops (ha.persists hless y) .left hane).attempt.bind ?_
  rintro _ ⟨inPlace, rfl, hleft⟩
  have hinPlace : ∀ x ∈ a.take inPlace, ∀ y' ∈ b, less y' x = false :=
    fun x hx y' hy' => hless.trans (hleft.before x hx) (hhead y' hy')
  dsimp only
  cases hlast : (a.drop inPlace).getLast? with
  | none =>
    rw [List.getLast?_eq_none_iff, List.drop_eq_nil_iff] at hlast
    rw [List.take_of_length_le hlast] at hinPlace
    exact .pure (hsorted hinPlace threshold)
  | some last =>
    have hmem : last ∈ a.drop inPlace := List.mem_of_getLast? hlast
    have hend : ∀ x ∈ a, less last x = false := ha.last hless (getLast?_of_drop hlast)
    have hstops' : ∀ x ∈ b.reverse, Ensures I (· = turned less last x) (waitsFor lt .right last x) := by
      intro x hx
      exact hlt.waitsFor .right (hbU x (List.mem_reverse.mp hx)) (haU last (List.mem_of_mem_drop hmem))
    refine (gallop_parts hstops' (hb.reverse_turned.persists hless.turned last) .right
      (mt List.reverse_eq_nil_iff.mp hbne)).attempt.bind ?_
    rintro _ ⟨behind, rfl, hright⟩
    obtain ⟨k, hk⟩ : ∃ k, b.length - behind = k := ⟨_, rfl⟩
    have hmoving : ∀ v ∈ b.take k, less v last = true := by
      have := hright.behind
      rw [List.drop_reverse, hk] at this
      exact fun v hv => this v (List.mem_reverse.mpr hv)
    have hrest : ∀ v ∈ b.drop k, less v last = false := by
      have := hright.before
      rw [List.take_reverse, hk] at this
      exact fun v hv => this v (List.mem_reverse.mpr hv)
    dsimp only
    rw [hk]
    refine .ite (fun hempty => ?_) fun hne => ?_
    · have hall := List.take_append_drop k b
      rw [List.isEmpty_iff.mp hempty, List.nil_append] at hall
      rw [hall] at hrest
      exact .pure (hsorted (fun x hx y' hy' => hless.trans (hend x hx) (hrest y' hy')) threshold)
    · have hfirst : ∀ y', (b.take k).head? = some y' → ∀ x ∈ a.drop inPlace, less y' x = true := by
        intro y' hy' x hx
        rw [hy] at hy'
        cases k with
        | zero => cases hy'
        | succ k =>
          cases hy'
          exact hleft.behind x hx
      refine (mergeParts_sorts hless hlt ?_ (ha.drop inPlace) (hb.take k) threshold hfirst ?_).bind ?_
      · exact List.forall_mem_append.mpr ⟨fun v hv => haU v (List.mem_of_mem_drop hv),
          fun v hv => hbU v (List.mem_of_mem_take hv)⟩
      · intro x hx
        obtain rfl := Option.some.inj (hlast.symm.trans hx)
        exact hmoving
      · intro r hr
        rw [← between_append a b inPlace k]
        refine .pure (hr.between (ha.take inPlace) (hb.drop k) ?_ ?_)
        · intro x hx v hv
          rw [List.append_assoc, List.take_append_drop] at hv
          exact (List.mem_append.mp hv).elim (ha.across_take inPlace x hx v) (hinPlace x hx v)
        · intro x hx v hv
          rcases List.mem_append.mp hx with hx | hx
          · exact hless.trans (hend x (List.mem_of_mem_drop hx)) (hrest v hv)
          · exact hb.across_take k x hx v hv

end

end RuleScript.Sorting
