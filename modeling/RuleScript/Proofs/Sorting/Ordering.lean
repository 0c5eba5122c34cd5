/-
# Sorting sorts

The elements at the front of a list that are in order, or in the opposite order,
make a run, and insertion makes it longer (`takeRun_sorts`). Runs that are
sorted are merged into sorted runs, so a comparison that answers by an order
keeps the runs on the pile sorted (`order_upheld`), and in the end one run is
left, and it has all elements (`sortItems_sorts`).

Key definitions: `Directed`, `order`.
Key theorems: `frontRun_directed`, `insertAll_sorts`, `takeRun_sorts`,
`order_upheld`, `sortItems_sorts`.
-/
import RuleScript.Proofs.Sorting.Merging

namespace RuleScript.Sorting

open Eval (Ensures)

section

variable {I : Machine → Prop} {U : Value → Prop} {less : Verdict} {lt : Comparison}
  (hless : WeakOrder less) (hlt : Answers I U less lt)

/-! ### Runs -/

/-- The elements of a run stand in one direction. -/
def Directed (less : Verdict) (descending : Bool) (xs : List Value) : Prop :=
  xs.Pairwise fun x y => less y x = descending

section

include hless

theorem Directed.cons {descending : Bool} {last x : Value} {xs : List Value}
    (h : Directed less descending (x :: xs)) (hx : less x last = descending) :
    Directed less descending (last :: x :: xs) := by
  refine List.pairwise_cons.mpr ⟨List.forall_mem_cons.mpr ⟨hx, fun y hy => ?_⟩, h⟩
  have hyx : less y x = descending := (List.pairwise_cons.mp h).1 y hy
  cases descending with
  | false => exact hless.trans hx hyx
  | true => exact hless.less_of_less_of_not_less hyx (hless.asymm hx)

/-- A run that descends is sorted when it is turned around, and one that does
not is sorted as it is. -/
theorem Directed.sorts {descending : Bool} {xs : List Value} (h : Directed less descending xs) :
    Sorted less (if descending then xs.reverse else xs) ∧
      Rearranges less (if descending then xs.reverse else xs) xs := by
  cases descending with
  | false => exact ⟨h, .refl xs⟩
  | true => exact ⟨List.pairwise_reverse.mpr (h.imp hless.asymm), .of_descending hless h⟩

include hlt

theorem runLength_directed (descending : Bool) : ∀ {xs : List Value} {last : Value},
    (∀ v ∈ xs, U v) → U last →
    Ensures I (fun n => n ≤ xs.length ∧ Directed less descending (last :: xs.take n))
      (runLength lt descending last xs)
  | [], last, _, _ => .pure ⟨Nat.le_refl 0, List.pairwise_singleton _ last⟩
  | x :: xs, last, hU, hlast => by
    obtain ⟨hx, hxs⟩ := List.forall_mem_cons.mp hU
    refine (hlt x last hx hlast).bind ?_
    rintro _ rfl
    refine .ite (fun hgoes => ?_) fun _ => .pure ⟨Nat.zero_le _, List.pairwise_singleton _ last⟩
    refine (runLength_directed descending hxs hx).bind ?_
    rintro n ⟨hn, hdirected⟩
    exact .pure ⟨Nat.succ_le_succ hn, hdirected.cons hless (beq_iff_eq.mp hgoes)⟩

theorem frontRun_directed : ∀ {xs : List Value}, (∀ v ∈ xs, U v) → xs ≠ [] →
    Ensures I (fun r => 0 < r.1 ∧ r.1 ≤ xs.length ∧ Directed less r.2 (xs.take r.1)) (frontRun lt xs)
  | [], _, hne => absurd rfl hne
  | [x], _, _ => .pure ⟨Nat.zero_lt_one, Nat.le_refl 1, List.pairwise_singleton _ x⟩
  | x :: y :: rest, hU, _ => by
    obtain ⟨hx, hy, hrest⟩ := List.forall_mem_cons.mp hU |>.imp_right List.forall_mem_cons.mp
    refine (hlt y x hy hx).bind ?_
    rintro _ rfl
    refine (runLength_directed hless hlt (less y x) hrest hy).bind ?_
    rintro n ⟨hn, hdirected⟩
    exact .pure ⟨Nat.succ_pos _, Nat.succ_le_succ (Nat.succ_le_succ hn), hdirected.cons hless rfl⟩

/-- Insertion keeps a run sorted. -/
theorem insertAll_sorts : ∀ {rest sorted : List Value}, (∀ v ∈ sorted ++ rest, U v) → Sorted less sorted →
    Ensures I (fun r => r.2 = none ∧ Sorted less r.1 ∧ Rearranges less r.1 (sorted ++ rest))
      (insertAll lt sorted rest)
  | [], sorted, _, hsorted => .pure ⟨rfl, hsorted, by rw [List.append_nil]; exact .refl sorted⟩
  | x :: rest, sorted, hU, hsorted => by
    obtain ⟨hUsorted, hUrest⟩ := List.forall_mem_append.mp hU
    have hx : U x := hUrest x List.mem_cons_self
    have hplace := placeBetween_parts (fun y hy => hlt x y hx (hUsorted y hy)) (hsorted.persists hless x)
    refine hplace.attempt.bind ?_
    rintro _ ⟨k, rfl, hparts⟩
    have hinserted : Sorted less (sorted.take k ++ x :: sorted.drop k) := by
      refine (hsorted.take k).append (List.pairwise_cons.mpr ⟨?_, hsorted.drop k⟩) ?_
      · exact fun y hy => hless.asymm (hparts.behind y hy)
      · intro y hy
        exact List.forall_mem_cons.mpr ⟨hparts.before y hy, hsorted.across_take k y hy⟩
    have hsame : Rearranges less ((sorted.take k ++ x :: sorted.drop k) ++ rest) (sorted ++ x :: rest) := by
      have hswap : Rearranges less (sorted.drop k ++ [x]) ([x] ++ sorted.drop k) :=
        .swap hless fun y hy x' hx' => List.mem_singleton.mp hx' ▸ hparts.behind y hy
      have hwhole : (sorted.take k ++ (sorted.drop k ++ [x])) ++ rest = sorted ++ x :: rest := by
        rw [← List.append_assoc (sorted.take k), List.take_append_drop, List.append_assoc]
        rfl
      rw [← hwhole]
      exact (hswap.symm.append_left (sorted.take k)).append_right rest
    refine (insertAll_sorts (fun v hv => hU v (hsame.perm.mem_iff.mp hv)) hinserted).weaken ?_
    exact fun r hr => ⟨hr.1, hr.2.1, hr.2.2.trans hsame⟩

/-- **A run is taken off the front of a list.** -/
theorem takeRun_sorts (least : Nat) {xs : List Value} (hU : ∀ v ∈ xs, U v) (hne : xs ≠ []) :
    Ensures I (fun r => r.2.2 = none ∧ Sorted less r.1 ∧ r.1 ≠ [] ∧ r.2.1.length < xs.length ∧
      Rearranges less (r.1 ++ r.2.1) xs) (takeRun lt least xs) := by
  refine (frontRun_directed hless hlt hU hne).attempt.bind ?_
  rintro _ ⟨⟨n, descending⟩, rfl, hpos, hn, hdirected⟩
  obtain ⟨hsorted, hsame⟩ := hdirected.sorts hless
  dsimp only at hpos hn hsorted hsame ⊢
  obtain ⟨run, hrun⟩ : ∃ run, (if descending then (xs.take n).reverse else xs.take n) = run := ⟨_, rfl⟩
  rw [hrun] at hsorted hsame ⊢
  refine (insertAll_sorts hless hlt ?_ hsorted).bind ?_
  · refine List.forall_mem_append.mpr ⟨fun v hv => hU v ?_, fun v hv => hU v ?_⟩
    · exact List.mem_of_mem_take (hsame.perm.mem_iff.mp hv)
    · exact List.mem_of_mem_drop (List.mem_of_mem_take hv)
  · rintro ⟨items, stop⟩ ⟨hstop, hitems, hsame'⟩
    refine .pure ⟨hstop, hitems, ?_, ?_, ?_⟩
    · refine hsame'.ne_nil fun hnil => hsame.ne_nil ?_ (List.append_eq_nil_iff.mp hnil).1
      refine List.ne_nil_of_length_pos ?_
      rw [List.length_take]
      omega
    · show (xs.drop (max n least)).length < xs.length
      rw [List.length_drop]
      omega
    · have hall := (hsame'.trans (hsame.append_right _)).append_right (xs.drop (max n least))
      rwa [taken_append] at hall

end

/-! ### The whole sort -/

/-- What a comparison keeps that answers for the values with the property `U`
by an order: runs are sorted and not empty, and together they are a
rearrangement of the elements that were taken. -/
def order (U : Value → Prop) (less : Verdict) : Keeper where
  Raw xs := ∀ v ∈ xs, U v
  Good xs := Sorted less xs ∧ xs ≠ [] ∧ ∀ v ∈ xs, U v
  Same := Rearranges less
  Answering := True

include hless hlt

theorem order_upheld : (order U less).Upheld I lt where
  refl := .refl
  trans := .trans
  append := .append
  perm h := h.perm
  ne _ h := h.2.1
  merge threshold ha hb := by
    obtain ⟨ha, hane, hUa⟩ := ha
    obtain ⟨hb, hbne, hUb⟩ := hb
    have hU := List.forall_mem_append.mpr ⟨hUa, hUb⟩
    refine (mergeRuns_sorts hless hlt hU ha hb threshold hane hbne).weaken ?_
    rintro r ⟨hstop, hsorted, hsame⟩
    have hne : r.items ≠ [] := hsame.ne_nil (List.append_ne_nil_of_left_ne_nil hane _)
    exact ⟨fun _ => hstop, ⟨hsorted, hne, fun v hv => hU v (hsame.perm.mem_iff.mp hv)⟩, hsame⟩
  take {xs} least hU hne := by
    refine (takeRun_sorts hless hlt least hU hne).weaken ?_
    rintro r ⟨hstop, hsorted, hitems, hlength, hsame⟩
    have hU' : ∀ v ∈ r.1 ++ r.2.1, U v := fun v hv => hU v (hsame.perm.mem_iff.mp hv)
    obtain ⟨hUitems, hUrest⟩ := List.forall_mem_append.mp hU'
    exact ⟨fun _ => ⟨hstop, hlength⟩, ⟨hsorted, hitems, hUitems⟩, hUrest, hsame⟩

/-- **A sort sorts.** If a comparison answers for the elements by a verdict that
is an order, the sort ends without a stop, with the elements in that order and
those that are alike where they were. -/
theorem sortItems_sorts {xs : List Value} (hU : ∀ v ∈ xs, U v) :
    Ensures I (fun r => r.2 = none ∧ Sorted less r.1 ∧ Rearranges less r.1 xs) (sortItems lt xs) := by
  refine ((order_upheld hless hlt).sortItems hU).weaken ?_
  rintro ⟨ys, stop⟩ ⟨hsame, hanswers⟩
  obtain ⟨hstop, hgood⟩ := hanswers trivial
  refine ⟨hstop, ?_, hsame⟩
  cases ys with
  | nil => exact List.Pairwise.nil
  | cons y ys => exact (hgood (List.cons_ne_nil y ys)).1

end

/-- A sort sorts by a verdict that is an order of its elements. -/
theorem sortItems_sorts_on {I : Machine → Prop} {P : Value → Prop} {less : Verdict} {lt : Comparison}
    (hless : WeakOrderOn P less) (hlt : Answers I P less lt) {xs : List Value} (hxs : ∀ v ∈ xs, P v) :
    Ensures I (fun r => r.2 = none ∧ r.1.Perm xs ∧ Sorted less r.1 ∧
      ∀ z ∈ xs, r.1.filter (alike less z) = xs.filter (alike less z)) (sortItems lt xs) := by
  have hanswers : Answers I P (extend P less) lt := by
    intro x y hx hy
    rw [extend_eq hx hy]
    exact hlt x y hx hy
  refine (sortItems_sorts hless.extend hanswers hxs).weaken ?_
  rintro ⟨ys, stop⟩ ⟨hstop, hsorted, hsame⟩
  have hys : ∀ v ∈ ys, P v := fun v hv => hxs v (hsame.perm.mem_iff.mp hv)
  refine ⟨hstop, hsame.perm, ?_, fun z hz => ?_⟩
  · refine hsorted.imp_of_mem fun {x y} hx hy h => ?_
    rwa [extend_eq (hys y hy) (hys x hx)] at h
  · have hties := hsame.alike z
    rwa [List.filter_congr fun y hy => alike_extend (hxs z hz) (hys y hy),
      List.filter_congr fun y hy => alike_extend (hxs z hz) (hxs y hy)] at hties

end RuleScript.Sorting
