/-
# Sorting loses nothing

Whatever a comparison answers, and also when it stops, a sort returns, and it
returns the elements it was given, in some order: each of its steps moves
elements, and when the comparison stops, the elements are handed back as they
stand. Nothing is assumed of the comparison here.

Key definitions: `Merge.all`, `Merge.Conserves`, `elements`.
Key theorems: `Merge.kept_all`, `mergeRuns_conserves`, `sortItems_conserves`.
-/
import Mathlib.Data.List.Perm.Basic
import RuleScript.Proofs.Sorting.Course

namespace RuleScript.Sorting

open Eval (Ensures attempt_ensures)

variable {lt : Comparison}

/-- Insertion hands back all elements. -/
theorem insertAll_conserves : ∀ {rest sorted : List Value},
    Ensures (fun _ => True) (fun r => r.1.Perm (sorted ++ rest)) (insertAll lt sorted rest)
  | [], sorted => .pure (by rw [List.append_nil])
  | x :: rest, sorted => by
    refine (attempt_ensures _).bind ?_
    rintro (stop | k) -
    · exact .pure (.refl _)
    · refine (insertAll_conserves).weaken fun r hr => hr.trans ?_
      have hmoved : (sorted.take k ++ x :: sorted.drop k).Perm (sorted ++ [x]) := by
        refine List.perm_middle.trans ?_
        rw [List.take_append_drop]
        exact (List.perm_append_singleton x sorted).symm
      refine (hmoved.append_right rest).trans ?_
      rw [List.append_assoc]
      exact .refl _

/-! ### Merging -/

namespace Merge

variable {m : Merge} {xs : List Value}

/-- All elements of a merge. -/
def all (m : Merge) : List Value := m.done.reverse ++ (m.short ++ m.long)

theorem done_moveShort (m : Merge) (n : Nat) :
    (m.moveShort n).done.reverse = m.done.reverse ++ m.short.take n := by
  show ((m.short.take n).reverse ++ m.done).reverse = _
  rw [List.reverse_append, List.reverse_reverse]

theorem done_moveLong (m : Merge) (n : Nat) :
    (m.moveLong n).done.reverse = m.done.reverse ++ m.long.take n := by
  show ((m.long.take n).reverse ++ m.done).reverse = _
  rw [List.reverse_append, List.reverse_reverse]

theorem all_moveShort (m : Merge) (n : Nat) : (m.moveShort n).all = m.all := by
  unfold all
  rw [done_moveShort]
  show (m.done.reverse ++ m.short.take n) ++ (m.short.drop n ++ m.long) = _
  rw [List.append_assoc, ← List.append_assoc (m.short.take n), List.take_append_drop]

theorem all_moveLong (m : Merge) (n : Nat) :
    (m.moveLong n).all = m.done.reverse ++ ((m.long.take n ++ m.short) ++ m.long.drop n) := by
  unfold all
  rw [done_moveLong]
  show (m.done.reverse ++ m.long.take n) ++ (m.short ++ m.long.drop n) = _
  rw [List.append_assoc, ← List.append_assoc (m.long.take n)]

/-- A step that has, or has merged, the elements `xs`. -/
abbrev Conserves (xs : List Value) : Progress → Prop := Progress.Meets (·.all.Perm xs) (·.items.Perm xs)

theorem settle_conserves (h : m.all.Perm xs) (count : Nat) : Conserves xs (m.settle count) := by
  unfold settle
  split
  · exact h
  · exact h
  · rename_i x hx _
    refine List.Perm.trans ?_ h
    show (m.done.reverse ++ (m.long ++ [x])).Perm (m.done.reverse ++ (m.short ++ m.long))
    rw [hx]
    exact List.perm_append_comm.append_left _
  · exact h

theorem settle_moveShort_conserves (h : m.all.Perm xs) (n count : Nat) :
    Conserves xs ((m.moveShort n).settle count) :=
  settle_conserves (by rwa [all_moveShort]) count

theorem settle_moveLong_conserves (h : m.all.Perm xs) (n count : Nat) :
    Conserves xs ((m.moveLong n).settle count) := by
  refine settle_conserves (List.Perm.trans ?_ h) count
  rw [all_moveLong]
  refine ((List.perm_append_comm.append_right _).trans ?_).append_left _
  rw [List.append_assoc, List.take_append_drop]

theorem gallopBoth_conserves {side : Side} (h : m.all.Perm xs) :
    Ensures (fun _ => True) (Conserves xs) (gallopBoth lt side m) := by
  refine gallopBoth_meets (N := fun m => m.all.Perm xs) (fun m hm => ?_) (fun m hm => ?_) (fun _ hm => hm) h
  · exact gallopShort_meets (attempt_ensures _) (fun _ _ => hm)
      (fun n _ => settle_moveShort_conserves hm n n) fun _ hm' => settle_moveLong_conserves hm' 1
  · exact gallopLong_meets (attempt_ensures _) (fun _ _ => hm)
      (fun n _ => settle_moveLong_conserves hm n n) fun _ hm' => settle_moveShort_conserves hm' 1

/-- Every step of a merge keeps its elements. -/
theorem kept_all (lt : Comparison) (side : Side) (xs : List Value) :
    Kept (fun _ => True) lt side (fun _ m => m.all.Perm xs) (fun _ _ => True) (·.items.Perm xs) where
  last h := h
  ask _ := attempt_ensures _
  stop h _ := h
  long count h _ := settle_moveLong_conserves h 1 count
  short count h _ := settle_moveShort_conserves h 1 count
  gallop h := gallopBoth_conserves h
  threshold _ h := h

theorem start_conserves (side : Side) (threshold : Nat) (short long : List Value) :
    Ensures (fun _ => True) (fun r => r.items.Perm (short ++ long)) (start lt side threshold short long) :=
  (kept_all lt side (short ++ long)).start (settle_moveLong_conserves (.refl _) 1 0)

end Merge

theorem mergeParts_conserves (threshold : Nat) (a b : List Value) :
    Ensures (fun _ => True) (fun r => r.items.Perm (a ++ b)) (mergeParts lt threshold a b) := by
  refine .ite (fun _ => Merge.start_conserves .left threshold a b) fun _ => ?_
  refine (Merge.start_conserves .right threshold b.reverse a.reverse).bind fun r hr => .pure ?_
  rw [← List.reverse_append] at hr
  exact (List.reverse_perm r.items).trans (hr.trans (List.reverse_perm _))

/-- Two runs without what is in its place already. -/
theorem between_append (a b : List Value) (i k : Nat) :
    a.take i ++ ((a.drop i ++ b.take k) ++ b.drop k) = a ++ b := by
  rw [List.append_assoc (a.drop i), List.take_append_drop, ← List.append_assoc, List.take_append_drop]

/-- A merge hands back the elements of both runs. -/
theorem mergeRuns_conserves (threshold : Nat) (a b : List Value) :
    Ensures (fun _ => True) (fun r => r.items.Perm (a ++ b)) (mergeRuns lt threshold a b) := by
  refine (attempt_ensures _).bind ?_
  rintro (stop | inPlace) -
  · exact .pure (.refl _)
  dsimp only
  cases (a.drop inPlace).getLast? with
  | none => exact .pure (.refl _)
  | some last =>
    refine (attempt_ensures _).bind ?_
    rintro (stop | behind) -
    · exact .pure (.refl _)
    refine .ite (fun _ => .pure (.refl _)) fun _ => ?_
    refine (mergeParts_conserves threshold _ _).bind fun r hr => .pure ?_
    obtain ⟨k, hk⟩ : ∃ k, b.length - behind = k := ⟨_, rfl⟩
    dsimp only
    rw [hk] at hr ⊢
    rw [← between_append a b inPlace k]
    exact (hr.append_right _).append_left _

/-! ### The whole sort -/

/-- A run, what makes it longer, and what is left. -/
theorem taken_append (xs : List Value) (n least : Nat) :
    (xs.take n ++ (xs.drop n).take (least - n)) ++ xs.drop (max n least) = xs := by
  have hmax : max n least = n + (least - n) := by omega
  rw [hmax, ← List.drop_drop, List.append_assoc, List.take_append_drop, List.take_append_drop]

theorem takeRun_conserves (least : Nat) (xs : List Value) :
    Ensures (fun _ => True) (fun r => (r.1 ++ r.2.1).Perm xs) (takeRun lt least xs) := by
  refine (attempt_ensures _).bind ?_
  rintro (stop | ⟨n, descending⟩) -
  · exact .pure (by rw [List.append_nil])
  have hrun : (if descending then (xs.take n).reverse else xs.take n).Perm (xs.take n) := by
    cases descending with
    | false => exact .refl _
    | true => exact List.reverse_perm _
  refine insertAll_conserves.bind ?_
  rintro ⟨items, stop⟩ hitems
  refine .pure ?_
  have hall := (hitems.trans (hrun.append_right _)).append_right (xs.drop (max n least))
  rwa [taken_append] at hall

/-- What every comparison keeps: the elements. -/
def elements : Keeper := ⟨fun _ => True, fun _ => True, List.Perm, False⟩

theorem elements_upheld (lt : Comparison) : elements.Upheld (fun _ => True) lt where
  refl xs := List.Perm.refl xs
  trans := List.Perm.trans
  append := List.Perm.append
  perm h := h
  ne := False.elim
  merge threshold _ _ := (mergeRuns_conserves threshold _ _).weaken fun _ hr => ⟨False.elim, trivial, hr⟩
  take least _ _ := (takeRun_conserves least _).weaken fun _ hr => ⟨False.elim, trivial, trivial, hr⟩

/-- **A sort hands back the elements it was given**, whatever its comparison
does. -/
theorem sortItems_conserves (lt : Comparison) (xs : List Value) :
    Ensures (fun _ => True) (fun r => r.1.Perm xs) (sortItems lt xs) :=
  ((elements_upheld lt).sortItems trivial).weaken fun _ hr => hr.1

end RuleScript.Sorting
