/-
# Orders and stable rearrangements

What a sort is told is which of two values is less. If that is the strict part
of a total preorder (`WeakOrder`), two values that are not less than each other
are alike, and a list is sorted when none of its values is less than one before
it. A list rearranges another one when it has the same elements, and those that
are alike stand in the same order (`Rearranges`).

All that a sort does to its elements is to move a block of them in front of
another one that it is less than throughout, and this is a rearrangement
(`Rearranges.swap`).

Key definitions: `WeakOrder`, `alike`, `Sorted`, `Rearranges`.
Key theorems: `Rearranges.swap`, `Rearranges.reverse`.
-/
import Mathlib.Data.List.Perm.Basic
import RuleScript.Value

namespace RuleScript.Sorting

/-! ### Orders -/

/-- Which of two values is less. -/
abbrev Verdict := Value → Value → Bool

/-- The strict part of a total preorder. -/
structure WeakOrder (less : Verdict) : Prop where
  asymm {x y : Value} : less x y = true → less y x = false
  /-- Not to be greater is transitive. -/
  trans {x y z : Value} : less y x = false → less z y = false → less z x = false

/-- Neither of two values is less. -/
def alike (less : Verdict) (x y : Value) : Bool := !less x y && !less y x

/-- The verdict turned around. -/
def turned (less : Verdict) : Verdict := fun x y => less y x

/-- No value is less than one before it. -/
def Sorted (less : Verdict) (xs : List Value) : Prop := xs.Pairwise fun x y => less y x = false

theorem alike_iff {less : Verdict} {x y : Value} :
    alike less x y = true ↔ less x y = false ∧ less y x = false := by
  unfold alike
  rw [Bool.and_eq_true, Bool.not_eq_true', Bool.not_eq_true']

namespace WeakOrder

variable {less : Verdict} (hless : WeakOrder less) {x y z : Value}
include hless

theorem irrefl (x : Value) : less x x = false := by
  by_contra h
  exact h (hless.asymm (eq_true_of_ne_false h))

theorem less_of_less_of_not_less (hxy : less x y = true) (hyz : less z y = false) : less x z = true := by
  by_contra h
  have hzx : less x z = false := Bool.eq_false_iff.mpr h
  exact absurd hxy (Bool.eq_false_iff.mp (hless.trans hyz hzx))

theorem turned : WeakOrder (turned less) where
  asymm h := hless.asymm h
  trans hyx hzy := hless.trans hzy hyx

/-- Of two values one of which is less, at most one is alike to a third. -/
theorem not_alike_of_less (h : less y x = true) (hx : alike less z x = true) : alike less z y = false := by
  by_contra hy
  have hzx := (alike_iff.mp hx).1
  have hyz := (alike_iff.mp (eq_true_of_ne_false hy)).2
  exact absurd h (Bool.eq_false_iff.mp (hless.trans hzx hyz))

end WeakOrder

theorem alike_turned (less : Verdict) : alike (turned less) = alike less := by
  funext x y
  exact Bool.and_comm _ _

namespace Sorted

variable {less : Verdict} {xs ys : List Value}

theorem append (hxs : Sorted less xs) (hys : Sorted less ys)
    (h : ∀ x ∈ xs, ∀ y ∈ ys, less y x = false) : Sorted less (xs ++ ys) :=
  List.pairwise_append.mpr ⟨hxs, hys, h⟩

theorem left (h : Sorted less (xs ++ ys)) : Sorted less xs := (List.pairwise_append.mp h).1

theorem right (h : Sorted less (xs ++ ys)) : Sorted less ys := (List.pairwise_append.mp h).2.1

theorem across (h : Sorted less (xs ++ ys)) : ∀ x ∈ xs, ∀ y ∈ ys, less y x = false :=
  (List.pairwise_append.mp h).2.2

theorem take (h : Sorted less xs) (n : Nat) : Sorted less (xs.take n) :=
  List.Pairwise.sublist (List.take_sublist n xs) h

theorem drop (h : Sorted less xs) (n : Nat) : Sorted less (xs.drop n) :=
  List.Pairwise.sublist (List.drop_sublist n xs) h

theorem across_take (h : Sorted less xs) (n : Nat) :
    ∀ x ∈ xs.take n, ∀ y ∈ xs.drop n, less y x = false := by
  rw [← List.take_append_drop n xs] at h
  exact h.across

theorem reverse_turned (h : Sorted less xs) : Sorted (turned less) xs.reverse :=
  List.pairwise_reverse.mpr h

theorem of_turned (h : Sorted (turned less) xs) : Sorted less xs.reverse := List.pairwise_reverse.mpr h

/-- Every value is at least the first one. -/
theorem head (hless : WeakOrder less) (h : Sorted less xs) {x : Value} (hx : xs.head? = some x) :
    ∀ y ∈ xs, less y x = false := by
  obtain ⟨rest, rfl⟩ := List.head?_eq_some_iff.mp hx
  exact List.forall_mem_cons.mpr ⟨hless.irrefl x, (List.pairwise_cons.mp h).1⟩

/-- Every value is at most the last one. -/
theorem last (hless : WeakOrder less) (h : Sorted less xs) {x : Value} (hx : xs.getLast? = some x) :
    ∀ y ∈ xs, less x y = false := by
  have hx' : xs.reverse.head? = some x := by rw [List.head?_reverse, hx]
  intro y hy
  exact h.reverse_turned.head hless.turned hx' y (List.mem_reverse.mpr hy)

end Sorted

/-! ### Orders of some values -/

/-- The strict part of a total preorder of the values with the property `P`. -/
structure WeakOrderOn (P : Value → Prop) (less : Verdict) : Prop where
  asymm {x y : Value} : P x → P y → less x y = true → less y x = false
  trans {x y z : Value} : P x → P y → P z → less y x = false → less z y = false → less z x = false

open Classical in
/-- A verdict on the values with the property `P`, with all others behind them. -/
noncomputable def extend (P : Value → Prop) (less : Verdict) : Verdict :=
  fun x y => decide (P x ∧ (P y → less x y = true))

section

variable {P : Value → Prop} {less : Verdict} {x y : Value}

open Classical in
theorem extend_eq_true_iff : extend P less x y = true ↔ P x ∧ (P y → less x y = true) := by
  unfold extend
  exact decide_eq_true_iff

theorem extend_eq_false_iff : extend P less x y = false ↔ (P x → P y ∧ less x y = false) := by
  rw [← Bool.not_eq_true, extend_eq_true_iff, not_and, Classical.not_imp, Bool.not_eq_true]

theorem extend_eq (hx : P x) (hy : P y) : extend P less x y = less x y := by
  cases h : less x y with
  | false => exact extend_eq_false_iff.mpr fun _ => ⟨hy, h⟩
  | true => exact extend_eq_true_iff.mpr ⟨hx, fun _ => h⟩

theorem alike_extend (hx : P x) (hy : P y) : alike (extend P less) x y = alike less x y := by
  unfold alike
  rw [extend_eq hx hy, extend_eq hy hx]

/-- An order of some values becomes one of all values. -/
theorem WeakOrderOn.extend (hless : WeakOrderOn P less) : WeakOrder (extend P less) where
  asymm {x y} h := by
    obtain ⟨hx, hxy⟩ := extend_eq_true_iff.mp h
    exact extend_eq_false_iff.mpr fun hy => ⟨hx, hless.asymm hx hy (hxy hy)⟩
  trans {x y z} hyx hzy := by
    rw [extend_eq_false_iff] at hyx hzy ⊢
    intro hz
    obtain ⟨hy, hzy⟩ := hzy hz
    obtain ⟨hx, hyx⟩ := hyx hy
    exact ⟨hx, hless.trans hx hy hz hyx hzy⟩

end

/-! ### Rearrangements -/

/-- The same elements, with those that are alike in the same order. -/
structure Rearranges (less : Verdict) (xs ys : List Value) : Prop where
  perm : xs.Perm ys
  alike : ∀ z, xs.filter (alike less z) = ys.filter (alike less z)

namespace Rearranges

variable {less : Verdict} {xs ys zs xs' ys' : List Value}

theorem refl (xs : List Value) : Rearranges less xs xs := ⟨.refl xs, fun _ => rfl⟩

theorem symm (h : Rearranges less xs ys) : Rearranges less ys xs :=
  ⟨h.perm.symm, fun z => (h.alike z).symm⟩

theorem trans (h : Rearranges less xs ys) (h' : Rearranges less ys zs) : Rearranges less xs zs :=
  ⟨h.perm.trans h'.perm, fun z => (h.alike z).trans (h'.alike z)⟩

theorem append (h : Rearranges less xs ys) (h' : Rearranges less xs' ys') :
    Rearranges less (xs ++ xs') (ys ++ ys') := by
  refine ⟨h.perm.append h'.perm, fun z => ?_⟩
  rw [List.filter_append, List.filter_append, h.alike, h'.alike]

theorem append_left (zs : List Value) (h : Rearranges less xs ys) :
    Rearranges less (zs ++ xs) (zs ++ ys) :=
  (refl zs).append h

theorem append_right (zs : List Value) (h : Rearranges less xs ys) :
    Rearranges less (xs ++ zs) (ys ++ zs) :=
  h.append (refl zs)

theorem of_turned (h : Rearranges (turned less) xs ys) : Rearranges less xs ys :=
  ⟨h.perm, fun z => alike_turned less ▸ h.alike z⟩

theorem reverse (h : Rearranges less xs ys) : Rearranges less xs.reverse ys.reverse := by
  refine ⟨(List.reverse_perm xs).trans (h.perm.trans (List.reverse_perm ys).symm), fun z => ?_⟩
  rw [List.filter_reverse, List.filter_reverse, h.alike]

theorem ne_nil (h : Rearranges less xs ys) (hys : ys ≠ []) : xs ≠ [] := by
  rintro rfl
  exact hys h.perm.symm.eq_nil

/-- **A block may be moved in front of another one that it is less than.** -/
theorem swap (hless : WeakOrder less) (h : ∀ x ∈ xs, ∀ y ∈ ys, less y x = true) :
    Rearranges less (xs ++ ys) (ys ++ xs) := by
  refine ⟨List.perm_append_comm, fun z => ?_⟩
  rw [List.filter_append, List.filter_append]
  -- At most one of the blocks has values alike to `z`.
  by_cases hx : ∃ x ∈ xs, Sorting.alike less z x = true
  · obtain ⟨x, hx, hzx⟩ := hx
    have hys : ys.filter (Sorting.alike less z) = [] := by
      refine List.filter_eq_nil_iff.mpr fun y hy => Bool.eq_false_iff.mp ?_
      exact hless.not_alike_of_less (h x hx y hy) hzx
    rw [hys, List.append_nil, List.nil_append]
  · have hxs : xs.filter (Sorting.alike less z) = [] :=
      List.filter_eq_nil_iff.mpr fun x hmem hzx => hx ⟨x, hmem, hzx⟩
    rw [hxs, List.append_nil, List.nil_append]

/-- A list that descends may be turned around. -/
theorem of_descending (hless : WeakOrder less) : ∀ {xs : List Value},
    xs.Pairwise (fun x y => less y x = true) → Rearranges less xs.reverse xs
  | [], _ => refl []
  | x :: xs, h => by
    obtain ⟨hx, hxs⟩ := List.pairwise_cons.mp h
    rw [List.reverse_cons]
    refine ((of_descending hless hxs).append_right [x]).trans ?_
    refine (swap hless ?_).symm
    exact fun a ha y hy => List.mem_singleton.mp ha ▸ hx y hy

end Rearranges

end RuleScript.Sorting
