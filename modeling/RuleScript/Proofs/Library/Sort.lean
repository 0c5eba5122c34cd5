/-
# Sorting an array

While `Array.sort` works, the array holds nothing; in the end it gets its
elements back, whether the sort came to its end or its comparison stopped. So
it holds a permutation of what it held, whatever the callback does
(`sortArray_conserves`).

A callback judges the elements when it gives a number for every two of them, at
every call the same, and leaves the array alone (`Judges`). If the signs of
these numbers are a total preorder, the array ends up in that order, with equal
elements where they were. Without a callback, numbers are sorted by their
places and strings by their code points, and anything else is refused.

Key definitions: `Machine.emptied`, `concludeSort`, `sign`, `Judges`,
`TotalPreorder`, `PlainAtMost`.
Key theorems: `sortArray_run`, `sortArray_conserves`, `sortArray_sorts`,
`sort_keeps_and_sorts`.
-/
import RuleScript.Proofs.Heap.Names
import RuleScript.Proofs.Library.Failure
import RuleScript.Proofs.Number.Order
import RuleScript.Proofs.Sorting.Ordering
import RuleScript.Proofs.Values.Results

namespace RuleScript

open Eval (Ensures)
open Sorting (Verdict WeakOrderOn Answers Sorted alike)

/-! ### Arrays stay -/

/-- A native operation makes no array vanish. -/
theorem Operation.run_extends (op : Operation) (n : Nat) (ctx : Context) (pos : Position)
    (args : List Value) (m : Machine) :
    m.heap.Extends (op.run ⟨Engine.level n, ctx, pos⟩ args m).2.heap := by
  have hop : (Policy.sealing (fun _ => False) True).relaxed.operation m.heap op := by
    cases op <;> exact trivial
  have hrun : (Policy.sealing (fun _ => False) True).relaxed.Keeps m (op.run ⟨Engine.level n, ctx, pos⟩ args)
      (op.run ⟨Engine.level n, ctx, pos⟩ args) _ :=
    Operation.run_keeps pos (Policy.obeys_level (Policy.sealing (fun _ => False) True) n).relax id
      (fun _ _ => trivial) hop fun _ => trivial
  exact (hrun (Policy.relaxed_holds.mpr (Policy.sealing_holds m))).2.grows.extend

section

variable {s : Site} {f : NativeFunction} {args : List Value} {m : Machine} {r : ArrayRef}

/-- What is handed back of a value changes no array that is there. -/
theorem callNative_items (hadmits : f.arity.admits args.length = true)
    (hvalue : ∀ p, (f.operation.run s args m).1 = .ok p → ∃ v, p = .value v)
    (hr : r.index < (f.operation.run s args m).2.heap.arrays.size) :
    (callNative s f args m).2.heap.items r = (f.operation.run s args m).2.heap.items r := by
  rcases hrun : f.operation.run s args m with ⟨stop | p, m₁⟩
  · obtain ⟨stop', hcall⟩ := callNative_of_error s _ hadmits hrun
    rw [hcall]
  · rw [hrun] at hvalue hr
    obtain ⟨v, rfl⟩ := hvalue p rfl
    rw [callNative_of_ok hadmits hrun]
    obtain ⟨h, hm, hadds⟩ := (receive_adding s (f.operation.host? m₁) v).adds m₁
    rw [hm]
    exact hadds.items r hr

end

/-! ### The array while it is sorted -/

/-- The machine on which an array is sorted: it holds nothing meanwhile. -/
def Machine.emptied (m : Machine) (r : ArrayRef) : Machine := { m with heap := m.heap.setItems r [] }

/-- How a sort ends when the array has its elements back. -/
def concludeSort (s : Site) (r : ArrayRef) (unmodified : Bool) : Option Stop → Eval Product
  | some e => throw e
  | none => if unmodified then return .value (.array r) else s.fail .modifiedDuringSort

section

variable {s : Site} {r : ArrayRef} {m m₁ : Machine} {lt : Comparison} {ys : List Value} {stop : Option Stop}

theorem concludeSort_run (unmodified : Bool) (stop : Option Stop) (m : Machine) :
    (concludeSort s r unmodified stop m).2 = m ∧
      ∀ p, (concludeSort s r unmodified stop m).1 = .ok p → p = .value (.array r) := by
  cases stop with
  | some e => exact ⟨rfl, nofun⟩
  | none =>
    cases unmodified with
    | false => exact ⟨rfl, nofun⟩
    | true => exact ⟨rfl, fun p hp => (Except.ok.inj hp).symm⟩

/-- The array gets back what the sort hands back. -/
theorem sortArray_run (h : sortItems lt (m.heap.items r) (m.emptied r) = (.ok (ys, stop), m₁)) :
    sortArray s r lt m =
      concludeSort s r (decide ((m₁.heap.arrayCell r).additions = (m.heap.arrayCell r).additions)) stop
        { m₁ with heap := m₁.heap.setItems r ys } := by
  have hcell : Eval.onHeap (·.arrayCell r) m = (.ok (m.heap.arrayCell r), m) := rfl
  have hempty : Eval.modifyHeap (·.setItems r []) m = (.ok (), m.emptied r) := rfl
  unfold sortArray
  rw [Eval.bind_run_ok hcell, Eval.bind_run_ok hempty]
  refine (Eval.bind_run_ok h _).trans ?_
  cases stop with
  | some e => rfl
  | none =>
    by_cases hadditions : (m₁.heap.arrayCell r).additions = (m.heap.arrayCell r).additions
    · rw [decide_eq_true hadditions]
      exact congrFun (if_pos hadditions) _
    · rw [decide_eq_false hadditions]
      exact congrFun (if_neg hadditions) _

/-- **Sorting keeps every element**, whatever the comparison does. -/
theorem sortArray_conserves (s : Site) (lt : Comparison)
    (hr : r.index < (sortArray s r lt m).2.heap.arrays.size) :
    ((sortArray s r lt m).2.heap.items r).Perm (m.heap.items r) ∧
      ∀ p, (sortArray s r lt m).1 = .ok p → p = .value (.array r) := by
  obtain ⟨⟨ys, stop⟩, m₁, hrun, -, hperm⟩ :=
    Sorting.sortItems_conserves lt (m.heap.items r) (m.emptied r) trivial
  rw [sortArray_run hrun] at hr ⊢
  obtain ⟨hmachine, hvalue⟩ := concludeSort_run (s := s) (r := r)
    (decide ((m₁.heap.arrayCell r).additions = (m.heap.arrayCell r).additions)) stop
    { m₁ with heap := m₁.heap.setItems r ys }
  rw [hmachine] at hr ⊢
  have hr₁ : r.index < m₁.heap.arrays.size := by
    have hsize : (m₁.heap.setItems r ys).arrays.size = m₁.heap.arrays.size := Array.size_modify
    exact hsize ▸ hr
  refine ⟨?_, hvalue⟩
  show ((m₁.heap.setItems r ys).items r).Perm _
  rw [Heap.items_setItems hr₁]
  exact hperm

/-- **Sorting by an order sorts.** -/
theorem sortArray_sorts {I : Machine → Prop} {P : Value → Prop} {less : Verdict} (s : Site)
    (hless : WeakOrderOn P less) (hlt : Answers I P less lt) (hI : I (m.emptied r))
    (hcell : ∀ m', I m' → (m'.heap.arrayCell r).additions = (m.heap.arrayCell r).additions)
    (hxs : ∀ v ∈ m.heap.items r, P v) (hr : r.index < (sortArray s r lt m).2.heap.arrays.size) :
    (sortArray s r lt m).1 = .ok (.value (.array r)) ∧
      Sorted less ((sortArray s r lt m).2.heap.items r) ∧
      ∀ z ∈ m.heap.items r, ((sortArray s r lt m).2.heap.items r).filter (alike less z) =
        (m.heap.items r).filter (alike less z) := by
  obtain ⟨⟨ys, stop⟩, m₁, hrun, hI₁, hstop, -, hsorted, hties⟩ :=
    Sorting.sortItems_sorts_on hless hlt hxs (m.emptied r) hI
  dsimp only at hstop hsorted hties
  rw [hstop] at hrun
  have hmachine : sortArray s r lt m =
      (.ok (.value (.array r)), { m₁ with heap := m₁.heap.setItems r ys }) := by
    rw [sortArray_run hrun, decide_eq_true (hcell m₁ hI₁)]
    rfl
  rw [hmachine] at hr ⊢
  have hr₁ : r.index < m₁.heap.arrays.size := by
    have hsize : (m₁.heap.setItems r ys).arrays.size = m₁.heap.arrays.size := Array.size_modify
    exact hsize ▸ hr
  have hitems : (m₁.heap.setItems r ys).items r = ys := Heap.items_setItems hr₁ ys
  refine ⟨rfl, ?_, ?_⟩
  · show Sorted less ((m₁.heap.setItems r ys).items r)
    rw [hitems]
    exact hsorted
  · show ∀ z ∈ m.heap.items r, ((m₁.heap.setItems r ys).items r).filter (alike less z) = _
    rw [hitems]
    exact hties

end

theorem additions_emptied {m : Machine} {r : ArrayRef} (hr : r.index < m.heap.arrays.size) :
    ((m.emptied r).heap.arrayCell r).additions = (m.heap.arrayCell r).additions := by
  unfold Machine.emptied Heap.setItems Heap.arrayCell
  dsimp only
  rw [Array.getD_eq_getD_getElem?, Array.getElem?_modify, if_pos rfl, Array.getElem?_eq_getElem hr,
    Array.getD_eq_getD_getElem?, Array.getElem?_eq_getElem hr]
  rfl

/-! ### Callbacks -/

/-- The sign of a number; no number counts as zero. -/
def sign (x : Float) : Int := if x < 0.0 then -1 else if 0.0 < x then 1 else 0

/-- A callback that gives the number `c x y` for any two of the elements and
leaves the array alone. `I` is what is true of the machine at each of its
calls; for a callback without side effects, that it holds what it held and
perhaps more. -/
def Judges (s : Site) (g : FunctionRef) (r : ArrayRef) (xs : List Value) (c : Value → Value → Float)
    (I : Machine → Prop) : Prop :=
  ∀ m, I m → ∀ x ∈ xs, ∀ y ∈ xs, ∃ m', s.invoke g [x, y] m = (.ok (.number (c x y)), m') ∧ I m' ∧
    m'.heap.arrayCell r = m.heap.arrayCell r

/-- The signs of the numbers are those of a total preorder of the elements. -/
structure TotalPreorder (xs : List Value) (c : Value → Value → Float) : Prop where
  opposite : ∀ x ∈ xs, ∀ y ∈ xs, sign (c y x) = -sign (c x y)
  trans : ∀ x ∈ xs, ∀ y ∈ xs, ∀ z ∈ xs, sign (c x y) ≤ 0 → sign (c y z) ≤ 0 → sign (c x z) ≤ 0

/-- The verdict of a callback. -/
def callbackVerdict (c : Value → Value → Float) : Verdict := fun x y => decide (c x y < 0.0)

theorem sign_eq_neg_one_iff {x : Float} : sign x = -1 ↔ x < 0.0 := by
  unfold sign
  split
  · exact iff_of_true rfl ‹_›
  · refine iff_of_false ?_ ‹_›
    split <;> decide

theorem sign_cases (x : Float) : sign x = -1 ∨ sign x = 0 ∨ sign x = 1 := by
  unfold sign
  split
  · exact .inl rfl
  · split
    · exact .inr (.inr rfl)
    · exact .inr (.inl rfl)

namespace TotalPreorder

variable {xs : List Value} {c : Value → Value → Float} (h : TotalPreorder xs c) {x y z : Value}
include h

/-- A value is not less when its number has the other sign or none. -/
theorem not_less_iff (hx : x ∈ xs) (hy : y ∈ xs) : callbackVerdict c y x = false ↔ sign (c x y) ≤ 0 := by
  unfold callbackVerdict
  rw [decide_eq_false_iff_not, ← sign_eq_neg_one_iff, h.opposite x hx y hy]
  have := sign_cases (c x y)
  omega

theorem alike_iff (hx : x ∈ xs) (hy : y ∈ xs) :
    alike (callbackVerdict c) x y = true ↔ sign (c x y) = 0 := by
  rw [Sorting.alike_iff, h.not_less_iff hy hx, h.not_less_iff hx hy, h.opposite x hx y hy]
  omega

theorem weakOrderOn : WeakOrderOn (· ∈ xs) (callbackVerdict c) where
  asymm {x y} hx hy hless := by
    rw [h.not_less_iff hx hy, sign_eq_neg_one_iff.mpr (of_decide_eq_true hless)]
    decide
  trans {x y z} hx hy hz hyx hzy := by
    rw [h.not_less_iff hx hy] at hyx
    rw [h.not_less_iff hy hz] at hzy
    rw [h.not_less_iff hx hz]
    exact h.trans x hx y hy z hz hyx hzy

end TotalPreorder

theorem callbackLess_answers {s : Site} {g : FunctionRef} {r : ArrayRef} {xs : List Value}
    {c : Value → Value → Float} {I : Machine → Prop} (h : Judges s g r xs c I) (additions : Nat) :
    Answers (fun m => I m ∧ (m.heap.arrayCell r).additions = additions) (· ∈ xs) (callbackVerdict c)
      (callbackLess s g) := by
  rintro x y hx hy m ⟨hI, hadditions⟩
  obtain ⟨m', hcall, hI', hcell⟩ := h m hI x hx y hy
  refine ⟨callbackVerdict c x y, m', ?_, ⟨hI', by rw [hcell, hadditions]⟩, rfl⟩
  unfold callbackLess
  rw [Eval.bind_run_ok hcall]
  rfl

/-! ### Numbers and strings -/

/-- The code points of a string. -/
def codePoints (t : String) : List Nat := t.toList.map Char.toNat

/-- The order of numbers by their places, and of strings by their code points. -/
inductive PlainAtMost : Value → Value → Prop
  | number {x y : Float} (h : Number.rank x ≤ Number.rank y) : PlainAtMost (.number x) (.number y)
  | string {t u : String} (h : codePoints t ≤ codePoints u) : PlainAtMost (.string t) (.string u)

/-- Values that are numbers, none of them not a number. -/
def Numeric (v : Value) : Prop := ∃ x, v = .number x ∧ Number.isNaN x = false

/-- Values that are strings. -/
def Textual (v : Value) : Prop := ∃ t, v = .string t

theorem isPlain_iff {xs : List Value} :
    isPlain xs = true ↔ (∀ v ∈ xs, ∃ x, v = .number x) ∨ ∀ v ∈ xs, Textual v := by
  unfold isPlain
  rw [Bool.or_eq_true, List.all_eq_true, List.all_eq_true]
  refine or_congr (forall₂_congr fun v _ => ?_) (forall₂_congr fun v _ => ?_)
  · cases v with
    | number x => exact iff_of_true rfl ⟨x, rfl⟩
    | _ => exact iff_of_false nofun nofun
  · cases v with
    | string t => exact iff_of_true rfl ⟨t, rfl⟩
    | _ => exact iff_of_false nofun nofun

/-- The verdict of the order of plain values. -/
def plainVerdict : Verdict
  | .number x, .number y => decide (x < y)
  | .string t, .string u => decide (t < u)
  | _, _ => false

theorem plainLess_answers (I : Machine → Prop) (P : Value → Prop) : Answers I P plainVerdict plainLess := by
  intro x y _ _
  have hless : plainLess x y = pure (plainVerdict x y) := by
    cases x <;> cases y <;> rfl
  rw [hless]
  exact .pure rfl

theorem map_toNat_lt_iff : ∀ {l k : List Char}, l < k ↔ l.map Char.toNat < k.map Char.toNat
  | _, [] => iff_of_false (List.not_lt_nil _) (List.not_lt_nil _)
  | [], b :: k => iff_of_true (List.nil_lt_cons b k) (List.nil_lt_cons _ _)
  | a :: l, b :: k => by
    rw [List.map_cons, List.map_cons, List.cons_lt_cons_iff, List.cons_lt_cons_iff, map_toNat_lt_iff,
      Char.toNat_inj]
    exact Iff.rfl

/-- Strings are compared by their code points. -/
theorem string_lt_iff {t u : String} : t < u ↔ codePoints t < codePoints u :=
  String.lt_iff.trans map_toNat_lt_iff

theorem numeric_not_less_iff {x y : Float} (hx : Number.isNaN x = false) (hy : Number.isNaN y = false) :
    plainVerdict (.number y) (.number x) = false ↔ Number.rank x ≤ Number.rank y := by
  show decide (y < x) = false ↔ _
  rw [decide_eq_false_iff_not, Number.lt_iff_rank hy hx, not_lt]

theorem textual_not_less_iff {t u : String} :
    plainVerdict (.string u) (.string t) = false ↔ codePoints t ≤ codePoints u := by
  show decide (u < t) = false ↔ _
  rw [decide_eq_false_iff_not, string_lt_iff, not_lt]

theorem numeric_weakOrderOn : WeakOrderOn Numeric plainVerdict where
  asymm := by
    rintro _ _ ⟨x, rfl, hx⟩ ⟨y, rfl, hy⟩ hless
    rw [numeric_not_less_iff hx hy]
    exact ((Number.lt_iff_rank hx hy).mp (of_decide_eq_true hless)).le
  trans := by
    rintro _ _ _ ⟨x, rfl, hx⟩ ⟨y, rfl, hy⟩ ⟨z, rfl, hz⟩ hyx hzy
    rw [numeric_not_less_iff hx hy] at hyx
    rw [numeric_not_less_iff hy hz] at hzy
    rw [numeric_not_less_iff hx hz]
    exact hyx.trans hzy

theorem textual_weakOrderOn : WeakOrderOn Textual plainVerdict where
  asymm := by
    rintro _ _ ⟨t, rfl⟩ ⟨u, rfl⟩ hless
    rw [textual_not_less_iff]
    exact (string_lt_iff.mp (of_decide_eq_true hless)).le
  trans := by
    rintro _ _ _ ⟨t, rfl⟩ ⟨u, rfl⟩ ⟨w, rfl⟩ hyx hzy
    rw [textual_not_less_iff] at hyx hzy ⊢
    exact hyx.trans hzy

/-! ### The native -/

section

variable {s : Site} {f : NativeFunction} {r : ArrayRef} {g : FunctionRef} {m : Machine}
  (hf : f.operation = .array .sort)
include hf

theorem sort_run_callback :
    f.operation.run s [.array r, .function g] m = sortArray s r (callbackLess s g) m := by
  rw [hf]
  rfl

theorem sort_run_plain :
    f.operation.run s [.array r] m =
      (if isPlain (m.heap.items r) then sortArray s r plainLess
        else s.fail (.expected "numbers or strings to sort without a compare function") :
          Eval Product) m := by
  rw [hf]
  rfl

omit hf in
theorem run_conserves_of_sortArray {args : List Value} {lt : Comparison}
    (hrun : f.operation.run s args m = sortArray s r lt m)
    (hr : r.index < (f.operation.run s args m).2.heap.arrays.size) :
    ((f.operation.run s args m).2.heap.items r).Perm (m.heap.items r) ∧
      ∀ p, (f.operation.run s args m).1 = .ok p → ∃ v, p = .value v := by
  rw [hrun] at hr ⊢
  obtain ⟨hperm, hvalue⟩ := sortArray_conserves s lt hr
  exact ⟨hperm, fun p hp => ⟨_, hvalue p hp⟩⟩

omit hf in
theorem run_conserves_of_error {args : List Value} {stop : Stop}
    (hrun : f.operation.run s args m = (.error stop, m)) :
    ((f.operation.run s args m).2.heap.items r).Perm (m.heap.items r) ∧
      ∀ p, (f.operation.run s args m).1 = .ok p → ∃ v, p = .value v := by
  rw [hrun]
  exact ⟨.refl _, nofun⟩

/-- The operation gives the array back its elements, or has not begun. -/
theorem sort_run_conserves {rest : List Value} (hrest : rest.length ≤ 1)
    (hr : r.index < (f.operation.run s (.array r :: rest) m).2.heap.arrays.size) :
    ((f.operation.run s (.array r :: rest) m).2.heap.items r).Perm (m.heap.items r) ∧
      ∀ p, (f.operation.run s (.array r :: rest) m).1 = .ok p → ∃ v, p = .value v := by
  cases rest with
  | nil =>
    have hrun := sort_run_plain (s := s) (r := r) (m := m) hf
    cases hplain : isPlain (m.heap.items r) with
    | true =>
      rw [hplain] at hrun
      exact run_conserves_of_sortArray hrun hr
    | false =>
      rw [hplain] at hrun
      exact run_conserves_of_error hrun
  | cons v rest =>
    obtain rfl : rest = [] := List.eq_nil_of_length_eq_zero (by rw [List.length_cons] at hrest; omega)
    by_cases hv : ∃ g, v = .function g
    · obtain ⟨g, rfl⟩ := hv
      exact run_conserves_of_sortArray (sort_run_callback hf) hr
    · have hfunction : Site.function s "a function as the second argument" v =
          s.fail (.expected "a function as the second argument") := by
        cases v with
        | function g => exact absurd ⟨g, rfl⟩ hv
        | _ => rfl
      have hrun : f.operation.run s [.array r, v] m =
          (do sortArray s r (callbackLess s (← s.function "a function as the second argument" v)) :
            Eval Product) m := by
        rw [hf]
        rfl
      rw [hfunction] at hrun
      exact run_conserves_of_error hrun

end

/-! ### The call -/

section

variable {f : NativeFunction} {r : ArrayRef} {m : Machine} (hr : r.index < m.heap.arrays.size)
  (n : Nat) (ctx : Context) (pos : Position)
include hr

/-- The array is there when the operation is over. -/
theorem array_stays (args : List Value) :
    r.index < (f.operation.run ⟨Engine.level n, ctx, pos⟩ args m).2.heap.arrays.size :=
  Nat.lt_of_lt_of_le hr (Operation.run_extends f.operation n ctx pos args m).arrays

variable (hf : f.operation = .array .sort) (harity : f.arity = .between 1 2)
include hf harity

/-- The call leaves in the array what the operation leaves in it. -/
theorem sort_items {rest : List Value} (hrest : rest.length ≤ 1) :
    (callNative ⟨Engine.level n, ctx, pos⟩ f (.array r :: rest) m).2.heap.items r =
      (f.operation.run ⟨Engine.level n, ctx, pos⟩ (.array r :: rest) m).2.heap.items r := by
  have hadmits : f.arity.admits (Value.array r :: rest).length = true := by
    rw [harity, List.length_cons]
    rcases Nat.le_one_iff_eq_zero_or_eq_one.mp hrest with h | h
    · rw [h]
      rfl
    · rw [h]
      rfl
  have hvalue := (sort_run_conserves (s := ⟨Engine.level n, ctx, pos⟩) hf hrest (array_stays hr n ctx pos _)).2
  exact callNative_items hadmits hvalue (array_stays hr n ctx pos _)

theorem sort_perm {rest : List Value} (hrest : rest.length ≤ 1) :
    ((callNative ⟨Engine.level n, ctx, pos⟩ f (.array r :: rest) m).2.heap.items r).Perm
      (m.heap.items r) := by
  rw [sort_items hr n ctx pos hf harity hrest]
  exact (sort_run_conserves hf hrest (array_stays hr n ctx pos _)).1

/-- A callback that judges by a total preorder sorts by it. -/
theorem sort_by_callback {g : FunctionRef} {c : Value → Value → Float} {I : Machine → Prop}
    (hjudges : Judges ⟨Engine.level n, ctx, pos⟩ g r (m.heap.items r) c I) (hI : I (m.emptied r))
    (hpreorder : TotalPreorder (m.heap.items r) c) :
    let s : Site := ⟨Engine.level n, ctx, pos⟩
    let xs := m.heap.items r
    let ys := (callNative s f [.array r, .function g] m).2.heap.items r
    (f.operation.run s [.array r, .function g] m).1 = .ok (.value (.array r)) ∧
      ys.Pairwise (fun x y => sign (c x y) ≤ 0) ∧
      ∀ z ∈ xs, ys.filter (fun y => sign (c z y) = 0) = xs.filter fun y => sign (c z y) = 0 := by
  intro s xs ys
  have hrest : [Value.function g].length ≤ 1 := Nat.le_refl 1
  have hrun := sort_run_callback (s := s) (r := r) (g := g) (m := m) hf
  have hthere := array_stays (f := f) hr n ctx pos [.array r, .function g]
  rw [hrun] at hthere
  obtain ⟨hvalue, hsorted, hties⟩ := sortArray_sorts s hpreorder.weakOrderOn
    (callbackLess_answers hjudges (m.heap.arrayCell r).additions) ⟨hI, additions_emptied hr⟩
    (fun m' h => h.2) (fun v hv => hv) hthere
  have hys : ∀ v ∈ ys, v ∈ xs := fun v hv => (sort_perm hr n ctx pos hf harity hrest).mem_iff.mp hv
  rw [← hrun, ← sort_items hr n ctx pos hf harity hrest] at hsorted hties
  refine ⟨by rw [hrun, hvalue], ?_, fun z hz => ?_⟩
  · exact hsorted.imp_of_mem fun hx hy h => (hpreorder.not_less_iff (hys _ hx) (hys _ hy)).mp h
  · have hsign {y : Value} (hy : y ∈ xs) : alike (callbackVerdict c) z y = decide (sign (c z y) = 0) :=
      Bool.eq_iff_iff.mpr ((hpreorder.alike_iff hz hy).trans decide_eq_true_iff.symm)
    have htie := hties z hz
    rwa [List.filter_congr fun y hy => hsign (hys y hy), List.filter_congr fun y hy => hsign hy] at htie

/-- Without a callback, plain values are sorted by their verdict. -/
theorem sort_by_plainVerdict {P : Value → Prop} (hless : WeakOrderOn P plainVerdict)
    (hP : ∀ v ∈ m.heap.items r, P v) (hplain : isPlain (m.heap.items r) = true) :
    Sorted plainVerdict ((callNative ⟨Engine.level n, ctx, pos⟩ f [.array r] m).2.heap.items r) := by
  have hwithout : ([] : List Value).length ≤ 1 := Nat.zero_le 1
  have hrun := sort_run_plain (s := ⟨Engine.level n, ctx, pos⟩) (r := r) (m := m) hf
  rw [if_pos hplain] at hrun
  have hthere := array_stays (f := f) hr n ctx pos [.array r]
  rw [hrun] at hthere
  obtain ⟨-, hsorted, -⟩ := sortArray_sorts ⟨Engine.level n, ctx, pos⟩ hless
    (plainLess_answers (fun m' => (m'.heap.arrayCell r).additions = (m.heap.arrayCell r).additions) P)
    (additions_emptied hr) (fun m' h => h) hP hthere
  rwa [sort_items hr n ctx pos hf harity hwithout, hrun]

/-- Without a callback, numbers and strings come in order. -/
theorem sort_plain
    (hxs : (∀ v ∈ m.heap.items r, Numeric v) ∨ ∀ v ∈ m.heap.items r, Textual v) :
    ((callNative ⟨Engine.level n, ctx, pos⟩ f [.array r] m).2.heap.items r).Pairwise PlainAtMost := by
  have hwithout : ([] : List Value).length ≤ 1 := Nat.zero_le 1
  have hmem : ∀ v ∈ (callNative ⟨Engine.level n, ctx, pos⟩ f [.array r] m).2.heap.items r,
      v ∈ m.heap.items r := fun v hv => (sort_perm hr n ctx pos hf harity hwithout).mem_iff.mp hv
  rcases hxs with hnumeric | htextual
  · have hplain := isPlain_iff.mpr (.inl fun v hv => (hnumeric v hv).imp fun x hx => hx.1)
    have hsorted := sort_by_plainVerdict hr n ctx pos hf harity numeric_weakOrderOn hnumeric hplain
    refine hsorted.imp_of_mem fun {v w} hv hw h => ?_
    obtain ⟨x, rfl, hx⟩ := hnumeric v (hmem v hv)
    obtain ⟨y, rfl, hy⟩ := hnumeric w (hmem w hw)
    exact .number ((numeric_not_less_iff hx hy).mp h)
  · have hsorted := sort_by_plainVerdict hr n ctx pos hf harity textual_weakOrderOn htextual (isPlain_iff.mpr (.inr htextual))
    refine hsorted.imp_of_mem fun {v w} hv hw h => ?_
    obtain ⟨t, rfl⟩ := htextual v (hmem v hv)
    obtain ⟨u, rfl⟩ := htextual w (hmem w hw)
    exact .string (textual_not_less_iff.mp h)

end

/-- Without a callback, an array of anything else is refused. -/
theorem sort_refused {s : Site} {f : NativeFunction} {r : ArrayRef} {m : Machine}
    (hf : f.operation = .array .sort) (hadmits : f.arity.admits 1 = true)
    (hnumbers : ¬∀ v ∈ m.heap.items r, ∃ x, v = .number x) (hstrings : ¬∀ v ∈ m.heap.items r, Textual v) :
    ∃ cause, callNative s f [.array r] m =
      (.error (.fault (.raisedAt cause (some s.pos) s.ctx.source)), m) ∧ cause.kind = .typing := by
  have hplain : isPlain (m.heap.items r) = false := by
    rw [← Bool.not_eq_true, isPlain_iff, not_or]
    exact ⟨hnumbers, hstrings⟩
  have hrun := sort_run_plain (s := s) (r := r) (m := m) hf
  rw [hplain] at hrun
  exact ⟨_, callNative_of_fault s _ hadmits hrun, rfl⟩

/-- **Sorting keeps every element, and sorts.** Whatever the callback does,
after `Array.sort` the array holds a permutation of what it held. A callback
whose numbers have the signs of a total preorder brings the array into that
order, with equal elements where they were, and the sort itself does not stop.
Without a callback, numbers come in the order of their places and strings in
that of their code points; an array that is neither is left alone, with a type
fault. -/
theorem sort_keeps_and_sorts (n : Nat) (ctx : Context) (pos : Position) (f : NativeFunction)
    (hf : f.operation = .array .sort) (harity : f.arity = .between 1 2) (r : ArrayRef) (m : Machine)
    (hr : r.index < m.heap.arrays.size) :
    let s : Site := ⟨Engine.level n, ctx, pos⟩
    let xs := m.heap.items r
    (∀ rest, rest.length ≤ 1 → ((callNative s f (.array r :: rest) m).2.heap.items r).Perm xs) ∧
    (∀ g c I, Judges s g r xs c I → I (m.emptied r) → TotalPreorder xs c →
      let ys := (callNative s f [.array r, .function g] m).2.heap.items r
      (f.operation.run s [.array r, .function g] m).1 = .ok (.value (.array r)) ∧
        ys.Pairwise (fun x y => sign (c x y) ≤ 0) ∧
        ∀ z ∈ xs, ys.filter (fun y => sign (c z y) = 0) = xs.filter fun y => sign (c z y) = 0) ∧
    ((∀ v ∈ xs, Numeric v) ∨ (∀ v ∈ xs, Textual v) →
      ((callNative s f [.array r] m).2.heap.items r).Pairwise PlainAtMost) ∧
    ((¬∀ v ∈ xs, ∃ x, v = .number x) → (¬∀ v ∈ xs, Textual v) →
      ∃ cause, callNative s f [.array r] m =
          (.error (.fault (.raisedAt cause (some pos) ctx.source)), m) ∧ cause.kind = .typing) := by
  intro s xs
  have hadmits : f.arity.admits 1 = true := by
    rw [harity]
    rfl
  exact ⟨fun rest => sort_perm hr n ctx pos hf harity,
    fun g c I => sort_by_callback hr n ctx pos hf harity, sort_plain hr n ctx pos hf harity,
    sort_refused hf hadmits⟩

section Examples

/-- The native `Array.sort`. -/
def sortNative : NativeFunction := ⟨.array .sort, "sort", .between 1 2, none, none⟩

/-- The difference of two numbers. -/
def difference : Value → Value → Float
  | .number x, .number y => x - y
  | _, _ => 0.0

/-- A host that lends the difference. -/
def differenceHost : Host where
  methods := [⟨"difference", .exactly 2, none, true, fun counters args =>
    (.ok (.value (.number (difference (args.getD 0 .null) (args.getD 1 .null)))), counters)⟩]
  isEmpty := false
  counters := []

/-- The method as a function of the language. -/
def differenceNative : NativeFunction := ⟨.method 0 0, "difference", .exactly 2, none, none⟩

/-- The array `[3, 1, 2]`, and the method of the host. -/
def threeElements : Machine := { Machine.initial with
  hosts := #[differenceHost]
  heap := ⟨#[⟨[], none⟩], #[⟨[.number 3, .number 1, .number 2], 0⟩], #[], #[.native differenceNative]⟩ }

/-- Where the sort is called. -/
def sortContext : Context := ⟨⟨0⟩, "", ⟨none, "", false, .usual⟩⟩

/-- The position of the call. -/
def sortPosition : Position := ⟨some 1, some 1, 0⟩

/-- The method gives the difference and changes nothing, also as a call on
nodes that carry the numbers. -/
theorem differenceNative_body (a b : Float) {m : Machine} (hm : m.hosts = #[differenceHost]) :
    callBody (Engine.level 1) sortContext (.native differenceNative)
      (valueNodes sortPosition [.number a, .number b]) sortPosition m = (.ok (.number (a - b)), m) := by
  have hargs : evaluateArguments (Engine.level 1) sortContext
      (valueNodes sortPosition [.number a, .number b]) sortPosition m =
        (.ok [.number a, .number b], m) := rfl
  refine (Eval.bind_run_ok hargs _).trans ?_
  obtain ⟨⟩ := m
  cases hm
  rfl

theorem difference_judges : Judges ⟨Engine.level 2, sortContext, sortPosition⟩ ⟨0⟩ ⟨0⟩
    (threeElements.heap.items ⟨0⟩) difference (· = threeElements.emptied ⟨0⟩) := by
  have hnumbers : ∀ v ∈ threeElements.heap.items ⟨0⟩, ∃ a, v = .number a :=
    have hall : ∀ v ∈ ([.number 3, .number 1, .number 2] : List Value), ∃ a, v = .number a := by simp
    hall
  rintro _ rfl x hx y hy
  obtain ⟨a, rfl⟩ := hnumbers x hx
  obtain ⟨b, rfl⟩ := hnumbers y hy
  refine ⟨threeElements.emptied ⟨0⟩, ?_, rfl, rfl⟩
  have hcall : (⟨Engine.level 2, sortContext, sortPosition⟩ : Site).invoke ⟨0⟩
        [.number a, .number b] (threeElements.emptied ⟨0⟩) =
      Eval.withFrame (callFrame sortContext (.native differenceNative) sortPosition)
        (callBody (Engine.level 1) sortContext (.native differenceNative)
          (valueNodes sortPosition [.number a, .number b]) sortPosition) (threeElements.emptied ⟨0⟩) := rfl
  rw [hcall, Eval.withFrame, differenceNative_body a b rfl]
  rfl

set_option maxRecDepth 4000 in
theorem difference_totalPreorder :
    TotalPreorder (threeElements.heap.items ⟨0⟩) difference where
  opposite := by decide +kernel
  trans := by decide +kernel

/-- The array gets its elements back, in order. -/
theorem sort_keeps_and_sorts_difference :
    let xs := threeElements.heap.items ⟨0⟩
    let ys := (callNative ⟨Engine.level 2, sortContext, sortPosition⟩ sortNative
      [.array ⟨0⟩, .function ⟨0⟩] threeElements).2.heap.items ⟨0⟩
    TotalPreorder xs difference ∧ ys.Perm xs ∧ ys.Pairwise fun x y => sign (difference x y) ≤ 0 := by
  intro xs ys
  obtain ⟨hperm, hsorts, -⟩ := sort_keeps_and_sorts 2 sortContext sortPosition sortNative rfl rfl ⟨0⟩
    threeElements (by decide)
  obtain ⟨-, hsorted, -⟩ :=
    hsorts ⟨0⟩ difference (· = threeElements.emptied ⟨0⟩) difference_judges rfl difference_totalPreorder
  exact ⟨difference_totalPreorder, hperm [.function ⟨0⟩] (Nat.le_refl 1), hsorted⟩

end Examples

end RuleScript
