/-
# Putting elements in and taking them out

`Array.insert` takes an index from the front or from the end, the end included,
and puts its values in at that position, whatever they are; the array may be
among them. `Array.remove` takes out as many elements from a position on as the
count holds wholes, and no more than there are. Both keep the other elements in
their order, and neither changes anything but the one array (`Heap.Replaced`).

So to remove what was put in makes the array what it was.

Key definitions: `Heap.Replaced`, `Points`.
Key theorems: `Heap.Replaced.trans`, `callNative_insert`, `callNative_remove`,
`insertion_and_removal_invert`.
-/
import Mathlib.Data.ENat.Lattice
import RuleScript.Proofs.Library.Indexing
import RuleScript.Proofs.Number.Truncation

namespace RuleScript

open Number

/-! ### What changes in the heap -/

/-- One heap has other elements in one of its arrays than another heap, and is
like it everywhere else. -/
structure Heap.Replaced (h : Heap) (r : ArrayRef) (xs : List Value) (h' : Heap) : Prop where
  items : h'.items r = xs
  others : ∀ r', r' ≠ r → h'.items r' = h.items r'
  arrays : h'.arrays.size = h.arrays.size
  dicts : h'.dicts = h.dicts
  scopes : h'.scopes = h.scopes
  functions : h'.functions = h.functions

namespace Heap.Replaced

variable {h h' h'' : Heap} {r : ArrayRef} {xs ys : List Value}

theorem trans (h₁ : h.Replaced r xs h') (h₂ : h'.Replaced r ys h'') : h.Replaced r ys h'' where
  items := h₂.items
  others r' hr' := (h₂.others r' hr').trans (h₁.others r' hr')
  arrays := h₂.arrays.trans h₁.arrays
  dicts := h₂.dicts.trans h₁.dicts
  scopes := h₂.scopes.trans h₁.scopes
  functions := h₂.functions.trans h₁.functions

theorem modify {f : ArrayCell → ArrayCell} (hf : ∀ c, (f c).items = xs)
    (hr : h.Allocated (.array r)) : h.Replaced r xs { h with arrays := h.arrays.modify r.index f } where
  items := by
    have hcell : h.arrays[r.index]? = some h.arrays[r.index] := Array.getElem?_eq_getElem hr
    unfold Heap.items arrayCell
    dsimp only
    rw [Array.getD_eq_getD_getElem?, Array.getElem?_modify, if_pos rfl, hcell]
    exact hf _
  others r' hr' := by
    have hindex : r.index ≠ r'.index := fun h => hr' (congrArg ArrayRef.mk h.symm)
    exact items_modify_of_ne hindex f
  arrays := Array.size_modify
  dicts := rfl
  scopes := rfl
  functions := rfl

theorem setItems (hr : h.Allocated (.array r)) (xs : List Value) :
    h.Replaced r xs (h.setItems r xs) :=
  modify (f := fun c => { c with items := xs }) (fun _ => rfl) hr

theorem addItems (hr : h.Allocated (.array r)) (xs : List Value) :
    h.Replaced r xs (h.addItems r xs) :=
  modify (f := fun c => ⟨xs, c.additions + 1⟩) (fun _ => rfl) hr

end Heap.Replaced

/-! ### Putting in -/

/-- An index that is an integer points to a position of `n` elements or to their
end, from the front or, if it is negative, from the end. -/
def Points (i : Float) (n p : Nat) : Prop :=
  ∃ j : Int, integer? i = some j ∧ -n ≤ j ∧ j ≤ n ∧ (p : Int) = if 0 ≤ j then j else n + j

section

variable {s : Site} {f : NativeFunction} {m : Machine} {r : ArrayRef} {i c : Float} {n p : Nat}
  {d : List Value}

theorem Points.le (h : Points i n p) : p ≤ n := by
  obtain ⟨j, -, hlow, hhigh, hp⟩ := h
  split at hp <;> omega

theorem elementIndex_of_points (s : Site) (h : Points i n p) : elementIndex s i n true = pure p := by
  obtain ⟨j, hj, hlow, hhigh, hp⟩ := h
  have hmoved : (if j < 0 then j + n else j) = p := by
    split at hp <;> split <;> omega
  have hwithin : (0 : Int) ≤ p ∧ (p : Int) < n + 1 := by
    split at hp <;> omega
  unfold elementIndex
  rw [hj]
  dsimp only
  rw [hmoved, if_pos rfl, if_pos hwithin, Int.toNat_natCast]

/-- **`Array.insert` puts its values in where the index points to.** -/
theorem callNative_insert (hf : f.operation = .array .insert) (harity : f.arity = .atLeast 3)
    (hr : m.heap.Allocated (.array r)) (h : Points i (m.heap.items r).length p) (hd : d ≠ []) :
    ∃ h', callNative s f (.array r :: .number i :: d) m = (.ok .null, { m with heap := h' }) ∧
      m.heap.Replaced r ((m.heap.items r).take p ++ d ++ (m.heap.items r).drop p) h' := by
  have hadmits : f.arity.admits (Value.array r :: Value.number i :: d).length = true := by
    have hlength : 3 ≤ d.length + 1 + 1 := by
      have := List.length_pos_iff.mpr hd
      omega
    rw [harity, List.length_cons, List.length_cons]
    simp [Arity.admits, Arity.atLeast, hlength]
  have hinsert : ArrayOp.run s (.array r :: .number i :: d) .insert m = (do
      let k ← elementIndex s i (m.heap.items r).length true
      Eval.modifyHeap (·.addItems r ((m.heap.items r).take k ++ d ++ (m.heap.items r).drop k))
      return .value .null : Eval Product) m := rfl
  have hrun : f.operation.run s (.array r :: .number i :: d) m = (.ok (.value .null), { m with
      heap := m.heap.addItems r ((m.heap.items r).take p ++ d ++ (m.heap.items r).drop p) }) := by
    rw [hf]
    refine hinsert.trans ?_
    rw [elementIndex_of_points s h]
    rfl
  refine ⟨_, ?_, .addItems hr _⟩
  rw [callNative_of_ok hadmits hrun]
  rfl

/-! ### Taking out -/

/-- How many elements a count stands for: its wholes, or all of them. -/
theorem count_eq (hc : 0.0 ≤ c) :
    wholes c = ((truncate? c).getD n).toNat ∨ wholes c = ⊤ ∧ ((truncate? c).getD n).toNat = n := by
  have hnumber : isNaN c = false := (isNaN_of_le hc).2
  have hrank : 0 ≤ rank c := (zero_le_iff_rank hnumber).mp hc
  rcases finite_or_infinite hnumber with hfinite | ⟨negative, hinfinite⟩
  · left
    have hfloor : towardZero (rank c) = ⌊rank c⌋₊ := by
      unfold towardZero
      rw [if_neg (not_lt.mpr hrank), Int.natCast_floor_eq_floor hrank]
    rw [truncate?_eq hfinite, wholes_of_isFinite hfinite, hfloor]
    rfl
  · right
    cases negative with
    | false =>
      have htruncate : truncate? c = none := by
        unfold truncate?
        rw [hinfinite]
        rfl
      rw [htruncate]
      exact ⟨wholes_of_infinite hinfinite, Int.toNat_natCast n⟩
    | true =>
      have hpow : (0 : ℚ) < (1 : Nat) * 2 ^ (1024 : Int) := by positivity
      rw [rank_of_infinite hinfinite, rational_true] at hrank
      linarith

/-- A count that is not negative is accepted. -/
theorem count_accepted (hc : 0.0 ≤ c) : (decide (c < 0.0) || isNaN c) = false := by
  obtain ⟨hzero, hnumber⟩ := isNaN_of_le hc
  have hle := (le_iff_rank hzero hnumber).mp hc
  have hless : ¬c < 0.0 := fun h => absurd hle (not_le.mpr ((lt_iff_rank hnumber hzero).mp h))
  rw [hnumber, decide_eq_false hless]
  rfl

/-- What `Array.remove` does with the position and the number of elements. -/
def takeOut (r : ArrayRef) (xs : List Value) (start count : Nat) : Eval Product := do
  Eval.modifyHeap (·.setItems r (xs.take start ++ xs.drop (start + count)))
  return .value .null

theorem remove_run (s : Site) (r : ArrayRef) (i c : Float) (m : Machine) :
    removeItems s [.array r, .number i, .number c] m = (do
      let start ← elementIndex s i (m.heap.items r).length false
      if c < 0.0 || isNaN c then
        s.fail (.invalidAmount "removing count") >>= takeOut r (m.heap.items r) start
      else
        takeOut r (m.heap.items r) start ((truncate? c).getD (m.heap.items r).length).toNat) m := by
  unfold removeItems takeOut
  rfl

/-- **`Array.remove` takes out as many elements as the count holds wholes**, as
long as there are any. -/
theorem callNative_remove (hf : f.operation = .array .remove) (harity : f.arity = .between 2 3)
    (hr : m.heap.Allocated (.array r)) (h : Names i (m.heap.items r).length p) (hc : 0.0 ≤ c) :
    ∃ front removed back h', m.heap.items r = front ++ removed ++ back ∧ front.length = p ∧
      (removed.length : ℕ∞) = min (wholes c) ((m.heap.items r).length - p : Nat) ∧
      callNative s f [.array r, .number i, .number c] m = (.ok .null, { m with heap := h' }) ∧
      m.heap.Replaced r (front ++ back) h' := by
  have hrun (xs : List Value) (hxs : m.heap.items r = xs) (h : Names i xs.length p) :
      f.operation.run s [.array r, .number i, .number c] m =
        takeOut r xs p ((truncate? c).getD xs.length).toNat m := by
    subst hxs
    rw [hf]
    refine (remove_run s r i c m).trans ?_
    rw [elementIndex_of_names s h, pure_bind, count_accepted hc, if_neg Bool.false_ne_true]
  have hrun := hrun _ rfl h
  have hadmits : f.arity.admits 3 = true := by
    rw [harity]
    rfl
  generalize m.heap.items r = xs at h hrun ⊢
  generalize hk : ((truncate? c).getD xs.length).toNat = k at hrun
  refine ⟨xs.take p, (xs.drop p).take k, xs.drop (p + k), _, ?_, ?_, ?_, ?_, .setItems hr _⟩
  · rw [List.append_assoc, ← List.drop_drop, List.take_append_drop, List.take_append_drop]
  · rw [List.length_take, Nat.min_eq_left h.1.le]
  · rw [List.length_take, List.length_drop]
    rcases count_eq (n := xs.length) hc with hwholes | ⟨hwholes, hall⟩
    · rw [hwholes, hk]
      exact_mod_cast rfl
    · rw [hwholes, min_eq_right le_top, Nat.min_eq_right (by omega)]
  · rw [callNative_of_ok hadmits hrun]
    rfl

/-- **To remove what was put in makes the array what it was.** -/
theorem callNative_remove_inserted {xs : List Value} {h₁ : Heap} (hf : f.operation = .array .remove)
    (harity : f.arity = .between 2 3) (hr : m.heap.Allocated (.array r)) (hp : p ≤ xs.length)
    (hinserted : m.heap.Replaced r (xs.take p ++ d ++ xs.drop p) h₁)
    (hi : Names i (xs.length + d.length) p) (hc : integer? c = some (d.length : Int)) :
    ∃ h₂, callNative s f [.array r, .number i, .number c] { m with heap := h₁ } =
        (.ok .null, { m with heap := h₂ }) ∧ m.heap.Replaced r xs h₂ := by
  have hfinite : isFinite c = true := isFinite_of_integer? hc
  have hnonneg : 0.0 ≤ c := by
    rw [zero_le_iff_rank (isNaN_of_isFinite hfinite), (integer?_eq_some_iff.mp hc).2]
    exact_mod_cast d.length.zero_le
  have hr₁ : h₁.Allocated (.array r) := by
    show r.index < h₁.arrays.size
    rw [hinserted.arrays]
    exact hr
  have hlength : (h₁.items r).length = xs.length + d.length := by
    rw [hinserted.items]
    simp only [List.length_append, List.length_take, List.length_drop]
    omega
  obtain ⟨front, removed, back, h₂, hitems, hfront, hremoved, hcall, hreplaced⟩ :=
    callNative_remove (s := s) (m := { m with heap := h₁ }) hf harity hr₁
      (show Names i (h₁.items r).length p from hlength ▸ hi) hnonneg
  have hcount : removed.length = d.length := by
    have hroom : (d.length : ℕ∞) ≤ (xs.length + d.length - p : Nat) := by
      exact_mod_cast (show d.length ≤ xs.length + d.length - p by omega)
    rw [wholes_of_integer? hc, hlength, min_eq_left hroom] at hremoved
    exact_mod_cast hremoved
  rw [hinserted.items] at hitems
  -- The parts have the lengths of those that were put together, so they are those.
  have hinner := List.append_inj' hitems ?_
  have hparts := List.append_inj hinner.1 ?_
  · refine ⟨h₂, hcall, ?_⟩
    have htrans := hinserted.trans hreplaced
    rwa [← hparts.1, ← hinner.2, List.take_append_drop] at htrans
  · rw [hfront, List.length_take, Nat.min_eq_left hp]
  · have htotal := congrArg List.length hitems
    simp only [List.length_append, List.length_take, List.length_drop] at htotal ⊢
    omega

end

/-! ### One after the other -/

/-- **Insertion and removal invert each other.** At an index from the front or from
the end, the end included, `Array.insert` puts its values in and changes nothing
else. To remove as many elements from there makes the array what it was. And
whatever count that is not negative `Array.remove` is given, it takes out as many
elements as the count holds wholes and there are from the position on; those in
front and behind stay. -/
theorem insertion_and_removal_invert (s : Site) (f g : NativeFunction)
    (hf : f.operation = .array .insert) (hfarity : f.arity = .atLeast 3)
    (hg : g.operation = .array .remove) (hgarity : g.arity = .between 2 3) (r : ArrayRef) (m : Machine)
    (hr : m.heap.Allocated (.array r)) :
    let xs := m.heap.items r
    (∀ (i : Float) (j : Int) (d : List Value), integer? i = some j → -xs.length ≤ j →
      j ≤ xs.length → d ≠ [] →
      ∃ (p : Nat) (h₁ : Heap), (p : Int) = (if 0 ≤ j then j else xs.length + j) ∧
        callNative s f (.array r :: .number i :: d) m = (.ok .null, { m with heap := h₁ }) ∧
        m.heap.Replaced r (xs.take p ++ d ++ xs.drop p) h₁ ∧
        ∀ i' c, Names i' (xs.length + d.length) p → integer? c = some (d.length : Int) →
          ∃ h₂, callNative s g [.array r, .number i', .number c] { m with heap := h₁ } =
              (.ok .null, { m with heap := h₂ }) ∧
            m.heap.Replaced r xs h₂) ∧
    ∀ i p c, Names i xs.length p → 0.0 ≤ c →
      ∃ front removed back h', xs = front ++ removed ++ back ∧ front.length = p ∧
        (removed.length : ℕ∞) = min (wholes c) (xs.length - p : Nat) ∧
        callNative s g [.array r, .number i, .number c] m = (.ok .null, { m with heap := h' }) ∧
        m.heap.Replaced r (front ++ back) h' := by
  intro xs
  constructor
  · intro i j d hj hlow hhigh hd
    obtain ⟨p, hp⟩ : ∃ p : Nat, (p : Int) = if 0 ≤ j then j else xs.length + j :=
      ⟨(if 0 ≤ j then j else xs.length + j).toNat, by split <;> omega⟩
    have hpoints : Points i xs.length p := ⟨j, hj, hlow, hhigh, hp⟩
    obtain ⟨h₁, hinsert, hreplaced⟩ := callNative_insert (s := s) hf hfarity hr hpoints hd
    refine ⟨p, h₁, hp, hinsert, hreplaced, fun i' c hnames hcount => ?_⟩
    exact callNative_remove_inserted hg hgarity hr hpoints.le hreplaced hnames hcount
  · intro i p c hnames hc
    exact callNative_remove hg hgarity hr hnames hc

section Examples

/-- The native `Array.insert`. -/
def insertNative : NativeFunction := ⟨.array .insert, "insert", .atLeast 3, none, none⟩

/-- The native `Array.remove`. -/
def removeNative : NativeFunction := ⟨.array .remove, "remove", .between 2 3, none, none⟩

/-- The array is put into itself in front of its last element and taken out again;
an infinite count takes out all elements from a position on. -/
theorem insertion_and_removal_invert_itself :
    let s : Site := ⟨Engine.exhausted, ⟨⟨0⟩, "", ⟨none, "", false, .usual⟩⟩, ⟨some 1, some 1, 0⟩⟩
    let m := fiveElements
    (∃ h₁ h₂,
      callNative s insertNative [.array ⟨0⟩, .number (-1.0), .array ⟨0⟩, .null] m =
        (.ok .null, { m with heap := h₁ }) ∧
      h₁.items ⟨0⟩ =
        [.number 1, .number 2, .number 3, .number 4, .array ⟨0⟩, .null, .number 5] ∧
      callNative s removeNative [.array ⟨0⟩, .number 4.0, .number 2.0] { m with heap := h₁ } =
        (.ok .null, { m with heap := h₂ }) ∧
      h₂.items ⟨0⟩ = m.heap.items ⟨0⟩) ∧
    ∃ front removed h',
      callNative s removeNative [.array ⟨0⟩, .number (-3.0), .number infinity] m =
        (.ok .null, { m with heap := h' }) ∧
      front.length = 2 ∧ removed.length = 3 ∧ m.heap.items ⟨0⟩ = front ++ removed ∧
      h'.items ⟨0⟩ = front := by
  intro s m
  obtain ⟨hinsert, hremove⟩ := insertion_and_removal_invert s insertNative removeNative rfl rfl rfl rfl
    ⟨0⟩ m Nat.one_pos
  constructor
  · obtain ⟨p, h₁, hp, hcall₁, hreplaced₁, hback⟩ := hinsert (-1.0) (-1) [.array ⟨0⟩, .null]
      (by decide +kernel) (by decide) (by decide) (List.cons_ne_nil _ _)
    obtain rfl : p = 4 := Int.ofNat.inj hp
    obtain ⟨h₂, hcall₂, hreplaced₂⟩ :=
      hback 4.0 2.0 ⟨by decide, .inl (by decide +kernel)⟩ (by decide +kernel)
    exact ⟨h₁, h₂, hcall₁, hreplaced₁.items, hcall₂, hreplaced₂.items⟩
  · have hnames : Names (-3.0) 5 2 := ⟨by decide, .inr (by decide +kernel)⟩
    obtain ⟨front, removed, back, h', hitems, hfront, hremoved, hcall, hreplaced⟩ :=
      hremove (-3.0) 2 infinity hnames (by decide +kernel)
    have hthree : removed.length = 3 := by
      rw [wholes_of_infinite decode_infinity, min_eq_right le_top] at hremoved
      exact_mod_cast hremoved
    have hnone : back = [] := by
      have htotal := congrArg List.length hitems
      rw [List.length_append, List.length_append, hfront, hthree] at htotal
      have hfive : (m.heap.items ⟨0⟩).length = 5 := rfl
      exact List.length_eq_zero_iff.mp (by omega)
    rw [hnone, List.append_nil] at hitems
    refine ⟨front, removed, h', hcall, hfront, hthree, hitems, ?_⟩
    rw [hreplaced.items, hnone, List.append_nil]

end Examples

end RuleScript
