/-
# Reading and writing by an index

An index names a position of an array when it is an integer: that position, or,
if it is negative, that position from the end (`Names`). `Array.set` writes
exactly at the indices that name a position, and the read of the array at such
an index gives the element there.

The read adds the size to a negative index before it asks for an integer, and
sums are rounded. So a negative fraction may become an integer on the way
(`Absorbed`); it is read like that integer, and `Array.set` refuses it. This is
the only difference: an integer stays what it is when the size is added
(`integer?_moved_iff`).

Key definitions: `Names`, `Absorbed`, `Number.moved`, `Reads`, `FailsToRead`.
Key theorems: `integer?_moved_iff`, `elementIndex_of_names`,
`reads_and_writes_by_index`.
-/
import RuleScript.Proofs.Library.Failure
import RuleScript.Proofs.Number.Sum
import RuleScript.Proofs.Values.Results

namespace RuleScript

open Number

/-! ### The position that an index names -/

/-- An index names the position `k` of `n`: it is the integer `k`, or `k` counted
from the end. -/
def Names (i : Float) (n k : Nat) : Prop :=
  k < n ∧ (integer? i = some (k : Int) ∨ integer? i = some ((k : Int) - n))

/-- A negative fraction that becomes the position `k` when the size is added. -/
def Absorbed (i : Float) (n k : Nat) : Prop :=
  k < n ∧ isFinite i = true ∧ i < 0.0 ∧ integer? i = none ∧ integer? (i + ofInt n) = some (k : Int)

/-- An index with the size added to it if it is negative. -/
def Number.moved (i : Float) (n : Nat) : Float := if i < 0.0 then i + ofInt n else i

variable {i : Float} {n k : Nat}

/-- A negative integer is moved to its distance from the front, if the array is
that long, and to a negative number if not. -/
theorem integer?_add_size {j : Int} (hn : n ≤ 2 ^ 53) (hpos : 0 < n) (hj : integer? i = some j)
    (hneg : j < 0) :
    integer? (i + ofInt n) = some (k : Int) ↔ j + n = k := by
  obtain ⟨hfinite, hrank⟩ := integer?_eq_some_iff.mp hj
  obtain ⟨hsize, hsizeRank⟩ := rank_ofInt hn
  have hi : rank i < 0 := by
    rw [hrank]
    exact_mod_cast hneg
  have hn0 : 0 < rank (ofInt n) := by
    rw [hsizeRank]
    exact_mod_cast hpos
  have hsum : rank i + rank (ofInt n) = ((j + n : Int) : ℚ) := by
    rw [hrank, hsizeRank]
    push_cast
    rfl
  rcases Int.lt_or_le (j + n) 0 with hbelow | hwithin
  · obtain ⟨-, hbelow'⟩ := rank_add_neg hfinite hsize hn0 (by rw [hsum]; exact_mod_cast hbelow)
    refine ⟨fun h => ?_, fun h => by omega⟩
    have hk := (integer?_eq_some_iff.mp h).2
    rw [hk] at hbelow'
    have : (k : Int) < 0 := by exact_mod_cast hbelow'
    omega
  · obtain ⟨l, hl⟩ := Int.eq_ofNat_of_zero_le hwithin
    rw [hl] at hsum ⊢
    rw [integer?_add hfinite hsize hi.ne hn0.ne' (by omega) hsum, Option.some.injEq]

/-- **What is at a position after the size has been added.** -/
theorem integer?_moved_iff (hn : n ≤ 2 ^ 53) (hfinite : isFinite i = true) (hk : k < n) :
    integer? (moved i n) = some (k : Int) ↔ Names i n k ∨ Absorbed i n k := by
  unfold moved
  by_cases hneg : i < 0.0
  · rw [if_pos hneg]
    cases hj : integer? i with
    | none =>
      refine ⟨fun h => .inr ⟨hk, hfinite, hneg, hj, h⟩, ?_⟩
      rintro (⟨-, h | h⟩ | ⟨-, -, -, -, h⟩)
      · cases hj.symm.trans h
      · cases hj.symm.trans h
      · exact h
    | some j =>
      have hj0 : j < 0 := by
        have := (lt_zero_iff hfinite).mp hneg
        rw [(integer?_eq_some_iff.mp hj).2] at this
        exact_mod_cast this
      rw [integer?_add_size hn (by omega) hj hj0]
      constructor
      · intro h
        exact .inl ⟨hk, .inr (hj.trans (by rw [← h]; congr 1; omega))⟩
      · rintro (⟨-, h | h⟩ | ⟨-, -, -, h, -⟩)
        · have := Option.some.inj (hj.symm.trans h)
          omega
        · have := Option.some.inj (hj.symm.trans h)
          omega
        · cases hj.symm.trans h
  · rw [if_neg hneg]
    refine ⟨fun h => .inl ⟨hk, .inl h⟩, ?_⟩
    rintro (⟨-, h | h⟩ | ⟨-, -, h, -⟩)
    · exact h
    · refine absurd ((lt_zero_iff hfinite).mpr ?_) hneg
      rw [(integer?_eq_some_iff.mp h).2]
      exact_mod_cast (show (k : Int) - n < 0 by omega)
    · exact absurd h hneg

theorem Names.isFinite (h : Names i n k) : Number.isFinite i = true :=
  h.2.elim isFinite_of_integer? isFinite_of_integer?

/-! ### Writing -/

theorem elementIndex_of_integer {j p : Int} (s : Site) (hj : integer? i = some j)
    (hp : (if j < 0 then j + n else j) = p) :
    elementIndex s i n false =
      if 0 ≤ p ∧ p < n then pure p.toNat else s.fail (.indexOutOfRange (display i)) := by
  unfold elementIndex
  rw [hj]
  dsimp only
  rw [hp, if_neg Bool.false_ne_true, Int.add_zero]

theorem elementIndex_of_names (s : Site) (h : Names i n k) : elementIndex s i n false = pure k := by
  obtain ⟨hk, h | h⟩ := h
  · rw [elementIndex_of_integer s h (if_neg (by omega)), if_pos (by omega), Int.toNat_natCast]
  · rw [elementIndex_of_integer s h (if_pos (by omega)), if_pos (by omega), Int.sub_add_cancel,
      Int.toNat_natCast]

theorem elementIndex_of_not_names (s : Site) (h : ∀ k, ¬Names i n k) :
    ∃ cause, elementIndex s i n false = s.fail cause ∧ cause.kind = .range := by
  cases hj : integer? i with
  | none =>
    unfold elementIndex
    rw [hj]
    exact ⟨_, rfl, rfl⟩
  | some j =>
    refine ⟨_, (elementIndex_of_integer s hj rfl).trans (if_neg ?_), rfl⟩
    rintro ⟨hlow, hhigh⟩
    by_cases hneg : j < 0
    · rw [if_pos hneg] at hlow hhigh
      exact h (j + n).toNat ⟨by omega, .inr (hj.trans (by congr 1; omega))⟩
    · rw [if_neg hneg] at hlow hhigh
      exact h j.toNat ⟨by omega, .inl (hj.trans (by congr 1; omega))⟩

section Writing

variable {s : Site} {f : NativeFunction} {r : ArrayRef} {v : Value} {m : Machine}

/-- `Array.set` looks for the position and writes there. -/
theorem set_run (s : Site) (r : ArrayRef) (i : Float) (v : Value) (m : Machine) :
    ArrayOp.run s [.array r, .number i, v] .set m = (do
      let k ← elementIndex s i (m.heap.items r).length false
      Eval.modifyHeap (·.setItems r ((m.heap.items r).set k v))
      return .value .null : Eval Product) m := rfl

/-- **`Array.set` writes at the position that the index names.** -/
theorem callNative_set (hf : f.operation = .array .set) (hadmits : f.arity.admits 3 = true)
    (h : Names i (m.heap.items r).length k) :
    callNative s f [.array r, .number i, v] m =
      (.ok .null, { m with heap := m.heap.setItems r ((m.heap.items r).set k v) }) := by
  have hrun : f.operation.run s [.array r, .number i, v] m =
      (.ok (.value .null), { m with heap := m.heap.setItems r ((m.heap.items r).set k v) }) := by
    rw [hf]
    refine (set_run s r i v m).trans ?_
    rw [elementIndex_of_names s h]
    rfl
  rw [callNative_of_ok hadmits hrun]
  rfl

/-- `Array.set` refuses every other index and writes nothing. -/
theorem callNative_set_of_not_names (hf : f.operation = .array .set) (hadmits : f.arity.admits 3 = true)
    (h : ∀ k, ¬Names i (m.heap.items r).length k) :
    ∃ cause, callNative s f [.array r, .number i, v] m =
      (.error (.fault (.raisedAt cause (some s.pos) s.ctx.source)), m) ∧ cause.kind = .range := by
  obtain ⟨cause, hfail, hkind⟩ := elementIndex_of_not_names s h
  have hrun : f.operation.run s [.array r, .number i, v] m =
      (.error (.fault (.raisedAt cause (some s.pos) s.ctx.source)), m) := by
    rw [hf]
    refine (set_run s r i v m).trans ?_
    rw [hfail]
    rfl
  exact ⟨cause, callNative_of_fault s _ hadmits hrun, hkind⟩

end Writing

/-! ### Reading -/

section Reading

variable {α : Type} {ctx : Context} {xs : List α} {pos : Position}

theorem elementAt_of_moved {x : α} (h : integer? (moved i xs.length) = some (k : Int))
    (hx : xs[k]? = some x) :
    elementAt ctx xs i pos = pure x := by
  have hmoved : integer? (if i < 0.0 then i + ofInt xs.length else i) = some (k : Int) := h
  unfold elementAt
  dsimp only
  rw [hmoved]
  dsimp only [bind, Option.bind]
  rw [if_neg (by omega), Int.toNat_natCast, hx]

theorem elementAt_of_not_moved (h : ∀ k < xs.length, integer? (moved i xs.length) ≠ some (k : Int)) :
    elementAt ctx xs i pos = Eval.fail ctx pos (.indexOutOfRange (compact i)) := by
  unfold elementAt
  dsimp only
  cases hj : integer? (if i < 0.0 then i + ofInt xs.length else i) with
  | none => rfl
  | some j =>
    dsimp only [bind, Option.bind]
    split
    · rename_i hsome
      split at hsome
      · cases hsome
      · obtain ⟨hlt, -⟩ := List.getElem?_eq_some_iff.mp hsome
        have hj' : j = (j.toNat : Int) := by omega
        rw [hj'] at hj
        exact absurd hj (h j.toNat hlt)
    · rfl

end Reading

/-- Reading an array at a number gives a value, whatever expression the number
came from. -/
def Reads (m : Machine) (r : ArrayRef) (i : Float) (v : Value) : Prop :=
  ∀ (e : Engine) (ctx : Context) (body : List Node) (pos : Position) (m₀ : Machine),
    evaluateValue e ctx body pos m₀ = (.ok (.number i), m) →
      applyIndex e ctx (.array r) body pos m₀ = (.ok v, m)

/-- Reading an array at a number is refused, and changes nothing. A number that
is not finite is no index at all. -/
def FailsToRead (m : Machine) (r : ArrayRef) (i : Float) : Prop :=
  ∀ (e : Engine) (ctx : Context) (body : List Node) (pos : Position) (m₀ : Machine),
    evaluateValue e ctx body pos m₀ = (.ok (.number i), m) →
      ∃ cause, applyIndex e ctx (.array r) body pos m₀ =
          (.error (.fault (.raisedAt cause (some pos) ctx.source)), m) ∧
        cause.kind = if isFinite i then .range else .typing

section

variable {e : Engine} {ctx : Context} {body : List Node} {pos : Position} {m₀ m : Machine} {r : ArrayRef}

theorem applyIndex_finite (hbody : evaluateValue e ctx body pos m₀ = (.ok (.number i), m))
    (hfinite : isFinite i = true) :
    applyIndex e ctx (.array r) body pos m₀ = elementAt ctx (m.heap.items r) i pos m := by
  unfold applyIndex
  rw [Eval.bind_run_ok hbody]
  dsimp only
  rw [if_pos hfinite]
  rfl

theorem applyIndex_not_finite (hbody : evaluateValue e ctx body pos m₀ = (.ok (.number i), m))
    (hfinite : isFinite i = false) :
    ∃ cause, applyIndex e ctx (.array r) body pos m₀ =
      (.error (.fault (.raisedAt cause (some pos) ctx.source)), m) ∧ cause.kind = .typing := by
  refine ⟨.expected "a finite number as array/string index", ?_, rfl⟩
  unfold applyIndex
  rw [Eval.bind_run_ok hbody]
  dsimp only
  rw [if_neg (Bool.eq_false_iff.mp hfinite)]
  rfl

end

section

variable {m : Machine} {r : ArrayRef} {v : Value}

/-- **The read gives the element at the position that the index names**, or
becomes. -/
theorem reads_of_names_or_absorbed (hn : (m.heap.items r).length ≤ 2 ^ 53)
    (h : Names i (m.heap.items r).length k ∨ Absorbed i (m.heap.items r).length k)
    (hv : (m.heap.items r)[k]? = some v) : Reads m r i v := by
  intro e ctx body pos m₀ hbody
  have hfinite : isFinite i = true := h.elim Names.isFinite (·.2.1)
  have hk : k < (m.heap.items r).length := h.elim (·.1) (·.1)
  rw [applyIndex_finite hbody hfinite,
    elementAt_of_moved ((integer?_moved_iff hn hfinite hk).mpr h) hv]
  rfl

/-- The read refuses every other index. -/
theorem failsToRead_of_neither (hn : (m.heap.items r).length ≤ 2 ^ 53)
    (hnames : ∀ k, ¬Names i (m.heap.items r).length k)
    (habsorbed : ∀ k, ¬Absorbed i (m.heap.items r).length k) : FailsToRead m r i := by
  intro e ctx body pos m₀ hbody
  by_cases hfinite : isFinite i = true
  · rw [if_pos hfinite, applyIndex_finite hbody hfinite, elementAt_of_not_moved]
    · exact ⟨_, rfl, rfl⟩
    · intro k hk hmoved
      exact ((integer?_moved_iff hn hfinite hk).mp hmoved).elim (hnames k) (habsorbed k)
  · rw [if_neg hfinite]
    exact applyIndex_not_finite hbody (Bool.eq_false_iff.mpr hfinite)

end

/-- **Reads and writes by an index.** Where the index names a position,
`Array.set` replaces the element there and nothing else, the read gives the
element, and after the write the read gives what was written. Every other index
is refused by `Array.set`, which then changes nothing. The read refuses it too,
unless it is a negative fraction that becomes the integer of a position when
the size is added to it: then the read gives the element there. -/
theorem reads_and_writes_by_index (s : Site) (f : NativeFunction) (hf : f.operation = .array .set)
    (hadmits : f.arity.admits 3 = true) (r : ArrayRef) (i : Float) (v : Value) (m : Machine)
    (hr : r.index < m.heap.arrays.size) (hsize : (m.heap.items r).length ≤ 2 ^ 53) :
    let xs := m.heap.items r
    let result := callNative s f [.array r, .number i, v] m
    (∀ k, Names i xs.length k →
      (∃ x, xs[k]? = some x ∧ Reads m r i x) ∧
      ∃ m', result = (.ok .null, m') ∧ m' = { m with heap := m.heap.setItems r (xs.set k v) } ∧
        m'.heap.items r = xs.set k v ∧ Reads m' r i v) ∧
    ((∀ k, ¬Names i xs.length k) →
      (∃ cause, result = (.error (.fault (.raisedAt cause (some s.pos) s.ctx.source)), m) ∧
        cause.kind = .range) ∧
      (∀ k, Absorbed i xs.length k → ∃ x, xs[k]? = some x ∧ Reads m r i x) ∧
      ((∀ k, ¬Absorbed i xs.length k) → FailsToRead m r i)) := by
  intro xs result
  have hread {k : Nat} (h : Names i xs.length k ∨ Absorbed i xs.length k) :
      ∃ x, xs[k]? = some x ∧ Reads m r i x := by
    have hk : k < xs.length := h.elim (·.1) (·.1)
    have hx : xs[k]? = some xs[k] := List.getElem?_eq_getElem hk
    exact ⟨xs[k], hx, reads_of_names_or_absorbed hsize h hx⟩
  refine ⟨fun k hnames => ⟨hread (.inl hnames), ?_⟩, fun hnames => ⟨?_, ?_, ?_⟩⟩
  · have hitems := Heap.items_setItems hr (xs.set k v)
    have hlength : (xs.set k v).length = xs.length := List.length_set
    refine ⟨_, callNative_set hf hadmits hnames, rfl, hitems, ?_⟩
    refine reads_of_names_or_absorbed (k := k) ?_ (.inl ?_) ?_
    · show ((m.heap.setItems r (xs.set k v)).items r).length ≤ 2 ^ 53
      rw [hitems, hlength]
      exact hsize
    · show Names i ((m.heap.setItems r (xs.set k v)).items r).length k
      rw [hitems, hlength]
      exact hnames
    · show ((m.heap.setItems r (xs.set k v)).items r)[k]? = some v
      rw [hitems]
      exact List.getElem?_set_self hnames.1
  · exact callNative_set_of_not_names hf hadmits hnames
  · exact fun k habsorbed => hread (.inr habsorbed)
  · exact failsToRead_of_neither hsize hnames

section Examples

/-- The native `Array.set`. -/
def setNative : NativeFunction := ⟨.array .set, "set", .exactly 3, none, none⟩

/-- The array `[1, 2, 3, 4, 5]`. -/
def fiveElements : Machine := { Machine.initial with
  heap := ⟨#[⟨[], none⟩], #[⟨[.number 1, .number 2, .number 3, .number 4, .number 5], 0⟩], #[], #[]⟩ }

/-- A little below minus one: the read gives the last element, and `Array.set`
refuses to write there. -/
theorem reads_and_writes_by_index_fraction :
    let i : Float := -1.0000000000000002
    let s : Site := ⟨Engine.level 2, ⟨⟨0⟩, "", ⟨none, "", false, .usual⟩⟩, ⟨some 1, some 1, 0⟩⟩
    integer? i = none ∧ Reads fiveElements ⟨0⟩ i (.number 5) ∧
      ∃ stop, callNative s setNative [.array ⟨0⟩, .number i, .null] fiveElements =
        (.error stop, fiveElements) := by
  intro i s
  have hfraction : integer? i = none := by decide +kernel
  have hnames (k : Nat) : ¬Names i 5 k := by
    rintro ⟨-, h | h⟩
    · cases hfraction.symm.trans h
    · cases hfraction.symm.trans h
  have habsorbed : Absorbed i 5 4 := by
    refine ⟨by decide, by decide +kernel, by decide +kernel, hfraction, by decide +kernel⟩
  obtain ⟨⟨cause, hset, -⟩, hread, -⟩ := (reads_and_writes_by_index s setNative rfl rfl ⟨0⟩ i .null
    fiveElements (by decide) (by decide)).2 hnames
  obtain ⟨x, hx, hreads⟩ := hread 4 habsorbed
  cases hx
  exact ⟨hfraction, hreads, _, hset⟩

end Examples

end RuleScript
