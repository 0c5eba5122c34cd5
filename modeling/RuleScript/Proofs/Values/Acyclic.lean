/-
# Values without cycles

The parts of an array are its elements, those of a dict its entries. A value is
acyclic if no array or dict in it is inside itself. There are only so many arrays and
dicts in a heap, so on the way down from an acyclic value one comes to an end: some
number of frames is enough to copy it. A value that ends so has no cycle in turn. So the
frames that a copy asks about (`Value.copiable`) and the cycles that one would look for in
the graph of the arrays and dicts say the same (`acyclic_iff_copiable`).

Key definitions: `Value.parts`, `Value.Inside`, `Value.Acyclic`.
Key theorems: `Within.of_parts`, `Acyclic.exists_copiable`, `acyclic_iff_copiable`.
-/
import Mathlib.Data.Set.Finite.Basic
import Mathlib.Order.WellFoundedSet
import RuleScript.Proofs.Values.Data
import RuleScript.Proofs.Values.Presence

namespace RuleScript

/-- What an array or a dict holds. -/
def Value.parts (h : Heap) : Value → List Value
  | .array r => h.items r
  | .dict r => (h.dict r).entries
  | .absent | .null | .bool _ | .number _ | .string _ | .function _ => []

/-- One value is somewhere in the parts of another. -/
def Value.Inside (h : Heap) (w v : Value) : Prop := ∃ x ∈ v.parts h, Value.Within h w x

/-- A value in which no array or dict is inside itself. -/
def Value.Acyclic (h : Heap) (v : Value) : Prop := ∀ w, Value.Within h w v → ¬Value.Inside h w w

namespace Value

variable {h : Heap} {u v w x : Value}

/-! ### Values and their parts -/

theorem parts_scalar (h : Heap) (hv : v.isAggregate = false) : v.parts h = [] := by
  cases v with
  | array | dict => cases hv
  | absent | null | bool | number | string | function => rfl

theorem Inside.within (hw : Inside h w v) : Within h w v := by
  obtain ⟨x, hx, hw⟩ := hw
  cases v with
  | array r => exact .item hx hw
  | dict r =>
    obtain ⟨p, hp, rfl⟩ := List.mem_map.mp hx
    exact .entry hp hw
  | absent | null | bool | number | string | function => cases hx

theorem Within.trans (hu : Within h u w) (hw : Within h w v) : Within h u v := by
  induction hw with
  | self => exact hu
  | item hx _ ih => exact .item hx ih
  | entry hp _ ih => exact .entry hp ih

theorem Inside.trans (hu : Inside h u w) (hw : Inside h w v) : Inside h u v := by
  obtain ⟨x, hx, hwx⟩ := hw
  exact ⟨x, hx, hu.within.trans hwx⟩

/-- A property that passes to parts holds of all that is in a value. -/
theorem Within.of_parts {P : Value → Prop} (hP : ∀ v, P v → ∀ x ∈ v.parts h, P x)
    (hw : Within h w v) (hv : P v) : P w := by
  induction hw with
  | self => exact hv
  | item hx _ ih => exact ih (hP _ hv _ hx)
  | entry hp _ ih => exact ih (hP _ hv _ (List.mem_map_of_mem hp))

theorem allocated_parts (hh : h.WellFormed) (hv : h.Allocated v) : ∀ x ∈ v.parts h, h.Allocated x := by
  cases v with
  | array r => exact hh.items r
  | dict r => exact List.forall_mem_map.mpr (hh.dict r)
  | absent | null | bool | number | string | function => exact List.forall_mem_nil _

theorem present_parts (hpresent : h.Present) (v : Value) : ∀ x ∈ v.parts h, x ≠ .absent := by
  cases v with
  | array r => exact hpresent.items r
  | dict r => exact List.forall_mem_map.mpr (hpresent.dict r)
  | absent | null | bool | number | string | function => exact List.forall_mem_nil _

/-! ### Values that end -/

/-- What is enough for a value leaves at least one frame less for its parts. -/
theorem copiable_parts {d : Nat} (hv : v.copiable h (d + 1) = true) :
    ∀ x ∈ v.parts h, x.copiable h d = true := by
  cases v with
  | absent | null | bool | number | string | function => exact List.forall_mem_nil _
  | array r =>
    obtain ⟨n, hn, hitems⟩ := exists_copiable_items hv
    exact fun x hx => copiable_mono (by omega) (hitems x hx)
  | dict r => exact List.forall_mem_map.mpr (List.all_eq_true.mp hv)

/-- Two frames besides those of its parts are enough for a value. -/
theorem copiable_of_parts {d : Nat} (hne : v ≠ .absent)
    (hparts : ∀ x ∈ v.parts h, x.copiable h d = true) : v.copiable h (d + 2) = true := by
  cases v with
  | absent => exact absurd rfl hne
  | null | bool | number | string | function => rfl
  | array r => exact List.all_eq_true.mpr hparts
  | dict r =>
    exact List.all_eq_true.mpr fun p hp =>
      copiable_mono (Nat.le_succ d) (List.forall_mem_map.mp hparts p hp)

theorem copiable_within {d : Nat} (hv : v.copiable h d = true) (hw : Within h w v) :
    w.copiable h d = true := by
  refine hw.of_parts (P := fun u => u.copiable h d = true) (fun u hu x hx => ?_) hv
  cases d with
  | zero => cases hu
  | succ d => exact copiable_mono (Nat.le_succ d) (copiable_parts hu x hx)

/-- What ends is not inside itself: one round of the cycle would save a frame. -/
theorem not_inside_self {d : Nat} (hw : w.copiable h d = true) : ¬Inside h w w := by
  rintro ⟨x, hx, hcycle⟩
  induction d with
  | zero => cases hw
  | succ d ih => exact ih (copiable_within (copiable_parts hw x hx) hcycle)

theorem acyclic_of_copiable {d : Nat} (hv : v.copiable h d = true) : v.Acyclic h :=
  fun _ hw => not_inside_self (copiable_within hv hw)

/-- One number of frames is enough for some values that end. -/
theorem exists_copiable_all {xs : List Value} (hxs : ∀ x ∈ xs, ∃ d, x.copiable h d = true) :
    ∃ d, ∀ x ∈ xs, x.copiable h d = true := by
  induction xs with
  | nil => exact ⟨0, by simp⟩
  | cons x xs ih =>
    obtain ⟨⟨d, hd⟩, hrest⟩ := List.forall_mem_cons.mp hxs
    obtain ⟨d', hd'⟩ := ih hrest
    refine ⟨max d d', List.forall_mem_cons.mpr ⟨copiable_mono (Nat.le_max_left d d') hd, ?_⟩⟩
    exact fun y hy => copiable_mono (Nat.le_max_right d d') (hd' y hy)

/-! ### Values without cycles end -/

theorem finite_aggregates (h : Heap) : {w : Value | w.isAggregate = true ∧ h.Allocated w}.Finite := by
  have harrays := (Set.finite_lt_nat h.arrays.size).image fun k => Value.array ⟨k⟩
  have hdicts := (Set.finite_lt_nat h.dicts.size).image fun k => Value.dict ⟨k⟩
  refine (harrays.union hdicts).subset fun w hw => ?_
  obtain ⟨hagg, hw⟩ := hw
  cases w with
  | array r => exact .inl ⟨r.index, hw, rfl⟩
  | dict r => exact .inr ⟨r.index, hw, rfl⟩
  | absent | null | bool | number | string | function => cases hagg

/-- The acyclic arrays and dicts of a heap. -/
def acyclicAggregates (h : Heap) : Set Value :=
  {w | (w.isAggregate = true ∧ h.Allocated w) ∧ w.Acyclic h}

/-- To be inside is a strict order on the acyclic arrays and dicts, and they are finitely
many. -/
theorem wellFoundedOn_inside (h : Heap) : (acyclicAggregates h).WellFoundedOn (Inside h) := by
  have : Finite (acyclicAggregates h) := ((finite_aggregates h).subset fun _ hw => hw.1).to_subtype
  have : IsTrans (acyclicAggregates h) fun a b => Inside h a b := ⟨fun _ _ _ => Inside.trans⟩
  have : Std.Irrefl fun a b : acyclicAggregates h => Inside h a b := ⟨fun a => a.2.2 a .self⟩
  exact Finite.wellFounded_of_trans_of_irrefl fun a b : acyclicAggregates h => Inside h a b

theorem Acyclic.part (hv : v.Acyclic h) (hx : x ∈ v.parts h) : x.Acyclic h :=
  fun w hw => hv w (Inside.within ⟨x, hx, hw⟩)

/-- **Some number of frames is enough for a value without cycles.** -/
theorem Acyclic.exists_copiable (hh : h.WellFormed) (hpresent : h.Present) (hv : v.Acyclic h)
    (hallocated : h.Allocated v) (hne : v ≠ .absent) : ∃ d, v.copiable h d = true := by
  have hscalar {u : Value} (hu : u.isAggregate = false) (hune : u ≠ .absent) :
      ∃ d, u.copiable h d = true := ⟨2, copiable_of_parts hune (by simp [parts_scalar h hu])⟩
  by_cases hagg : v.isAggregate = true
  · refine (wellFoundedOn_inside h).induction (P := fun v => ∃ d, v.copiable h d = true)
      ⟨⟨hagg, hallocated⟩, hv⟩ fun w hnode ih => ?_
    obtain ⟨⟨hwagg, hw⟩, hacyclic⟩ := hnode
    have hparts : ∀ x ∈ w.parts h, ∃ d, x.copiable h d = true := by
      intro x hx
      by_cases hxagg : x.isAggregate = true
      · exact ih x ⟨⟨hxagg, allocated_parts hh hw x hx⟩, hacyclic.part hx⟩ ⟨x, hx, .self⟩
      · exact hscalar (by simpa using hxagg) (present_parts hpresent w x hx)
    obtain ⟨d, hd⟩ := exists_copiable_all hparts
    have hwne : w ≠ .absent := by
      rintro rfl
      cases hwagg
    exact ⟨d + 2, copiable_of_parts hwne hd⟩
  · exact hscalar (by simpa using hagg) hne

/-- **A value is acyclic if and only if some number of frames is enough for it.** -/
theorem acyclic_iff_copiable (hh : h.WellFormed) (hpresent : h.Present) (hallocated : h.Allocated v)
    (hne : v ≠ .absent) : v.Acyclic h ↔ ∃ d, v.copiable h d = true := by
  constructor
  · exact fun hv => hv.exists_copiable hh hpresent hallocated hne
  · rintro ⟨d, hd⟩
    exact acyclic_of_copiable hd

end Value

end RuleScript
