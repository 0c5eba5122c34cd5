/-
# What an assignment changes for whom

Scopes form a forest, and a name is read from the nearest scope outward that
binds it (`Heap.Nearest`). An assignment changes one scope, its receiver: the
nearest scope that had the name when seen from where the assignment stands,
or that scope itself if none had it. Who sees the change is then a matter of
shadowing: a scope reads the new value exactly if the receiver is the nearest
one to bind the name on its own way outward, which may be so only now, if the
receiver has just got the name and shadows it. For all other scopes, and for
all other names, everything reads as before.

Look-up searches a list of scopes that is as long as the arena. That this is
enough needs no order among the scopes: on the way to the nearest one that
has a name no scope comes twice (`Heap.Way.nodup`).

Key definitions: `Heap.Nearest`, `Heap.Way`.
Key theorems: `Heap.owner?_eq_some_iff`, `Heap.read?_of_nearest`,
`Heap.owner?_define`, `assignment_is_lexical`.
-/
import Mathlib.Data.List.Nodup
import Mathlib.Data.List.Perm.Subperm
import RuleScript.Proofs.Heap.Assignment
import RuleScript.Proofs.Heap.WellFormed

namespace RuleScript
namespace Heap

variable {h : Heap} {x : String} {v : Value} {s t o p : ScopeRef}

/-! ### The nearest scope that has a name -/

/-- The nearest scope that has a name, from one outward. -/
inductive Nearest (h : Heap) (x : String) : ScopeRef → ScopeRef → Prop
  | here {s : ScopeRef} (has : (h.bindings s).has x = true) : Nearest h x s s
  | outward {s p o : ScopeRef} (lacks : (h.bindings s).has x = false) (hp : h.Inside s p)
      (ho : Nearest h x p o) : Nearest h x s o

/-- The scopes that are passed on the way to the nearest one that has a name. -/
inductive Way (h : Heap) (x : String) : ScopeRef → List ScopeRef → ScopeRef → Prop
  | here {s : ScopeRef} (has : (h.bindings s).has x = true) : Way h x s [] s
  | outward {s p o : ScopeRef} {passed : List ScopeRef} (lacks : (h.bindings s).has x = false)
      (hp : h.Inside s p) (ho : Way h x p passed o) : Way h x s (s :: passed) o

theorem Nearest.exists_way (hs : h.Nearest x s o) : ∃ passed, h.Way x s passed o := by
  induction hs with
  | here has => exact ⟨[], .here has⟩
  | outward lacks hp _ ih =>
    obtain ⟨passed, hway⟩ := ih
    exact ⟨_ :: passed, .outward lacks hp hway⟩

namespace Way

variable {passed : List ScopeRef}

theorem has (hs : h.Way x s passed o) : (h.bindings o).has x = true := by
  induction hs with
  | here has => exact has
  | outward _ _ _ ih => exact ih

theorem lacks (hs : h.Way x s passed o) : ∀ t ∈ passed, (h.bindings t).has x = false := by
  induction hs with
  | here has => simp
  | outward lacks _ _ ih => simpa using ⟨lacks, ih⟩

/-- There is one way outward. -/
theorem unique (hs : h.Way x s passed o) : ∀ {passed' o'}, h.Way x s passed' o' → passed = passed' := by
  induction hs with
  | here has =>
    intro passed' o' hs'
    cases hs' with
    | here => rfl
    | outward lacks => simp [has] at lacks
  | @outward s p o passed lacks hp ho ih =>
    intro passed' o' hs'
    cases hs' with
    | here has => simp [has] at lacks
    | @outward _ p' _ _ _ hp' ho' =>
      have hsame : p = p' := Option.some.inj (hp.symm.trans hp')
      subst hsame
      rw [ih ho']

/-- From a scope that is passed the way is no longer. -/
theorem exists_of_mem (hs : h.Way x s passed o) :
    ∀ t ∈ passed, ∃ passed', h.Way x t passed' o ∧ passed'.length ≤ passed.length := by
  induction hs with
  | here has => simp
  | @outward s p o passed lacks hp ho ih =>
    intro t ht
    rcases List.mem_cons.mp ht with rfl | ht
    · exact ⟨_, .outward lacks hp ho, Nat.le_refl _⟩
    · obtain ⟨passed', hway, hle⟩ := ih t ht
      exact ⟨passed', hway, by simp only [List.length_cons]; omega⟩

/-- **No scope is passed twice**, or else the way would not end. -/
theorem nodup (hs : h.Way x s passed o) : passed.Nodup := by
  induction hs with
  | here has => exact List.nodup_nil
  | @outward s p o passed lacks hp ho ih =>
    refine List.nodup_cons.mpr ⟨fun hmem => ?_, ih⟩
    obtain ⟨passed', hway, hle⟩ := ho.exists_of_mem s hmem
    have hsame : s :: passed = passed' := (Way.outward lacks hp ho).unique hway
    rw [← hsame, List.length_cons] at hle
    omega

theorem hasScope (hs : h.Way x s passed o) : ∀ t ∈ passed, h.HasScope t := by
  induction hs with
  | here has => simp
  | @outward s p o passed lacks hp ho ih =>
    intro t ht
    rcases List.mem_cons.mp ht with rfl | ht
    · by_contra hout
      have hnone : (h.scope t).parent = none := by
        unfold scope
        rw [Array.getD_eq_getD_getElem?, Array.getElem?_eq_none (Nat.le_of_not_lt hout)]
        rfl
      have hsome : (h.scope t).parent = some p := hp
      simp [hnone] at hsome
    · exact ih t ht

/-- Fewer scopes are passed than there are. -/
theorem length_lt (hs : h.Way x s passed o) : passed.length < h.scopes.size := by
  have hnotMem : o ∉ passed := by
    intro hmem
    have hlacks := hs.lacks o hmem
    simp [hs.has] at hlacks
  have hnodup : (o :: passed).Nodup := List.nodup_cons.mpr ⟨hnotMem, hs.nodup⟩
  have hindices : ((o :: passed).map ScopeRef.index).Nodup :=
    List.Nodup.map (fun _ _ hindex => congrArg ScopeRef.mk hindex) hnodup
  have hsubset : (o :: passed).map ScopeRef.index ⊆ List.range h.scopes.size := by
    intro i hi
    obtain ⟨t, ht, rfl⟩ := List.mem_map.mp hi
    rw [List.mem_range]
    rcases List.mem_cons.mp ht with rfl | ht
    · exact lt_of_has hs.has
    · exact hs.hasScope t ht
  have hlength := (List.subperm_of_subset hindices hsubset).length_le
  simp only [List.map_cons, List.length_cons, List.length_map, List.length_range] at hlength
  omega

/-- A search that goes on longer than the way finds where it ends. -/
theorem find?_chainFrom (hs : h.Way x s passed o) : ∀ {fuel : Nat}, passed.length < fuel →
    (h.chainFrom fuel s).find? (fun t => (h.bindings t).has x) = some o := by
  induction hs with
  | here has =>
    intro fuel hfuel
    obtain ⟨fuel, rfl⟩ : ∃ k, fuel = k + 1 := ⟨fuel - 1, by omega⟩
    simp only [chainFrom, List.find?_cons, has]
  | @outward s p o passed lacks hp ho ih =>
    intro fuel hfuel
    obtain ⟨fuel, rfl⟩ : ∃ k, fuel = k + 1 := ⟨fuel - 1, by omega⟩
    have hparent : (h.scope s).parent = some p := hp
    simp only [chainFrom, List.find?_cons, lacks, hparent]
    exact ih (by simpa using hfuel)

end Way

theorem nearest_of_find?_chainFrom : ∀ (fuel : Nat) {s : ScopeRef},
    (h.chainFrom fuel s).find? (fun t => (h.bindings t).has x) = some o → h.Nearest x s o
  | 0, _, hfind => by simp [chainFrom] at hfind
  | fuel + 1, s, hfind => by
    cases hhas : (h.bindings s).has x with
    | true =>
      simp only [chainFrom, List.find?_cons, hhas] at hfind
      cases hfind
      exact .here hhas
    | false =>
      simp only [chainFrom, List.find?_cons, hhas] at hfind
      cases hparent : (h.scope s).parent with
      | none => simp [hparent] at hfind
      | some p =>
        rw [hparent] at hfind
        exact .outward hhas hparent (nearest_of_find?_chainFrom fuel hfind)

/-- **Look-up finds the nearest scope that has the name**, on any heap. -/
theorem owner?_eq_some_iff : h.owner? s x = some o ↔ h.Nearest x s o := by
  constructor
  · exact nearest_of_find?_chainFrom h.scopes.size
  · intro hs
    obtain ⟨passed, hway⟩ := hs.exists_way
    exact hway.find?_chainFrom hway.length_lt

theorem owner?_eq_none_iff : h.owner? s x = none ↔ ∀ o, ¬h.Nearest x s o := by
  simp only [← owner?_eq_some_iff, Option.eq_none_iff_forall_ne_some]

/-- A name is read from the scope that look-up finds. -/
theorem read?_eq_owner? (h : Heap) (s : ScopeRef) (x : String) :
    h.read? s x = (h.owner? s x).bind fun o => (h.bindings o).get? x := by
  unfold read? owner?
  generalize h.chain s = chain
  induction chain with
  | nil => rfl
  | cons t rest ih =>
    cases hget : (h.bindings t).get? x with
    | some w =>
      have hhas : (h.bindings t).has x = true := by simp [Table.has, hget]
      simp only [List.findSome?_cons, List.find?_cons, hget, hhas, Option.bind_some]
    | none =>
      have hhas : (h.bindings t).has x = false := by simp [Table.has, hget]
      simp only [List.findSome?_cons, List.find?_cons, hget, hhas]
      exact ih

/-- A name reads as what the nearest scope that has it binds it to. -/
theorem read?_of_nearest (ho : h.Nearest x s o) : h.read? s x = (h.bindings o).get? x := by
  rw [read?_eq_owner?, owner?_eq_some_iff.mpr ho]
  rfl

/-! ### Who sees a new binding -/

/-- Two conditions that differ at one element, where the second holds: a
search for the second finds that element, or what a search for the first
finds. -/
theorem find?_of_differ {α : Type} {q q' : α → Bool} {a : α} (ha : q' a = true)
    (hq : ∀ b, b ≠ a → q' b = q b) : ∀ xs : List α, xs.find? q' ≠ some a → xs.find? q' = xs.find? q
  | [], _ => rfl
  | b :: rest, hne => by
    by_cases hb : b = a
    · subst hb
      exact absurd (List.find?_cons_of_pos ha) hne
    · cases hqb : q b with
      | true => rw [List.find?_cons_of_pos hqb, List.find?_cons_of_pos ((hq b hb).trans hqb)]
      | false =>
        have hqb' : ¬q' b = true := by simp [hq b hb, hqb]
        rw [List.find?_cons_of_neg hqb'] at hne ⊢
        rw [find?_of_differ ha hq rest hne, List.find?_cons_of_neg (by simp [hqb])]

/-- Where a new binding is not the nearest, the nearest is the one of before. -/
theorem owner?_define {r : ScopeRef} (hr : h.HasScope r) (v : Value)
    (ht : (h.define r x v).owner? t x ≠ some r) : (h.define r x v).owner? t x = h.owner? t x := by
  unfold owner? at ht ⊢
  rw [chain_define] at ht ⊢
  refine find?_of_differ ?_ (fun b hb => ?_) (h.chain t) ht
  · simp [bindings_define hr, Table.has, Table.get?_set]
  · rw [bindings_define_of_ne hb]

/-- **A new binding is read where it is the nearest, and changes nothing
elsewhere.** -/
theorem read?_define_cases {r : ScopeRef} (hr : h.HasScope r) (x : String) (v : Value) (t : ScopeRef) :
    ((h.define r x v).Nearest x t r → (h.define r x v).read? t x = some v) ∧
      (¬(h.define r x v).Nearest x t r → (h.define r x v).read? t x = h.read? t x) := by
  constructor
  · intro hnear
    rw [read?_of_nearest hnear, bindings_define hr, Table.get?_set, if_pos rfl]
  · intro hfar
    rw [← owner?_eq_some_iff] at hfar
    have howner := owner?_define hr v hfar
    rw [read?_eq_owner?, read?_eq_owner?, howner]
    cases ho : h.owner? t x with
    | none => rfl
    | some o =>
      have hne : o ≠ r := by
        rintro rfl
        exact hfar (howner.trans ho)
      simp only [Option.bind_some, bindings_define_of_ne hne]

/-! ### The receiver -/

/-- An assignment goes to the nearest scope that has the name, or to where it
stands if none has it. -/
theorem receiver_nearest_or_self (h : Heap) (s : ScopeRef) (x : String) :
    h.Nearest x s (h.receiver s x) ∨ (∀ o, ¬h.Nearest x s o) ∧ h.receiver s x = s := by
  unfold receiver
  cases howner : h.owner? s x with
  | some o => exact .inl (owner?_eq_some_iff.mp howner)
  | none => exact .inr ⟨owner?_eq_none_iff.mp howner, rfl⟩

theorem hasScope_receiver (hs : h.HasScope s) (x : String) : h.HasScope (h.receiver s x) := by
  rcases h.receiver_nearest_or_self s x with hnear | ⟨-, hself⟩
  · obtain ⟨passed, hway⟩ := hnear.exists_way
    exact lt_of_has hway.has
  · rw [hself]
    exact hs

theorem scope_define_of_ne {r : ScopeRef} (ht : t ≠ r) : (h.define r x v).scope t = h.scope t := by
  rcases scope_define (h := h) r t x v with hsame | ⟨hr, -⟩
  · exact hsame
  · exact absurd hr ht

theorem scope_define_self {r : ScopeRef} (hr : h.HasScope r) : (h.define r x v).scope r =
    { h.scope r with bindings := (h.bindings r).set x v } := by
  have hmodified : (h.scopes.modify r.index fun s => { s with bindings := s.bindings.set x v })[r.index]? =
      h.scopes[r.index]?.map fun s => { s with bindings := s.bindings.set x v } := by
    simp [Array.getElem?_modify]
  unfold define bindings scope
  rw [Array.getD_eq_getD_getElem?, Array.getD_eq_getD_getElem?, hmodified,
    Array.getElem?_eq_getElem hr]
  rfl

end Heap

/-- **Assignment is lexical.** What is assigned to a name in a scope reads back
from that scope. It goes to the nearest scope outward that had the name, or
stays where it stands if none had it, and the receiver is the only scope that
changes. A scope reads the new value if the receiver is now the nearest scope
to bind the name on its way outward, and otherwise it reads the name as
before; no other name reads differently from anywhere. -/
theorem assignment_is_lexical (h : Heap) (s : ScopeRef) (hs : h.HasScope s) (x : String) (v : Value) :
    let r := h.receiver s x
    let h' := h.assign s x v
    h'.read? s x = some v ∧
      (∀ t, (h'.Nearest x t r → h'.read? t x = some v) ∧
        (¬h'.Nearest x t r → h'.read? t x = h.read? t x)) ∧
      (∀ t y, y ≠ x → h'.read? t y = h.read? t y) ∧
      (h.Nearest x s r ∨ (∀ o, ¬h.Nearest x s o) ∧ r = s) ∧
      h'.scope r = { h.scope r with bindings := (h.bindings r).set x v } ∧
      ∀ t, t ≠ r → h'.scope t = h.scope t := by
  intro r h'
  have hr : h.HasScope r := Heap.hasScope_receiver hs x
  refine ⟨Heap.read?_assign hs x v, ?_, ?_, h.receiver_nearest_or_self s x, ?_, ?_⟩
  · intro t
    exact Heap.read?_define_cases hr x v t
  · intro t y hy
    exact Heap.read?_assign_of_ne (Ne.symm hy) s t
  · exact Heap.scope_define_self hr
  · intro t ht
    exact Heap.scope_define_of_ne ht

/-- Two scopes inside one that lies in the root: an assignment from the first
binds the name there if only the second has it, and the second goes on to
read its own. -/
theorem assignment_is_lexical_siblings :
    let h : Heap := ⟨#[⟨[("y", .null)], none⟩, ⟨[], some ⟨0⟩⟩, ⟨[], some ⟨1⟩⟩,
      ⟨[("x", .bool false)], some ⟨1⟩⟩], #[], #[], #[]⟩
    let h' := h.assign ⟨2⟩ "x" (.bool true)
    h.HasScope ⟨2⟩ ∧ h.read? ⟨2⟩ "x" = none ∧ h'.read? ⟨2⟩ "x" = some (.bool true) ∧
      h'.read? ⟨3⟩ "x" = h.read? ⟨3⟩ "x" ∧ h'.read? ⟨1⟩ "x" = h.read? ⟨1⟩ "x" ∧
      h'.read? ⟨2⟩ "y" = h.read? ⟨2⟩ "y" := by
  intro h h'
  have hs : h.HasScope ⟨2⟩ := show 2 < 4 by decide
  have hlaw := assignment_is_lexical h ⟨2⟩ hs "x" (.bool true)
  obtain ⟨hback, hothers, hnames, -, -, -⟩ := hlaw
  have hreceiver : h.receiver ⟨2⟩ "x" = ⟨2⟩ := by decide
  have hfar (t : ScopeRef) (ht : h'.owner? t "x" ≠ some ⟨2⟩) : ¬h'.Nearest "x" t (h.receiver ⟨2⟩ "x") := by
    rw [hreceiver, ← Heap.owner?_eq_some_iff]
    exact ht
  refine ⟨hs, rfl, hback, ?_, ?_, ?_⟩
  · exact (hothers ⟨3⟩).2 (hfar ⟨3⟩ (by decide))
  · exact (hothers ⟨1⟩).2 (hfar ⟨1⟩ (by decide))
  · exact hnames ⟨2⟩ "y" (by decide)

end RuleScript
