/-
# Values that are equal in structure

Two values, each in a heap, are equal in structure if both are the same scalar or
function, or both are arrays or both are dicts with equal parts in the same
places. Since values may form cycles this is the greatest relation in which equal
values have equal parts (`StructEq`), so to show it one gives a relation that
passes down, such as that between a value and a copy of it.

Key definitions: `Matches`, `StructEq`.
Key theorems: `StructEq.parts`, `StructEq.symm`, `StructEq.trans`,
`StructEq.copiable_eq`, `Copied.structEq`.
-/
import RuleScript.Proofs.Values.Copy

namespace RuleScript

/-- Two values are the same, or an array or a dict with related parts in the same
places. -/
inductive Matches (h h' : Heap) (R : Value → Value → Prop) : Value → Value → Prop
  | same {v : Value} (hv : v.isAggregate = false) : Matches h h' R v v
  | array {r r' : ArrayRef} (hitems : List.Forall₂ R (h.items r) (h'.items r')) :
    Matches h h' R (.array r) (.array r')
  | dict {r r' : DictRef}
    (hentries : List.Forall₂ (fun p q => p.1 = q.1 ∧ R p.2 q.2) (h.dict r) (h'.dict r')) :
    Matches h h' R (.dict r) (.dict r')

/-- A value in one heap is equal in structure to a value in another. -/
def StructEq (h h' : Heap) (v w : Value) : Prop :=
  ∃ R : Value → Value → Prop, (∀ x y, R x y → Matches h h' R x y) ∧ R v w

section

variable {h h' h'' : Heap} {R S : Value → Value → Prop} {u v w : Value}

theorem Matches.imp (hRS : ∀ x y, R x y → S x y) (hm : Matches h h' R v w) : Matches h h' S v w := by
  cases hm with
  | same hv => exact .same hv
  | array hitems => exact .array (hitems.imp hRS)
  | dict hentries => exact .dict (hentries.imp fun p q hpq => ⟨hpq.1, hRS p.2 q.2 hpq.2⟩)

theorem Matches.symm (hm : Matches h h' R v w) : Matches h' h (fun x y => R y x) w v := by
  cases hm with
  | same hv => exact .same hv
  | array hitems => exact .array hitems.flip
  | dict hentries => exact .dict (hentries.flip.imp fun p q hpq => ⟨hpq.1.symm, hpq.2⟩)

theorem forall₂_comp {α β γ : Type} {R : α → β → Prop} {S : β → γ → Prop} {T : α → γ → Prop}
    (hT : ∀ x y z, R x y → S y z → T x z) {xs : List α} {ys : List β} {zs : List γ}
    (hR : List.Forall₂ R xs ys) (hS : List.Forall₂ S ys zs) : List.Forall₂ T xs zs := by
  induction hR generalizing zs with
  | nil =>
    cases hS
    exact .nil
  | cons hxy _ ih =>
    cases hS with
    | cons hyz hrest => exact .cons (hT _ _ _ hxy hyz) (ih hrest)

theorem all_eq_of_forall₂ {α β : Type} {p : α → Bool} {q : β → Bool} {xs : List α} {ys : List β}
    (h : List.Forall₂ (fun x y => p x = q y) xs ys) : xs.all p = ys.all q := by
  induction h with
  | nil => rfl
  | cons hxy _ ih => rw [List.all_cons, List.all_cons, hxy, ih]

theorem Matches.trans (hm : Matches h h' R u v) (hm' : Matches h' h'' S v w) :
    Matches h h'' (fun x z => ∃ y, R x y ∧ S y z) u w := by
  cases hm with
  | same hv =>
    cases hm' with
    | same => exact .same hv
    | array => cases hv
    | dict => cases hv
  | array hitems =>
    cases hm' with
    | same hv => cases hv
    | array hitems' => exact .array (forall₂_comp (fun _ y _ hxy hyz => ⟨y, hxy, hyz⟩) hitems hitems')
  | dict hentries =>
    cases hm' with
    | same hv => cases hv
    | dict hentries' =>
      refine .dict (forall₂_comp (fun p q t hpq hqt => ?_) hentries hentries')
      exact ⟨hpq.1.trans hqt.1, q.2, hpq.2, hqt.2⟩

namespace StructEq

/-- **Values that are equal in structure have parts that are.** -/
theorem parts (hs : StructEq h h' v w) : Matches h h' (StructEq h h') v w := by
  obtain ⟨R, hR, hvw⟩ := hs
  exact (hR v w hvw).imp fun x y hxy => ⟨R, hR, hxy⟩

theorem refl (h : Heap) (v : Value) : StructEq h h v v := by
  refine ⟨Eq, ?_, rfl⟩
  rintro x _ rfl
  cases x with
  | array r => exact .array (List.forall₂_refl _)
  | dict r => exact .dict (List.forall₂_same.mpr fun p _ => ⟨rfl, rfl⟩)
  | absent | null | bool | number | string | function => exact .same rfl

theorem symm (hs : StructEq h h' v w) : StructEq h' h w v :=
  ⟨fun x y => StructEq h h' y x, fun _ _ hxy => hxy.parts.symm, hs⟩

theorem trans (hs : StructEq h h' u v) (hs' : StructEq h' h'' v w) : StructEq h h'' u w := by
  refine ⟨fun x z => ∃ y, StructEq h h' x y ∧ StructEq h' h'' y z, ?_, v, hs, hs'⟩
  rintro x z ⟨y, hxy, hyz⟩
  exact hxy.parts.trans hyz.parts

theorem forall₂_symm {xs ys : List Value} (hs : List.Forall₂ (StructEq h h') xs ys) :
    List.Forall₂ (StructEq h' h) ys xs :=
  hs.flip.imp fun _ _ hxy => StructEq.symm hxy

theorem forall₂_trans {xs ys zs : List Value} (hs : List.Forall₂ (StructEq h h') xs ys)
    (hs' : List.Forall₂ (StructEq h' h'') ys zs) : List.Forall₂ (StructEq h h'') xs zs := by
  refine forall₂_comp ?_ hs hs'
  exact fun _ _ _ hxy hyz => hxy.trans hyz

/-- The same number of frames is enough for values that are equal in structure. -/
theorem copiable_eq : ∀ (frames : Nat) {v w : Value}, StructEq h h' v w →
    v.copiable h frames = w.copiable h' frames
  | 0, _, _, _ => rfl
  | frames + 1, v, w, hs => by
    cases hs.parts with
    | same hv => cases v <;> first | rfl | cases hv
    | array hitems =>
      match frames with
      | 0 => rfl
      | frames + 1 =>
        exact all_eq_of_forall₂ (hitems.imp fun _ _ hxy => copiable_eq frames hxy)
    | dict hentries =>
      exact all_eq_of_forall₂ (hentries.imp fun _ _ hpq => copiable_eq frames hpq.2)

end StructEq

/-- **A copy is equal in structure to what was copied.** -/
theorem Copied.structEq (hc : Copied h h' v w) : StructEq h h' v w := by
  refine ⟨Copied h h', fun x y hxy => ?_, hc⟩
  cases hxy with
  | same hv => exact .same hv
  | array _ _ hlength hitems =>
    exact .array (List.forall₂_iff_zip.mpr ⟨hlength, fun hp => hitems _ hp⟩)
  | dict _ _ hnames hvalues =>
    have hlength := congrArg List.length hnames
    rw [Table.names, Table.names, List.length_map, List.length_map] at hlength
    exact .dict (List.forall₂_iff_zip.mpr ⟨hlength, fun hp => ⟨names_zip hnames hp, hvalues _ hp⟩⟩)

end

end RuleScript
