/-
# How templates are filled

The recursion over the pieces of a template, and over the names of a dotted one,
is followed twice. A property of computations passes from the steps of a filling
to the whole (`Site.Fills`): besides to look, a template may fault and, where
initialisers have their effect, empty scopes. And two fillings of one template go
side by side if their steps do (`Site.Beside`): with views that are related, what
is inserted is the same text.

Key definitions: `Site.Fills`, `Eval.Abreast`, `Site.Beside`.
Key theorems: `Site.renderTemplate_of_fills`, `Site.render_of_beside`.
-/
import Mathlib.Data.List.Forall2
import RuleScript.Proofs.Composition

namespace RuleScript

open Eval (Inspects)

variable {Q : {α : Type} → Eval α → Prop}

/-! ### One filling -/

/-- A property that holds, besides of what only looks, of the faults of a place of
call and, where the initialisers of scopes have their effect, of the emptying of
scopes. -/
structure Site.Fills (D : Disguise) (s : Site) (Q : {α : Type} → Eval α → Prop) : Prop
    extends Inspects Q where
  fail : ∀ {α : Type} (c : Cause), Q (s.fail c : Eval α)
  clearScope : D.initialises = true → ∀ r, Q (Eval.modifyHeap (·.clearScope r))

namespace Site

variable {D : Disguise} {s : Site} (hQ : s.Fills D Q)

include hQ

theorem literal_of_fills (v : View) : Q (literal D s v) :=
  hQ.bind (hQ.onHeap _) fun
    | some _ => hQ.pure _
    | none => hQ.exhausted

theorem openAttribute_of_fills (v : View) : ∀ a : Attribute, Q (openAttribute D s v a)
  | .value _ => hQ.pure _
  | .literal => hQ.bind (literal_of_fills hQ v) fun _ => hQ.pure _
  | .failure _ => hQ.fail _
  | .initialiser r => by
    show Q (if D.initialises then Eval.modifyHeap (·.clearScope r) >>= fun _ => pure (.held .null)
      else pure (.held .null) : Eval View)
    split
    case isTrue hinitialises => exact hQ.bind (hQ.clearScope hinitialises r) fun _ => hQ.pure _
    case isFalse => exact hQ.pure _

theorem member_of_fills (v : View) (name : String) : Q (member D s v name) :=
  hQ.bind (hQ.onHeap _) fun
    | some a => hQ.bind (openAttribute_of_fills hQ v a) fun _ => hQ.pure _
    | none => hQ.pure _

theorem nearest_of_fills (name : String) : ∀ stack : List View, Q (nearest D s name stack)
  | [] => hQ.pure _
  | v :: stack => hQ.bind (member_of_fills hQ v name) fun
    | some _ => hQ.pure _
    | none => nearest_of_fills name stack

theorem follow_of_fills : ∀ (names : List String) (v : View), Q (follow D s v names)
  | [], _ => hQ.pure _
  | name :: names, v => hQ.bind (member_of_fills hQ v name) fun
    | some w => follow_of_fills names w
    | none => hQ.pure _

theorem resolve_of_fills (stack : List View) (name : String) : Q (resolve D s stack name) := by
  unfold resolve
  split
  · exact hQ.pure _
  · split
    · exact hQ.pure _
    · refine hQ.bind (nearest_of_fills hQ _ stack) fun found => ?_
      cases found with
      | some v => exact follow_of_fills hQ _ v
      | none => exact hQ.pure _

theorem insertion_of_fills (v : View) : Q (insertion D s v) := by
  unfold insertion
  split
  · exact hQ.pure _
  · exact literal_of_fills hQ v

theorem elements_of_fills (v : View) : Q (elements s v) := by
  refine hQ.bind (hQ.onHeap _) fun truthy => ?_
  split
  · split
    · exact hQ.pure _
    · exact hQ.bind (hQ.onHeap _) fun _ => hQ.pure _
    · exact hQ.pure _
    · exact hQ.fail _
    · exact hQ.pure _
  · exact hQ.pure _

mutual

theorem renderPiece_of_fills : ∀ (stack : List View) (p : Template.Piece), Q (renderPiece D s stack p)
  | _, .text _ => hQ.pure _
  | stack, .insertion name => hQ.bind (resolve_of_fills hQ stack name) fun
    | some v => hQ.bind (insertion_of_fills hQ v) fun _ => hQ.pure _
    | none => hQ.pure _
  | stack, .repeated name body => hQ.bind (resolve_of_fills hQ stack name) fun
    | some v => hQ.bind (elements_of_fills hQ v) fun ws =>
        hQ.bind (hQ.mapM (fun w => renderPieces_of_fills (w :: stack) body) ws) fun _ => hQ.pure _
    | none => hQ.pure _
  | stack, .inverted name body => hQ.bind (resolve_of_fills hQ stack name) fun
    | some _ => hQ.bind (hQ.onHeap _) fun
      | true => hQ.pure _
      | false => renderPieces_of_fills stack body
    | none => renderPieces_of_fills stack body

theorem renderPieces_of_fills :
    ∀ (stack : List View) (ps : List Template.Piece), Q (renderPieces D s stack ps)
  | _, [] => hQ.pure _
  | stack, p :: ps => hQ.bind (renderPiece_of_fills stack p) fun _ =>
      hQ.bind (renderPieces_of_fills stack ps) fun _ => hQ.pure _

end

theorem templateView_of_fills : ∀ v : Option Value, Q (s.templateView v)
  | none => hQ.pure _
  | some v => by
    have hdict : Q (s.dict "a dict as view" v) := by
      unfold Site.dict
      split
      · exact hQ.pure _
      · exact hQ.fail _
    exact hQ.bind hdict fun d => toView_of_inspects hQ.toInspects _ _

theorem render_of_fills (template : String) (view : View) : Q (render D s template view) := by
  unfold render
  split
  · exact hQ.bind (renderPieces_of_fills hQ _ _) fun _ => hQ.pure _
  · split
    · exact hQ.fail _
    · exact hQ.fail _

/-- Filling a template. -/
theorem renderTemplate_of_fills (args : List Value) : Q (renderTemplate D s args) := by
  have hstring (v : Value) : Q (s.string "a string as template" v) := by
    unfold Site.string
    split
    · exact hQ.pure _
    · exact hQ.fail _
  exact hQ.bind (hstring _) fun template => hQ.bind (templateView_of_fills hQ _) fun view =>
    hQ.bind (render_of_fills hQ template view) fun _ => hQ.pure _

end Site

/-! ### Two fillings side by side -/

namespace Eval

section

variable (M : Machine → Machine → Prop) (E : Stop → Machine → Stop → Machine → Prop)

/-- Two computations end on machines that are related, with results that are related,
or with stops that are. -/
inductive Matches {α : Type} (R : α → α → Prop) :
    Except Stop α × Machine → Except Stop α × Machine → Prop
  | value {a b : α} {m m' : Machine} (hab : R a b) (hm : M m m') : Matches R (.ok a, m) (.ok b, m')
  | stop {s s' : Stop} {m m' : Machine} (h : E s m s' m') : Matches R (.error s, m) (.error s', m')

/-- Two computations that end so from machines that are related. -/
def Abreast {α : Type} (R : α → α → Prop) (x y : Eval α) : Prop :=
  ∀ ⦃m m' : Machine⦄, M m m' → Matches M E R (x m) (y m')

end

namespace Abreast

variable {M : Machine → Machine → Prop} {E : Stop → Machine → Stop → Machine → Prop} {α β : Type}
  {R : α → α → Prop} {R' : β → β → Prop}

theorem pure {a b : α} (hab : R a b) : Abreast M E R (pure a) (pure b) :=
  fun _ _ hm => .value hab hm

theorem bind {x y : Eval α} {f g : α → Eval β} (hxy : Abreast M E R x y)
    (hfg : ∀ a b, R a b → Abreast M E R' (f a) (g b)) : Abreast M E R' (x >>= f) (y >>= g) := by
  intro m m' hm
  have hends := hxy hm
  rw [bind_run, bind_run]
  generalize x m = r, y m' = r' at hends
  cases hends with
  | value hab hm => exact hfg _ _ hab hm
  | stop h => exact .stop h

theorem mapM {f g : α → Eval β} (hfg : ∀ a b, R a b → Abreast M E R' (f a) (g b)) :
    ∀ {xs ys : List α}, List.Forall₂ R xs ys →
      Abreast M E (List.Forall₂ R') (xs.mapM f) (ys.mapM g)
  | _, _, .nil => by
    rw [List.mapM_nil, List.mapM_nil]
    exact pure .nil
  | _, _, .cons hxy hrest => by
    rw [List.mapM_cons, List.mapM_cons]
    exact (hfg _ _ hxy).bind fun _ _ hab => (mapM hfg hrest).bind fun _ _ hall => pure (.cons hab hall)

theorem of_eq {x y : Eval α} (hR : ∀ a, R a a) (hxy : x = y) :
    Abreast (fun m m' => m' = m) (fun e m e' m' => e' = e ∧ m' = m) R x y := by
  intro m m' hm
  rw [hxy, hm]
  generalize y m = r
  obtain ⟨r, m⟩ := r
  cases r with
  | ok a => exact .value (hR a) rfl
  | error e => exact .stop ⟨rfl, rfl⟩

end Abreast

end Eval

open Eval (Abreast)

/-- The steps of two fillings go side by side when they start from views that are
related. -/
structure Site.Beside (D D' : Disguise) (s s' : Site) (V : View → View → Prop)
    (M : Machine → Machine → Prop) (E : Stop → Machine → Stop → Machine → Prop) : Prop where
  fail : ∀ {α : Type} (c : Cause), Abreast M E (· = ·) (s.fail c : Eval α) (s'.fail c)
  member : ∀ {v v' : View}, V v v' → ∀ name,
    Abreast M E (Option.Rel V) (Site.member D s v name) (Site.member D' s' v' name)
  insertion : ∀ {v v' : View}, V v v' →
    Abreast M E (· = ·) (Site.insertion D s v) (Site.insertion D' s' v')
  isTruthy : ∀ {v v' : View}, V v v' →
    Abreast M E (· = ·) (Eval.onHeap v.isTruthy) (Eval.onHeap v'.isTruthy)
  elements : ∀ {v v' : View}, V v v' →
    Abreast M E (List.Forall₂ V) (s.elements v) (s'.elements v')

namespace Site

variable {D D' : Disguise} {s s' : Site} {V : View → View → Prop} {M : Machine → Machine → Prop}
  {E : Stop → Machine → Stop → Machine → Prop}

theorem nearest_of_beside (hs : s.Beside D D' s' V M E) (name : String) :
    ∀ {stack stack' : List View}, List.Forall₂ V stack stack' →
      Abreast M E (Option.Rel V) (nearest D s name stack) (nearest D' s' name stack')
  | _, _, .nil => .pure .none
  | _, _, .cons hv hstack => (hs.member hv name).bind fun
    | _, _, .some hw => .pure (.some hw)
    | _, _, .none => nearest_of_beside hs name hstack

theorem follow_of_beside (hs : s.Beside D D' s' V M E) :
    ∀ (names : List String) {v v' : View}, V v v' →
    Abreast M E (Option.Rel V) (follow D s v names) (follow D' s' v' names)
  | [], _, _, hv => .pure (.some hv)
  | name :: names, _, _, hv => (hs.member hv name).bind fun
    | _, _, .some hw => follow_of_beside hs names hw
    | _, _, .none => .pure .none

theorem resolve_of_beside (hs : s.Beside D D' s' V M E) {stack stack' : List View}
    (hstack : List.Forall₂ V stack stack') (name : String) :
    Abreast M E (Option.Rel V) (resolve D s stack name) (resolve D' s' stack' name) := by
  unfold resolve
  split
  · cases hstack with
    | nil => exact .pure .none
    | cons hv _ => exact .pure (.some hv)
  · split
    · exact .pure .none
    · exact (nearest_of_beside hs _ hstack).bind fun
        | _, _, .some hv => follow_of_beside hs _ hv
        | _, _, .none => .pure .none

mutual

theorem renderPiece_of_beside (hs : s.Beside D D' s' V M E) :
    ∀ {stack stack' : List View}, List.Forall₂ V stack stack' →
    ∀ p : Template.Piece, Abreast M E (· = ·) (renderPiece D s stack p) (renderPiece D' s' stack' p)
  | _, _, _, .text _ => .pure rfl
  | _, _, hstack, .insertion name => (resolve_of_beside hs hstack name).bind fun
    | _, _, .some hv => (hs.insertion hv).bind fun _ _ htext => .pure (htext ▸ rfl)
    | _, _, .none => .pure rfl
  | _, _, hstack, .repeated name body => (resolve_of_beside hs hstack name).bind fun
    | _, _, .some hv => (hs.elements hv).bind fun _ _ hws => by
        have hinside : ∀ w w', V w w' → Abreast M E (· = ·) (renderPieces D s (w :: _) body)
            (renderPieces D' s' (w' :: _) body) :=
          fun _ _ hw => renderPieces_of_beside hs (.cons hw hstack) body
        refine (Abreast.mapM hinside hws).bind fun parts parts' hparts => .pure ?_
        obtain rfl : parts = parts' := List.forall₂_eq_eq_eq ▸ hparts
        rfl
    | _, _, .none => .pure rfl
  | _, _, hstack, .inverted name body => (resolve_of_beside hs hstack name).bind fun
    | _, _, .some hv => (hs.isTruthy hv).bind fun
      | true, _, rfl => .pure rfl
      | false, _, rfl => renderPieces_of_beside hs hstack body
    | _, _, .none => renderPieces_of_beside hs hstack body

theorem renderPieces_of_beside (hs : s.Beside D D' s' V M E) :
    ∀ {stack stack' : List View}, List.Forall₂ V stack stack' →
    ∀ ps : List Template.Piece, Abreast M E (· = ·) (renderPieces D s stack ps) (renderPieces D' s' stack' ps)
  | _, _, _, [] => .pure rfl
  | _, _, hstack, p :: ps => (renderPiece_of_beside hs hstack p).bind fun
    | _, _, rfl => (renderPieces_of_beside hs hstack ps).bind fun
      | _, _, rfl => .pure rfl

end

/-- Filling a template from two views. -/
theorem render_of_beside (hs : s.Beside D D' s' V M E) (template : String) {v v' : View}
    (hv : V v v') :
    Abreast M E (· = ·) (render D s template v) (render D' s' template v') := by
  unfold render
  split
  · exact (renderPieces_of_beside hs (.cons hv .nil) _).bind fun
      | _, _, rfl => .pure rfl
  · split
    · exact hs.fail _
    · exact hs.fail _

/-- The steps of a filling depend on the place of call only for its faults and for
the frames that they may take. -/
theorem beside_congr (hfail : ∀ {α : Type} (c : Cause), (s.fail c : Eval α) = s'.fail c)
    (hframes : s.frames = s'.frames) :
    s.Beside D D s' (· = ·) (fun m m' => m' = m) (fun e m e' m' => e' = e ∧ m' = m) where
  fail c := .of_eq (fun _ => rfl) (hfail c)
  member := by
    rintro v _ rfl name
    have hopen (a : Attribute) : openAttribute D s v a = openAttribute D s' v a := by
      cases a with
      | value w => rfl
      | literal =>
        unfold openAttribute literal
        rw [hframes]
      | failure message => exact hfail _
      | initialiser r => rfl
    refine .of_eq (fun o => by cases o <;> constructor; rfl) ?_
    unfold member
    simp only [hopen]
  insertion := by
    rintro v _ rfl
    refine .of_eq (fun _ => rfl) ?_
    unfold insertion literal
    rw [hframes]
  isTruthy := by
    rintro v _ rfl
    exact .of_eq (fun _ => rfl) rfl
  elements := by
    rintro v _ rfl
    refine .of_eq (fun vs => List.forall₂_same.mpr fun _ _ => rfl) ?_
    unfold elements
    simp only [hfail]

/-- So does a filling. -/
theorem render_congr (hfail : ∀ {α : Type} (c : Cause), (s.fail c : Eval α) = s'.fail c)
    (hframes : s.frames = s'.frames) (template : String) (view : View) :
    render D s template view = render D s' template view := by
  funext m
  have hbeside := beside_congr (D := D) hfail hframes
  have hends := render_of_beside hbeside template (rfl : view = view) (rfl : m = m)
  generalize render D s template view m = r, render D s' template view m = r' at hends
  cases hends with
  | value hab hm => rw [hab, hm]
  | stop h => rw [h.1, h.2]

end Site

end RuleScript
