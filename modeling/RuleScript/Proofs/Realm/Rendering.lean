/-
# Templates keep to a realm

A template is filled from a view, and what a view shows is reached from the values
in it: the elements of an array, the body and the scope of a function, the bindings
of a scope and the scope around it. So a view of what lies inside a realm opens up
into such views only (`Realm.Sees`), and an initialiser that a template calls
empties a scope inside.

Key definitions: `Realm.Sees`, `Realm.opening`.
Key theorems: `Realm.Sees.attribute`, `Realm.toView_keeps`,
`Realm.renderTemplate_keeps`.
-/
import RuleScript.Proofs.Realm.Keeping
import RuleScript.Proofs.Rendering

namespace RuleScript

namespace Realm

variable (R : Realm)

/-- A view of what lies inside a realm. -/
inductive Sees : View → Prop
  | held {v : Value} (h : R.value v) : Sees (.held v)
  | integer (n : Int) : Sees (.integer n)
  | list {vs : List View} (h : ∀ v ∈ vs, Sees v) : Sees (.list vs)
  | table {es : List (String × View)} (h : ∀ p ∈ es, Sees p.2) : Sees (.table es)
  | node {n : Node} (h : R.Term n) : Sees (.node n)
  | scope {r : ScopeRef} (h : R.scope r) : Sees (.scope r)
  | inside {r : ScopeRef} (h : R.scope r) : Sees (.inside r)
  | names (ns : List String) : Sees (.names ns)

/-- An attribute that shows what lies inside, or empties a scope there. -/
def opening : Attribute → Prop
  | .value v => R.Sees v
  | .initialiser r => R.scope r
  | .literal | .failure _ => True

variable {R}

/-! ### What attributes show -/

theorem mem_of_lookup {β : Type} {es : List (String × β)} {name : String} {b : β}
    (h : es.lookup name = some b) : (name, b) ∈ es := by
  obtain ⟨front, back, rfl, -⟩ := List.lookup_eq_some_iff.mp h
  exact List.mem_append_right _ List.mem_cons_self

theorem sees_text (text : String) : R.Sees (.text text) := .held trivial

theorem sees_text? : ∀ text : Option String, R.Sees (.text? text)
  | none => .held trivial
  | some text => sees_text text

theorem sees_integer? : ∀ n : Option Int, R.Sees (.integer? n)
  | none => .held trivial
  | some n => .integer n

theorem sees_nodes {ns : List Node} (hns : R.terms ns) : R.Sees (.list (ns.map .node)) := by
  refine .list fun v hv => ?_
  obtain ⟨n, hn, rfl⟩ := List.mem_map.mp hv
  exact .node (hns n hn)

theorem sees_texts (texts : List String) : R.Sees (.list (texts.map .text)) := by
  refine .list fun v hv => ?_
  obtain ⟨text, -, rfl⟩ := List.mem_map.mp hv
  exact sees_text text

/-- The members of a node inside lie inside. -/
theorem Term.sees_members {n : Node} (hn : R.Term n) (D : Disguise) :
    ∀ p ∈ n.members D, R.Sees p.2 := by
  refine List.forall_mem_append.mpr ⟨List.forall_mem_cons.mpr ⟨sees_integer? _,
    List.forall_mem_cons.mpr ⟨sees_integer? _, List.forall_mem_singleton.mpr (.integer _)⟩⟩, ?_⟩
  cases hn with
  | number => exact List.forall_mem_cons.mpr ⟨sees_text _, List.forall_mem_singleton.mpr (sees_text _)⟩
  | word | quoted | symbol => exact List.forall_mem_singleton.mpr (sees_text _)
  | span _ _ hbody =>
    exact List.forall_mem_cons.mpr ⟨sees_text _, List.forall_mem_singleton.mpr (sees_nodes hbody)⟩
  | value _ hv => exact List.forall_mem_singleton.mpr (.held hv)

/-- The members of a function of the script inside lie inside. -/
theorem sees_members_of_script {f : ScriptFunction} (hf : R.code (.script f)) :
    ∀ p ∈ f.members, R.Sees p.2 :=
  List.forall_mem_cons.mpr ⟨sees_texts _, List.forall_mem_cons.mpr ⟨sees_nodes hf.2,
    List.forall_mem_cons.mpr ⟨.scope hf.1, List.forall_mem_cons.mpr ⟨sees_text _,
      List.forall_mem_cons.mpr ⟨sees_text? _, List.forall_mem_singleton.mpr (.held trivial)⟩⟩⟩⟩⟩

/-- The members of a scope inside lie inside. -/
theorem sees_members_of_scope {h : Heap} (hh : R.Admits h) {r : ScopeRef} (hr : R.scope r) :
    ∀ p ∈ h.members r, R.Sees p.2 := by
  refine List.forall_mem_cons.mpr ⟨.table fun p hp => ?_, List.forall_mem_singleton.mpr ?_⟩
  · obtain ⟨q, hq, rfl⟩ := List.mem_map.mp hp
    exact .held (hh.bindings hr q hq)
  · dsimp only
    cases hparent : (h.scope r).parent with
    | none => exact .held trivial
    | some p => exact .scope (hh.parent hr hparent)

theorem among_of_sees {es : List (String × View)} (hes : ∀ p ∈ es, R.Sees p.2) {name : String}
    {a : Attribute} (ha : Attribute.among es name = some a) : R.opening a := by
  unfold Attribute.among at ha
  split at ha
  · rename_i v hv
    obtain rfl := Option.some.inj ha
    exact hes _ (mem_of_lookup hv)
  · split at ha <;> cases ha
    exact .table hes

theorem Term.attribute {n : Node} (hn : R.Term n) {D : Disguise} {name : String} {a : Attribute}
    (ha : n.attribute? D name = some a) : R.opening a := by
  rcases Option.or_eq_some_iff.mp ha with hmember | ⟨-, hmethod⟩
  · exact among_of_sees (hn.sees_members D) hmember
  · split at hmethod <;> first
      | cases hmethod; exact sees_text _
      | cases hmethod; exact trivial
      | cases hmethod

theorem attribute_of_code {f : Function} (hf : R.code f) {name : String} {a : Attribute}
    (ha : f.attribute? name = some a) : R.opening a := by
  cases f with
  | script f =>
    rcases Option.or_eq_some_iff.mp ha with hmember | ⟨-, hmethod⟩
    · exact among_of_sees (sees_members_of_script hf) hmember
    · split at hmethod <;> cases hmethod <;> exact trivial
  | native f =>
    unfold Function.attribute? at ha
    dsimp only at ha
    split at ha <;> cases ha <;> first
      | exact .integer _
      | exact sees_text _
      | exact sees_text? _
      | exact trivial
      | skip
    cases f.arity.most with
    | none => exact Sees.held trivial
    | some n => exact Sees.integer _

theorem attribute_of_scope {h : Heap} (hh : R.Admits h) {r : ScopeRef} (hr : R.scope r) {name : String}
    {a : Attribute} (ha : h.scopeAttribute? r name = some a) : R.opening a := by
  unfold Heap.scopeAttribute? at ha
  split at ha
  · cases ha
    exact Sees.inside hr
  · rcases Option.or_eq_some_iff.mp ha with hmember | ⟨-, hmethod⟩
    · exact among_of_sees (sees_members_of_scope hh hr) hmember
    · unfold Heap.method? at hmethod
      split at hmethod <;> cases hmethod <;> first
        | exact Sees.names _
        | exact hr
        | exact trivial

/-- **What a view inside a realm opens up into lies inside.** -/
theorem Sees.attribute {h : Heap} (hh : R.Admits h) {D : Disguise} {v : View} (hv : R.Sees v)
    {name : String} {a : Attribute} (ha : v.attribute? D h name = some a) : R.opening a := by
  cases hv with
  | held hv =>
    rename_i v
    cases v with
    | absent =>
      rw [View.attribute?] at ha
      unfold absentAttribute? at ha
      split at ha <;> cases ha <;> first
        | exact Sees.held trivial
        | exact Sees.table (by rintro _ ⟨⟩)
        | exact trivial
    | dict r =>
      obtain ⟨w, hw, rfl⟩ := Option.map_eq_some_iff.mp ha
      exact Sees.held (table_get? (hh.dict hv) hw)
    | function f =>
      obtain ⟨code, hcode, ha⟩ := Option.bind_eq_some_iff.mp ha
      exact attribute_of_code (hh.functions hv hcode) ha
    | null | bool | number | string | array => cases ha
  | table hes =>
    obtain ⟨w, hw, rfl⟩ := Option.map_eq_some_iff.mp ha
    exact hes _ (mem_of_lookup hw)
  | node hn => exact hn.attribute ha
  | scope hr => exact attribute_of_scope hh hr ha
  | inside hr =>
    obtain ⟨w, hw, rfl⟩ := Option.map_eq_some_iff.mp ha
    exact sees_members_of_scope hh hr _ (mem_of_lookup hw)
  | integer | list | names => cases ha

/-! ### The steps of a filling -/

section Steps

open Site (literal openAttribute member insertion elements)

variable {T : Twin} [T.Started] {D : Disguise} {s : Site} {v : View}

theorem literal_keeps (v : View) : R.Does T (literal D s v) fun _ => True :=
  .onHeap fun h _ => by
    split
    · exact .pure trivial
    · exact .exhausted

omit [T.Started] in
theorem Keeps.clearScope {r : ScopeRef} (hr : R.scope r) :
    R.Does T (Eval.modifyHeap (·.clearScope r)) fun _ => True :=
  .modifyHeap fun _ hh => hh.clearScope hr

theorem insertion_keeps (v : View) : R.Does T (insertion D s v) fun _ => True := by
  unfold insertion
  split
  · exact .pure trivial
  · exact literal_keeps v

theorem openAttribute_keeps (hpos : R.place s.pos) : ∀ {a : Attribute}, R.opening a →
    R.Does T (openAttribute D s v a) R.Sees
  | .value _, ha => .pure ha
  | .literal, _ => by
    rw [openAttribute, map_eq_pure_bind]
    exact (literal_keeps v).then_return fun _ _ => sees_text _
  | .failure _, _ => .fail hpos _ _
  | .initialiser r, hr => by
    have hnull : R.Does T (pure (.held .null) : Eval View) R.Sees := .pure (.held trivial)
    show R.Does T (if D.initialises then Eval.modifyHeap (·.clearScope r) >>= fun _ => pure (.held .null)
      else pure (.held .null) : Eval View) R.Sees
    exact .ite ((Keeps.clearScope hr).bind fun _ _ => hnull) hnull

theorem member_keeps (hpos : R.place s.pos) (hv : R.Sees v) (name : String) :
    R.Does T (member D s v name) fun found => ∀ w, found = some w → R.Sees w :=
  .onHeap fun h hh => by
    split
    · rename_i a ha
      rw [map_eq_pure_bind]
      refine (openAttribute_keeps hpos (hv.attribute hh ha)).then_return fun w hw => ?_
      rintro _ ⟨⟩
      exact hw
    · exact .pure (by rintro _ ⟨⟩)

omit [T.Started] in
theorem elements_keeps (hpos : R.place s.pos) (hv : R.Sees v) :
    R.Does T (elements s v) fun ws => ∀ w ∈ ws, R.Sees w := by
  have hself : R.Does T (pure [v] : Eval (List View)) fun ws => ∀ w ∈ ws, R.Sees w :=
    .pure (List.forall_mem_singleton.mpr hv)
  refine .onHeap fun h hh => .ite ?_ (.pure (by rintro _ ⟨⟩))
  cases hv with
  | list hvs => exact .pure hvs
  | names ns =>
    refine .pure fun w hw => ?_
    obtain ⟨text, -, rfl⟩ := List.mem_map.mp hw
    exact sees_text text
  | scope hr => exact .fail hpos _ _
  | held hv =>
    rename_i v
    cases v with
    | array r =>
      refine .onHeap fun h hh => .pure fun w hw => ?_
      obtain ⟨x, hx, rfl⟩ := List.mem_map.mp hw
      exact .held (hh.items hv x hx)
    | absent | null | bool | number | string | dict | function => exact hself
  | integer | table | node | inside => exact hself

end Steps

/-! ### Templates -/

section Templates

open Eval (Abreast)
open Site (toView templateView render renderTemplate)

variable {T : Twin} {D : Disguise} {s : Site}

variable (R) (T) in
/-- The machines of two runs that keep to a realm. -/
def Pairs (m m' : Machine) : Prop := R.Holds m ∧ T.Beside m m'

variable (R) (T) in
/-- How two runs stop that keep to a realm. -/
structure Halts (e : Stop) (m : Machine) (e' : Stop) (m' : Machine) : Prop where
  pairs : R.Pairs T m m'
  stop : R.stop e
  stops : T.Stops e e'
  fired : e.untraced = .exhausted none → m.focus ≠ none

theorem Keeps.abreast {α : Type} {S : α → α → Prop} {post : α → Prop} {x y : Eval α}
    (h : R.Keeps T x y post) (hS : ∀ a, post a → S a a) : Abreast (R.Pairs T) (R.Halts T) S x y := by
  intro m m' hm
  have hends := h hm.1 hm.2
  generalize x m = r, y m' = r' at hends
  cases hends with
  | value hm hb ha => exact .value (hS _ ha) ⟨hm, hb⟩
  | stop hm hb hs hss hfired => exact .stop ⟨⟨hm, hb⟩, hs, hss, hfired⟩

theorem keeps_of_abreast {α : Type} {x y : Eval α} (h : Abreast (R.Pairs T) (R.Halts T) (· = ·) x y) :
    R.Keeps T x y fun _ => True := by
  intro m m' hm hb
  have hends := h ⟨hm, hb⟩
  generalize x m = r, y m' = r' at hends
  cases hends with
  | value hab hm =>
    subst hab
    exact .value hm.1 hm.2 trivial
  | stop h => exact .stop h.pairs.1 h.pairs.2 h.stop h.stops h.fired

variable [T.Started]

/-- The steps of a filling keep to a realm, from a view inside. -/
theorem fillings_beside (hpos : R.place s.pos) :
    s.Beside D D s (fun v v' => v' = v ∧ R.Sees v) (R.Pairs T) (R.Halts T) where
  fail {α} c := by
    have hfail : R.Does T (s.fail c : Eval α) fun _ => True := .fail hpos _ c
    exact hfail.abreast fun _ _ => rfl
  member := by
    rintro v _ ⟨rfl, hv⟩ name
    refine (member_keeps hpos hv name).abreast fun found hfound => ?_
    cases found with
    | none => exact .none
    | some w => exact .some ⟨rfl, hfound w rfl⟩
  insertion := by
    rintro v _ ⟨rfl, -⟩
    exact (insertion_keeps _).abreast fun _ _ => rfl
  isTruthy := by
    rintro _ v ⟨rfl, -⟩
    have htruthy : R.Does T (Eval.onHeap v.isTruthy >>= pure) fun _ => True :=
      .onHeap fun _ _ => .pure trivial
    exact htruthy.abreast fun _ _ => rfl
  elements := by
    rintro v _ ⟨rfl, hv⟩
    exact (elements_keeps hpos hv).abreast fun ws hws =>
      List.forall₂_same.mpr fun w hw => ⟨rfl, hws w hw⟩

theorem render_keeps (hpos : R.place s.pos) {view : View} (hview : R.Sees view) (template : String) :
    R.Does T (render D s template view) fun _ => True :=
  keeps_of_abreast (Site.render_of_beside (fillings_beside hpos) template ⟨rfl, hview⟩)

/-- Data inside a realm is seen there. -/
theorem toView_keeps : ∀ (frames : Nat) {v : Value}, R.value v → R.Does T (toView frames v) R.Sees
  | 0, _, _ => .exhausted
  | frames + 1, v, hv => by
    unfold toView
    cases v with
    | absent | null | bool | string | function => exact .pure (.held hv)
    | number x =>
      dsimp only
      split
      · exact .pure (.integer _)
      · exact .pure (.held hv)
    | array r =>
      match frames with
      | 0 => exact .exhausted
      | frames + 1 =>
        refine .onHeap fun h hh => Keeps.then_return (.mapM fun x hx => ?_) fun _ hvs => .list hvs
        exact toView_keeps frames (hh.items hv x hx)
    | dict r =>
      match frames with
      | 0 => exact .exhausted
      | frames + 1 =>
        refine .onHeap fun h hh => Keeps.then_return (Q := fun es => ∀ p ∈ es, R.Sees p.2)
          (.mapM fun p hp => ?_) fun _ hes => .table hes
        exact (toView_keeps frames (hh.dict hv p hp)).then_return fun _ hw => hw

theorem templateView_keeps (hpos : R.place s.pos) {v : Option Value} (hv : ∀ w, v = some w → R.value w) :
    R.Does T (templateView s v) R.Sees := by
  cases v with
  | none => exact .pure (.table (by rintro _ ⟨⟩))
  | some v =>
    have hvalue := hv v rfl
    unfold templateView Site.dict
    cases v with
    | dict r => exact toView_keeps _ hvalue
    | absent | null | bool | number | string | array | function =>
      have hfail : R.Does T (s.fail (.expected "a dict as view") : Eval DictRef) fun _ => False :=
        .fail hpos _ _
      exact hfail.bind fun _ h => h.elim

/-- **Filling a template keeps to a realm.** -/
theorem renderTemplate_keeps (hpos : R.place s.pos) {args : List Value} (hargs : R.values args) :
    R.Does T (renderTemplate D s args) R.product := by
  have hstring : R.Does T (s.string "a string as template" (args.getD 0 .null)) fun _ => True := by
    unfold Site.string
    split
    · exact .pure trivial
    · exact .fail hpos _ _
  refine hstring.bind fun template _ => (templateView_keeps hpos fun v hv => ?_).bind fun view hview =>
    (render_keeps hpos hview template).then_return fun text _ => .value (v := .string text) trivial
  exact hargs v (List.mem_of_getElem? hv)

end Templates

end Realm

end RuleScript
