/-
# Templates on two machines

What a template shows on the second of two machines that are alike, it shows on the
first in the disguise that belongs to the likeness (`Likeness.disguise`): where a
node stands and which number a scope has is read off the second machine. A view
carries over to a view (`Likeness.view`) whose literal is the same text, whose
attributes are carried over, and whose initialisers empty the scopes that
correspond, so filling a template goes side by side.

Where nothing differs, the disguise changes nothing (`Likeness.Plain.disguise_eq`).

Key definitions: `Likeness.view`, `Likeness.disguise`.
Key theorems: `Likeness.Heaps.literal_view`, `Likeness.Heaps.attribute_view`,
`Likeness.Sites.renderTemplate`, `Likeness.Sites.callNative_disguised`.
-/
import RuleScript.Proofs.Calls.Disguise
import RuleScript.Proofs.Likeness.Library
import RuleScript.Proofs.Rendering

namespace RuleScript

namespace Likeness

/-- The disguise in which templates on the first machine show what they show on
the second. -/
def disguise (L : Likeness) : Disguise := ⟨L.position, fun s => (L.scope s).index, true⟩

variable (L : Likeness)

/-! ### Views -/

mutual

/-- A view of the first machine on the second. -/
def view : View → View
  | .held v => .held (L.value v)
  | .list vs => .list (views vs)
  | .table es => .table (viewEntries es)
  | .node n => .node (L.node n)
  | .scope r => .scope (L.scope r)
  | .inside r => .inside (L.scope r)
  | .integer n => .integer n
  | .names ns => .names ns

def views : List View → List View
  | [] => []
  | v :: vs => view v :: views vs

def viewEntries : List (String × View) → List (String × View)
  | [] => []
  | (name, v) :: es => (name, view v) :: viewEntries es

end

theorem views_eq_map : ∀ vs : List View, L.views vs = vs.map L.view
  | [] => rfl
  | v :: vs => by rw [views, views_eq_map vs, List.map_cons]

theorem viewEntries_eq_map : ∀ es : List (String × View),
    L.viewEntries es = es.map fun p => (p.1, L.view p.2)
  | [] => rfl
  | (name, v) :: es => by rw [viewEntries, viewEntries_eq_map es, List.map_cons]

@[simp] theorem view_text? (text : Option String) : L.view (.text? text) = .text? text := by
  cases text <;> rfl

@[simp] theorem view_integer? (n : Option Int) : L.view (.integer? n) = .integer? n := by
  cases n <;> rfl

theorem view_nodes (ns : List Node) : L.view (.list (ns.map .node)) = .list ((L.nodes ns).map .node) := by
  rw [view, views_eq_map, nodes_eq_map, List.map_map, List.map_map]
  rfl

theorem view_texts (texts : List String) : L.view (.list (texts.map .text)) = .list (texts.map .text) := by
  rw [view, views_eq_map, List.map_map]
  rfl

/-- An attribute of a view of the first machine on the second. -/
def opening : Attribute → Attribute
  | .value v => .value (L.view v)
  | .initialiser r => .initialiser (L.scope r)
  | .literal => .literal
  | .failure message => .failure message

def container : Container → Container
  | .array r => .array (L.array r)
  | .dict r => .dict (L.dict r)

theorem contains_container (around : List Container) (c : Container) :
    (around.map L.container).contains (L.container c) = around.contains c := by
  have hinj : ∀ {c c' : Container}, L.container c = L.container c' → c = c' := by
    rintro (r | r) (r' | r') h
    · exact congrArg Container.array (L.array_inj.mp (Container.array.inj h))
    · cases h
    · cases h
    · exact congrArg Container.dict (L.dict_inj.mp (Container.dict.inj h))
  rw [Bool.eq_iff_iff, List.contains_iff_mem, List.contains_iff_mem, List.mem_map]
  constructor
  · rintro ⟨c', hmem, heq⟩
    rwa [← hinj heq]
  · exact fun hmem => ⟨c, hmem, rfl⟩

/-! ### Literals -/

/-- The members of a node are carried over, the node as it stands on the second
machine. -/
theorem members_node (n : Node) :
    (L.node n).members .plain = (n.members L.disguise).map fun p => (p.1, L.view p.2) := by
  have hpos : (L.node n).pos = L.position n.pos := by cases n <;> rfl
  unfold Node.members
  rw [hpos, List.map_append]
  refine congrArg₂ (· ++ ·) ?_ ?_
  · simp [disguise, Disguise.plain, view]
  · cases n with
    | span pos d body =>
      simp only [node, List.map_cons, List.map_nil, view_nodes]
      rfl
    | number | word | quoted | symbol | value => rfl

/-- The members of a function of the script are carried over. -/
theorem members_script (f : ScriptFunction) :
    ScriptFunction.members { f with body := L.nodes f.body, scope := L.scope f.scope } =
      f.members.map fun p => (p.1, L.view p.2) := by
  unfold ScriptFunction.members
  simp only [List.map_cons, List.map_nil, view_texts, view_nodes, view_text?]
  rfl

@[simp] theorem className_node (n : Node) : (L.node n).className = n.className := by cases n <;> rfl

theorem literal_scopeCell (c : Scope) : (L.scopeCell c).literal .plain = c.literal L.disguise := by
  unfold Scope.literal scopeCell
  rw [names_table]
  cases c.parent <;> rfl

namespace Heaps

variable {L} {h h' : Heap} (hh : L.Heaps h h')

include hh

/-- A value and what it is carried over to have one literal. -/
theorem literal_value : ∀ (frames : Nat) (around : List Container) (v : Value),
    (L.value v).literal? h' frames (around.map L.container) = v.literal? h frames around
  | 0, _, _ => rfl
  | frames + 1, around, v => by
    cases v
    case array r =>
      have hinside := L.contains_container around (.array r)
      have hitems (v : Value) := literal_value frames (.array r :: around) v
      show (if (around.map L.container).contains (.array (L.array r)) then _ else _) =
        if around.contains (.array r) then _ else _
      rw [← hinside]
      congr 1
      rw [hh.items, List.mapM_map]
      exact congrArg (fun f => (h.items r).mapM f >>= _) (funext hitems)
    case dict r =>
      have hinside := L.contains_container around (.dict r)
      have hentries (v : Value) := literal_value frames (.dict r :: around) v
      show (if (around.map L.container).contains (.dict (L.dict r)) then _ else _) =
        if around.contains (.dict r) then _ else _
      rw [← hinside]
      congr 1
      rw [hh.dict, table, List.mapM_map]
      exact congrArg (fun f => (h.dict r).mapM f >>= fun parts => some (bracketed "\x7b" parts "\x7d"))
        (funext fun p => congrArg (fun o => o >>= fun text => some (Text.quoted p.1 ++ ": " ++ text))
          (hentries p.2))
    case function f =>
      have hdescribe (code : Function) : (L.code code).describe = code.describe := by cases code <;> rfl
      show some (((h'.function? (L.function f)).map (·.describe)).getD "None") = _
      rw [hh.function?, Option.map_map]
      cases hcode : h.function? f with
      | none => simp [Value.literal?, hcode]
      | some code => simp [Value.literal?, hcode, hdescribe]
    all_goals rfl

/-- The members of a scope are carried over. -/
theorem members_scope (r : ScopeRef) :
    h'.members (L.scope r) = (h.members r).map fun p => (p.1, L.view p.2) := by
  have hbindings : ((h'.bindings (L.scope r)).map fun p => (p.1, View.held p.2)) =
      L.viewEntries ((h.bindings r).map fun p => (p.1, .held p.2)) := by
    rw [hh.bindings, table, viewEntries_eq_map, List.map_map, List.map_map]
    rfl
  unfold Heap.members
  rw [hbindings, hh.parent]
  cases (h.scope r).parent <;> rfl

/-- **A view on the second machine shows as the view on the first in disguise.** -/
theorem literal_view : ∀ (frames : Nat) (v : View),
    (L.view v).literal? .plain h' frames = v.literal? L.disguise h frames
  | 0, _ => rfl
  | frames + 1, v => by
    have hinside := literal_view frames
    cases v with
    | held v => exact hh.literal_value (frames + 1) [] v
    | list vs =>
      rw [view, views_eq_map, View.literal?, View.literal?, List.mapM_map]
      simp only [Function.comp_def, hinside]
    | table es =>
      rw [view, viewEntries_eq_map, View.literal?, View.literal?, List.mapM_map]
      simp only [Function.comp_def, hinside]
    | inside r =>
      rw [view, View.literal?, View.literal?, hh.members_scope, List.mapM_map]
      simp only [Function.comp_def, hinside]
    | node n =>
      rw [view, View.literal?, View.literal?, members_node, className_node, List.mapM_map]
      simp only [Function.comp_def, hinside]
    | scope r =>
      rw [view, View.literal?, View.literal?, hh.scope, literal_scopeCell]
    | integer | names => rfl

/-! ### Attributes -/

omit hh in
theorem lookup_map (name : String) : ∀ es : List (String × View),
    (es.map fun p => (p.1, L.view p.2)).lookup name = (es.lookup name).map L.view
  | [] => rfl
  | (key, v) :: es => by
    rw [List.map_cons, List.lookup_cons, List.lookup_cons, lookup_map name es]
    cases name == key <;> rfl

omit hh in
theorem among_map (es : List (String × View)) (name : String) :
    Attribute.among (es.map fun p => (p.1, L.view p.2)) name = (Attribute.among es name).map L.opening := by
  unfold Attribute.among
  rw [lookup_map]
  cases es.lookup name with
  | some v => rfl
  | none =>
    dsimp only [Option.map_none]
    split
    · rw [← viewEntries_eq_map]
      rfl
    · rfl

omit hh in
theorem attribute_node (n : Node) (name : String) :
    (L.node n).attribute? .plain name = (n.attribute? L.disguise name).map L.opening := by
  have hneeded : Node.attribute?.needed .plain (L.node n) = Node.attribute?.needed L.disguise n := by
    unfold Node.attribute?.needed
    rw [members_node, List.map_map]
    rfl
  unfold Node.attribute?
  rw [members_node, among_map, Option.map_or]
  congr 1
  by_cases hvalue : name = "value"
  · subst hvalue
    cases n <;> rfl
  by_cases hat : name = "at"
  · subst hat
    cases n <;> rfl
  split
  · exact absurd rfl hvalue
  · exact absurd rfl hat
  · rw [hneeded, className_node]
    rfl
  · rfl
  · split <;> simp_all

omit hh in
theorem attribute_code (f : Function) (name : String) :
    (L.code f).attribute? name = (f.attribute? name).map L.opening := by
  cases f with
  | script f =>
    unfold Function.attribute? code
    dsimp only
    rw [members_script, among_map, Option.map_or]
    congr 1
    split <;> rfl
  | native f =>
    have hhandler : (L.operation f.operation).handler = f.operation.handler := by
      cases f.operation <;> rfl
    unfold Function.attribute? code
    dsimp only
    split <;> first
      | rfl
      | rw [hhandler]; rfl
      | simp [opening]
    cases f.arity.most <;> rfl

theorem method_scope (r : ScopeRef) (name : String) :
    h'.method? (L.scope r) name = (h.method? r name).map L.opening := by
  unfold Heap.method?
  rw [hh.bindings, names_table]
  split <;> rfl

theorem attribute_scope (r : ScopeRef) (name : String) :
    h'.scopeAttribute? (L.scope r) name = (h.scopeAttribute? r name).map L.opening := by
  unfold Heap.scopeAttribute?
  split
  · rfl
  · rw [hh.members_scope, among_map, hh.method_scope, Option.map_or]

/-- **A view on the second machine opens up as the view on the first in disguise.** -/
theorem attribute_view (v : View) (name : String) :
    (L.view v).attribute? .plain h' name = (v.attribute? L.disguise h name).map L.opening := by
  cases v with
  | held v =>
    cases v with
    | absent =>
      show absentAttribute? name = (absentAttribute? name).map L.opening
      unfold absentAttribute?
      split <;> rfl
    | dict r =>
      show ((h'.dict (L.dict r)).get? name).map _ = (((h.dict r).get? name).map _).map L.opening
      rw [hh.dict, get?_table, Option.map_map, Option.map_map]
      rfl
    | function f =>
      show (h'.function? (L.function f)).bind _ = ((h.function? f).bind _).map L.opening
      rw [hh.function?]
      cases h.function? f with
      | none => rfl
      | some code => exact attribute_code code name
    | null | bool | number | string | array => rfl
  | table es =>
    show ((L.viewEntries es).lookup name).map Attribute.value = ((es.lookup name).map Attribute.value).map L.opening
    rw [viewEntries_eq_map, lookup_map, Option.map_map, Option.map_map]
    rfl
  | node n => exact attribute_node n name
  | scope r => exact hh.attribute_scope r name
  | inside r =>
    show ((h'.members (L.scope r)).lookup name).map _ = (((h.members r).lookup name).map _).map L.opening
    rw [hh.members_scope, lookup_map, Option.map_map, Option.map_map]
    rfl
  | integer | list | names => rfl

theorem isTruthy_view (v : View) : (L.view v).isTruthy h' = v.isTruthy h := by
  cases v with
  | held v =>
    cases v with
    | array r =>
      show (!(h'.items (L.array r)).isEmpty) = !(h.items r).isEmpty
      rw [hh.items, List.isEmpty_map]
    | dict r =>
      show (!(h'.dict (L.dict r)).isEmpty) = !(h.dict r).isEmpty
      rw [hh.dict, table, List.isEmpty_map]
    | absent | null | bool | number | string | function => rfl
  | list vs =>
    show (!(L.views vs).isEmpty) = !vs.isEmpty
    rw [views_eq_map, List.isEmpty_map]
  | table es =>
    show (!(L.viewEntries es).isEmpty) = !es.isEmpty
    rw [viewEntries_eq_map, List.isEmpty_map]
  | integer | node | scope | inside | names => rfl

end Heaps

/-! ### The steps of a filling -/

variable {L}

theorem Mirrors.map {α β γ δ : Type} {bound : Nat} {f : α → β} {g : γ → δ} {k : α → γ} {k' : β → δ}
    {x : Eval α} {x' : Eval β} (hx : L.Mirrors bound f x x') (hk : ∀ a, k' (f a) = g (k a)) :
    L.Mirrors bound g (k <$> x) (k' <$> x') := by
  rw [map_eq_pure_bind, map_eq_pure_bind]
  exact hx.then_return hk

namespace Sites

open Site (literal openAttribute member insertion elements toView templateView)

variable {bound : Nat} {s s' : Site} (hs : L.Sites bound s s')

include hs

theorem literal (v : View) :
    L.Mirrors bound id (literal L.disguise s v) (literal .plain s' (L.view v)) := by
  refine Mirrors.bind (f := id) (.onHeap fun hh => ?_) fun text => ?_
  · rw [hs.frames]
    exact hh.literal_view s.frames v
  · cases text with
    | some text => exact .pure text
    | none => exact .throw rfl

theorem openAttribute (v : View) : ∀ a : Attribute, L.Mirrors bound L.view
    (openAttribute L.disguise s v a) (openAttribute .plain s' (L.view v) (L.opening a))
  | .value _ => .pure _
  | .literal => (hs.literal v).map fun _ => rfl
  | .failure _ => hs.fail _
  | .initialiser r => by
    have hclear : L.Mirrors bound id (Eval.modifyHeap (·.clearScope r))
        (Eval.modifyHeap (·.clearScope (L.scope r))) :=
      .modifyHeap (fun hh => hh.clearScope r) fun _ => Nat.le_of_eq Array.size_modify.symm
    exact hclear.bind fun _ => .pure_of rfl

theorem member (v : View) (name : String) : L.Mirrors bound (Option.map L.view)
    (member L.disguise s v name) (member .plain s' (L.view v) name) := by
  refine Mirrors.bind (f := Option.map L.opening) (.onHeap fun hh => hh.attribute_view v name) fun a => ?_
  cases a with
  | none => exact .pure_of rfl
  | some a => exact (hs.openAttribute v a).map fun _ => rfl

theorem insertion (v : View) :
    L.Mirrors bound id (insertion L.disguise s v) (insertion .plain s' (L.view v)) := by
  have hliteral := hs.literal v
  cases v with
  | held v =>
    cases v with
    | string text => exact .pure text
    | absent | null | bool | number | array | dict | function => exact hliteral
  | integer | list | table | node | scope | inside | names => exact hliteral

theorem elements (v : View) :
    L.Mirrors bound (List.map L.view) (elements s v) (elements s' (L.view v)) := by
  refine Mirrors.bind (f := id) (.onHeap fun hh => hh.isTruthy_view v) fun truthy =>
    .ite ?_ (.pure_of rfl)
  cases v with
  | held v =>
    cases v with
    | array r =>
      refine (Mirrors.items r).then_return fun xs => ?_
      rw [List.map_map, List.map_map]
      rfl
    | absent | null | bool | number | string | dict | function => exact .pure_of rfl
  | list vs => exact .pure_of (L.views_eq_map vs)
  | names ns =>
    refine .pure_of ?_
    rw [List.map_map]
    rfl
  | scope r => exact hs.fail _
  | integer | table | node | inside => exact .pure_of rfl

end Sites

/-! ### Templates -/

variable (L) in
/-- How two runs stop that mirror each other. -/
def Halts (bound : Nat) (e : Stop) (m : Machine) (e' : Stop) (m' : Machine) : Prop :=
  e' = L.stop e ∧ L.Machines bound m m'

theorem Mirrors.abreast {α : Type} {bound : Nat} {f : α → α} {S : α → α → Prop} {x x' : Eval α}
    (h : L.Mirrors bound f x x') (hS : ∀ a, S a (f a)) :
    Eval.Abreast (L.Machines bound) (L.Halts bound) S x x' := by
  intro m m' hm
  have hends := h hm
  generalize x m = r, x' m' = r' at hends
  cases hends with
  | value a hm => exact .value (hS a) hm
  | stop e hm => exact .stop ⟨rfl, hm⟩

theorem mirrors_of_abreast {α : Type} {bound : Nat} {x x' : Eval α}
    (h : Eval.Abreast (L.Machines bound) (L.Halts bound) (· = ·) x x') : L.Mirrors bound id x x' := by
  intro m m' hm
  have hends := h hm
  generalize x m = r, x' m' = r' at hends
  cases hends with
  | value hab hm =>
    subst hab
    exact .value _ hm
  | stop h =>
    obtain ⟨rfl, hm⟩ := h
    exact .stop _ hm

namespace Sites

open Site (toView templateView render renderTemplate)

variable {bound : Nat} {s s' : Site} (hs : L.Sites bound s s')

include hs

/-- The steps of two fillings mirror each other, from views that are carried over. -/
theorem fillings_beside : s.Beside L.disguise .plain s' (fun v v' => v' = L.view v)
    (L.Machines bound) (L.Halts bound) where
  fail c := Mirrors.abreast (f := id) (hs.fail c) fun _ => rfl
  member := by
    rintro v _ rfl name
    refine (hs.member v name).abreast fun found => ?_
    cases found with
    | none => exact .none
    | some w => exact .some rfl
  insertion := by
    rintro v _ rfl
    exact (hs.insertion v).abreast fun _ => rfl
  isTruthy := by
    rintro v _ rfl
    exact Mirrors.abreast (f := id) (.onHeap fun hh => hh.isTruthy_view v) fun _ => rfl
  elements := by
    rintro v _ rfl
    refine (hs.elements v).abreast fun ws => ?_
    rw [List.forall₂_map_right_iff]
    exact List.forall₂_same.mpr fun _ _ => rfl

omit hs in
/-- Data is seen on the second machine as the view that is carried over. -/
theorem toView : ∀ (frames : Nat) (v : Value),
    L.Mirrors bound L.view (toView frames v) (toView frames (L.value v))
  | 0, _ => .throw rfl
  | frames + 1, v => by
    cases v with
    | absent | null | bool | string | function => exact .pure_of rfl
    | number x =>
      unfold Site.toView value
      dsimp only
      split <;> exact .pure_of rfl
    | array r =>
      match frames with
      | 0 => exact .throw rfl
      | frames + 1 =>
        refine (Mirrors.items r).bind fun xs => (Mirrors.mapM (toView frames) xs).then_return fun vs => ?_
        rw [view, views_eq_map]
    | dict r =>
      match frames with
      | 0 => exact .throw rfl
      | frames + 1 =>
        have hentry (p : String × Value) : L.Mirrors bound (fun q : String × View => (q.1, L.view q.2))
            (do return (p.1, ← Site.toView frames p.2))
            (do return (p.1, ← Site.toView frames (L.value p.2))) :=
          (toView frames p.2).then_return fun _ => rfl
        refine (Mirrors.dict r).bind fun t => Mirrors.then_return (Mirrors.mapM hentry t) fun es => ?_
        rw [view, viewEntries_eq_map]

theorem templateView (v : Option Value) :
    L.Mirrors bound L.view (templateView s v) (templateView s' (v.map L.value)) := by
  cases v with
  | none => exact .pure_of rfl
  | some v =>
    refine (hs.dict "a dict as view" v).bind fun d => ?_
    rw [hs.frames]
    exact toView s.frames (.dict d)

/-- **A template shows on the second machine what it shows in disguise on the
first**, and empties the scopes that correspond. -/
theorem renderTemplate (args : List Value) : L.Mirrors bound L.product
    (renderTemplate L.disguise s args) (renderTemplate .plain s' (args.map L.value)) := by
  unfold Site.renderTemplate
  rw [L.getD_map, List.getElem?_map]
  refine (hs.string _ _).bind fun template => (hs.templateView _).bind fun v => ?_
  have hrender : L.Mirrors bound id (render L.disguise s template v) (render .plain s' template (L.view v)) :=
    mirrors_of_abreast (Site.render_of_beside hs.fillings_beside template rfl)
  exact hrender.then_return fun _ => rfl

/-- **Native calls on the second machine mirror calls in disguise on the
first.** -/
theorem callNative_disguised (args : List Value) {f : NativeFunction} (hfits : L.Fits f.operation) :
    L.Mirrors bound L.value (L.disguise.callNative s f args)
      (RuleScript.callNative s' { f with operation := L.operation f.operation } (args.map L.value)) := by
  have hrun : L.Mirrors bound L.product (L.disguise.run s args f.operation)
      ((L.operation f.operation).run s' (args.map L.value)) := by
    unfold Disguise.run
    split
    · rename_i hop
      rw [hop]
      exact hs.renderTemplate args
    · rename_i hop
      exact hs.operation args hfits hop
  have hguarded : L.Mirrors bound L.product (Eval.guarded s.ctx s.pos (L.disguise.run s args f.operation))
      (Eval.guarded s'.ctx s'.pos ((L.operation f.operation).run s' (args.map L.value))) := by
    rw [hs.ctx, hs.pos]
    exact fun _ _ hm => (hrun hm).guarded s.ctx s.pos
  unfold RuleScript.callNative Disguise.callNative
  rw [List.length_map]
  exact .ite (hguarded.bind fun p => hs.receive_host hfits p) (hs.fail _)

end Sites

/-- The disguise of a likeness under which nothing differs. -/
theorem Plain.disguise_eq (h : L.Plain) : L.disguise = .plain := by
  have hplace : L.position = id := funext h.position_eq
  have hnumber : (fun s => (L.scope s).index) = ScopeRef.index :=
    funext fun s => congrArg ScopeRef.index (h.scope_eq s)
  rw [disguise, hplace, hnumber]
  rfl

end Likeness

end RuleScript
