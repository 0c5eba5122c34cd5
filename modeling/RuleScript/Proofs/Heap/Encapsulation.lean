/-
# Unreachable state stays as it is

A scope points at the scope around it and at what is bound in it; an array at
its elements and a dict at its entries; a function at the scope that it closes
over, at the values in its body, and a loop at its condition (`Heap.Points`).
Evaluation gets hold of nothing but what these links reach from its scope and
from the values in its nodes (`Heap.Reaches`), and of what it makes itself. So
all the rest of the heap is afterwards as it was before, however the
evaluation ends.

What is reached changes while it runs. The realm of an evaluation
(`Realm.reached`) is therefore drawn once, on the heap of the beginning:
whatever was reached then, and every reference that was not in use.

Key definitions: `Heap.Points`, `Heap.Reaches`, `Realm.reached`.
Key theorems: `Realm.reached_admits`, `unreached_state_stays`.
-/
import Mathlib.Logic.Relation
import RuleScript.Proofs.Realm.Evaluation

namespace RuleScript

/-! ### Reachability -/

/-- A reference into one of the arenas. -/
inductive Ref where
  | scope (s : ScopeRef)
  | array (r : ArrayRef)
  | dict (r : DictRef)
  | function (r : FunctionRef)
deriving DecidableEq

/-- The reference that a value is, if it is one. -/
def Value.ref? : Value → Option Ref
  | .array r => some (.array r)
  | .dict r => some (.dict r)
  | .function r => some (.function r)
  | _ => none

/-- One link of a heap. -/
inductive Heap.Points (h : Heap) : Ref → Ref → Prop
  | parent {s p : ScopeRef} (hp : (h.scope s).parent = some p) : Points h (.scope s) (.scope p)
  | binding {s : ScopeRef} {p : String × Value} {r : Ref} (hp : p ∈ h.bindings s)
    (hr : p.2.ref? = some r) : Points h (.scope s) r
  | element {a : ArrayRef} {v : Value} {r : Ref} (hv : v ∈ h.items a) (hr : v.ref? = some r) :
    Points h (.array a) r
  | entry {d : DictRef} {p : String × Value} {r : Ref} (hp : p ∈ h.dict d) (hr : p.2.ref? = some r) :
    Points h (.dict d) r
  | closure {f : FunctionRef} {g : ScriptFunction} (hf : h.function? f = some (.script g)) :
    Points h (.function f) (.scope g.scope)
  | body {f : FunctionRef} {g : ScriptFunction} {pos : Position} {v : Value} {r : Ref}
    (hf : h.function? f = some (.script g)) (hv : (Node.value pos v).Occurs g.body)
    (hr : v.ref? = some r) : Points h (.function f) r
  | condition {f : FunctionRef} {g : NativeFunction} {c : FunctionRef} {limit : Option Int}
    (hf : h.function? f = some (.native g)) (hop : g.operation = .loop c limit) :
    Points h (.function f) (.function c)

/-- Where an evaluation starts from: its scope, and the values in its nodes. -/
inductive Root (scope : ScopeRef) (nodes : List Node) : Ref → Prop
  | scope : Root scope nodes (.scope scope)
  | value {pos : Position} {v : Value} {r : Ref} (hv : (Node.value pos v).Occurs nodes)
    (hr : v.ref? = some r) : Root scope nodes r

/-- No value is a scope. -/
theorem Root.scope_eq {scope s : ScopeRef} {nodes : List Node} (h : Root scope nodes (.scope s)) :
    s = scope := by
  cases h with
  | scope => rfl
  | @value _ v _ _ href => cases v <;> cases href

/-- What the links of a heap reach from a scope and from the values in
nodes. -/
def Heap.Reaches (h : Heap) (scope : ScopeRef) (nodes : List Node) (r : Ref) : Prop :=
  ∃ root, Root scope nodes root ∧ Relation.ReflTransGen h.Points root r

namespace Heap

variable {h : Heap} {scope : ScopeRef} {nodes : List Node}

theorem Reaches.root {r : Ref} (hr : Root scope nodes r) : h.Reaches scope nodes r := ⟨r, hr, .refl⟩

theorem Reaches.step {r r' : Ref} (hr : h.Reaches scope nodes r) (hlink : h.Points r r') :
    h.Reaches scope nodes r' := by
  obtain ⟨root, hroot, hpath⟩ := hr
  exact ⟨root, hroot, hpath.tail hlink⟩

/-- What is reached is a root, or something that is reached points at it. -/
theorem Reaches.root_or_step {r : Ref} (hr : h.Reaches scope nodes r) :
    Root scope nodes r ∨ ∃ r', h.Reaches scope nodes r' ∧ h.Points r' r := by
  obtain ⟨root, hroot, hpath⟩ := hr
  cases hpath with
  | refl => exact .inl hroot
  | tail hpath hlink => exact .inr ⟨_, ⟨root, hroot, hpath⟩, hlink⟩

/-- A reference that is not in use. -/
def Unused (h : Heap) : Ref → Prop
  | .scope s => h.scopes.size ≤ s.index
  | .array r => h.arrays.size ≤ r.index
  | .dict r => h.dicts.size ≤ r.index
  | .function r => h.functions.size ≤ r.index

theorem getD_of_size_le {α : Type} {cells : Array α} {i : Nat} (hi : cells.size ≤ i) (d : α) :
    cells.getD i d = d := by
  rw [Array.getD_eq_getD_getElem?, Array.getElem?_eq_none hi, Option.getD_none]

theorem getD_congr {α : Type} {cells cells' : Array α} {i : Nat} (hi : cells'[i]? = cells[i]?) (d : α) :
    cells'.getD i d = cells.getD i d := by
  rw [Array.getD_eq_getD_getElem?, hi, Array.getD_eq_getD_getElem?]

/-- Nothing that is not in use points at anything. -/
theorem not_points_of_unused {r r' : Ref} (hr : h.Unused r) : ¬h.Points r r' := by
  intro hlink
  cases hlink with
  | parent hp =>
    rw [scope, getD_of_size_le hr] at hp
    cases hp
  | binding hp _ =>
    rw [bindings, scope, getD_of_size_le hr] at hp
    cases hp
  | element hv _ =>
    rw [items, arrayCell, getD_of_size_le hr] at hv
    cases hv
  | entry hp _ =>
    rw [dict, getD_of_size_le hr] at hp
    cases hp
  | closure hf | body hf _ _ | condition hf _ =>
    rw [function?, Array.getElem?_eq_none hr] at hf
    cases hf

/-- What an evaluation may get hold of: what is reached, and what is not in
use. -/
def Within (h : Heap) (scope : ScopeRef) (nodes : List Node) (r : Ref) : Prop :=
  h.Reaches scope nodes r ∨ h.Unused r

theorem Within.step {r r' : Ref} (hr : h.Within scope nodes r) (hlink : h.Points r r') :
    h.Within scope nodes r' := by
  rcases hr with hr | hr
  · exact .inl (hr.step hlink)
  · exact absurd hlink (not_points_of_unused hr)

end Heap

namespace Realm

/-! ### The realm of what is reached -/

/-- The realm of what an evaluation may get hold of. -/
def reached (h : Heap) (scope : ScopeRef) (nodes : List Node) : Realm where
  scope s := h.Within scope nodes (.scope s)
  array r := h.Within scope nodes (.array r)
  dict r := h.Within scope nodes (.dict r)
  function r := h.Within scope nodes (.function r)
  place _ := True
  site _ := True
  place_of_site := id
  original := h

section Reached

variable {h : Heap} {scope : ScopeRef} {nodes : List Node}

theorem reached_value {v : Value} (hv : ∀ r, v.ref? = some r → h.Within scope nodes r) :
    (reached h scope nodes).value v := by
  cases v
  case array r => exact hv _ rfl
  case dict r => exact hv _ rfl
  case function r => exact hv _ rfl
  all_goals exact trivial

/-- Nodes whose values are within reach. -/
theorem reached_terms {ns : List Node}
    (hns : ∀ pos v r, (Node.value pos v).Occurs ns → v.ref? = some r → h.Within scope nodes r) :
    (reached h scope nodes).terms ns :=
  terms_of_occurs (fun _ _ => trivial) (fun _ _ _ _ => trivial)
    fun pos v hv => reached_value fun r => hns pos v r hv

/-- **The realm of what is reached is closed on the heap it is drawn on.** -/
theorem reached_admits : (reached h scope nodes).Admits h where
  items hr _ hv := reached_value fun _ href => hr.step (.element hv href)
  dict hr _ hp := reached_value fun _ href => hr.step (.entry hp href)
  bindings hs _ hp := reached_value fun _ href => hs.step (.binding hp href)
  parent hs hp := hs.step (.parent hp)
  functions {r f} hr hf := by
    cases f with
    | script g =>
      exact ⟨hr.step (.closure hf), reached_terms fun _ _ _ hv href => hr.step (.body hf hv href)⟩
    | native g =>
      show (reached h scope nodes).operation g.operation
      cases hop : g.operation
      case loop c limit => exact hr.step (.condition hf hop)
      all_goals exact trivial
  freeScope _ hs := .inr hs
  freeArray _ hr := .inr hr
  freeDict _ hr := .inr hr
  freeFunction _ hr := .inr hr
  keptScope _ _ := rfl
  keptArray _ _ := rfl
  keptDict _ _ := rfl
  keptFunction _ _ := rfl

theorem reached_holds {m : Machine} (hhosts : ∀ o ∈ m.hosts, o.Honest) :
    (reached m.heap scope nodes).Holds m where
  heap := reached_admits
  hosts o ho := host_of_honest (hhosts o ho)
  calls f _ := ⟨⟨f.line, f.column, 0⟩, trivial, rfl, rfl⟩
  focus _ _ := trivial

end Reached

/-- **An evaluation keeps to what it reaches.** -/
theorem reached_evaluate (ctx : Context) (nodes : List Node) {m : Machine}
    (hhosts : ∀ o ∈ m.hosts, o.Honest) : ∀ n,
    (reached m.heap ctx.scope nodes).Admits ((Engine.level n).evaluate ctx nodes m).2.heap
  | 0 => reached_admits
  | n + 1 => by
    let R := reached m.heap ctx.scope nodes
    have hscope : R.scope ctx.scope := .inl (.root .scope)
    have hnodes : R.terms nodes := reached_terms fun _ _ _ hv href => .inl (.root (.value hv href))
    have hkeeps : R.Does .same ((Engine.level (n + 1)).evaluate ctx nodes) R.value :=
      evaluateList_keeps (engines_level Twin.same_echoes n) ⟨hscope, .inl trivial⟩ hnodes
    have hends := hkeeps (reached_holds hhosts) (Twin.Beside.refl m)
    generalize (Engine.level (n + 1)).evaluate ctx nodes m = p at hends
    cases hends with
    | value hm _ _ => exact hm.heap
    | stop hm _ _ _ _ => exact hm.heap

end Realm

/-- **State that an evaluation cannot reach is afterwards as it was before**,
whether it gives a value or stops: each scope, array, dict and function that
was there and that nothing reaches from the scope and from the values in the
nodes. In particular, a scope that only one closure knows stays as it is unless
the closure is reached. -/
theorem unreached_state_stays (n : Nat) (ctx : Context) (nodes : List Node) (m : Machine)
    (hhosts : ∀ o ∈ m.hosts, o.Honest) :
    let h := m.heap
    let h' := ((Engine.level n).evaluate ctx nodes m).2.heap
    (∀ s, s.index < h.scopes.size → ¬h.Reaches ctx.scope nodes (.scope s) → h'.scope s = h.scope s) ∧
    (∀ r, r.index < h.arrays.size → ¬h.Reaches ctx.scope nodes (.array r) →
      h'.arrayCell r = h.arrayCell r) ∧
    (∀ r, r.index < h.dicts.size → ¬h.Reaches ctx.scope nodes (.dict r) → h'.dict r = h.dict r) ∧
    (∀ r, r.index < h.functions.size → ¬h.Reaches ctx.scope nodes (.function r) →
      h'.function? r = h.function? r) ∧
    ∀ f g, h.function? f = some (.script g) → g.scope.index < h.scopes.size → g.scope ≠ ctx.scope →
      (∀ r, h.Points r (.scope g.scope) → r = .function f) →
      ¬h.Reaches ctx.scope nodes (.function f) → h'.scope g.scope = h.scope g.scope := by
  intro h h'
  have hkept : (Realm.reached h ctx.scope nodes).Admits h' := Realm.reached_evaluate ctx nodes hhosts n
  have hscopes (s : ScopeRef) (hs : s.index < h.scopes.size)
      (hnot : ¬h.Reaches ctx.scope nodes (.scope s)) : h'.scope s = h.scope s := by
    exact Heap.getD_congr (hkept.keptScope s (not_or.mpr ⟨hnot, Nat.not_le_of_lt hs⟩)) _
  refine ⟨hscopes, fun r hr hnot => ?_, fun r hr hnot => ?_, fun r hr hnot => ?_, ?_⟩
  · exact Heap.getD_congr (hkept.keptArray r (not_or.mpr ⟨hnot, Nat.not_le_of_lt hr⟩)) _
  · exact Heap.getD_congr (hkept.keptDict r (not_or.mpr ⟨hnot, Nat.not_le_of_lt hr⟩)) _
  · exact hkept.keptFunction r (not_or.mpr ⟨hnot, Nat.not_le_of_lt hr⟩)
  · intro f g hf hscope hother honly hnot
    refine hscopes g.scope hscope fun hreached => ?_
    rcases hreached.root_or_step with hroot | ⟨r, hr, hlink⟩
    · exact hother hroot.scope_eq
    · exact hnot (honly r hlink ▸ hr)

/-- From a scope in which and around which there is nothing, nothing else is
reached. -/
theorem Heap.Reaches.eq_scope {h : Heap} {scope : ScopeRef} {nodes : List Node}
    (hscope : h.scope scope = ⟨[], none⟩) (hnodes : ∀ pos v, ¬(Node.value pos v).Occurs nodes) {r : Ref}
    (hr : h.Reaches scope nodes r) : r = .scope scope := by
  obtain ⟨root, hroot, hpath⟩ := hr
  induction hpath with
  | refl =>
    cases hroot with
    | scope => rfl
    | value hv _ => exact absurd hv (hnodes _ _)
  | tail _ hlink ih =>
    obtain rfl := ih
    cases hlink with
    | parent hp =>
      rw [hscope] at hp
      cases hp
    | binding hp _ =>
      rw [Heap.bindings, hscope] at hp
      cases hp

/-- An assignment to a name that a closure has in a scope of its own. -/
theorem unreached_state_stays_counter :
    let pos : Position := ⟨some 1, some 1, 0⟩
    let f : Function := .script ⟨[], [.word pos "x"], ⟨1⟩, "", some "f", false, none⟩
    let heap : Heap := ⟨#[⟨[], none⟩, ⟨[("x", .array ⟨0⟩)], none⟩], #[⟨[.null], 0⟩], #[], #[f]⟩
    let nodes : List Node := [.word pos "x", .symbol pos "=", .quoted pos "'a'"]
    let h' := ((Engine.level 2).evaluate ⟨⟨0⟩, "", ⟨none, "", false, .usual⟩⟩ nodes
      { Machine.initial with heap }).2.heap
    h'.bindings ⟨0⟩ = [("x", .string "a")] ∧ h'.bindings ⟨1⟩ = [("x", .array ⟨0⟩)] ∧
      h'.items ⟨0⟩ = [.null] := by
  intro pos f heap nodes h'
  have hoccurs (n : Node) (hn : n.Occurs nodes) : n ∈ nodes := by
    induction hn with
    | among h => exact h
    | inside _ _ ih => simp [nodes] at ih
  have honly {r : Ref} (hr : heap.Reaches ⟨0⟩ nodes r) : r = .scope ⟨0⟩ := by
    refine hr.eq_scope rfl fun p v hv => ?_
    have hmem := hoccurs _ hv
    simp [nodes] at hmem
  obtain ⟨hscopes, harrays, -⟩ := unreached_state_stays 2 ⟨⟨0⟩, "", ⟨none, "", false, .usual⟩⟩ nodes
    { Machine.initial with heap } (fun o ho => by cases ho.val)
  have hscope : h'.scope ⟨1⟩ = heap.scope ⟨1⟩ := hscopes ⟨1⟩ (by decide) fun hr => by cases honly hr
  have harray : h'.arrayCell ⟨0⟩ = heap.arrayCell ⟨0⟩ := harrays ⟨0⟩ (by decide) fun hr => by cases honly hr
  refine ⟨rfl, ?_, ?_⟩
  · rw [Heap.bindings, hscope]
    rfl
  · rw [Heap.items, harray]
    rfl

end RuleScript
