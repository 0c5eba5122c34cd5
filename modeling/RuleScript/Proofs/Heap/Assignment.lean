/-
# Reading back what was assigned

An assignment writes to the nearest scope on the chain that has the name, or
to the scope it starts from, so from that scope the name reads as what was
assigned, whatever the chain of scopes looks like (`Heap.read?_assign`). All
other names read as before. So names that are assigned one value one after
another all read as that value in the end.

Key definitions: `Heap.assignAll`.
Key theorems: `Heap.read?_assign`, `Heap.read?_assign_of_ne`,
`Heap.read?_assignAll`.
-/
import RuleScript.Proofs.Hosts.Binding

namespace RuleScript
namespace Heap

variable {h : Heap} {name : String} {v : Value}

/-! ### Binding a name in a scope -/

theorem scopes_size_define (r : ScopeRef) : (h.define r name v).scopes.size = h.scopes.size :=
  Array.size_modify

theorem chainFrom_define (r : ScopeRef) : ∀ (fuel : Nat) (s : ScopeRef),
    (h.define r name v).chainFrom fuel s = h.chainFrom fuel s := by
  intro fuel
  induction fuel with
  | zero => exact fun _ => rfl
  | succ fuel ih =>
    intro s
    have hparent : ((h.define r name v).scope s).parent = (h.scope s).parent := by
      rcases scope_define r s name v with hsame | ⟨-, hset⟩
      · rw [hsame]
      · rw [hset]
    rw [chainFrom, chainFrom, hparent]
    cases (h.scope s).parent with
    | none => rfl
    | some p =>
      dsimp only
      rw [ih p]

/-- Binding a name changes no link between scopes. -/
theorem chain_define (r s : ScopeRef) : (h.define r name v).chain s = h.chain s := by
  unfold chain
  rw [scopes_size_define]
  exact chainFrom_define r _ s

theorem bindings_define_of_ne {r s : ScopeRef} (hs : s ≠ r) :
    (h.define r name v).bindings s = h.bindings s := by
  rcases scope_define (h := h) r s name v with hsame | ⟨hr, -⟩
  · exact congrArg Scope.bindings hsame
  · exact absurd hr hs

/-- Other names are bound as before, in every scope. -/
theorem get?_define_of_ne {other : String} (hname : name ≠ other) (r s : ScopeRef) :
    ((h.define r name v).bindings s).get? other = (h.bindings s).get? other := by
  rcases scope_define (h := h) r s name v with hsame | ⟨-, hset⟩
  · exact congrArg (·.bindings.get? other) hsame
  · have hbindings : (h.define r name v).bindings s = (h.bindings s).set name v :=
      congrArg Scope.bindings hset
    rw [hbindings, Table.get?_set, if_neg hname]

/-- A scope that has a name is allocated. -/
theorem lt_of_has {s : ScopeRef} (hs : (h.bindings s).has name = true) : s.index < h.scopes.size := by
  by_contra hsize
  have hnone : h.bindings s = [] := by
    unfold bindings scope
    rw [Array.getD_eq_getD_getElem?, Array.getElem?_eq_none (Nat.le_of_not_lt hsize)]
    rfl
  rw [hnone] at hs
  cases hs

/-! ### Assigning -/

/-- The name is found where it was bound, if no scope on the way has it. -/
theorem read?_define {r s : ScopeRef} {before after : List ScopeRef}
    (hs : s.index < h.scopes.size) (hchain : h.chain r = before ++ s :: after)
    (hbefore : ∀ t ∈ before, t ≠ s ∧ (h.bindings t).get? name = none) :
    (h.define s name v).read? r name = some v := by
  have hnone : before.findSome? (fun t => ((h.define s name v).bindings t).get? name) = none := by
    rw [List.findSome?_eq_none_iff]
    intro t ht
    obtain ⟨hne, hget⟩ := hbefore t ht
    rw [bindings_define_of_ne hne, hget]
  unfold read?
  rw [chain_define, hchain, List.findSome?_append, hnone, Option.none_or, List.findSome?_cons,
    bindings_define hs, Table.get?_set, if_pos rfl]

/-- **What is assigned reads back.** -/
theorem read?_assign {r : ScopeRef} (hr : r.index < h.scopes.size) (name : String) (v : Value) :
    (h.assign r name v).read? r name = some v := by
  unfold assign receiver
  cases howner : h.owner? r name with
  | some s =>
    obtain ⟨hs, before, after, hchain, hbefore⟩ := List.find?_eq_some_iff_append.mp howner
    refine read?_define (lt_of_has hs) hchain fun t ht => ?_
    have hlacks : (h.bindings t).has name = false := by simpa using hbefore t ht
    constructor
    · rintro rfl
      rw [hs] at hlacks
      cases hlacks
    · simpa [Table.has] using hlacks
  | none =>
    obtain ⟨n, hn⟩ : ∃ n, h.scopes.size = n + 1 := ⟨h.scopes.size - 1, by omega⟩
    have hchain : ∃ after, h.chain r = [] ++ r :: after := by
      unfold chain
      rw [hn]
      exact ⟨_, rfl⟩
    obtain ⟨after, hchain⟩ := hchain
    exact read?_define hr hchain (by simp)

/-- **An assignment leaves the other names.** -/
theorem read?_assign_of_ne {other : String} (hname : name ≠ other) (r s : ScopeRef) :
    (h.assign r name v).read? s other = h.read? s other := by
  unfold read? assign
  rw [chain_define]
  congr 1
  funext t
  exact get?_define_of_ne hname _ t

/-- Assign one value to names, the last one first. -/
def assignAll (h : Heap) (r : ScopeRef) (names : List String) (v : Value) : Heap :=
  names.foldr (fun name h => h.assign r name v) h

theorem scopes_size_assignAll (r : ScopeRef) : ∀ names : List String,
    (h.assignAll r names v).scopes.size = h.scopes.size
  | [] => rfl
  | _ :: names => (scopes_size_define _).trans (scopes_size_assignAll r names)

/-- Names that are assigned a value all read as the value. -/
theorem read?_assignAll {r : ScopeRef} (hr : r.index < h.scopes.size) (v : Value) :
    ∀ {names : List String}, ∀ name ∈ names, (h.assignAll r names v).read? r name = some v
  | first :: names, name, hname => by
    have hsize : r.index < (h.assignAll r names v).scopes.size := by
      rw [scopes_size_assignAll]
      exact hr
    by_cases hfirst : first = name
    · subst hfirst
      exact read?_assign hsize first v
    · have hrest : name ∈ names := (List.mem_cons.mp hname).resolve_left (Ne.symm hfirst)
      have ih := read?_assignAll hr v name hrest
      exact (read?_assign_of_ne hfirst r r).trans ih

end Heap
end RuleScript
