/-
# Realms

A realm marks off what a run may get hold of: some scopes, arrays, dicts and
functions, the positions that its faults may have, and the positions at which
it may call. What a node, a function, a product or a stop must be like follows
from that (`Realm.Term`, `Realm.code`, `Realm.product`, `Realm.stop`).

A heap is admitted (`Realm.Admits`) if whatever can be read from inside the
realm lies inside it again, if there is room for more inside, and if
everything outside is still as it was in the heap of the beginning. Every
operation that writes to the heap writes inside, so the heap stays admitted.

Key definitions: `Node.Occurs`, `Realm`, `Realm.Term`, `Realm.Admits`, `Realm.Holds`,
`Realm.located`, `Realm.everything`.
Key theorems: `Realm.Admits.update`, `Realm.Admits.assign`,
`Realm.Admits.newScope`, `Realm.Admits.read?`, `Realm.everything_holds`.
-/
import RuleScript.Proofs.Heap.WellFormed

namespace RuleScript

/-- A node stands among nodes, or inside a span that does. -/
inductive Node.Occurs (nodes : List Node) : Node → Prop
  | among {n : Node} (h : n ∈ nodes) : Occurs nodes n
  | inside {pos : Position} {d : Delimiter} {body : List Node} {n : Node}
    (hspan : Occurs nodes (.span pos d body)) (h : n ∈ body) : Occurs nodes n

/-- What a run may get hold of, and where it may fault and call. -/
structure Realm where
  scope : ScopeRef → Prop
  array : ArrayRef → Prop
  dict : DictRef → Prop
  function : FunctionRef → Prop
  /-- A position that a fault may have. -/
  place : Position → Prop
  /-- A position that a call may have. -/
  site : Position → Prop
  place_of_site : ∀ {p : Position}, site p → place p
  /-- The heap in which everything outside is as it stays. -/
  original : Heap

namespace Realm

variable (R : Realm)

/-! ### What follows -/

/-- A value inside a realm. -/
def value : Value → Prop
  | .array r => R.array r
  | .dict r => R.dict r
  | .function r => R.function r
  | _ => True

/-- Values inside a realm. -/
def values (vs : List Value) : Prop := ∀ v ∈ vs, R.value v

/-- A table of values inside a realm. -/
def table (t : Table Value) : Prop := ∀ p ∈ t, R.value p.2

/-- A node that may be evaluated: its positions and its values lie in the
realm, at every depth. -/
inductive Term : Node → Prop
  | number {pos : Position} (text suffix : String) (h : R.place pos) : Term (.number pos text suffix)
  | word {pos : Position} (text : String) (h : R.place pos) : Term (.word pos text)
  | quoted {pos : Position} (raw : String) (h : R.place pos) : Term (.quoted pos raw)
  | symbol {pos : Position} (text : String) (h : R.place pos) : Term (.symbol pos text)
  | span {pos : Position} (d : Delimiter) {body : List Node} (h : R.site pos)
    (hbody : ∀ n ∈ body, Term n) : Term (.span pos d body)
  | value {pos : Position} {v : Value} (h : R.place pos) (hv : R.value v) : Term (.value pos v)

/-- Nodes that may be evaluated. -/
def terms (ns : List Node) : Prop := ∀ n ∈ ns, R.Term n

/-- What a native operation may hand back. -/
def product (p : Product) : Prop := p.MadeOf R.value True

/-- An operation inside a realm. A loop holds its condition. -/
def operation : Operation → Prop
  | .loop condition _ => R.function condition
  | _ => True

/-- What a function inside a realm holds. -/
def code : Function → Prop
  | .script f => R.scope f.scope ∧ R.terms f.body
  | .native f => R.operation f.operation

/-- A host whose methods hand back what they were handed. -/
def host (o : Host) : Prop :=
  ∀ k ∈ o.methods, ∀ counters args, R.values args → ∀ p, (k.run counters args).1 = .ok p → R.product p

/-- A call at a position where one may be. -/
def frame (f : Frame) : Prop := ∃ p, R.site p ∧ f.line = p.line ∧ f.column = p.column

/-- A fault at a position where one may be, having left calls inside the
realm. -/
structure fault (f : Fault) : Prop where
  place : ∃ p, R.place p ∧ f.line = p.line ∧ f.column = p.column
  trace : ∀ frames, f.trace = some frames → ∀ frame ∈ frames, R.frame frame

/-- A stop that may come out. -/
def stop : Stop → Prop
  | .fault f => R.fault f
  | _ => True

/-- A heap in which the realm is closed, has room, and is all that has
changed. -/
structure Admits (h : Heap) : Prop where
  items : ∀ {r}, R.array r → R.values (h.items r)
  dict : ∀ {r}, R.dict r → R.table (h.dict r)
  bindings : ∀ {s}, R.scope s → R.table (h.bindings s)
  parent : ∀ {s p}, R.scope s → (h.scope s).parent = some p → R.scope p
  functions : ∀ {r f}, R.function r → h.function? r = some f → R.code f
  freeScope : ∀ s : ScopeRef, h.scopes.size ≤ s.index → R.scope s
  freeArray : ∀ r : ArrayRef, h.arrays.size ≤ r.index → R.array r
  freeDict : ∀ r : DictRef, h.dicts.size ≤ r.index → R.dict r
  freeFunction : ∀ r : FunctionRef, h.functions.size ≤ r.index → R.function r
  keptScope : ∀ s, ¬R.scope s → h.scopes[s.index]? = R.original.scopes[s.index]?
  keptArray : ∀ r, ¬R.array r → h.arrays[r.index]? = R.original.arrays[r.index]?
  keptDict : ∀ r, ¬R.dict r → h.dicts[r.index]? = R.original.dicts[r.index]?
  keptFunction : ∀ r, ¬R.function r → h.functions[r.index]? = R.original.functions[r.index]?

/-- A machine on which a run keeps to a realm. -/
structure Holds (m : Machine) : Prop where
  heap : R.Admits m.heap
  hosts : ∀ o ∈ m.hosts, R.host o
  calls : ∀ f ∈ m.calls, R.frame f
  focus : ∀ p, m.focus = some p → R.place p

variable {R}

/-! ### Lists, tables and nodes -/

theorem value_of_isScalar {v : Value} (h : v.IsScalar) : R.value v := by
  cases v <;> trivial

theorem values_nil : R.values [] := by rintro _ ⟨⟩

theorem values_cons {v : Value} {vs : List Value} (hv : R.value v) (hvs : R.values vs) :
    R.values (v :: vs) := List.forall_mem_cons.mpr ⟨hv, hvs⟩

theorem values_append {vs ws : List Value} (hvs : R.values vs) (hws : R.values ws) :
    R.values (vs ++ ws) := List.forall_mem_append.mpr ⟨hvs, hws⟩

theorem values_drop {vs : List Value} (hvs : R.values vs) (n : Nat) : R.values (vs.drop n) :=
  fun v hv => hvs v (List.mem_of_mem_drop hv)

theorem values_take {vs : List Value} (hvs : R.values vs) (n : Nat) : R.values (vs.take n) :=
  fun v hv => hvs v (List.mem_of_mem_take hv)

/-- A value of a list, or null where the list is too short. -/
theorem values_getD {vs : List Value} (hvs : R.values vs) (i : Nat) : R.value (vs.getD i .null) := by
  rw [List.getD_eq_getElem?_getD]
  cases hv : vs[i]? with
  | none => exact trivial
  | some v => exact hvs v (List.mem_of_getElem? hv)

theorem table_nil : R.table [] := by rintro _ ⟨⟩

theorem table_set {t : Table Value} (ht : R.table t) (name : String) {v : Value} (hv : R.value v) :
    R.table (t.set name v) := by
  intro p hp
  rcases Table.mem_set hp with hp | hp
  · exact ht p hp
  · rwa [hp]

theorem table_get? {t : Table Value} (ht : R.table t) {name : String} {v : Value}
    (hv : t.get? name = some v) : R.value v := ht _ (Table.mem_of_get? hv)

theorem table_setAll : ∀ {pairs t : Table Value}, R.table t → R.table pairs → R.table (t.setAll pairs)
  | [], _, ht, _ => ht
  | p :: pairs, t, ht, hpairs => by
    obtain ⟨hp, hrest⟩ := List.forall_mem_cons.mp hpairs
    have hset : R.table ((t.set p.1 p.2).setAll pairs) := table_setAll (table_set ht p.1 hp) hrest
    exact hset

theorem Term.place {n : Node} (hn : R.Term n) : R.place n.pos := by
  cases hn with
  | span _ h _ => exact R.place_of_site h
  | _ => assumption

@[simp]
theorem term_number {pos : Position} {text suffix : String} :
    R.Term (.number pos text suffix) ↔ R.place pos :=
  ⟨Term.place, .number text suffix⟩

@[simp]
theorem term_word {pos : Position} {text : String} : R.Term (.word pos text) ↔ R.place pos :=
  ⟨Term.place, .word text⟩

@[simp]
theorem term_symbol {pos : Position} {text : String} : R.Term (.symbol pos text) ↔ R.place pos :=
  ⟨Term.place, .symbol text⟩

@[simp]
theorem term_span {pos : Position} {d : Delimiter} {body : List Node} :
    R.Term (.span pos d body) ↔ R.site pos ∧ R.terms body := by
  constructor
  · rintro (_ | _ | _ | _ | ⟨_, h, hbody⟩)
    exact ⟨h, hbody⟩
  · exact fun h => .span d h.1 h.2

@[simp]
theorem term_value {pos : Position} {v : Value} :
    R.Term (.value pos v) ↔ R.place pos ∧ R.value v := by
  constructor
  · rintro (_ | _ | _ | _ | _ | ⟨h, hv⟩)
    exact ⟨h, hv⟩
  · exact fun h => .value h.1 h.2

theorem terms_nil : R.terms [] := by rintro _ ⟨⟩

@[simp]
theorem terms_cons {n : Node} {ns : List Node} : R.terms (n :: ns) ↔ R.Term n ∧ R.terms ns :=
  List.forall_mem_cons

theorem terms_append {ns ms : List Node} (hns : R.terms ns) (hms : R.terms ms) : R.terms (ns ++ ms) :=
  List.forall_mem_append.mpr ⟨hns, hms⟩

theorem terms_of_subset {ns ms : List Node} (hns : R.terms ns) (hsub : ms ⊆ ns) : R.terms ms :=
  fun n hn => hns n (hsub hn)

/-- Whatever occurs among nodes that may be evaluated may be evaluated. -/
theorem Term.of_occurs {nodes : List Node} (hnodes : R.terms nodes) {n : Node} (hn : n.Occurs nodes) :
    R.Term n := by
  induction hn with
  | among h => exact hnodes _ h
  | inside _ h ih => exact (term_span.mp ih).2 _ h

section Occurs

variable {nodes : List Node} (hplace : ∀ n : Node, n.Occurs nodes → R.place n.pos)
  (hsite : ∀ pos d body, (Node.span pos d body).Occurs nodes → R.site pos)
  (hvalue : ∀ pos v, (Node.value pos v).Occurs nodes → R.value v)

include hplace hsite hvalue

theorem term_of_occurs : ∀ {n : Node}, n.Occurs nodes → R.Term n
  | .number _ text suffix, h => .number text suffix (hplace _ h)
  | .word _ text, h => .word text (hplace _ h)
  | .quoted _ raw, h => .quoted raw (hplace _ h)
  | .symbol _ text, h => .symbol text (hplace _ h)
  | .span _ d _, h => .span d (hsite _ _ _ h) fun _ hn => term_of_occurs (h.inside hn)
  | .value _ _, h => .value (hplace _ h) (hvalue _ _ h)

/-- Nodes may be evaluated if their positions and values lie in the realm. -/
theorem terms_of_occurs : R.terms nodes :=
  fun _ hn => term_of_occurs hplace hsite hvalue (.among hn)

end Occurs

/-! ### Heaps stay admitted -/

/-- A heap is written to inside a realm only: what is new lies inside, and
nothing outside has changed. -/
structure Writes (R : Realm) (h h' : Heap) : Prop where
  extend : h.Extends h'
  items : ∀ r, R.array r → ∀ v ∈ h'.items r, v ∈ h.items r ∨ R.value v
  dict : ∀ r, R.dict r → ∀ p ∈ h'.dict r, p ∈ h.dict r ∨ R.value p.2
  bindings : ∀ s, R.scope s → ∀ p ∈ h'.bindings s, p ∈ h.bindings s ∨ R.value p.2
  parent : ∀ s p, R.scope s → (h'.scope s).parent = some p →
    (h.scope s).parent = some p ∨ R.scope p
  functions : ∀ r f, R.function r → h'.function? r = some f → h.function? r = some f ∨ R.code f
  keptScope : ∀ s, ¬R.scope s → h'.scopes[s.index]? = h.scopes[s.index]?
  keptArray : ∀ r, ¬R.array r → h'.arrays[r.index]? = h.arrays[r.index]?
  keptDict : ∀ r, ¬R.dict r → h'.dicts[r.index]? = h.dicts[r.index]?
  keptFunction : ∀ r, ¬R.function r → h'.functions[r.index]? = h.functions[r.index]?

/-- Nothing is written at all; a write to cells of one kind says the same of the other
kinds. -/
theorem Writes.refl (h : Heap) : R.Writes h h where
  extend := .refl h
  items _ _ _ := .inl
  dict _ _ _ := .inl
  bindings _ _ _ := .inl
  parent _ _ _ := .inl
  functions _ _ _ := .inl
  keptScope _ _ := rfl
  keptArray _ _ := rfl
  keptDict _ _ := rfl
  keptFunction _ _ := rfl

/-- A cell outside is not the one behind the last. -/
theorem getElem?_push_of_not {α : Type} {cells : Array α} {i : Nat} (hi : ¬cells.size ≤ i) (c : α) :
    (cells.push c)[i]? = cells[i]? := by
  rw [Array.getElem?_push, if_neg (Nat.ne_of_lt (Nat.lt_of_not_le hi))]

theorem getElem?_modify_of_ne {α : Type} {cells : Array α} {i j : Nat} (hij : i ≠ j) (f : α → α) :
    (cells.modify i f)[j]? = cells[j]? := by
  rw [Array.getElem?_modify, if_neg hij]

namespace Admits

variable {h h' : Heap} (hh : R.Admits h)

include hh

/-- A heap that is written to inside the realm stays admitted. -/
theorem update (hw : R.Writes h h') : R.Admits h' where
  items hr v hv := (hw.items _ hr v hv).elim (hh.items hr v) id
  dict hr p hp := (hw.dict _ hr p hp).elim (hh.dict hr p) id
  bindings hs p hp := (hw.bindings _ hs p hp).elim (hh.bindings hs p) id
  parent hs hp := (hw.parent _ _ hs hp).elim (hh.parent hs) id
  functions hr hf := (hw.functions _ _ hr hf).elim (hh.functions hr) id
  freeScope s hs := hh.freeScope s (Nat.le_trans hw.extend.scopes hs)
  freeArray r hr := hh.freeArray r (Nat.le_trans hw.extend.arrays hr)
  freeDict r hr := hh.freeDict r (Nat.le_trans hw.extend.dicts hr)
  freeFunction r hr := hh.freeFunction r (Nat.le_trans hw.extend.functions hr)
  keptScope s hs := (hw.keptScope s hs).trans (hh.keptScope s hs)
  keptArray r hr := (hw.keptArray r hr).trans (hh.keptArray r hr)
  keptDict r hr := (hw.keptDict r hr).trans (hh.keptDict r hr)
  keptFunction r hr := (hw.keptFunction r hr).trans (hh.keptFunction r hr)

theorem newArray {xs : List Value} (hxs : R.values xs) : R.Admits (h.newArray xs).2 := by
  refine hh.update { Writes.refl h with
    extend := (h.grows_newArray (fun _ => False) False xs).extend
    items := fun r _ v hv => ?_
    keptArray := fun r hr => getElem?_push_of_not (mt (hh.freeArray r) hr) _ }
  rw [Heap.items_newArray] at hv
  split at hv
  · exact .inr (hxs v hv)
  · exact .inl hv

theorem newDict {t : Table Value} (ht : R.table t) : R.Admits (h.newDict t).2 := by
  refine hh.update { Writes.refl h with
    extend := (h.grows_newDict (fun _ => False) False t).extend
    dict := fun r _ p hp => ?_
    keptDict := fun r hr => getElem?_push_of_not (mt (hh.freeDict r) hr) _ }
  rw [Heap.dict_newDict] at hp
  split at hp
  · exact .inr (ht p hp)
  · exact .inl hp

theorem newFunction {f : Function} (hf : R.code f) : R.Admits (h.newFunction f).2 := by
  refine hh.update { Writes.refl h with
    extend := (h.grows_newFunction (fun _ => False) False f).extend
    functions := fun r g _ hg => ?_
    keptFunction := fun r hr => getElem?_push_of_not (mt (hh.freeFunction r) hr) _ }
  rw [Heap.function?_newFunction] at hg
  split at hg
  · obtain rfl := Option.some.inj hg
    exact .inr hf
  · exact .inl hg

theorem newScope {parent : Option ScopeRef} (hparent : ∀ p, parent = some p → R.scope p)
    {t : Table Value} (ht : R.table t) : R.Admits (h.newScope parent t).2 := by
  refine hh.update { Writes.refl h with
    extend := (h.grows_newScope (fun _ => False) False parent t).extend
    bindings := fun s _ p hp => ?_
    parent := fun s p _ hp => ?_
    keptScope := fun s hs => getElem?_push_of_not (mt (hh.freeScope s) hs) _ }
  · unfold Heap.bindings at hp
    rw [Heap.scope_newScope] at hp
    split at hp
    · exact .inr (ht p hp)
    · exact .inl hp
  · rw [Heap.scope_newScope] at hp
    split at hp
    · exact .inr (hparent p hp)
    · exact .inl hp

theorem setItems {r : ArrayRef} (hr : R.array r) {xs : List Value} (hxs : R.values xs) :
    R.Admits (h.setItems r xs) := by
  refine hh.update { Writes.refl h with
    extend := (h.grows_setItems (fun _ => False) False r xs).extend
    items := fun r' _ v hv => (Heap.mem_items_setItems hv).symm.imp_right (hxs v)
    keptArray := fun r' hr' => getElem?_modify_of_ne (fun heq => hr' ?_) _ }
  obtain ⟨i⟩ := r
  obtain rfl : i = r'.index := heq
  exact hr

theorem addItems {r : ArrayRef} (hr : R.array r) {xs : List Value} (hxs : R.values xs) :
    R.Admits (h.addItems r xs) := by
  refine hh.update { Writes.refl h with
    extend := (h.grows_addItems (fun _ => False) False r xs).extend
    items := fun r' _ v hv => (Heap.mem_items_addItems hv).symm.imp_right (hxs v)
    keptArray := fun r' hr' => getElem?_modify_of_ne (fun heq => hr' ?_) _ }
  obtain ⟨i⟩ := r
  obtain rfl : i = r'.index := heq
  exact hr

theorem setDict {r : DictRef} (hr : R.dict r) {t : Table Value} (ht : R.table t) :
    R.Admits (h.setDict r t) := by
  refine hh.update { Writes.refl h with
    extend := (h.grows_setDict (fun _ => False) False r t).extend
    dict := fun r' _ p hp => (Heap.mem_dict_setDict hp).symm.imp_right (ht p)
    keptDict := fun r' hr' => Array.getElem?_setIfInBounds_ne fun heq => hr' ?_ }
  obtain ⟨i⟩ := r
  obtain rfl : i = r'.index := heq
  exact hr

/-- A usage line changes nothing about what a function holds. -/
theorem documented {r : FunctionRef} (hr : R.function r) (usage : String) :
    R.Admits (h.modifyFunction r (·.documented usage)) := by
  refine hh.update { Writes.refl h with
    extend := (h.grows_modifyFunction (fun _ => False) False r _).extend
    functions := fun r' f hr' hf => ?_
    keptFunction := fun r' hr' => getElem?_modify_of_ne (fun heq => hr' ?_) _ }
  · rcases Heap.function?_modifyFunction hf with hf | ⟨g, hg, rfl⟩
    · exact .inl hf
    · have hg' := hh.functions hr' hg
      cases g <;> exact .inr hg'
  · obtain ⟨i⟩ := r
    obtain rfl : i = r'.index := heq
    exact hr

theorem define {s : ScopeRef} (hs : R.scope s) (name : String) {v : Value} (hv : R.value v) :
    R.Admits (h.define s name v) := by
  refine hh.update { Writes.refl h with
    extend := ⟨Nat.le_of_eq Array.size_modify.symm, Nat.le_refl _, Nat.le_refl _, Nat.le_refl _⟩
    bindings := fun s' _ p hp => ?_
    parent := fun s' p _ hp => ?_
    keptScope := fun s' hs' => getElem?_modify_of_ne (fun heq => hs' ?_) _ }
  · unfold Heap.bindings at hp
    rcases Heap.scope_define s s' name v with hsame | ⟨-, hset⟩
    · rw [hsame] at hp
      exact .inl hp
    · rw [hset] at hp
      refine (Table.mem_set hp).imp_right fun hp => ?_
      rwa [hp]
  · rcases Heap.scope_define s s' name v with hsame | ⟨-, hset⟩
    · rw [hsame] at hp
      exact .inl hp
    · rw [hset] at hp
      exact .inl hp
  · obtain ⟨i⟩ := s
    obtain rfl : i = s'.index := heq
    exact hs

theorem clearScope {s : ScopeRef} (hs : R.scope s) : R.Admits (h.clearScope s) := by
  have hgrows : h.Grows (fun _ => False) True (h.clearScope s) := h.grows_clearScope trivial s
  refine hh.update { Writes.refl h with
    extend := hgrows.extend
    bindings := fun s' _ p hp => ?_
    parent := fun s' p _ hp => ?_
    keptScope := fun s' hs' => getElem?_modify_of_ne (fun heq => hs' ?_) _ }
  · unfold Heap.bindings at hp
    rcases Heap.scope_clearScope s s' with hsame | hcleared
    · rw [hsame] at hp
      exact .inl hp
    · rw [hcleared] at hp
      cases hp
  · rcases Heap.scope_clearScope s s' with hsame | hcleared
    · rw [hsame] at hp
      exact .inl hp
    · rw [hcleared] at hp
      cases hp
  · obtain ⟨i⟩ := s
    obtain rfl : i = s'.index := heq
    exact hs

/-! ### What a scope sees -/

/-- The scopes around a scope inside the realm are inside. -/
theorem chainFrom : ∀ (fuel : Nat) {s : ScopeRef}, R.scope s → ∀ p ∈ h.chainFrom fuel s, R.scope p
  | 0, _, _ => by rintro _ ⟨⟩
  | fuel + 1, s, hs => by
    intro p hp
    rcases List.mem_cons.mp hp with rfl | hp
    · exact hs
    · split at hp
      · rename_i q hq
        exact chainFrom fuel (hh.parent hs hq) p hp
      · cases hp

/-- What is read from a scope inside the realm lies inside. -/
theorem read? {s : ScopeRef} (hs : R.scope s) {name : String} {v : Value}
    (hv : h.read? s name = some v) : R.value v := by
  obtain ⟨owner, howner, hget⟩ := List.exists_of_findSome?_eq_some hv
  exact table_get? (hh.bindings (hh.chainFrom _ hs owner howner)) hget

/-- An assignment from inside goes inside. -/
theorem receiver {s : ScopeRef} (hs : R.scope s) (name : String) : R.scope (h.receiver s name) := by
  unfold Heap.receiver
  cases howner : h.owner? s name with
  | none => exact hs
  | some owner => exact hh.chainFrom _ hs owner (List.mem_of_find?_eq_some howner)

theorem assign {s : ScopeRef} (hs : R.scope s) (name : String) {v : Value} (hv : R.value v) :
    R.Admits (h.assign s name v) := hh.define (hh.receiver hs name) name hv

end Admits

/-- A host that makes no references up hands back what is inside. -/
theorem host_of_honest {o : Host} (ho : o.Honest) : R.host o := by
  intro k hk counters args hargs p hp
  refine (ho k hk counters args p hp).imp (fun v hv => ?_) id
  rcases hv with rfl | hv | hv
  · exact trivial
  · exact value_of_isScalar hv
  · exact hargs v hv

/-! ### Realms without a fence -/

/-- A realm that holds all there is on a heap. -/
class Unfenced (R : Realm) : Prop where
  scope : ∀ s, R.scope s
  array : ∀ r, R.array r
  dict : ∀ r, R.dict r
  function : ∀ r, R.function r

namespace Unfenced

variable [hR : R.Unfenced]

theorem value (v : Value) : R.value v := by
  cases v
  case array r => exact hR.array r
  case dict r => exact hR.dict r
  case function r => exact hR.function r
  all_goals exact trivial

theorem native (f : NativeFunction) : R.code (.native f) := by
  show R.operation f.operation
  cases f.operation
  case loop condition limit => exact hR.function condition
  all_goals exact trivial

/-- No host hands back anything outside. -/
theorem host (o : Host) : R.host o :=
  fun _ _ _ _ _ p _ => p.madeOf_of_forall value trivial

/-- A heap is admitted if the code on it is. -/
theorem admits {h : Heap} (hcode : ∀ {r f}, h.function? r = some f → R.code f) : R.Admits h where
  items _ v _ := value v
  dict _ p _ := value p.2
  bindings _ p _ := value p.2
  parent _ _ := hR.scope _
  functions _ hf := hcode hf
  freeScope s _ := hR.scope s
  freeArray r _ := hR.array r
  freeDict r _ := hR.dict r
  freeFunction r _ := hR.function r
  keptScope s hs := absurd (hR.scope s) hs
  keptArray r hr := absurd (hR.array r) hr
  keptDict r hr := absurd (hR.dict r) hr
  keptFunction r hr := absurd (hR.function r) hr

end Unfenced

/-- The realm without a fence, for faults and calls at some positions only. -/
def located (place site : Position → Prop) (place_of_site : ∀ {p}, site p → place p) : Realm where
  scope _ := True
  array _ := True
  dict _ := True
  function _ := True
  place
  site
  place_of_site
  original := .empty

/-- The realm of everything. -/
def everything : Realm := located (fun _ => True) (fun _ => True) id

instance : everything.Unfenced :=
  ⟨fun _ => trivial, fun _ => trivial, fun _ => trivial, fun _ => trivial⟩

theorem everything_terms (nodes : List Node) : everything.terms nodes :=
  terms_of_occurs (fun _ _ => trivial) (fun _ _ _ _ => trivial) fun _ v _ => Unfenced.value v

theorem everything_holds (m : Machine) : everything.Holds m where
  heap := Unfenced.admits fun {_ f} _ => match f with
    | .script f => ⟨trivial, everything_terms f.body⟩
    | .native f => Unfenced.native f
  hosts o _ := Unfenced.host o
  calls f _ := ⟨⟨f.line, f.column, 0⟩, trivial, rfl, rfl⟩
  focus _ _ := trivial

end Realm

end RuleScript
