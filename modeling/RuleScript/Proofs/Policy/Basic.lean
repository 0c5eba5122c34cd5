/-
# Policies

A policy says what may be where on a machine: which values may be stored,
which scopes a function may close over, which scopes get no new names, whether
scopes may be emptied, which number literals may stand in a program, whether
natives from outside the standard library may be there, and which stops may
come out. What a node, a
function, an operation, a product or a whole heap must be like follows from
that (`Policy.node`, `Policy.function`, `Policy.operation`, `Policy.product`,
`Policy.Admits`).

The laws of a policy (`Policy.Lawful`) ask little: what is admitted stays
admitted while the heap extends, scalars and what has just been allocated are
admitted, and faults may come out. They are enough for a heap to stay admitted
under every operation that writes to it. A call also needs a fresh scope to
run in (`Policy.Nests`).

Key definitions: `Policy`, `Policy.Lawful`, `Policy.Nests`, `Policy.Admits`,
`Policy.Holds`.
Key theorems: `Policy.Admits.newArray`, `Policy.Admits.newFunction`,
`Policy.Admits.newScope`, `Policy.Admits.define`, `Policy.Admits.read?`.
-/
import RuleScript.Machine
import RuleScript.Proofs.Heap.Growth
import RuleScript.Reduction.Literal

namespace RuleScript

/-- A value that refers to nothing. -/
def Value.IsScalar : Value → Prop
  | .null | .bool _ | .number _ | .string _ => True
  | .absent | .array _ | .dict _ | .function _ => False

/-- The values a node carries satisfy `value`, and its number literals
`literal`. -/
inductive Node.MadeOf (value : Value → Prop) (literal : String → String → Prop) : Node → Prop
  | number (pos : Position) {text suffix : String} (h : literal text suffix) :
    MadeOf value literal (.number pos text suffix)
  | word (pos : Position) (text : String) : MadeOf value literal (.word pos text)
  | quoted (pos : Position) (raw : String) : MadeOf value literal (.quoted pos raw)
  | symbol (pos : Position) (text : String) : MadeOf value literal (.symbol pos text)
  | span (pos : Position) (d : Delimiter) {body : List Node}
    (h : ∀ n ∈ body, MadeOf value literal n) : MadeOf value literal (.span pos d body)
  | value (pos : Position) {v : Value} (h : value v) : MadeOf value literal (.value pos v)

/-- The values in a product satisfy `value`; integers and methods are there
only if it may come from a host. -/
inductive Product.MadeOf (value : Value → Prop) (foreign : Prop) : Product → Prop
  | value {v : Value} (h : value v) : MadeOf value foreign (.value v)
  | integer (n : Int) (h : foreign) : MadeOf value foreign (.integer n)
  | sequence {ps : List Product} (h : ∀ p ∈ ps, MadeOf value foreign p) :
    MadeOf value foreign (.sequence ps)
  | mapping {es : List (ProductKey × Product)} (h : ∀ e ∈ es, MadeOf value foreign e.2) :
    MadeOf value foreign (.mapping es)
  | foreign (c : String) : MadeOf value foreign (.foreign c)
  | method (k : Nat) (h : foreign) : MadeOf value foreign (.method k)

theorem Node.madeOf_of_forall {value : Value → Prop} {literal : String → String → Prop}
    (hv : ∀ v, value v) (hl : ∀ text suffix, literal text suffix) (n : Node) :
    n.MadeOf value literal := by
  cases n with
  | number pos text suffix => exact .number pos (hl text suffix)
  | word pos text => exact .word pos text
  | quoted pos raw => exact .quoted pos raw
  | symbol pos text => exact .symbol pos text
  | span pos d body => exact .span pos d fun n _ => madeOf_of_forall hv hl n
  | value pos v => exact .value pos (hv v)

theorem Product.madeOf_of_forall {value : Value → Prop} {foreign : Prop} (hv : ∀ v, value v)
    (hf : foreign) (p : Product) : p.MadeOf value foreign := by
  cases p with
  | value v => exact .value (hv v)
  | integer n => exact .integer n hf
  | sequence ps => exact .sequence fun p _ => madeOf_of_forall hv hf p
  | mapping es =>
    refine .mapping fun e he => ?_
    have hentry : sizeOf e.2 < sizeOf e := by
      obtain ⟨k, p⟩ := e
      simp only [Prod.mk.sizeOf_spec]
      omega
    have hmem := List.sizeOf_lt_of_mem he
    exact madeOf_of_forall hv hf e.2
  | foreign c => exact .foreign c
  | method k => exact .method k hf

theorem Product.MadeOf.imp {value value' : Value → Prop} {foreign foreign' : Prop} {p : Product}
    (hp : p.MadeOf value foreign) (hv : ∀ v, value v → value' v) (hf : foreign → foreign') :
    p.MadeOf value' foreign' := by
  induction hp with
  | value h => exact .value (hv _ h)
  | integer n h => exact .integer n (hf h)
  | sequence _ ih => exact .sequence ih
  | mapping _ ih => exact .mapping ih
  | foreign c => exact .foreign c
  | method k h => exact .method k (hf h)

/-- What may be where on a machine. -/
structure Policy where
  /-- A value that may be stored in a heap. -/
  value : Heap → Value → Prop
  /-- A scope that code may run in. -/
  scope : Heap → ScopeRef → Prop
  /-- A scope that may have another one around it. -/
  link : ScopeRef → ScopeRef → Prop
  /-- A scope that gets no new names. -/
  closed : ScopeRef → Prop
  /-- Whether scopes may be emptied. -/
  emptying : Prop
  /-- A number literal, by its text and its suffix. -/
  literal : String → String → Prop
  /-- Whether probes and methods of hosts may be there. -/
  foreign : Prop
  /-- A stop that may come out of a computation. -/
  stop : Stop → Prop

namespace Policy

variable (P : Policy)

/-! ### What follows -/

/-- What a statement may give: nothing, or a value that may be stored. -/
def result (h : Heap) (v : Value) : Prop := v = .absent ∨ P.value h v

/-- Values that may be stored. -/
def values (h : Heap) (vs : List Value) : Prop := ∀ v ∈ vs, P.value h v

/-- A table of values that may be stored. -/
def table (h : Heap) (t : Table Value) : Prop := ∀ p ∈ t, P.value h p.2

/-- A node of a program. -/
def node (h : Heap) (n : Node) : Prop := n.MadeOf (P.value h) P.literal

/-- Nodes of a program. -/
def nodes (h : Heap) (ns : List Node) : Prop := ∀ n ∈ ns, P.node h n

/-- A buffer in evaluation: nodes of a program, and in the last place perhaps
the mark of a missing value. -/
inductive Buffer (h : Heap) : List Node → Prop
  | nil : Buffer h []
  | absent (pos : Position) : Buffer h [.value pos .absent]
  | cons {n : Node} {rest : List Node} (hn : P.node h n) (hrest : Buffer h rest) : Buffer h (n :: rest)

/-- What a native operation may hand back. -/
def product (h : Heap) (p : Product) : Prop := p.MadeOf (P.result h) P.foreign

/-- An operation that may be there. A loop holds its condition. -/
def operation (h : Heap) : Operation → Prop
  | .loop condition _ => P.value h (.function condition)
  | .probe _ | .method _ _ => P.foreign
  | _ => True

/-- A function that may be there. -/
def function (h : Heap) : Function → Prop
  | .script f => P.scope h f.scope ∧ P.nodes h f.body
  | .native f => P.operation h f.operation

/-- A host whose methods make no values of their own but scalars. -/
def host (o : Host) : Prop :=
  P.foreign → ∀ k ∈ o.methods, ∀ counters args h, P.values h args →
    ∀ p, (k.run counters args).1 = .ok p → P.product h p

/-- A heap in which everything may be where it is. -/
structure Admits (h : Heap) : Prop where
  items : ∀ r, P.values h (h.items r)
  dict : ∀ r, P.table h (h.dict r)
  bindings : ∀ s, P.table h (h.bindings s)
  functions : ∀ r f, h.function? r = some f → P.function h f
  links : ∀ s p, (h.scope s).parent = some p → P.link s p
  closed : ∀ s, P.closed s → s.index < h.scopes.size

/-- A machine on which everything may be where it is. -/
structure Holds (m : Machine) : Prop where
  heap : P.Admits m.heap
  hosts : ∀ o ∈ m.hosts, P.host o

/-- The laws of a policy. -/
class Lawful : Prop where
  value_mono : ∀ {h h' : Heap} {v}, h.Extends h' → P.value h v → P.value h' v
  scope_mono : ∀ {h h' : Heap} {s}, h.Extends h' → P.scope h s → P.scope h' s
  scalar : ∀ {h v}, v.IsScalar → P.value h v
  newArray : ∀ (h : Heap) xs, P.value (h.newArray xs).2 (.array (h.newArray xs).1)
  newDict : ∀ (h : Heap) t, P.value (h.newDict t).2 (.dict (h.newDict t).1)
  newFunction : ∀ (h : Heap) f, P.value (h.newFunction f).2 (.function (h.newFunction f).1)
  link : ∀ {h : Heap} {p : ScopeRef}, p.index < h.scopes.size → P.link ⟨h.scopes.size⟩ p
  not_closed : ∀ {h s}, P.scope h s → ¬P.closed s
  fault : ∀ f, P.stop (.fault f)
  exhausted : P.stop (.exhausted none)
  traced : ∀ {s} calls, P.stop s → P.stop (s.traced calls)
  literal : ∀ {text suffix e}, P.literal text suffix →
    literalNumber text suffix = .error (.internal e) → P.stop (.internal e none)
  foreign : P.foreign → ∀ e, P.stop (.internal e none)

/-- The laws of a policy under which code may run in a fresh scope. -/
class Nests : Prop extends P.Lawful where
  newScope : ∀ (h : Heap) parent t, (∀ s, P.closed s → s.index < h.scopes.size) →
    P.scope (h.newScope parent t).2 (h.newScope parent t).1
  nest : ∀ {h : Heap} {p}, P.scope h p → P.link ⟨h.scopes.size⟩ p

/-- A policy under which scopes may be emptied. -/
class Empties : Prop where
  emptying : P.emptying

variable {P} [P.Lawful] {h h' : Heap}

theorem null : P.value h .null := Lawful.scalar trivial

theorem result_scalar {v : Value} (hv : v.IsScalar) : P.result h v := .inr (Lawful.scalar hv)

/-! ### What is admitted stays admitted -/

theorem node_mono (hext : h.Extends h') {n : Node} (hn : P.node h n) : P.node h' n := by
  induction hn with
  | number pos hl => exact .number pos hl
  | word pos text => exact .word pos text
  | quoted pos raw => exact .quoted pos raw
  | symbol pos text => exact .symbol pos text
  | span pos d _ ih => exact .span pos d ih
  | value pos hv => exact .value pos (Lawful.value_mono hext hv)

theorem operation_mono (hext : h.Extends h') {op : Operation} (hop : P.operation h op) :
    P.operation h' op := by
  cases op
  case loop condition limit => exact Lawful.value_mono hext hop
  all_goals exact hop

theorem function_mono (hext : h.Extends h') {f : Function} (hf : P.function h f) :
    P.function h' f := by
  cases f with
  | script f => exact ⟨Lawful.scope_mono hext hf.1, fun n hn => node_mono hext (hf.2 n hn)⟩
  | native f => exact operation_mono hext hf

end Policy

/-! Along a heap that grows: -/

namespace Heap.Grows

variable {P : Policy} [P.Lawful] {closed : ScopeRef → Prop} {emptying : Prop} {h h' : Heap}
  (hg : h.Grows closed emptying h')

include hg

theorem value {v : Value} (hv : P.value h v) : P.value h' v := Policy.Lawful.value_mono hg.extend hv

theorem result {v : Value} (hv : P.result h v) : P.result h' v := hv.imp_right hg.value

theorem values {vs : List Value} (hvs : P.values h vs) : P.values h' vs :=
  fun v hv => hg.value (hvs v hv)

theorem table {t : Table Value} (ht : P.table h t) : P.table h' t := fun p hp => hg.value (ht p hp)

theorem scope {s : ScopeRef} (hs : P.scope h s) : P.scope h' s := Policy.Lawful.scope_mono hg.extend hs

theorem node {n : Node} (hn : P.node h n) : P.node h' n := Policy.node_mono hg.extend hn

theorem nodes {ns : List Node} (hns : P.nodes h ns) : P.nodes h' ns := fun n hn => hg.node (hns n hn)

theorem product {p : Product} (hp : P.product h p) : P.product h' p := hp.imp (fun _ => hg.result) id

theorem buffer {b : List Node} (hb : P.Buffer h b) : P.Buffer h' b := by
  induction hb with
  | nil => exact .nil
  | absent pos => exact .absent pos
  | cons hn _ ih => exact .cons (hg.node hn) ih

end Heap.Grows

namespace Policy

/-! ### Lists and tables -/

section Lists

variable {P : Policy} {h : Heap}

theorem values_nil : P.values h [] := by rintro _ ⟨⟩

theorem values_cons {v : Value} {vs : List Value} (hv : P.value h v) (hvs : P.values h vs) :
    P.values h (v :: vs) := List.forall_mem_cons.mpr ⟨hv, hvs⟩

theorem values_append {vs ws : List Value} (hvs : P.values h vs) (hws : P.values h ws) :
    P.values h (vs ++ ws) := List.forall_mem_append.mpr ⟨hvs, hws⟩

/-- Some of the values that may be stored. -/
theorem values_of_subset {vs ws : List Value} (hvs : P.values h vs) (hsub : ws ⊆ vs) : P.values h ws :=
  fun v hv => hvs v (hsub hv)

theorem values_drop {vs : List Value} (hvs : P.values h vs) (n : Nat) : P.values h (vs.drop n) :=
  values_of_subset hvs (List.drop_subset n vs)

theorem values_take {vs : List Value} (hvs : P.values h vs) (n : Nat) : P.values h (vs.take n) :=
  values_of_subset hvs (List.take_subset n vs)

theorem values_getElem? {vs : List Value} (hvs : P.values h vs) {i : Nat} {v : Value}
    (hv : vs[i]? = some v) : P.value h v := hvs v (List.mem_of_getElem? hv)

/-- A value of a list, or null where the list is too short. -/
theorem values_getD [P.Lawful] {vs : List Value} (hvs : P.values h vs) (i : Nat) :
    P.value h (vs.getD i .null) := by
  rw [List.getD_eq_getElem?_getD]
  cases hv : vs[i]? with
  | none => exact null
  | some v => exact values_getElem? hvs hv

theorem table_nil : P.table h [] := by rintro _ ⟨⟩

theorem table_set {t : Table Value} (ht : P.table h t) (name : String) {v : Value} (hv : P.value h v) :
    P.table h (t.set name v) := by
  intro p hp
  rcases Table.mem_set hp with hp | hp
  · exact ht p hp
  · rwa [hp]

theorem table_get? {t : Table Value} (ht : P.table h t) {name : String} {v : Value}
    (hv : t.get? name = some v) : P.value h v := ht _ (Table.mem_of_get? hv)

theorem table_setAll : ∀ {pairs t : Table Value}, P.table h t → P.table h pairs →
    P.table h (t.setAll pairs)
  | [], _, ht, _ => ht
  | p :: pairs, t, ht, hpairs => by
    obtain ⟨hp, hrest⟩ := List.forall_mem_cons.mp hpairs
    show P.table h (Table.setAll (t.set p.1 p.2) pairs)
    exact table_setAll (table_set ht p.1 hp) hrest

end Lists

/-! ### Heaps stay admitted -/

variable {P : Policy} [P.Lawful] {h h' : Heap}

namespace Admits

/-- A heap stays admitted if what is new in it may be there. -/
theorem update (hh : P.Admits h) (hext : h.Extends h')
    (hitems : ∀ r, ∀ v ∈ h'.items r, v ∈ h.items r ∨ P.value h' v)
    (hdict : ∀ r, ∀ p ∈ h'.dict r, p ∈ h.dict r ∨ P.value h' p.2)
    (hbindings : ∀ s, ∀ p ∈ h'.bindings s, p ∈ h.bindings s ∨ P.value h' p.2)
    (hfunctions : ∀ r f, h'.function? r = some f → h.function? r = some f ∨ P.function h' f)
    (hlinks : ∀ s p, (h'.scope s).parent = some p → (h.scope s).parent = some p ∨ P.link s p) :
    P.Admits h' where
  items r v hv := (hitems r v hv).elim (fun hv => Lawful.value_mono hext (hh.items r v hv)) id
  dict r p hp := (hdict r p hp).elim (fun hp => Lawful.value_mono hext (hh.dict r p hp)) id
  bindings s p hp :=
    (hbindings s p hp).elim (fun hp => Lawful.value_mono hext (hh.bindings s p hp)) id
  functions r f hf := (hfunctions r f hf).elim (fun hf => function_mono hext (hh.functions r f hf)) id
  links s p hp := (hlinks s p hp).elim (hh.links s p) id
  closed s hs := Nat.lt_of_lt_of_le (hh.closed s hs) hext.scopes

variable (hh : P.Admits h)

include hh

theorem newArray {xs : List Value} (hxs : P.values h xs) : P.Admits (h.newArray xs).2 := by
  have hext := (h.grows_newArray P.closed P.emptying xs).extend
  refine hh.update hext (fun r v hv => ?_) (fun _ _ => .inl) (fun _ _ => .inl) (fun _ _ => .inl)
    fun _ _ => .inl
  rw [Heap.items_newArray] at hv
  split at hv
  · exact .inr (Lawful.value_mono hext (hxs v hv))
  · exact .inl hv

theorem newDict {t : Table Value} (ht : P.table h t) : P.Admits (h.newDict t).2 := by
  have hext := (h.grows_newDict P.closed P.emptying t).extend
  refine hh.update hext (fun _ _ => .inl) (fun r p hp => ?_) (fun _ _ => .inl) (fun _ _ => .inl)
    fun _ _ => .inl
  rw [Heap.dict_newDict] at hp
  split at hp
  · exact .inr (Lawful.value_mono hext (ht p hp))
  · exact .inl hp

theorem newFunction {f : Function} (hf : P.function h f) : P.Admits (h.newFunction f).2 := by
  have hext := (h.grows_newFunction P.closed P.emptying f).extend
  refine hh.update hext (fun _ _ => .inl) (fun _ _ => .inl) (fun _ _ => .inl) (fun r g hg => ?_)
    fun _ _ => .inl
  rw [Heap.function?_newFunction] at hg
  split at hg
  · obtain rfl := Option.some.inj hg
    exact .inr (function_mono hext hf)
  · exact .inl hg

theorem newScope {parent : Option ScopeRef} (hparent : ∀ p, parent = some p → P.link ⟨h.scopes.size⟩ p)
    {t : Table Value} (ht : P.table h t) : P.Admits (h.newScope parent t).2 := by
  have hext := (h.grows_newScope P.closed P.emptying parent t).extend
  refine hh.update hext (fun _ _ => .inl) (fun _ _ => .inl) (fun s p hp => ?_) (fun _ _ => .inl)
    fun s p hp => ?_
  · unfold Heap.bindings at hp
    rw [Heap.scope_newScope] at hp
    split at hp
    · exact .inr (Lawful.value_mono hext (ht p hp))
    · exact .inl hp
  · rw [Heap.scope_newScope] at hp
    split at hp
    · rename_i hs
      obtain ⟨i⟩ := s
      obtain rfl : i = h.scopes.size := hs
      exact .inr (hparent p hp)
    · exact .inl hp

theorem setItems (r : ArrayRef) {xs : List Value} (hxs : P.values h xs) :
    P.Admits (h.setItems r xs) := by
  have hext := (h.grows_setItems P.closed P.emptying r xs).extend
  refine hh.update hext (fun r' v hv => ?_) (fun _ _ => .inl) (fun _ _ => .inl) (fun _ _ => .inl)
    fun _ _ => .inl
  exact (Heap.mem_items_setItems hv).symm.imp_right fun hv => Lawful.value_mono hext (hxs v hv)

theorem addItems (r : ArrayRef) {xs : List Value} (hxs : P.values h xs) :
    P.Admits (h.addItems r xs) := by
  have hext := (h.grows_addItems P.closed P.emptying r xs).extend
  refine hh.update hext (fun r' v hv => ?_) (fun _ _ => .inl) (fun _ _ => .inl) (fun _ _ => .inl)
    fun _ _ => .inl
  exact (Heap.mem_items_addItems hv).symm.imp_right fun hv => Lawful.value_mono hext (hxs v hv)

theorem setDict (r : DictRef) {t : Table Value} (ht : P.table h t) : P.Admits (h.setDict r t) := by
  have hext := (h.grows_setDict P.closed P.emptying r t).extend
  refine hh.update hext (fun _ _ => .inl) (fun r' p hp => ?_) (fun _ _ => .inl) (fun _ _ => .inl)
    fun _ _ => .inl
  exact (Heap.mem_dict_setDict hp).symm.imp_right fun hp => Lawful.value_mono hext (ht p hp)

/-- A usage line changes nothing about where a function may be. -/
theorem documented (r : FunctionRef) (usage : String) :
    P.Admits (h.modifyFunction r (·.documented usage)) := by
  have hext := (h.grows_modifyFunction P.closed P.emptying r (·.documented usage)).extend
  refine hh.update hext (fun _ _ => .inl) (fun _ _ => .inl) (fun _ _ => .inl) (fun r' f hf => ?_)
    fun _ _ => .inl
  rcases Heap.function?_modifyFunction hf with hf | ⟨g, hg, rfl⟩
  · exact .inl hf
  · have hg' := function_mono hext (hh.functions r' g hg)
    cases g <;> exact .inr hg'

theorem define (r : ScopeRef) (name : String) {v : Value} (hv : P.value h v) :
    P.Admits (h.define r name v) := by
  have hext : h.Extends (h.define r name v) :=
    ⟨Nat.le_of_eq Array.size_modify.symm, Nat.le_refl _, Nat.le_refl _, Nat.le_refl _⟩
  refine hh.update hext (fun _ _ => .inl) (fun _ _ => .inl) (fun s p hp => ?_) (fun _ _ => .inl)
    fun s p hp => ?_
  · unfold Heap.bindings at hp
    rcases Heap.scope_define r s name v with hsame | ⟨-, hset⟩
    · rw [hsame] at hp
      exact .inl hp
    · rw [hset] at hp
      refine (Table.mem_set hp).imp_right fun hp => ?_
      rw [hp]
      exact Lawful.value_mono hext hv
  · rcases Heap.scope_define r s name v with hsame | ⟨-, hset⟩
    · rw [hsame] at hp
      exact .inl hp
    · rw [hset] at hp
      exact .inl hp

theorem assign (r : ScopeRef) (name : String) {v : Value} (hv : P.value h v) :
    P.Admits (h.assign r name v) := hh.define _ name hv

theorem undefine (r : ScopeRef) (name : String) : P.Admits (h.undefine r name) := by
  have hext : h.Extends (h.undefine r name) :=
    ⟨Nat.le_of_eq Array.size_modify.symm, Nat.le_refl _, Nat.le_refl _, Nat.le_refl _⟩
  refine hh.update hext (fun _ _ => .inl) (fun _ _ => .inl) (fun s p hp => ?_) (fun _ _ => .inl)
    fun s p hp => ?_
  · unfold Heap.bindings at hp
    rcases Heap.scope_undefine r s name with hsame | herase
    · rw [hsame] at hp
      exact .inl hp
    · rw [herase] at hp
      exact .inl (Table.mem_of_mem_erase hp)
  · rcases Heap.scope_undefine r s name with hsame | herase
    · rw [hsame] at hp
      exact .inl hp
    · rw [herase] at hp
      exact .inl hp

theorem clearScope (r : ScopeRef) : P.Admits (h.clearScope r) := by
  have hext : h.Extends (h.clearScope r) :=
    ⟨Nat.le_of_eq Array.size_modify.symm, Nat.le_refl _, Nat.le_refl _, Nat.le_refl _⟩
  refine hh.update hext (fun _ _ => .inl) (fun _ _ => .inl) (fun s p hp => ?_) (fun _ _ => .inl)
    fun s p hp => ?_
  · unfold Heap.bindings at hp
    rcases Heap.scope_clearScope r s with hsame | hcleared
    · rw [hsame] at hp
      exact .inl hp
    · rw [hcleared] at hp
      cases hp
  · rcases Heap.scope_clearScope r s with hsame | hcleared
    · rw [hsame] at hp
      exact .inl hp
    · rw [hcleared] at hp
      cases hp

omit [P.Lawful] in
/-- What is read from a scope may be stored. -/
theorem read? {s : ScopeRef} {name : String} {v : Value} (hv : h.read? s name = some v) :
    P.value h v := by
  obtain ⟨owner, -, howner⟩ := List.exists_of_findSome?_eq_some hv
  exact table_get? (hh.bindings owner) howner

end Admits

end Policy

end RuleScript
