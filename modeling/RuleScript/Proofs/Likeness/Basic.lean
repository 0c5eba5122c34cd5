/-
# Alike up to names and layout

Two machines can differ in what no program is meant to see: where things are
allocated, and where in a text the nodes of a function stand. A likeness says
how the one reads in the other (`Likeness`): a renaming for each arena, and
whether positions are left out. It carries over values, nodes, functions and
stops, and two heaps are alike if each arena of the second holds at the new
name of a reference what the first holds at the reference, carried over
(`Likeness.Heaps`). The second heap may hold more, at indices that are the new
name of nothing.

The two heaps stay alike under every operation, since what comes next in an
arena of the first reads as what comes next in the same arena of the second.
The way outward from a scope is carried over as well. It is cut off after as
many steps as there are scopes, and these numbers may differ, so either
nothing is renamed at all or the scopes must be in order (`Heap.Ordered`).

Key definitions: `Renaming`, `Renaming.Arenas`, `Likeness`, `Likeness.Fits`,
`Likeness.Plain`, `Likeness.Heaps`, `Heap.Ordered`.
Key theorems: `Renaming.Arenas.push`, `Renaming.Arenas.modify`,
`Likeness.Heaps.chain`, `Likeness.Heaps.read?`, `Likeness.Heaps.assign`.
-/
import RuleScript.Display
import RuleScript.Machine
import RuleScript.Proofs.Heap.Growth

namespace RuleScript

/-! ### Renamings of an arena -/

/-- New names for the indices of an arena. None moves down. -/
structure Renaming where
  map : Nat → Nat
  injective : ∀ {i j : Nat}, map i = map j → i = j
  le : ∀ i, i ≤ map i

namespace Renaming

/-- Every index keeps its name. -/
def refl : Renaming := ⟨id, id, Nat.le_refl⟩

/-- The indices below `start` keep their names, the others move up. -/
def shift (start by' : Nat) : Renaming where
  map i := if i < start then i else i + by'
  injective {i j} h := by
    split at h <;> split at h <;> omega
  le i := by
    split <;> omega

/-- An arena reads in another: entries are carried over by `f`, and what comes
next in the one is what comes next in the other. -/
structure Arenas {α β : Type} (ρ : Renaming) (f : α → β) (a : Array α) (a' : Array β) : Prop where
  next : ∀ j, ρ.map (a.size + j) = a'.size + j
  entry : ∀ i, a'[ρ.map i]? = a[i]?.map f

namespace Arenas

variable {α β : Type} {ρ : Renaming} {f : α → β} {a : Array α} {a' : Array β}

theorem size_le (h : ρ.Arenas f a a') : a.size ≤ a'.size := by
  have hnext := h.next 0
  have hle := ρ.le a.size
  rw [Nat.add_zero, Nat.add_zero] at hnext
  rwa [hnext] at hle

theorem push (h : ρ.Arenas f a a') (x : α) : ρ.Arenas f (a.push x) (a'.push (f x)) where
  next j := by
    have hnext := h.next (1 + j)
    rw [Array.size_push, Array.size_push]
    rwa [← Nat.add_assoc, ← Nat.add_assoc] at hnext
  entry i := by
    have hnew : ρ.map i = a'.size ↔ i = a.size := by
      have hnext : ρ.map a.size = a'.size := h.next 0
      rw [← hnext]
      exact ⟨ρ.injective, congrArg ρ.map⟩
    rw [Array.getElem?_push, Array.getElem?_push, h.entry i]
    by_cases hi : i = a.size
    · rw [if_pos hi, if_pos (hnew.mpr hi)]
      rfl
    · rw [if_neg hi, if_neg fun h => hi (hnew.mp h)]

theorem modify (h : ρ.Arenas f a a') (i : Nat) {g : α → α} {g' : β → β}
    (hg : ∀ x, f (g x) = g' (f x)) : ρ.Arenas f (a.modify i g) (a'.modify (ρ.map i) g') where
  next j := by
    rw [Array.size_modify, Array.size_modify]
    exact h.next j
  entry j := by
    have hsame : ρ.map i = ρ.map j ↔ i = j := ⟨ρ.injective, congrArg ρ.map⟩
    rw [Array.getElem?_modify, Array.getElem?_modify, h.entry j]
    by_cases hij : i = j
    · rw [if_pos hij, if_pos (hsame.mpr hij)]
      cases a[j]? with
      | none => rfl
      | some x => exact congrArg some (hg x).symm
    · rw [if_neg hij, if_neg fun h => hij (hsame.mp h)]

theorem lt_iff (h : ρ.Arenas f a a') (i : Nat) : ρ.map i < a'.size ↔ i < a.size := by
  have hentry := h.entry i
  by_cases hi : i < a.size
  · rw [Array.getElem?_eq_getElem hi] at hentry
    obtain ⟨hlt, -⟩ := Array.getElem?_eq_some_iff.mp hentry
    exact iff_of_true hlt hi
  · rw [Array.getElem?_eq_none (Nat.le_of_not_lt hi)] at hentry
    exact iff_of_false (Nat.not_lt.mpr (Array.getElem?_eq_none_iff.mp hentry)) hi

theorem setIfInBounds (h : ρ.Arenas f a a') (i : Nat) (x : α) :
    ρ.Arenas f (a.setIfInBounds i x) (a'.setIfInBounds (ρ.map i) (f x)) where
  next j := by
    rw [Array.size_setIfInBounds, Array.size_setIfInBounds]
    exact h.next j
  entry j := by
    have hsame : ρ.map i = ρ.map j ↔ i = j := ⟨ρ.injective, congrArg ρ.map⟩
    rw [Array.getElem?_setIfInBounds, Array.getElem?_setIfInBounds, h.entry j]
    by_cases hij : i = j
    · rw [if_pos hij, if_pos (hsame.mpr hij)]
      by_cases hi : i < a.size
      · rw [if_pos hi, if_pos ((h.lt_iff i).mpr hi)]
        rfl
      · rw [if_neg hi, if_neg fun hlt => hi ((h.lt_iff i).mp hlt)]
        rfl
    · rw [if_neg hij, if_neg fun h => hij (hsame.mp h)]

end Arenas

end Renaming

/-! ### What is carried over -/

/-- How one machine reads in another. -/
structure Likeness where
  /-- Whether positions are left out. -/
  blank : Bool
  /-- Whether methods of hosts may be there. -/
  hosted : Bool
  scopes : Renaming
  arrays : Renaming
  dicts : Renaming
  functions : Renaming
  /-- What the functions of the first machine begin with, and keep beginning
  with. -/
  fixed : Array Function

namespace Likeness

variable (L : Likeness)

/-- A line or a column. -/
def coordinate (c : Option Int) : Option Int := if L.blank then none else c

def position (p : Position) : Position := if L.blank then ⟨none, none, 0⟩ else p

def scope (s : ScopeRef) : ScopeRef := ⟨L.scopes.map s.index⟩

def array (r : ArrayRef) : ArrayRef := ⟨L.arrays.map r.index⟩

def dict (r : DictRef) : DictRef := ⟨L.dicts.map r.index⟩

def function (r : FunctionRef) : FunctionRef := ⟨L.functions.map r.index⟩

def value : Value → Value
  | .array r => .array (L.array r)
  | .dict r => .dict (L.dict r)
  | .function r => .function (L.function r)
  | v => v

mutual

def node : Node → Node
  | .number p text suffix => .number (L.position p) text suffix
  | .word p text => .word (L.position p) text
  | .quoted p raw => .quoted (L.position p) raw
  | .symbol p text => .symbol (L.position p) text
  | .span p d body => .span (L.position p) d (nodes body)
  | .value p v => .value (L.position p) (L.value v)

def nodes : List Node → List Node
  | [] => []
  | n :: ns => node n :: nodes ns

end

def table (t : Table Value) : Table Value := t.map fun p => (p.1, L.value p.2)

def operation : Operation → Operation
  | .loop condition limit => .loop (L.function condition) limit
  | op => op

/-- A function with its body and the scope it closes over. -/
def code : Function → Function
  | .script f => .script { f with body := L.nodes f.body, scope := L.scope f.scope }
  | .native f => .native { f with operation := L.operation f.operation }

def cell (c : ArrayCell) : ArrayCell := ⟨c.items.map L.value, c.additions⟩

def scopeCell (s : Scope) : Scope := ⟨L.table s.bindings, s.parent.map L.scope⟩

def frame (f : Frame) : Frame :=
  { f with line := L.coordinate f.line, column := L.coordinate f.column }

def stop : Stop → Stop
  | .fault f => .fault ⟨f.cause, L.coordinate f.line, L.coordinate f.column, f.source,
      f.trace.map (·.map L.frame)⟩
  | .internal e trace => .internal e (trace.map (·.map L.frame))
  | .exhausted trace => .exhausted (trace.map (·.map L.frame))

def context (ctx : Context) : Context := { ctx with scope := L.scope ctx.scope }

/-- Nothing is renamed. -/
structure Still : Prop where
  scopes : L.scopes = .refl
  arrays : L.arrays = .refl
  dicts : L.dicts = .refl
  functions : L.functions = .refl

/-- Nothing is renamed and no position left out. -/
structure Plain : Prop extends L.Still where
  placed : L.blank = false

/-- Methods of hosts may be there; they see references as they are. -/
structure Lends : Prop extends L.Still where
  hosted : L.hosted = true

/-- An operation that may be there: what asks for the place of its call tells a
difference if positions are left out, and a host may if references are renamed;
and what documents functions changes them. -/
def Fits : Operation → Prop
  | .probe .callSite => L.blank = false
  | .probe .document => L.fixed = #[]
  | .method _ _ => L.Lends
  | _ => True

/-! ### Small facts -/

@[simp] theorem nodes_eq_map : ∀ ns : List Node, L.nodes ns = ns.map L.node
  | [] => rfl
  | n :: ns => by rw [nodes, List.map_cons, nodes_eq_map ns]

@[simp] theorem kind_value (v : Value) : (L.value v).kind = v.kind := by cases v <;> rfl

@[simp] theorem isTruthy_value (v : Value) : (L.value v).isTruthy = v.isTruthy := by cases v <;> rfl

@[simp] theorem showInside_value (v : Value) : (L.value v).showInside = v.showInside := by
  cases v <;> rfl

theorem array_inj {r r' : ArrayRef} : L.array r = L.array r' ↔ r = r' := by
  refine ⟨fun h => ?_, congrArg L.array⟩
  obtain ⟨i⟩ := r
  obtain ⟨j⟩ := r'
  exact congrArg ArrayRef.mk (L.arrays.injective (congrArg ArrayRef.index h))

theorem dict_inj {r r' : DictRef} : L.dict r = L.dict r' ↔ r = r' := by
  refine ⟨fun h => ?_, congrArg L.dict⟩
  obtain ⟨i⟩ := r
  obtain ⟨j⟩ := r'
  exact congrArg DictRef.mk (L.dicts.injective (congrArg DictRef.index h))

theorem function_inj {r r' : FunctionRef} : L.function r = L.function r' ↔ r = r' := by
  refine ⟨fun h => ?_, congrArg L.function⟩
  obtain ⟨i⟩ := r
  obtain ⟨j⟩ := r'
  exact congrArg FunctionRef.mk (L.functions.injective (congrArg FunctionRef.index h))

/-- Equal values are carried over to equal ones, and no others are. -/
@[simp] theorem strictEq_value (v w : Value) : (L.value v).strictEq (L.value w) = v.strictEq w := by
  cases v <;> cases w <;> try rfl
  · exact Bool.eq_iff_iff.mpr (by simpa [value, Value.strictEq] using L.array_inj)
  · exact Bool.eq_iff_iff.mpr (by simpa [value, Value.strictEq] using L.dict_inj)
  · exact Bool.eq_iff_iff.mpr (by simpa [value, Value.strictEq] using L.function_inj)

@[simp] theorem name?_code (f : Function) : (L.code f).name? = f.name? := by cases f <;> rfl

@[simp] theorem mostArguments?_code (f : Function) : (L.code f).mostArguments? = f.mostArguments? := by
  cases f <;> rfl

theorem documented_code (usage : String) (f : Function) :
    L.code (f.documented usage) = (L.code f).documented usage := by cases f <;> rfl

/-! ### Tables -/

@[simp] theorem names_table (t : Table Value) : (L.table t).names = t.names := by
  unfold table Table.names
  rw [List.map_map]
  rfl

theorem get?_table (name : String) : ∀ t : Table Value, (L.table t).get? name = (t.get? name).map L.value
  | [] => rfl
  | (n, v) :: t => by
    have ih := get?_table name t
    unfold table Table.get? at ih ⊢
    rw [List.map_cons, List.lookup_cons, List.lookup_cons]
    cases name == n with
    | true => rfl
    | false => exact ih

@[simp] theorem has_table (t : Table Value) (name : String) : (L.table t).has name = t.has name := by
  unfold Table.has
  rw [get?_table]
  cases t.get? name <;> rfl

theorem table_set (name : String) (v : Value) : ∀ t : Table Value,
    L.table (t.set name v) = (L.table t).set name (L.value v)
  | [] => rfl
  | (n, w) :: t => by
    have ih := table_set name v t
    unfold table at ih ⊢
    rw [List.map_cons, Table.set, Table.set]
    split
    · rfl
    · rw [List.map_cons, ih]

theorem table_erase (name : String) : ∀ t : Table Value,
    L.table (t.erase name) = (L.table t).erase name
  | [] => rfl
  | (n, w) :: t => by
    have ih := table_erase name t
    unfold table at ih ⊢
    rw [List.map_cons, Table.erase, Table.erase]
    split
    · rfl
    · rw [List.map_cons, ih]

theorem table_setAll : ∀ (pairs t : Table Value),
    L.table (t.setAll pairs) = (L.table t).setAll (L.table pairs)
  | [], _ => rfl
  | p :: pairs, t => by
    have ih := table_setAll pairs (t.set p.1 p.2)
    rw [table_set] at ih
    exact ih

/-! ### Where nothing is renamed -/

namespace Still

variable {L}

theorem value_eq (h : L.Still) (v : Value) : L.value v = v := by
  cases v
  case array r => exact congrArg (fun ρ => Value.array ⟨ρ.map r.index⟩) h.arrays
  case dict r => exact congrArg (fun ρ => Value.dict ⟨ρ.map r.index⟩) h.dicts
  case function r => exact congrArg (fun ρ => Value.function ⟨ρ.map r.index⟩) h.functions
  all_goals rfl

theorem values_eq (h : L.Still) (vs : List Value) : vs.map L.value = vs :=
  (List.map_congr_left fun v _ => h.value_eq v).trans (List.map_id vs)

theorem table_eq (h : L.Still) (t : Table Value) : L.table t = t :=
  (List.map_congr_left fun p _ => congrArg (Prod.mk p.1) (h.value_eq p.2)).trans (List.map_id t)

theorem cell_eq (h : L.Still) (c : ArrayCell) : L.cell c = c :=
  congrArg (ArrayCell.mk · c.additions) (h.values_eq c.items)

theorem scope_eq (h : L.Still) (s : ScopeRef) : L.scope s = s :=
  congrArg (fun ρ => ScopeRef.mk (ρ.map s.index)) h.scopes

theorem scopeCell_eq (h : L.Still) (s : Scope) : L.scopeCell s = s := by
  have hparent : s.parent.map L.scope = s.parent := by
    rw [show L.scope = id from funext h.scope_eq, Option.map_id, id]
  unfold scopeCell
  rw [h.table_eq, hparent]

theorem operation_eq (h : L.Still) (op : Operation) : L.operation op = op := by
  cases op
  case loop condition limit =>
    exact congrArg (fun ρ => Operation.loop ⟨ρ.map condition.index⟩ limit) h.functions
  all_goals rfl

end Still

theorem position_of_placed (h : L.blank = false) (pos : Position) : L.position pos = pos := by
  rw [position, h]
  rfl

namespace Plain

variable {L}

theorem position_eq (h : L.Plain) (pos : Position) : L.position pos = pos :=
  L.position_of_placed h.placed pos

mutual

theorem node_eq (h : L.Plain) : ∀ n : Node, L.node n = n
  | .number p text suffix => congrArg (Node.number · text suffix) (h.position_eq p)
  | .word p text => congrArg (Node.word · text) (h.position_eq p)
  | .quoted p raw => congrArg (Node.quoted · raw) (h.position_eq p)
  | .symbol p text => congrArg (Node.symbol · text) (h.position_eq p)
  | .span p d body => by rw [node, h.position_eq p, nodes_eq h body]
  | .value p v => by rw [node, h.position_eq p, h.value_eq v]

theorem nodes_eq (h : L.Plain) : ∀ ns : List Node, L.nodes ns = ns
  | [] => rfl
  | n :: ns => by rw [nodes, node_eq h n, nodes_eq h ns]

end

theorem code_eq (h : L.Plain) (f : Function) : L.code f = f := by
  cases f with
  | script f => rw [code, h.nodes_eq, h.scope_eq]
  | native f => rw [code, h.operation_eq]

end Plain

/-- Arenas that read in each other without new names. -/
theorem arenas_refl_iff {α β : Type} {f : α → β} {a : Array α} {a' : Array β} :
    Renaming.refl.Arenas f a a' ↔ a' = a.map f := by
  constructor
  · intro h
    refine Array.ext_getElem? fun i => ?_
    rw [Array.getElem?_map]
    exact h.entry i
  · rintro rfl
    exact ⟨fun j => by rw [Array.size_map]; rfl, fun i => Array.getElem?_map⟩

theorem arenas_same_iff {α : Type} {ρ : Renaming} (hρ : ρ = .refl) {f : α → α} (hf : ∀ x, f x = x)
    {a a' : Array α} : ρ.Arenas f a a' ↔ a' = a := by
  rw [hρ, arenas_refl_iff, show f = id from funext hf, Array.map_id]

end Likeness

/-! ### Heaps -/

/-- Every scope is younger than the one around it, and every function closes
over a scope that is there. -/
structure Heap.Ordered (h : Heap) : Prop where
  nonempty : 0 < h.scopes.size
  parent : ∀ s p, (h.scope s).parent = some p → p.index < s.index
  closure : ∀ r f, h.function? r = some (.script f) → f.scope.index < h.scopes.size

namespace Likeness

variable (L : Likeness)

/-- Two heaps that are alike. -/
structure Heaps (h h' : Heap) : Prop where
  scopes : L.scopes.Arenas L.scopeCell h.scopes h'.scopes
  arrays : L.arrays.Arenas L.cell h.arrays h'.arrays
  dicts : L.dicts.Arenas L.table h.dicts h'.dicts
  functions : L.functions.Arenas L.code h.functions h'.functions
  fits : ∀ r f, h.function? r = some (.native f) → L.Fits f.operation
  fixed : L.fixed.toList <+: h.functions.toList
  order : L.Still ∨ h.Ordered

/-- A heap is alike to itself. -/
theorem Plain.heaps {L : Likeness} (hplain : L.Plain) {h : Heap}
    (hfits : ∀ r f, h.function? r = some (.native f) → L.Fits f.operation)
    (hfixed : L.fixed.toList <+: h.functions.toList) : L.Heaps h h where
  scopes := (arenas_same_iff hplain.scopes hplain.scopeCell_eq).mpr rfl
  arrays := (arenas_same_iff hplain.arrays hplain.cell_eq).mpr rfl
  dicts := (arenas_same_iff hplain.dicts hplain.table_eq).mpr rfl
  functions := (arenas_same_iff hplain.functions hplain.code_eq).mpr rfl
  fits := hfits
  fixed := hfixed
  order := .inl hplain.toStill

namespace Heaps

variable {L} {h h' : Heap} (hh : L.Heaps h h')

include hh

/-! ### What is read -/

theorem scope (s : ScopeRef) : h'.scope (L.scope s) = L.scopeCell (h.scope s) := by
  unfold Heap.scope
  rw [Array.getD_eq_getD_getElem?, Array.getD_eq_getD_getElem?]
  show (h'.scopes[L.scopes.map s.index]?).getD _ = _
  rw [hh.scopes.entry]
  cases h.scopes[s.index]? <;> rfl

theorem bindings (s : ScopeRef) : h'.bindings (L.scope s) = L.table (h.bindings s) :=
  congrArg Scope.bindings (hh.scope s)

theorem parent (s : ScopeRef) : (h'.scope (L.scope s)).parent = (h.scope s).parent.map L.scope :=
  congrArg Scope.parent (hh.scope s)

theorem arrayCell (r : ArrayRef) : h'.arrayCell (L.array r) = L.cell (h.arrayCell r) := by
  unfold Heap.arrayCell
  rw [Array.getD_eq_getD_getElem?, Array.getD_eq_getD_getElem?]
  show (h'.arrays[L.arrays.map r.index]?).getD _ = _
  rw [hh.arrays.entry]
  cases h.arrays[r.index]? <;> rfl

theorem items (r : ArrayRef) : h'.items (L.array r) = (h.items r).map L.value :=
  congrArg ArrayCell.items (hh.arrayCell r)

theorem dict (r : DictRef) : h'.dict (L.dict r) = L.table (h.dict r) := by
  unfold Heap.dict
  rw [Array.getD_eq_getD_getElem?, Array.getD_eq_getD_getElem?]
  show (h'.dicts[L.dicts.map r.index]?).getD _ = _
  rw [hh.dicts.entry]
  cases h.dicts[r.index]? <;> rfl

theorem function? (r : FunctionRef) : h'.function? (L.function r) = (h.function? r).map L.code :=
  hh.functions.entry r.index

@[simp] theorem shown (v : Value) : (L.value v).shown h' = v.shown h := by
  cases v
  case array r =>
    show Value.shown h' (.array (L.array r)) = _
    unfold Value.shown
    dsimp only
    rw [hh.items r, List.length_map, List.map_map]
    congr 4
    funext w
    exact L.showInside_value w
  all_goals rfl

@[simp] theorem text (v : Value) : (L.value v).text h' = v.text h := by
  cases v
  case array r => exact hh.shown (.array r)
  all_goals rfl

/-! ### The way outward -/

theorem chainFrom : ∀ (fuel : Nat) (s : ScopeRef),
    h'.chainFrom fuel (L.scope s) = (h.chainFrom fuel s).map L.scope
  | 0, _ => rfl
  | fuel + 1, s => by
    rw [Heap.chainFrom, Heap.chainFrom, hh.parent s, List.map_cons]
    cases (h.scope s).parent with
    | none => rfl
    | some p => exact congrArg (L.scope s :: ·) (chainFrom fuel p)

end Heaps

end Likeness

/-- In an ordered heap the way outward does not depend on where it is cut off,
if that is far enough. -/
theorem Heap.Ordered.chainFrom_eq {h : Heap} (ho : h.Ordered) : ∀ {fuel fuel' : Nat} {s : ScopeRef},
    fuel ≤ fuel' → s.index < fuel ∨ 0 < fuel ∧ (h.scope s).parent = none →
    h.chainFrom fuel' s = h.chainFrom fuel s
  | 0, _, _, _, henough => by
    rcases henough with hlt | ⟨hlt, -⟩
    · exact (Nat.not_lt_zero _ hlt).elim
    · exact (Nat.not_lt_zero _ hlt).elim
  | fuel + 1, fuel' + 1, s, hle, henough => by
    rw [Heap.chainFrom, Heap.chainFrom]
    cases hparent : (h.scope s).parent with
    | none => rfl
    | some p =>
      have hlt : s.index < fuel + 1 := henough.resolve_right (by rw [hparent]; rintro ⟨-, ⟨⟩⟩)
      have hp := ho.parent s p hparent
      refine congrArg (s :: ·) (ho.chainFrom_eq (Nat.le_of_succ_le_succ hle) (.inl ?_))
      omega

namespace Likeness

variable {L : Likeness}

theorem Still.arenas_size {α β : Type} {ρ : Renaming} (hρ : ρ = .refl) {f : α → β} {a : Array α}
    {a' : Array β} (h : ρ.Arenas f a a') : a'.size = a.size := by
  subst hρ
  exact (h.next 0).symm

namespace Heaps

variable {h h' : Heap} (hh : L.Heaps h h')

include hh

theorem chain (s : ScopeRef) : h'.chain (L.scope s) = (h.chain s).map L.scope := by
  unfold Heap.chain
  rw [hh.chainFrom]
  rcases hh.order with hstill | hordered
  · rw [Still.arenas_size hstill.scopes hh.scopes]
  · refine congrArg (List.map L.scope) (hordered.chainFrom_eq hh.scopes.size_le ?_)
    by_cases hs : s.index < h.scopes.size
    · exact .inl hs
    · refine .inr ⟨hordered.nonempty, ?_⟩
      unfold Heap.scope
      rw [Array.getD_eq_getD_getElem?, Array.getElem?_eq_none (Nat.le_of_not_lt hs)]
      rfl

theorem owner? (s : ScopeRef) (name : String) :
    h'.owner? (L.scope s) name = (h.owner? s name).map L.scope := by
  unfold Heap.owner?
  rw [hh.chain, List.find?_map]
  congr 2
  funext p
  show (h'.bindings (L.scope p)).has name = _
  rw [hh.bindings, has_table]

theorem read? (s : ScopeRef) (name : String) :
    h'.read? (L.scope s) name = (h.read? s name).map L.value := by
  unfold Heap.read?
  rw [hh.chain, List.findSome?_map, List.map_findSome?]
  congr 1
  funext p
  show (h'.bindings (L.scope p)).get? name = _
  rw [hh.bindings, get?_table]
  rfl

theorem visibleNames (s : ScopeRef) : h'.visibleNames (L.scope s) = h.visibleNames s := by
  unfold Heap.visibleNames
  rw [hh.chain, List.foldl_map]
  congr 1
  funext listed p
  rw [hh.bindings, names_table]

theorem receiver (s : ScopeRef) (name : String) :
    h'.receiver (L.scope s) name = L.scope (h.receiver s name) := by
  unfold Heap.receiver
  rw [hh.owner?]
  cases h.owner? s name <;> rfl

/-! ### What is written -/

/-- What leaves the scopes and functions alone leaves them in order. -/
theorem order_of_eq {h₁ : Heap} (hscopes : h₁.scopes = h.scopes) (hfunctions : h₁.functions = h.functions) :
    L.Still ∨ h₁.Ordered := by
  refine hh.order.imp_right fun ho => ⟨?_, fun s p hp => ?_, fun r f hf => ?_⟩
  · rw [hscopes]
    exact ho.nonempty
  · refine ho.parent s p ?_
    unfold Heap.scope at hp ⊢
    rwa [hscopes] at hp
  · rw [hscopes]
    refine ho.closure r f ?_
    unfold Heap.function? at hf ⊢
    rwa [hfunctions] at hf

theorem newArray (xs : List Value) : L.Heaps (h.newArray xs).2 (h'.newArray (xs.map L.value)).2 :=
  ⟨hh.scopes, hh.arrays.push ⟨xs, 0⟩, hh.dicts, hh.functions, hh.fits, hh.fixed, hh.order_of_eq rfl rfl⟩

theorem newDict (t : Table Value) : L.Heaps (h.newDict t).2 (h'.newDict (L.table t)).2 :=
  ⟨hh.scopes, hh.arrays, hh.dicts.push t, hh.functions, hh.fits, hh.fixed, hh.order_of_eq rfl rfl⟩

theorem setItems (r : ArrayRef) (xs : List Value) :
    L.Heaps (h.setItems r xs) (h'.setItems (L.array r) (xs.map L.value)) := by
  refine ⟨hh.scopes, ?_, hh.dicts, hh.functions, hh.fits, hh.fixed, hh.order_of_eq rfl rfl⟩
  show L.arrays.Arenas L.cell (h.arrays.modify r.index fun c => { c with items := xs })
    (h'.arrays.modify (L.arrays.map r.index) fun c => { c with items := xs.map L.value })
  refine hh.arrays.modify r.index ?_
  exact fun _ => rfl

theorem addItems (r : ArrayRef) (xs : List Value) :
    L.Heaps (h.addItems r xs) (h'.addItems (L.array r) (xs.map L.value)) := by
  refine ⟨hh.scopes, ?_, hh.dicts, hh.functions, hh.fits, hh.fixed, hh.order_of_eq rfl rfl⟩
  show L.arrays.Arenas L.cell (h.arrays.modify r.index fun c => ⟨xs, c.additions + 1⟩)
    (h'.arrays.modify (L.arrays.map r.index) fun c => ⟨xs.map L.value, c.additions + 1⟩)
  refine hh.arrays.modify r.index ?_
  exact fun _ => rfl

theorem setDict (r : DictRef) (t : Table Value) :
    L.Heaps (h.setDict r t) (h'.setDict (L.dict r) (L.table t)) :=
  ⟨hh.scopes, hh.arrays, hh.dicts.setIfInBounds r.index t, hh.functions, hh.fits,
    hh.fixed, hh.order_of_eq rfl rfl⟩

/-- A function that may be added: an operation that fits, or code over a scope
that is there. -/
theorem newFunction {f : Function} (hnative : ∀ g, f = .native g → L.Fits g.operation)
    (hscript : L.Still ∨ ∀ g, f = .script g → g.scope.index < h.scopes.size) :
    L.Heaps (h.newFunction f).2 (h'.newFunction (L.code f)).2 := by
  refine ⟨hh.scopes, hh.arrays, hh.dicts, hh.functions.push f, fun r g hg => ?_, ?_, ?_⟩
  · rw [Heap.function?_newFunction] at hg
    split at hg
    · exact hnative g (Option.some.inj hg)
    · exact hh.fits r g hg
  · show _ <+: (h.functions.push f).toList
    rw [Array.toList_push]
    exact hh.fixed.trans (List.prefix_append _ _)
  · rcases hh.order with hstill | ho
    · exact .inl hstill
    · refine hscript.imp_right fun hscript => ⟨ho.nonempty, ho.parent, fun r g hg => ?_⟩
      rw [Heap.function?_newFunction] at hg
      split at hg
      · exact hscript g (Option.some.inj hg)
      · exact ho.closure r g hg

theorem document (hfixed : L.fixed = #[]) (r : FunctionRef) (usage : String) :
    L.Heaps (h.modifyFunction r (·.documented usage))
      (h'.modifyFunction (L.function r) (·.documented usage)) := by
  have hsame {r' : FunctionRef} {f : Function}
      (hf : (h.modifyFunction r (·.documented usage)).function? r' = some f) :
      h.function? r' = some f ∨ ∃ g, h.function? r' = some g ∧ f = g.documented usage :=
    Heap.function?_modifyFunction hf
  refine ⟨hh.scopes, hh.arrays, hh.dicts, hh.functions.modify r.index (L.documented_code usage),
    fun r' f hf => ?_, ?_, hh.order.imp_right fun ho => ⟨ho.nonempty, ho.parent, fun r' f hf => ?_⟩⟩
  · rcases hsame hf with hold | ⟨g, hg, heq⟩
    · exact hh.fits r' f hold
    · cases g with
      | script g => cases heq
      | native g =>
        obtain rfl := Function.native.inj heq
        exact hh.fits r' g hg
  · rw [hfixed]
    exact List.nil_prefix
  · rcases hsame hf with hold | ⟨g, hg, heq⟩
    · exact ho.closure r' f hold
    · cases g with
      | script g =>
        obtain rfl := Function.script.inj heq
        exact ho.closure r' g hg
      | native g => cases heq

theorem newScope {p : ScopeRef} (hp : L.Still ∨ p.index < h.scopes.size) (t : Table Value) :
    L.Heaps (h.newScope (some p) t).2 (h'.newScope (some (L.scope p)) (L.table t)).2 := by
  refine ⟨hh.scopes.push ⟨t, some p⟩, hh.arrays, hh.dicts, hh.functions, hh.fits, hh.fixed, ?_⟩
  rcases hh.order with hstill | ho
  · exact .inl hstill
  · refine hp.imp_right fun hp => ⟨?_, fun s q hq => ?_, fun r f hf => ?_⟩
    · exact Nat.lt_of_le_of_lt (Nat.zero_le _) (h.newScope_lt (some p) t)
    · rw [Heap.scope_newScope] at hq
      split at hq
      · rename_i hs
        obtain rfl := Option.some.inj hq
        rw [hs]
        exact hp
      · exact ho.parent s q hq
    · exact Nat.lt_trans (ho.closure r f hf) (h.newScope_lt (some p) t)

theorem define (s : ScopeRef) (name : String) (v : Value) :
    L.Heaps (h.define s name v) (h'.define (L.scope s) name (L.value v)) := by
  refine ⟨?_, hh.arrays, hh.dicts, hh.functions, hh.fits, hh.fixed,
    hh.order.imp_right fun ho => ⟨?_, fun r p hp => ?_, fun r f hf => ?_⟩⟩
  · show L.scopes.Arenas L.scopeCell
      (h.scopes.modify s.index fun c => { c with bindings := c.bindings.set name v })
      (h'.scopes.modify (L.scopes.map s.index)
        fun c => { c with bindings := c.bindings.set name (L.value v) })
    refine hh.scopes.modify s.index ?_
    intro c
    unfold scopeCell
    rw [table_set]
  · exact Nat.lt_of_lt_of_eq ho.nonempty Array.size_modify.symm
  · refine ho.parent r p ?_
    rcases Heap.scope_define s r name v with hsame | ⟨-, hset⟩
    · rwa [hsame] at hp
    · rwa [hset] at hp
  · exact Nat.lt_of_lt_of_eq (ho.closure r f hf) Array.size_modify.symm

theorem clearScope (s : ScopeRef) : L.Heaps (h.clearScope s) (h'.clearScope (L.scope s)) := by
  refine ⟨?_, hh.arrays, hh.dicts, hh.functions, hh.fits, hh.fixed,
    hh.order.imp_right fun ho => ⟨?_, fun r p hp => ?_, fun r f hf => ?_⟩⟩
  · show L.scopes.Arenas L.scopeCell (h.scopes.modify s.index fun _ => ⟨[], none⟩)
      (h'.scopes.modify (L.scopes.map s.index) fun _ => ⟨[], none⟩)
    refine hh.scopes.modify s.index ?_
    exact fun _ => rfl
  · exact Nat.lt_of_lt_of_eq ho.nonempty Array.size_modify.symm
  · refine ho.parent r p ?_
    rcases Heap.scope_clearScope (h := h) s r with hsame | hcleared
    · rwa [hsame] at hp
    · rw [hcleared] at hp
      cases hp
  · exact Nat.lt_of_lt_of_eq (ho.closure r f hf) Array.size_modify.symm

theorem assign (s : ScopeRef) (name : String) (v : Value) :
    L.Heaps (h.assign s name v) (h'.assign (L.scope s) name (L.value v)) := by
  unfold Heap.assign
  rw [hh.receiver]
  exact hh.define _ name v

/-! ### What comes next -/

theorem next_array : L.array ⟨h.arrays.size⟩ = ⟨h'.arrays.size⟩ :=
  congrArg ArrayRef.mk (hh.arrays.next 0)

theorem next_dict : L.dict ⟨h.dicts.size⟩ = ⟨h'.dicts.size⟩ :=
  congrArg DictRef.mk (hh.dicts.next 0)

theorem next_function : L.function ⟨h.functions.size⟩ = ⟨h'.functions.size⟩ :=
  congrArg FunctionRef.mk (hh.functions.next 0)

theorem next_scope : L.scope ⟨h.scopes.size⟩ = ⟨h'.scopes.size⟩ :=
  congrArg ScopeRef.mk (hh.scopes.next 0)

end Heaps

end Likeness

end RuleScript
