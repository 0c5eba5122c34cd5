/-
# The heap

Scopes, arrays, dicts and functions live in four arenas. An arena only grows:
what is allocated stays, and a reference is an index into its arena. A scope
is a table of names with a link to the scope around it. Look-up walks the
links outward; assignment writes to the nearest scope that has the name, or
to the starting scope if none has it.

Key definitions: `Function`, `Scope`, `Heap`, `Heap.owner?`, `Heap.read?`,
`Heap.assign`, `Heap.define`, `Heap.visibleNames`.
-/
import RuleScript.Source.Node
import RuleScript.Table
import RuleScript.Library.Operation

namespace RuleScript

/-- A function written in the language: a body closed over the scope it was
made in. A block runs its body in that scope itself, any other function in a
fresh scope inside it. -/
structure ScriptFunction where
  params : List String
  body : List Node
  scope : ScopeRef
  source : String
  name : Option String
  isBlock : Bool
  /-- A usage line attached later. -/
  note : Option String
deriving Repr, Inhabited

/-- A native operation as a function. -/
structure NativeFunction where
  operation : Operation
  name : String
  arity : Arity
  usage : Option String
  /-- A usage line attached later. -/
  note : Option String
deriving Repr

/-- A function in the heap. -/
inductive Function where
  | script (f : ScriptFunction)
  | native (f : NativeFunction)
deriving Repr

namespace Function

/-- The name of a function, if it has one. -/
def name? : Function → Option String
  | .script f => if f.name = some "" then none else f.name
  | .native f => if f.name = "" then none else some f.name

/-- The most arguments a callback of this kind is handed. -/
def mostArguments? : Function → Option Nat
  | .script f => some f.params.length
  | .native f => f.arity.most

/-- The function with a usage line attached. -/
def documented (usage : String) : Function → Function
  | .script f => .script { f with note := some usage }
  | .native f => .native { f with usage := some usage, note := some usage }

/-- The usage line of a function, if it has one. -/
def usage? : Function → Option String
  | .script f => f.note
  | .native f =>
    match f.usage with
    | some u => if u = "" then f.note else some u
    | none => f.note

/-- A function as it shows in diagnostics. -/
def describe : Function → String
  | .script f =>
    let label := match f.name with
      | some n => if n = "" then "anonymous" else n
      | none => "anonymous"
    "<ScriptFunction " ++ label ++ "(" ++ String.intercalate ", " f.params ++ ")>"
  | .native f =>
    let most := match f.arity.most with
      | some m => Number.integerText m
      | none => "inf"
    "<NativeFunction " ++ f.name ++ " [" ++ Number.integerText f.arity.fewest ++ ", " ++ most
      ++ "]>"

end Function

/-- A scope: its own bindings and the scope around it. -/
structure Scope where
  bindings : Table Value
  parent : Option ScopeRef
deriving Repr, Inhabited

/-- An array: its elements, and how often elements were added to it. -/
structure ArrayCell where
  items : List Value
  additions : Nat
deriving Repr, Inhabited

/-- The four arenas. -/
structure Heap where
  scopes : Array Scope
  arrays : Array ArrayCell
  dicts : Array (Table Value)
  functions : Array Function
deriving Repr, Inhabited

namespace Heap

/-- A heap with nothing in it. -/
def empty : Heap := ⟨#[], #[], #[], #[]⟩

/-! ### Arrays and dicts -/

/-- The cell of an array. -/
def arrayCell (h : Heap) (r : ArrayRef) : ArrayCell := h.arrays.getD r.index ⟨[], 0⟩

/-- The elements of an array. -/
def items (h : Heap) (r : ArrayRef) : List Value := (h.arrayCell r).items

/-- A fresh array. -/
def newArray (h : Heap) (items : List Value) : ArrayRef × Heap :=
  (⟨h.arrays.size⟩, { h with arrays := h.arrays.push ⟨items, 0⟩ })

/-- Replace the elements of an array. -/
def setItems (h : Heap) (r : ArrayRef) (items : List Value) : Heap :=
  { h with arrays := h.arrays.modify r.index fun c => { c with items } }

/-- Replace the elements of an array by more of them. -/
def addItems (h : Heap) (r : ArrayRef) (items : List Value) : Heap :=
  { h with arrays := h.arrays.modify r.index fun c => ⟨items, c.additions + 1⟩ }

/-- The table of a dict. -/
def dict (h : Heap) (r : DictRef) : Table Value := h.dicts.getD r.index []

/-- A fresh dict. -/
def newDict (h : Heap) (table : Table Value) : DictRef × Heap :=
  (⟨h.dicts.size⟩, { h with dicts := h.dicts.push table })

/-- Replace the table of a dict. -/
def setDict (h : Heap) (r : DictRef) (table : Table Value) : Heap :=
  { h with dicts := h.dicts.setIfInBounds r.index table }

/-! ### Functions -/

/-- The function of a reference. -/
def function? (h : Heap) (r : FunctionRef) : Option Function := h.functions[r.index]?

/-- A fresh function. -/
def newFunction (h : Heap) (f : Function) : FunctionRef × Heap :=
  (⟨h.functions.size⟩, { h with functions := h.functions.push f })

/-- Change a function. -/
def modifyFunction (h : Heap) (r : FunctionRef) (f : Function → Function) : Heap :=
  { h with functions := h.functions.modify r.index f }

/-! ### Scopes -/

/-- The scope of a reference. -/
def scope (h : Heap) (r : ScopeRef) : Scope := h.scopes.getD r.index ⟨[], none⟩

/-- The bindings of a scope itself. -/
def bindings (h : Heap) (r : ScopeRef) : Table Value := (h.scope r).bindings

/-- A fresh scope. -/
def newScope (h : Heap) (parent : Option ScopeRef) (bindings : Table Value) : ScopeRef × Heap :=
  (⟨h.scopes.size⟩, { h with scopes := h.scopes.push ⟨bindings, parent⟩ })

/-- The scopes from `r` outward, at most `fuel` of them. -/
def chainFrom (h : Heap) : (fuel : Nat) → ScopeRef → List ScopeRef
  | 0, _ => []
  | fuel + 1, r =>
    r :: match (h.scope r).parent with
      | some p => chainFrom h fuel p
      | none => []

/-- The scopes from `r` outward. No chain is longer than the arena. -/
def chain (h : Heap) (r : ScopeRef) : List ScopeRef := h.chainFrom h.scopes.size r

/-- The nearest scope from `r` outward that has a name. -/
def owner? (h : Heap) (r : ScopeRef) (name : String) : Option ScopeRef :=
  (h.chain r).find? fun s => (h.bindings s).has name

/-- The value of a name seen from a scope. -/
def read? (h : Heap) (r : ScopeRef) (name : String) : Option Value :=
  (h.chain r).findSome? fun s => (h.bindings s).get? name

/-- Bind a name in a scope itself. -/
def define (h : Heap) (r : ScopeRef) (name : String) (v : Value) : Heap :=
  { h with scopes := h.scopes.modify r.index fun s => { s with bindings := s.bindings.set name v } }

/-- Unbind a name in a scope itself. -/
def undefine (h : Heap) (r : ScopeRef) (name : String) : Heap :=
  { h with scopes := h.scopes.modify r.index fun s => { s with bindings := s.bindings.erase name } }

/-- Make a scope as one that was just made around nothing: without names, and
without a scope around it. -/
def clearScope (h : Heap) (r : ScopeRef) : Heap :=
  { h with scopes := h.scopes.modify r.index fun _ => ⟨[], none⟩ }

/-- Where an assignment to a name goes: the nearest scope that has it, or the
starting scope. -/
def receiver (h : Heap) (r : ScopeRef) (name : String) : ScopeRef := (h.owner? r name).getD r

/-- Assign to a name from a scope. -/
def assign (h : Heap) (r : ScopeRef) (name : String) (v : Value) : Heap :=
  h.define (h.receiver r name) name v

/-- Add the names of one scope that are not listed yet. -/
def addNames (listed names : List String) : List String :=
  listed ++ names.filter fun n => !listed.contains n

/-- The names visible from a scope, inner ones first. -/
def visibleNames (h : Heap) (r : ScopeRef) : List String :=
  (h.chain r).foldl (fun listed s => addNames listed (h.bindings s).names) []

end Heap

end RuleScript
