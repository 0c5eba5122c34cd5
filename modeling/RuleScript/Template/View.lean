/-
# Views

The data a template is filled with. Data is handed over converted, so that whole
numbers show without a fraction; a function opens up into its parts, and those
are seen as they are held: the nodes of its body, and the scope around it with
the bindings there. A scope can lead back to the function it was reached from,
so a view refers to the heap and is opened step by step.

Functions, nodes and scopes have attributes: the members they are made of, one by
one or as a table, and methods. A method of the host is called without arguments:
most of them need some and fail, but the initialiser of a scope needs none, and
leaves the scope as one without names and without a scope around it. Attributes that
any object of the host has are left out, where they show a text, build something new
or fail.

What a template shows of a place in a source text or of the number of a scope, and
whether an initialiser has its effect, is a parameter (`Disguise`). Scripts fill
templates without a disguise; another one tells what a script owes to these.

Key definitions: `Disguise`, `View`, `View.literal?`, `View.isTruthy`, `Attribute`,
`View.attribute?`.
-/
import RuleScript.Heap
import RuleScript.Number.Conversion
import RuleScript.Number.Layout
import RuleScript.Text.Quoted

namespace RuleScript

/-- What templates meet in place of where a node stands, of the number of a scope,
and of what its initialiser does. -/
structure Disguise where
  place : Position → Position
  number : ScopeRef → Nat
  /-- Whether the initialiser of a scope has its effect. -/
  initialises : Bool

/-- Templates meet what is there. -/
def Disguise.plain : Disguise := ⟨id, ScopeRef.index, true⟩

/-- Data for a template. -/
inductive View where
  /-- A value as it is held. -/
  | held (v : Value)
  | integer (n : Int)
  | list (items : List View)
  | table (entries : List (String × View))
  | node (n : Node)
  | scope (r : ScopeRef)
  /-- The members of a scope, as they are when they are looked at. -/
  | inside (r : ScopeRef)
  /-- The names of a scope. -/
  | names (names : List String)
deriving Inhabited

/-- An array or dict. -/
inductive Container where
  | array (r : ArrayRef)
  | dict (r : DictRef)
deriving Repr, DecidableEq

/-- What an attribute of a view is. -/
inductive Attribute where
  | value (v : View)
  /-- A method that shows the view. -/
  | literal
  /-- A method that fails with a message. -/
  | failure (message : String)
  /-- A method that makes a scope anew. -/
  | initialiser (r : ScopeRef)

namespace View

/-- A text. -/
def text (s : String) : View := .held (.string s)

/-- A text that may be missing. -/
def text? : Option String → View
  | some s => .text s
  | none => .held .null

/-- An integer that may be missing. -/
def integer? : Option Int → View
  | some n => .integer n
  | none => .held .null

end View

/-! ### Literals -/

/-- Literals in brackets, with commas between them. -/
def bracketed (opening : String) (parts : List String) (closing : String) : String :=
  opening ++ String.intercalate ", " parts ++ closing

/-- A value written as a literal. `around` are the containers it is inside of: one
of those is not opened again. There is no literal without a frame for every
container that is open. -/
def Value.literal? (h : Heap) : (frames : Nat) → (around : List Container) → Value → Option String
  | 0, _, _ => none
  | frames + 1, around, v =>
    match v with
    | .absent => some "NO_VALUE"
    | .null => some "None"
    | .bool b => some (if b then "True" else "False")
    | .number x => some (Number.literal x)
    | .string s => some (Text.quoted s)
    | .array r =>
      if around.contains (.array r) then some "[...]"
      else do
        return bracketed "[" (← (h.items r).mapM (literal? h frames (.array r :: around))) "]"
    | .dict r =>
      if around.contains (.dict r) then some "\x7b...\x7d"
      else do
        let parts ← (h.dict r).mapM fun p => do
          return Text.quoted p.1 ++ ": " ++ (← literal? h frames (.dict r :: around) p.2)
        return bracketed "\x7b" parts "\x7d"
    | .function f => some (((h.function? f).map (·.describe)).getD "None")

namespace Node

/-- The class of a node. -/
def className : Node → String
  | .number .. => "NumberNode"
  | .word .. => "WordNode"
  | .quoted .. => "StringNode"
  | .symbol .. => "SymbolNode"
  | .span .. => "SpanNode"
  | .value .. => "ValueNode"

/-- The members of a node, in order. -/
def members (D : Disguise) (n : Node) : List (String × View) :=
  let pos := D.place n.pos
  let own := match n with
    | .number _ text suffix => [("text", .text text), ("suffix", .text suffix)]
    | .word _ text => [("text", .text text)]
    | .quoted _ raw => [("raw", .text raw)]
    | .symbol _ text => [("text", .text text)]
    | .span _ delimiter body =>
      [("delimiter", .text delimiter.opening), ("body", .list (body.map .node))]
    | .value _ v => [("value", .held v)]
  [("line", .integer? pos.line), ("column", .integer? pos.column), ("offset", .integer pos.offset)]
    ++ own

end Node

/-- The members of a function of the script, in order. -/
def ScriptFunction.members (f : ScriptFunction) : List (String × View) := [
  ("params", .list (f.params.map .text)),
  ("body", .list (f.body.map .node)),
  ("closure", .scope f.scope),
  ("source", .text f.source),
  ("name", .text? f.name),
  ("inline", .held (.bool f.isBlock))]

/-- The members of a scope, in order. -/
def Heap.members (h : Heap) (r : ScopeRef) : List (String × View) := [
  ("bindings", .table ((h.bindings r).map fun p => (p.1, .held p.2))),
  ("parent", match (h.scope r).parent with
    | some p => .scope p
    | none => .held .null)]

/-- A scope written as a literal. -/
def Scope.literal (D : Disguise) (s : Scope) : String :=
  let around := match s.parent with
    | some p => ", parent=#" ++ Number.integerText (D.number p)
    | none => ""
  "<Store " ++ bracketed "bindings=[" s.bindings.names "]" ++ around ++ ">"

/-- A view written as a literal. -/
def View.literal? (D : Disguise) (h : Heap) : (frames : Nat) → View → Option String
  | 0, _ => none
  | frames + 1, v =>
    match v with
    | .held v => v.literal? h (frames + 1) []
    | .integer n => some (Number.integerText n)
    | .list vs => do return bracketed "[" (← vs.mapM (literal? D h frames)) "]"
    | .table es => do
      let parts ← es.mapM fun p => do
        return Text.quoted p.1 ++ ": " ++ (← literal? D h frames p.2)
      return bracketed "\x7b" parts "\x7d"
    | .inside r => do
      let parts ← (h.members r).mapM fun p => do
        return Text.quoted p.1 ++ ": " ++ (← literal? D h frames p.2)
      return bracketed "\x7b" parts "\x7d"
    | .node n => do
      let parts ← (n.members D).mapM fun p => do
        return p.1 ++ "=" ++ (← literal? D h frames p.2)
      return bracketed (n.className ++ "(") parts ")"
    | .scope r => some ((h.scope r).literal D)
    | .names ns => some (bracketed "dict_keys([" (ns.map Text.quoted) "])")

/-- Whether a view counts as true. -/
def View.isTruthy (v : View) (h : Heap) : Bool :=
  match v with
  | .held v =>
    match v with
    | .absent | .null => false
    | .bool b => b
    | .number x => !(x == 0.0)
    | .string s => s ≠ ""
    | .array r => !(h.items r).isEmpty
    | .dict r => !(h.dict r).isEmpty
    | .function _ => true
  | .integer n => n ≠ 0
  | .list vs => !vs.isEmpty
  | .table es => !es.isEmpty
  | .node _ | .scope _ | .inside _ => true
  | .names ns => !ns.isEmpty

/-! ### Attributes -/

/-- The names of missing arguments in a sentence. -/
def listedNames : List String → String
  | [] => ""
  | [a] => Text.quoted a
  | [a, b] => Text.quoted a ++ " and " ++ Text.quoted b
  | names =>
    String.intercalate ", " (names.dropLast.map Text.quoted) ++ ", and "
      ++ Text.quoted (names.getLastD "")

/-- A method that fails when it is called without its arguments. -/
def Attribute.needing (method : String) (names : List String) : Attribute :=
  .failure (method ++ "() missing " ++ Number.integerText names.length ++ " required positional "
    ++ (if names.length = 1 then "argument" else "arguments") ++ ": " ++ listedNames names)

/-- A method of the host that carries out operations has its name, with
underscores in place of the upper case. -/
def memberName (name : String) : String :=
  "_" ++ String.ofList (name.toList.flatMap fun c =>
    if c.isUpper then ['_', c.toLower] else [c])

/-- The method of the host that carries out an operation, and the names of its
arguments. -/
def Operation.handler : Operation → String × List String
  | .core .branch => ("CoreLib._if_", usual)
  | .core .repeating => ("CoreLib._while_", usual)
  | .core op => ("CoreLib." ++ memberName op.signature.name, usual)
  | .array op => ("ArrayLib." ++ memberName op.signature.name, usual)
  | .string op => ("StringLib." ++ memberName op.signature.name, usual)
  | .dict op => ("DictLib." ++ memberName op.signature.name, usual)
  | .math (.unary _) => ("MathLib._unary.<locals>.handler", usual)
  | .math op => ("MathLib." ++ memberName op.signature.name, usual)
  | .data _ op => ("DataLib." ++ memberName op.signature.name, usual)
  | .branch _ => ("CoreLib._if_.<locals>.branch", usual.map ("branch_" ++ ·))
  | .loop .. => ("CoreLib._while_.<locals>.loop", usual.map ("loop_" ++ ·))
  | .probe _ | .method .. | .idle => ("from_python.<locals>.handler", usual)
where
  /-- The names of the arguments of most handlers. -/
  usual : List String := ["args", "referrer", "context"]

/-- An attribute among members: a member by its name, or all of them. -/
def Attribute.among (members : List (String × View)) (name : String) : Option Attribute :=
  match members.lookup name with
  | some v => some (.value v)
  | none =>
    if name = "__dict__" ∨ name = "__getstate__" then some (.value (.table members)) else none

/-- The attributes of a function. What a native is made of has no text: its handler
shows where it lies in memory. -/
def Function.attribute? : Function → String → Option Attribute
  | .script f => fun name =>
    (Attribute.among f.members name).or <|
      match name with
      | "__init__" => some (.needing "ScriptFunction.__init__" ["params", "body", "closure", "source"])
      | "__repr__" => some .literal
      | _ => none
  | .native f => fun
    | "min_args" => some (.value (.integer f.arity.fewest))
    | "max_args" =>
      some (.value (match f.arity.most with
        | some m => .integer m
        | none => .held (.number Number.infinity)))
    | "name" => some (.value (.text f.name))
    | "help" => some (.value (.text? f.usage))
    | "handler" => some (.needing f.operation.handler.1 f.operation.handler.2)
    | "from_python" => some (.needing "NativeFunction.from_python" ["func"])
    | "__init__" => some (.needing "NativeFunction.__init__" ["handler"])
    | "__repr__" => some .literal
    | _ => none

/-- The attributes of a node. A quoted string also tells its text. -/
def Node.attribute? (D : Disguise) (n : Node) (name : String) : Option Attribute :=
  (Attribute.among (n.members D) name).or <|
    match name, n with
    | "value", .quoted _ raw => some (.value (.text (unquote raw)))
    | "at", .value .. => some (.needing "ValueNode.at" ["value", "referrer"])
    | "__init__", n => some (.needing (n.className ++ ".__init__") needed)
    | "__repr__", _ => some .literal
    | _, _ => none
where
  /-- The members that must be given to make a node. -/
  needed : List String := ((n.members D).map (·.1)).filter fun a => a ≠ "suffix" ∧ a ≠ "body"

/-- The methods of a scope. -/
def Heap.method? (h : Heap) (r : ScopeRef) : String → Option Attribute
  | "keys" => some (.value (.names (h.bindings r).names))
  | "find_owner" => some (.needing "Store.find_owner" ["name"])
  | "get" => some (.needing "Store.get" ["name"])
  | "assign" => some (.needing "Store.assign" ["name", "value"])
  | "__contains__" => some (.needing "Store.__contains__" ["name"])
  | "__getitem__" => some (.needing "Store.__getitem__" ["name"])
  | "__setitem__" => some (.needing "Store.__setitem__" ["name", "value"])
  | "__init__" => some (.initialiser r)
  | "__repr__" => some .literal
  | _ => none

/-- The attributes of a scope. Its members as a table change with it, a copy of the
table does not. -/
def Heap.scopeAttribute? (h : Heap) (r : ScopeRef) (name : String) : Option Attribute :=
  if name = "__dict__" then some (.value (.inside r))
  else (Attribute.among (h.members r) name).or (h.method? r name)

/-- The attributes of the mark of a missing value. -/
def absentAttribute? : String → Option Attribute
  | "_instance" => some (.value (.held .absent))
  | "__bool__" => some (.value (.held (.bool false)))
  | "__dict__" => some (.value (.table []))
  | "__getstate__" => some (.value (.held .null))
  | "__new__" => some (.needing "_NoValue.__new__" ["cls"])
  | "__repr__" => some .literal
  | _ => none

/-- An attribute of a view. Data has no attributes, but a dict has members. -/
def View.attribute? (D : Disguise) (h : Heap) : View → String → Option Attribute
  | .held .absent, name => absentAttribute? name
  | .held (.dict r), name => ((h.dict r).get? name).map (.value ∘ .held)
  | .held (.function f), name => (h.function? f).bind (·.attribute? name)
  | .table es, name => (es.lookup name).map .value
  | .node n, name => n.attribute? D name
  | .scope r, name => h.scopeAttribute? r name
  | .inside r, name => ((h.members r).lookup name).map .value
  | _, _ => none

end RuleScript
