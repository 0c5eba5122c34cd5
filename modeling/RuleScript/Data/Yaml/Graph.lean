/-
# The nodes of a YAML document

Events become nodes. A node has a kind, a place and its content; the nodes of
a document stand in one array and refer to each other by position, because an
alias may refer to any node that was started before it, also to one that it
is inside of. An open collection takes two frames of the host's stack.

Key definitions: `Content`, `GraphNode`, `Graph`, `documentGraph`.
-/
import RuleScript.Data.Yaml.Event
import RuleScript.Data.Yaml.Schema

namespace RuleScript.Yaml

/-- What a node holds. -/
inductive Content where
  | scalar (text : String)
  | sequence (items : List Nat)
  | mapping (entries : List (Nat × Nat))
deriving Repr, DecidableEq

/-- How content is named in a message. -/
def Content.label : Content → String
  | .scalar _ => "scalar"
  | .sequence _ => "sequence"
  | .mapping _ => "mapping"

/-- A node. -/
structure GraphNode where
  kind : Kind
  start : Mark
  content : Content
deriving Repr, DecidableEq

/-- The nodes of a document. -/
abbrev Graph := Array GraphNode

namespace Graph

/-- The node at a position. -/
def node (g : Graph) (n : Nat) : GraphNode := g.getD n ⟨.null, ⟨0, 0, 0⟩, .scalar ""⟩

/-- The entries of a mapping; any other node has none. -/
def entries (g : Graph) (n : Nat) : List (Nat × Nat) :=
  match (g.node n).content with
  | .mapping es => es
  | _ => []

/-- Change the content of a node. -/
def setContent (g : Graph) (n : Nat) (content : Content) : Graph :=
  g.modify n fun x => { x with content }

/-- Change the kind of a node. -/
def setKind (g : Graph) (n : Nat) (kind : Kind) : Graph := g.modify n fun x => { x with kind }

end Graph

/-- The kind of a node with a tag, or else `default`. -/
def tagged (tag : Option String) (default : Kind) : Kind :=
  match tag with
  | none => default
  | some t => if t = "!" then default else .ofTag t

/-- A collection whose end has not come: its position, whether it is a
mapping, and the nodes in it so far, last first. -/
structure OpenCollection where
  position : Nat
  isMapping : Bool
  children : List Nat
deriving Repr

/-- The state of building a graph. -/
structure Build where
  graph : Graph
  anchors : List (String × Nat)
  /-- The open collections, innermost first. -/
  stack : List OpenCollection
  root : Option Nat
deriving Repr

namespace Build

/-- Put a node where it belongs: into the innermost open collection, or at
the root. -/
def place (b : Build) (n : Nat) : Build :=
  match b.stack with
  | [] => { b with root := some n }
  | c :: rest => { b with stack := { c with children := n :: c.children } :: rest }

/-- Make a node, and note its anchor. An anchor must be new. -/
def make (b : Build) (anchor : Option String) (node : GraphNode) : Reading (Nat × Build) :=
  let n := b.graph.size
  let grown := { b with graph := b.graph.push node }
  match anchor with
  | none => .ok (n, grown)
  | some name =>
    match b.anchors.lookup name with
    | some first =>
      faultIn (.anchoring name) (b.graph.node first).start .secondOccurrence node.start
    | none => .ok (n, { grown with anchors := (name, n) :: b.anchors })

/-- Start a collection. -/
def start (frames : Nat) (b : Build) (anchor : Option String) (node : GraphNode)
    (isMapping : Bool) : Reading Build := do
  if frames < 2 * (b.stack.length + 1) then throw .tooDeep
  else
    let (n, b) ← b.make anchor node
    return { b with stack := ⟨n, isMapping, []⟩ :: b.stack }

/-- Keys and values in turn as entries. -/
def pairUp : List Nat → List (Nat × Nat)
  | k :: v :: rest => (k, v) :: pairUp rest
  | _ => []

/-- End the innermost collection. -/
def finish (b : Build) : Build :=
  match b.stack with
  | [] => b
  | c :: rest =>
    let items := c.children.reverse
    let content := if c.isMapping then .mapping (pairUp items) else .sequence items
    place { b with graph := b.graph.setContent c.position content, stack := rest } c.position

/-- The state after an event. -/
def step (frames : Nat) (b : Build) (e : Event) : Reading Build :=
  match e.kind with
  | .streamStart | .streamEnd | .documentEnd => .ok b
  | .documentStart =>
    match b.root with
    | some r => faultIn .singleDocument (b.graph.node r).start .anotherDocument e.start
    | none => .ok b
  | .alias name =>
    match b.anchors.lookup name with
    | some n => .ok (b.place n)
    | none => faultAt (.undefinedAlias name) e.start
  | .scalar anchor tag readable text => do
    let kind := tagged tag (if readable then plainKind text else .text)
    let (n, b) ← b.make anchor ⟨kind, e.start, .scalar text⟩
    return b.place n
  | .sequenceStart anchor tag =>
    b.start frames anchor ⟨tagged tag .sequence, e.start, .sequence []⟩ false
  | .mappingStart anchor tag =>
    b.start frames anchor ⟨tagged tag .mapping, e.start, .mapping []⟩ true
  | .sequenceEnd | .mappingEnd => .ok b.finish

end Build

/-- The nodes of the one document that a text holds, and its root; no root if
the text holds none. -/
def documentGraph (frames : Nat) (s : EventStream) : Reading (Graph × Option Nat) := do
  let b ← s.events.foldlM (Build.step frames) ⟨#[], [], [], none⟩
  match s.trouble with
  | some e => throw e
  | none => return (b.graph, b.root)

end RuleScript.Yaml
