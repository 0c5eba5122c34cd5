/-
# Reading YAML

A text becomes tokens, events, nodes and data. Nodes are looked at level by
level: the root, then what it holds, then what that holds; a fault in a
shallower node is therefore found before one in a deeper. Before the entries
of a mapping are looked at, those under the merge sign are put in front of
its own.

Key definitions: `flatten`, `checkNodes`, `buildItem`, `read`.
-/
import RuleScript.Data.Yaml.Item

namespace RuleScript.Yaml

/-! ### Merging -/

mutual

/-- Put the entries that a mapping merges in in front of its own. -/
def flatten : (fuel : Nat) → Graph → Nat → Reading Graph
  | 0, _, _ => .error .tooDeep
  | fuel + 1, g, n => flattenFrom fuel g n 0 []

/-- Go on with the entry at `index`; `merged` are the entries merged so
far. -/
def flattenFrom : (fuel : Nat) → Graph → Nat → (index : Nat) → (merged : List (Nat × Nat)) →
    Reading Graph
  | 0, _, _, _, _ => .error .tooDeep
  | fuel + 1, g, n, index, merged =>
    let entries := g.entries n
    match entries[index]? with
    | none =>
      .ok (if merged.isEmpty then g else g.setContent n (.mapping (merged ++ entries)))
    | some (k, v) =>
      if (g.node k).kind = .merge then do
        let g := g.setContent n (.mapping (entries.eraseIdx index))
        let (g, more) ← mergedEntries fuel g n v
        flattenFrom fuel g n index (merged ++ more)
      else if (g.node k).kind = .value then
        flattenFrom fuel (g.setKind k .text) n (index + 1) merged
      else flattenFrom fuel g n (index + 1) merged

/-- The entries that the node `v` adds to the mapping `n`. -/
def mergedEntries : (fuel : Nat) → Graph → (n v : Nat) → Reading (Graph × List (Nat × Nat))
  | 0, _, _, _ => .error .tooDeep
  | fuel + 1, g, n, v =>
    let source := g.node v
    match source.content with
    | .mapping _ => do
      let g ← flatten fuel g v
      return (g, g.entries v)
    | .sequence items => mergedAll fuel g n items
    | .scalar _ =>
      faultIn (.constructing "a mapping") (g.node n).start
        (.expectedKind "a mapping or list of mappings for merging" source.content.label)
        source.start

/-- The entries that a list of mappings adds to the mapping `n`, the last
mapping first. -/
def mergedAll : (fuel : Nat) → Graph → (n : Nat) → List Nat →
    Reading (Graph × List (Nat × Nat))
  | 0, _, _, _ => .error .tooDeep
  | _ + 1, g, _, [] => .ok (g, [])
  | fuel + 1, g, n, v :: vs =>
    let source := g.node v
    match source.content with
    | .mapping _ => do
      let g ← flatten fuel g v
      let own := g.entries v
      let (g, later) ← mergedAll fuel g n vs
      return (g, later ++ own)
    | content =>
      faultIn (.constructing "a mapping") (g.node n).start
        (.expectedKind "a mapping for merging" content.label) source.start

end

/-! ### Checking -/

/-- The state of a check: the graph, the nodes looked at, and the collections
still to be looked into, last first. -/
structure Check where
  graph : Graph
  seen : List Nat
  pending : List Nat

/-- Look at a node: a scalar is read, a collection is kept for later. -/
def Check.visit (c : Check) (n : Nat) : Reading Check :=
  if c.seen.contains n then .ok c
  else
    let c := { c with seen := n :: c.seen }
    if (c.graph.node n).kind.isCollection then .ok { c with pending := n :: c.pending }
    else do
      let _ ← scalarItem c.graph n
      return c

/-- Look at the entries of the mapping that starts at `start`. -/
def Check.visitEntries (c : Check) (start : Mark) : List (Nat × Nat) → Reading Check
  | [] => .ok c
  | (k, v) :: rest => do
    let c ← c.visit k
    let key := c.graph.node k
    if key.kind.isCollection then
      faultIn (.constructing "a mapping") start .unhashableKey key.start
    else
      let c ← c.visit v
      c.visitEntries start rest

/-- Look at the pairs of a list that starts at `start`. -/
def Check.visitPairs (c : Check) (what : String) (start : Mark) : List Nat → Reading Check
  | [] => .ok c
  | n :: rest => do
    let node := c.graph.node n
    match node.content with
    | .mapping [(k, v)] =>
      let c ← c.visit k
      let c ← c.visit v
      c.visitPairs what start rest
    | .mapping entries =>
      faultIn (.constructing what) start (.expectedItem entries.length) node.start
    | content =>
      faultIn (.constructing what) start (.expectedKind "a mapping of length 1" content.label)
        node.start

/-- More steps than merging takes in a graph. -/
def Graph.mergeFuel (g : Graph) : Nat := 8 * g.size + 64

/-- Look into a collection. -/
def Check.enter (c : Check) (n : Nat) : Reading Check := do
  let node := c.graph.node n
  match node.kind, node.content with
  | .sequence, .sequence items => items.foldlM Check.visit c
  | .sequence, content => faultAt (.expectedKind "a sequence node" content.label) node.start
  | .orderedMap, .sequence items => c.visitPairs "an ordered map" node.start items
  | .orderedMap, content =>
    faultIn (.constructing "an ordered map") node.start
      (.expectedKind "a sequence" content.label) node.start
  | .pairs, .sequence items => c.visitPairs "pairs" node.start items
  | .pairs, content =>
    faultIn (.constructing "pairs") node.start (.expectedKind "a sequence" content.label)
      node.start
  | _, .mapping _ =>
    let graph ← flatten c.graph.mergeFuel c.graph n
    Check.visitEntries { c with graph } node.start (graph.entries n)
  | _, content => faultAt (.expectedKind "a mapping node" content.label) node.start

/-- Look into the collections of one level after the other. -/
def checkLevels : (fuel : Nat) → Check → Reading Graph
  | 0, _ => .error .tooDeep
  | fuel + 1, c =>
    if c.pending.isEmpty then .ok c.graph
    else do checkLevels fuel (← c.pending.reverse.foldlM Check.enter { c with pending := [] })

/-- Look at all nodes from the root on; the graph comes back with its
mappings merged. Each level has a node that was not seen before. -/
def checkNodes (g : Graph) (root : Nat) : Reading Graph := do
  checkLevels (g.size + 1) (← Check.visit ⟨g, [], []⟩ root)

/-! ### Building -/

/-- The item of a node. A graph that leads back into itself has none, and
nothing nests deeper than the host's stack has frames. -/
def buildItem (g : Graph) : (frames : Nat) → Nat → Reading Item
  | 0, _ => .error .tooDeep
  | frames + 1, n => do
    let node := g.node n
    let entries (es : List (Nat × Nat)) : Reading (List (Item × Item)) :=
      es.mapM fun (k, v) => do return (← buildItem g frames k, ← buildItem g frames v)
    match node.kind, node.content with
    | .sequence, .sequence items => return .list (← items.mapM (buildItem g frames))
    | .mapping, .mapping es => return .table (Item.tableOf (← entries es))
    | .set, .mapping es => return .set (Item.setOrder ((Item.tableOf (← entries es)).map (·.1)))
    | .orderedMap, .sequence items | .pairs, .sequence items =>
      return .pairs (← entries (items.flatMap g.entries))
    | _, _ => scalarItem g n

/-- The data of a text. -/
def read (frames : Nat) (text : String) : Reading Datum := do
  let (g, root) ← documentGraph frames (eventStream (tokenStream text.toList))
  match root with
  | none => return .null
  | some n =>
    let g ← checkNodes g n
    (← buildItem g frames n).datum

end RuleScript.Yaml
