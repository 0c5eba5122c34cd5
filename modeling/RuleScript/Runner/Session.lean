/-
# Runners

A runner holds one machine with a root scope and runs scripts on it. Each run
gets a fresh program scope inside the root scope, unless the runner keeps one
for all of them. `Runner.handle` is the entry for hosts: it starts with no
effects, binds the host's methods anew, and turns a failure into a message
that joins the effects. `Runner.eval` and `Runner.runNodes` hand a failure
back as it is.

A host's methods are bound in the root scope under their script names.
Binding anew first takes back what was bound before: a builtin that was
shadowed is restored, any other name is removed.

Key definitions: `Runner`, `Runner.create`, `Runner.bindHost`,
`Runner.runNodes`, `Runner.eval`, `Runner.handle`, `Outcome`.
-/
import RuleScript.Reduction.Evaluate
import RuleScript.Runner.Report
import RuleScript.Runner.Root
import RuleScript.Source.Tree

namespace RuleScript

/-- A machine with a root scope, ready to run scripts. -/
structure Runner where
  machine : Machine
  settings : Settings
  /-- The source name of the scripts. -/
  source : String
  root : ScopeRef
  /-- The program scope that is kept between runs, if one is. -/
  program : Option ScopeRef
  builtins : Table Value
  /-- The host whose methods are bound, if there is one. -/
  host : Option Nat
  /-- The names under which host methods are bound. -/
  hostNames : List String

/-- How a run ended. -/
inductive Outcome where
  | success (value : Value)
  | failure (stop : Stop) (message : String) (token : Option FaultToken)

/-- More levels than any program that succeeds needs. -/
def maxLevels : Nat := 600

/-- A run has a level to evaluate its nodes on. -/
theorem exists_levels : ∃ n, maxLevels = n + 1 := ⟨_, rfl⟩

namespace Runner

/-- Change the heap of a runner. -/
def modifyHeap (r : Runner) (f : Heap → Heap) : Runner :=
  { r with machine := { r.machine with heap := f r.machine.heap } }

/-! ### Hosts -/

/-- Take one bound host name back. -/
def restore (r : Runner) (name : String) : Runner :=
  match r.builtins.get? name with
  | some v => r.modifyHeap (·.define r.root name v)
  | none => r.modifyHeap (·.undefine r.root name)

/-- Bind one method of a host. -/
def bindMethod (host index : Nat) (r : Runner) (m : HostMethod) : Runner :=
  let name := scriptName m.member
  let (f, heap) :=
    r.machine.heap.newFunction (.native ⟨.method host index, name, m.arity, m.usage, none⟩)
  let r := { r with machine := { r.machine with heap } }
  let r := r.modifyHeap (·.define r.root name (.function f))
  { r with hostNames := r.hostNames ++ [name] }

/-- Bind the exposed methods of a host, from position `index` on. -/
def bindMethods (host : Nat) (r : Runner) : (index : Nat) → List HostMethod → Runner
  | _, [] => r
  | index, m :: ms =>
    let r := if m.exposed then bindMethod host index r m else r
    bindMethods host r (index + 1) ms

/-- Take back the bound host names. -/
def releaseHost (r : Runner) : Runner :=
  { r.hostNames.foldl restore r with hostNames := [] }

/-- Bind the methods of the host anew. -/
def bindHost (r : Runner) : Runner :=
  let r := r.releaseHost
  match r.host with
  | none => r
  | some h =>
    match r.machine.hosts[h]? with
    | none => r
    | some o => if o.isEmpty then r else bindMethods h r 0 o.methods

/-! ### Making a runner -/

/-- A runner with some hosts at hand, one of them bound if it is given. -/
def create (settings : Settings) (source : String) (keep : Bool) (hosts : Array Host)
    (host : Option Nat) : Runner :=
  let machine := { Machine.initial with hosts }
  let (bindings, machine) := match rootBindings machine with
    | (.ok t, m) => (t, m)
    | (.error _, m) => ([], m)
  let (root, heap) := machine.heap.newScope none bindings
  let (program, heap) :=
    if keep then
      let (p, heap) := heap.newScope (some root) []
      (some p, heap)
    else (none, heap)
  bindHost ⟨{ machine with heap }, settings, source, root, program, bindings, host, []⟩

/-- The runner with the probes bound in its root scope. -/
def withProbes (r : Runner) : Runner :=
  match probeBindings r.machine with
  | (.ok t, m) =>
    t.foldl (fun r p => r.modifyHeap (·.define r.root p.1 p.2)) { r with machine := m }
  | (.error _, m) => { r with machine := m }

/-! ### Running -/

/-- Exhaustion as a fault where the last rule or operator fired. -/
def settle (r : Runner) : Stop → Stop
  | .exhausted _ => .fault (.raisedAt .depthExceeded r.machine.focus r.source)
  | s => s

/-- The scope a program runs in. -/
def programScope (r : Runner) : ScopeRef × Runner :=
  match r.program with
  | some p => (p, r)
  | none =>
    let (p, heap) := r.machine.heap.newScope (some r.root) []
    (p, { r with machine := { r.machine with heap } })

/-- Evaluate nodes as a program. -/
def runNodes (r : Runner) (nodes : List Node) : Except Stop Value × Runner :=
  let (scope, r) := r.programScope
  let (result, machine) :=
    (Engine.level maxLevels).evaluate ⟨scope, r.source, r.settings⟩ nodes r.machine
  let r := { r with machine }
  (result.mapError r.settle, r)

/-- Evaluate a source text as a program. -/
def eval (r : Runner) (text : String) : Except Stop Value × Runner :=
  let r := { r with machine := { r.machine with calls := [], focus := none } }
  match parse r.settings.room.spans text with
  | .ok nodes => r.runNodes nodes
  | .error .malformed => (.error (.fault (.raisedAt .invalidSource none r.source)), r)
  | .error .tooDeep => (.error (r.settle (.exhausted none)), r)

/-- The outcome of a run of a text. -/
def outcome (r : Runner) (text : String) : Except Stop Value → Outcome
  | .ok v => .success v
  | .error stop =>
    let (message, token) := report r.source text r.machine.focus stop
    .failure stop message token

/-- Run a script for a host. -/
def handle (r : Runner) (text : String) : Outcome × Runner :=
  let r := { r with machine := { r.machine with effects := #[] } }
  let (result, r) := r.bindHost.eval text
  match r.outcome text result with
  | .success v => (.success v, r)
  | .failure stop message token =>
    (.failure stop message token,
      { r with machine := { r.machine with effects := r.machine.effects.push (.failed message) } })

end Runner

end RuleScript
