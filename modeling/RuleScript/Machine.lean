/-
# The machine

Evaluation is a computation that reads and changes a machine and ends with a
value or a stop; the machine is there in both cases. The machine holds the
heap, the active calls, the effects of the current run, the place of the last
rule or operator that fired, the hosts, and the state of the random source.

A context says where an expression is evaluated: in which scope, under which
source name, with which settings. Among the settings is what the host has room
for on its stack and in its memory; nothing rests on how much that is.

Key definitions: `Effect`, `Machine`, `Room`, `Settings`, `Context`, `Eval`,
`Eval.fail`, `Eval.withFrame`.
-/
import RuleScript.Heap
import RuleScript.Host.Method

namespace RuleScript

/-- What a run shows to the outside. -/
inductive Effect where
  | printed (text : String)
  | failed (text : String)
deriving Repr, DecidableEq

/-- The state that evaluation works on. -/
structure Machine where
  heap : Heap
  /-- The active calls, innermost first. -/
  calls : List Frame
  effects : Array Effect
  /-- Where the last rule or operator fired. -/
  focus : Option Position
  /-- The lines of the evaluation trace. -/
  log : Array String
  hosts : Array Host
  /-- The state of the random source. -/
  seed : UInt64

/-- A machine with an empty heap. -/
def Machine.initial : Machine := ⟨.empty, [], #[], none, #[], #[], 0x9E3779B97F4A7C15⟩

/-- What the host has room for. -/
structure Room where
  /-- How many frames of the stack a walk over a value may take besides the
  three that a list of scalars takes. -/
  spare : Nat
  /-- How many spans of a source text may be open at once. -/
  spans : Nat
  /-- How many spaces an indent may have. -/
  spaces : Nat
deriving Repr, DecidableEq, Inhabited

/-- How many frames of the stack a walk over a value may take. -/
def Room.frames (r : Room) : Nat := r.spare + 3

/-- Room as hosts usually have it. -/
def Room.usual : Room := ⟨900, 250, 1000000000⟩

/-- What an embedding fixes for a run. -/
structure Settings where
  /-- How many calls may be active; any number if none is given. -/
  maxDepth : Option Int
  /-- The text of the loop limit in force; empty if there is none. -/
  loopLimit : String
  /-- Whether the evaluation trace is kept. -/
  tracing : Bool
  /-- What the host has room for. -/
  room : Room
deriving Repr, DecidableEq, Inhabited

/-- Where an expression is evaluated. -/
structure Context where
  scope : ScopeRef
  source : String
  settings : Settings
deriving Repr, Inhabited

/-- The same settings in another scope; an empty source name keeps the one in
force. -/
def Context.within (ctx : Context) (scope : ScopeRef) (source : String) : Context :=
  { ctx with scope, source := if source = "" then ctx.source else source }

/-- A computation on the machine that ends with a value or a stop. -/
abbrev Eval := ExceptT Stop (StateM Machine)

namespace Eval

/-- Read from the heap. -/
def onHeap {α : Type} (f : Heap → α) : Eval α := do return f (← get).heap

/-- Change the heap. -/
def modifyHeap (f : Heap → Heap) : Eval Unit := modify fun m => { m with heap := f m.heap }

/-- Allocate in the heap. -/
def allocate {α : Type} (f : Heap → α × Heap) : Eval α :=
  modifyGet fun m => ((f m.heap).1, { m with heap := (f m.heap).2 })

/-- Stop with a fault at a position. -/
def fail {α : Type} (ctx : Context) (pos : Position) (cause : Cause) : Eval α :=
  throw (.fault (.raisedAt cause (some pos) ctx.source))

/-- Note in the evaluation trace, if it is kept. -/
def note (ctx : Context) (line : Unit → String) : Eval Unit :=
  if ctx.settings.tracing then modify fun m => { m with log := m.log.push ("[DBG] " ++ line ()) }
  else pure ()

/-- A position in the evaluation trace. -/
def place (pos : Position) : String :=
  Fault.coordinate pos.line ++ ":" ++ Fault.coordinate pos.column

/-- Note that a rule or operator fires at a position. -/
def fire (ctx : Context) (what name : String) (pos : Position) : Eval Unit := do
  modify fun m => { m with focus := some pos }
  note ctx fun _ => what ++ " " ++ name ++ " at " ++ place pos

/-- A fresh array as a value. -/
def newArray (items : List Value) : Eval Value := do
  return .array (← allocate (·.newArray items))

/-- A fresh dict as a value. -/
def newDict (table : Table Value) : Eval Value := do
  return .dict (← allocate (·.newDict table))

/-- A fresh function as a value. -/
def newFunction (f : Function) : Eval Value := do
  return .function (← allocate (·.newFunction f))

/-- The machine after a call is over. -/
def popFrame (m : Machine) : Machine := { m with calls := m.calls.tail }

/-- Run a computation as a call. When it stops without a value, the active
calls are noted in the stop, unless a call inside has done so; in any case the
call is over afterwards. -/
def withFrame {α : Type} (frame : Frame) (act : Eval α) : Eval α := fun m =>
  match act { m with calls := frame :: m.calls } with
  | (.ok a, m') => (.ok a, popFrame m')
  | (.error e, m') => (.error (e.traced m'.calls.reverse), popFrame m')

/-- Run a native operation. An internal error that reaches it from inside
becomes a fault at its own call. -/
def guarded {α : Type} (ctx : Context) (pos : Position) (act : Eval α) : Eval α := fun m =>
  match act m with
  | (.error (.internal e _), m') =>
    (.error (.fault (.raisedAt (.host .range e.message) (some pos) ctx.source)), m')
  | r => r

end Eval

end RuleScript
