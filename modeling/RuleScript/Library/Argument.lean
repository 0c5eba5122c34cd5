/-
# Arguments and results of native operations

An operation takes its evaluated arguments apart with the `expect` family,
which faults at the call when an argument has the wrong kind. What it hands
back is a product; `receive` turns that into a value of the language. Arrays
and dicts are copied at every depth on the way, so a caller never shares one
with the operation. Values nested deeper than the stack of the host has room
for, among them the cyclic ones, exhaust the copy.

Key definitions: `Site`, `Site.fail`, `Site.number`, `Site.array`,
`Site.frames`, `Site.copyValue`, `Site.receive`.
-/
import RuleScript.Engine

namespace RuleScript

/-- Where a native operation is called. -/
structure Site where
  engine : Engine
  ctx : Context
  pos : Position

namespace Site

/-- Fault at the call. -/
def fail {α : Type} (s : Site) (cause : Cause) : Eval α := Eval.fail s.ctx s.pos cause

/-- Call a callback. -/
def invoke (s : Site) (f : FunctionRef) (values : List Value) : Eval Value :=
  s.engine.invoke s.ctx s.pos f values

/-- The argument as a number. -/
def number (s : Site) (what : String) : Value → Eval Float
  | .number x => pure x
  | _ => s.fail (.expected what)

/-- The argument as a string. -/
def string (s : Site) (what : String) : Value → Eval String
  | .string t => pure t
  | _ => s.fail (.expected what)

/-- The argument as a truth value. -/
def bool (s : Site) (what : String) : Value → Eval Bool
  | .bool b => pure b
  | _ => s.fail (.expected what)

/-- The argument as an array. -/
def array (s : Site) (what : String) : Value → Eval ArrayRef
  | .array r => pure r
  | _ => s.fail (.expected what)

/-- The argument as a dict. -/
def dict (s : Site) (what : String) : Value → Eval DictRef
  | .dict r => pure r
  | _ => s.fail (.expected what)

/-- The argument as a function. -/
def function (s : Site) (what : String) : Value → Eval FunctionRef
  | .function r => pure r
  | _ => s.fail (.expected what)

/-- An optional argument as a number. -/
def number? (s : Site) (what : String) : Option Value → Eval (Option Float)
  | none => pure none
  | some v => some <$> s.number what v

/-- The elements of an array. -/
def items (r : ArrayRef) : Eval (List Value) := Eval.onHeap (·.items r)

/-! ### Results -/

/-- A size or a position as a product; there is always a double near it. -/
def countProduct (n : Int) : Product := .value (.number (Number.ofInt n))

/-- How many frames a walk over a value may take. -/
def frames (s : Site) : Nat := s.ctx.settings.room.frames

/-- A value with its arrays and dicts copied at every depth. Each value takes
a frame, and the elements of an array another. -/
def copyValue (s : Site) : (frames : Nat) → Value → Eval Value
  | 0, _ => throw (.exhausted none)
  | frames + 1, v =>
    match v with
    | .absent => s.fail (.unsupportedResult v.kind)
    | .array r =>
      match frames with
      | 0 => throw (.exhausted none)
      | frames + 1 => do
        let copies ← (← items r).mapM (copyValue s frames)
        Eval.newArray copies
    | .dict r => do
      let copies ← (← Eval.onHeap (·.dict r)).mapM fun p => do
        return (p.1, ← copyValue s frames p.2)
      Eval.newDict copies
    | v => pure v

mutual

/-- A product as a value. What it holds as a value is copied, and the rest takes
frames as copying does. -/
def receiveInside (s : Site) (host : Option (Nat × Host)) : (frames : Nat) → Product → Eval Value
  | frames, .value v => copyValue s frames v
  | 0, _ | 1, .sequence _ => throw (.exhausted none)
  | _ + 1, .integer n =>
    match Number.ofInt? n with
    | some x => pure (.number x)
    | none => throw (.internal .tooLarge none)
  | frames + 2, .sequence ps => do Eval.newArray (← receiveAll s host frames ps)
  | frames + 1, .mapping es => do Eval.newDict (← receiveEntries s host frames es)
  | _ + 1, .foreign c => s.fail (.unsupportedResult c)
  | _ + 1, .method k =>
    match host.bind fun (h, o) => (o.methods[k]?).map fun m => (h, m) with
    | some (h, m) =>
      Eval.newFunction (.native ⟨.method h k, m.member, m.arity, m.usage, none⟩)
    | none => pure .null

/-- Products as values. -/
def receiveAll (s : Site) (host : Option (Nat × Host)) (frames : Nat) :
    List Product → Eval (List Value)
  | [] => pure []
  | p :: ps => do return (← receiveInside s host frames p) :: (← receiveAll s host frames ps)

/-- Entries of a host mapping as entries of a dict. -/
def receiveEntries (s : Site) (host : Option (Nat × Host)) (frames : Nat) :
    List (ProductKey × Product) → Eval (Table Value)
  | [] => pure []
  | (.other, _) :: _ => s.fail (.expected "strings as dict keys")
  | (.text k, p) :: es => do
    return (k, ← receiveInside s host frames p) :: (← receiveEntries s host frames es)

end

/-- The result of an operation as a value; no value counts as null. -/
def receive (s : Site) (host : Option (Nat × Host)) : Product → Eval Value
  | .value .absent => pure .null
  | p => receiveInside s host s.frames p

end Site

end RuleScript
