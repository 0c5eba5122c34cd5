/-
# Native calls

`Operation.run` carries out a native operation on evaluated arguments.

Key definitions: `ProbeOp.run`, `Operation.run`, `callNative`.
-/
import RuleScript.Library.Array
import RuleScript.Library.Core
import RuleScript.Library.Data
import RuleScript.Library.Dict
import RuleScript.Library.Math
import RuleScript.Library.String

namespace RuleScript

/-- A line or column as a product. -/
def coordinateProduct : Option Int → Product
  | some n => .integer n
  | none => .value .null

/-- Run a probe. -/
def ProbeOp.run (s : Site) (args : List Value) : ProbeOp → Eval Product
  | .callSite =>
    return .sequence [coordinateProduct s.pos.line, coordinateProduct s.pos.column,
      .value (.string s.ctx.source)]
  | .apply => do
    let f ← s.function "a function" (args.getD 0 .null)
    return .value (← s.engine.callWithValues s.ctx f (args.drop 1) s.pos)
  | .count => return .integer args.length
  | .document => do
    let usage ← s.string "a string" (args.getD 0 .null)
    let f ← s.function "a function" (args.getD 1 .null)
    Eval.modifyHeap (·.modifyFunction f (·.documented usage))
    return .value (.function f)

/-- Run a method of a host. -/
def runMethod (s : Site) (host index : Nat) (args : List Value) : Eval Product := do
  match (← get).hosts[host]? with
  | none => return .value .null
  | some o =>
    match o.methods[index]? with
    | none => return .value .null
    | some m =>
      let (result, counters) := m.run o.counters args
      modify fun st => { st with hosts := st.hosts.setIfInBounds host { o with counters } }
      match result with
      | .ok p => return p
      | .error f => s.fail f.cause

/-- Run a native operation. -/
def Operation.run (s : Site) (args : List Value) : Operation → Eval Product
  | .core op => op.run s args
  | .array op => op.run s args
  | .string op => op.run s args
  | .dict op => op.run s args
  | .math op => op.run s args
  | .data format op => op.run s format args
  | .probe op => op.run s args
  | .branch condition => runBranch s condition args
  | .loop condition limit => runLoop s condition limit args
  | .method host k => runMethod s host k args
  | .idle => return .value .null

/-- The host whose method an operation is. -/
def Operation.host? (m : Machine) : Operation → Option (Nat × Host)
  | .method host _ => (m.hosts[host]?).map fun o => (host, o)
  | _ => none

/-- Call a native function with evaluated arguments: check their number, run
the operation, and make its product a value. -/
def callNative (s : Site) (f : NativeFunction) (args : List Value) : Eval Value := do
  if f.arity.admits args.length then
    let product ← Eval.guarded s.ctx s.pos (f.operation.run s args)
    s.receive (f.operation.host? (← get)) product
  else
    s.fail (.wrongArity ((Function.native f).name?.getD "function") f.arity args.length)

end RuleScript
