/-
# Data operations

`parse` and `stringify` of a data format.

Key definitions: `DataOp.run`.
-/
import RuleScript.Data.Conversion

namespace RuleScript

/-- The indent of a written text. -/
def indentArgument (s : Site) : Option Value → Eval (Option Int)
  | none => pure none
  | some v => do
    let x ← s.number "a number as indent" v
    match Number.decode x, Number.truncate? x with
    | _, some n => return some n
    | .nan, none => s.fail (.host .range "cannot convert float NaN to integer")
    | _, none => s.fail (.host .range "cannot convert float infinity to integer")

/-- Run a data operation. -/
def DataOp.run (s : Site) (format : DataFormat) (args : List Value) : DataOp → Eval Product
  | .parse => do
    let text ← s.string "a string to parse" (args.getD 0 .null)
    match format.read s.frames text with
    | .ok d => return .value (← d.build s.frames)
    | .error .tooDeep => throw (.exhausted none)
    | .error e => s.fail e.cause
  | .stringify => do
    let indent ← indentArgument s args[1]?
    let h ← Eval.onHeap id
    match (args.getD 0 .null).toDatum h s.frames false >>= format.write s.ctx.settings.room indent with
    | .ok text => return .value (.string text)
    | .error .tooDeep => throw (.exhausted none)
    | .error e => s.fail e.cause

end RuleScript
