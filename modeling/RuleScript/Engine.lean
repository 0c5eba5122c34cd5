/-
# The engine one level down

Evaluation is defined level by level: a level evaluates node lists and calls
functions with the help of the level below it, and the lowest level only
gives up. What a native operation or a rule needs from the engine is
therefore a value, `Engine`, with one entry for each of the two jobs.

Callbacks go through it: values become nodes that carry them, with commas
between, and a callback is handed no more of them than it takes.

Key definitions: `Engine`, `valueNodes`, `Engine.callWithValues`,
`Engine.invoke`.
-/
import RuleScript.Machine

namespace RuleScript

/-- How nested nodes are evaluated and functions called. -/
structure Engine where
  /-- The value of a statement list. -/
  evaluate : Context → List Node → Eval Value
  /-- The result of a call with unevaluated argument nodes; the position is
  that of the call. -/
  call : Context → FunctionRef → List Node → Position → Eval Value

/-- The engine that only gives up. -/
def Engine.exhausted : Engine where
  evaluate _ _ := throw (.exhausted none)
  call _ _ _ _ := throw (.exhausted none)

/-- Nodes that carry values, with commas between them, all at one position. -/
def valueNodes (pos : Position) : List Value → List Node
  | [] => []
  | [v] => [.value pos v]
  | v :: vs => .value pos v :: .symbol pos "," :: valueNodes pos vs

namespace Engine

/-- Call a function with values. -/
def callWithValues (e : Engine) (ctx : Context) (f : FunctionRef) (values : List Value)
    (pos : Position) : Eval Value :=
  e.call ctx f (valueNodes pos values) pos

/-- Call a callback with as many of the values as it takes. -/
def invoke (e : Engine) (ctx : Context) (pos : Position) (f : FunctionRef) (values : List Value) :
    Eval Value := do
  let most := (← Eval.onHeap (·.function? f)).bind (·.mostArguments?)
  e.callWithValues ctx f (match most with | some n => values.take n | none => values) pos

end Engine

end RuleScript
