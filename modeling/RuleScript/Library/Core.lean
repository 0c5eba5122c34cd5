/-
# Core operations

Reflection on names and functions, conversion, output, and control flow.

`if` and `while` work in two calls: the first takes the condition and hands
back a function, the second gives that function the block. `while` asks its
condition before every round; a limit on rounds is read when the loop is made.
An endless loop is cut off after a number of rounds that no run reaches.

Key definitions: `CoreOp.run`, `runBranch`, `runLoop`.
-/
import RuleScript.Library.Argument
import RuleScript.Display
import RuleScript.Number.Conversion

namespace RuleScript

open Site (items)

/-- A value as a number; `none` if it writes an integer too large for one. -/
def Value.toNumber? : Value → Option Float
  | .null => some 0.0
  | .bool b => some (if b then 1.0 else 0.0)
  | .number x => some x
  | .string s => Number.ofText s
  | _ => some Number.nan

/-- The usage line of a function; a function of the language without one
shows its name and parameters. -/
def Function.help? (f : Function) : Option String :=
  match f.usage?, f with
  | some u, _ => some u
  | none, .script g =>
    some ((f.name?.getD "function") ++ "(" ++ String.intercalate ", " g.params ++ ")")
  | none, .native _ => none

/-- More rounds than any loop runs. -/
def maxRounds : Nat := Nat.pow 2 62

/-- Run a loop: ask the condition, then run the body, and again. -/
def runRounds (s : Site) (condition body : FunctionRef) (limit : Option Int) :
    (fuel : Nat) → (count : Int) → Eval Product
  | 0, _ => throw (.exhausted none)
  | fuel + 1, count => do
    let .bool go ← s.invoke condition [] | s.fail (.expected "a boolean from the loop condition")
    if !go then return .value .null
    else
      match limit with
      | some m =>
        if m < count + 1 then s.fail (.loopExceeded m)
        else
          let _ ← s.invoke body []
          runRounds s condition body limit fuel (count + 1)
      | none =>
        let _ ← s.invoke body []
        runRounds s condition body limit fuel (count + 1)

/-- Give a loop its body. -/
def runLoop (s : Site) (condition : FunctionRef) (limit : Option Int) (args : List Value) :
    Eval Product := do
  let body ← s.function "a function as loop body" (args.getD 0 .null)
  runRounds s condition body limit maxRounds 0

/-- Give a branch its block. -/
def runBranch (s : Site) (condition : Bool) (args : List Value) : Eval Product := do
  let body ← s.function "a function as branch" (args.getD 0 .null)
  if condition then return .value (← s.invoke body []) else return .value .null

/-- The loop limit in force. -/
def loopLimit (s : Site) : Eval (Option Int) :=
  let text := s.ctx.settings.loopLimit
  if text = "" then pure none
  else
    match Number.readInteger 10 text with
    | .ok n => pure (some n)
    | .error e => s.fail (.host .range (e.message 10 text))

/-- Print values with spaces between them. -/
def printValues (s : Site) (args : List Value) : Eval Product := do
  let h ← Eval.onHeap id
  let message := String.intercalate " " (args.map (·.text h))
  Eval.note s.ctx fun _ => "print() " ++ Text.quoted message
  modify fun m => { m with effects := m.effects.push (.printed message) }
  return .value .null

/-- Names as a product. -/
def namesProduct (names : List String) : Product :=
  .sequence (names.map fun n => .value (.string n))

/-- Run a core operation. -/
def CoreOp.run (s : Site) (args : List Value) : CoreOp → Eval Product
  | .help => do
    let f ← s.function "a function" (args.getD 0 .null)
    match (← Eval.onHeap (·.function? f)).bind (·.help?) with
    | some u => return .value (.string u)
    | none => return .value .null
  | .dir =>
    match args with
    | [] => do return namesProduct (← Eval.onHeap (·.visibleNames s.ctx.scope))
    | v :: _ => do
      let d ← s.dict "a dict" v
      return namesProduct (← Eval.onHeap (·.dict d)).names
  | .exist => do
    let name ← s.string "a string as variable name" (args.getD 0 .null)
    return .value (.bool (← Eval.onHeap (·.owner? s.ctx.scope name)).isSome)
  | .get => do
    let name ← s.string "a string as variable name" (args.getD 0 .null)
    match ← Eval.onHeap (·.read? s.ctx.scope name) with
    | some v => return .value v
    | none => s.fail (.undefinedVariable name)
  | .set => do
    let name ← s.string "a string as variable name" (args.getD 0 .null)
    let v := args.getD 1 .null
    Eval.modifyHeap (·.assign s.ctx.scope name v)
    return .value v
  | .typeOf => return .value (.string (args.getD 0 .null).kind)
  | .number =>
    match (args.getD 0 .null).toNumber? with
    | some x => return .value (.number x)
    | none => s.fail (.host .range InternalError.tooLarge.message)
  | .string => do return .value (.string ((args.getD 0 .null).shown (← Eval.onHeap id)))
  | .boolean => return .value (.bool (args.getD 0 .null).isTruthy)
  | .print => printValues s args
  | .branch => do
    let condition ← s.bool "a boolean as condition" (args.getD 0 .null)
    return .value (← Eval.newFunction
      (.native ⟨.branch condition, "branch", .exactly 1, "branch(callback)", none⟩))
  | .choose => do
    let condition ← s.bool "a boolean as condition" (args.getD 0 .null)
    let yes ← s.function "functions as branches" (args.getD 1 .null)
    let no ← s.function "functions as branches" (args.getD 2 .null)
    return .value (← s.invoke (if condition then yes else no) [])
  | .repeating => do
    let condition ← s.function "a function as condition" (args.getD 0 .null)
    let limit ← loopLimit s
    return .value (← Eval.newFunction
      (.native ⟨.loop condition limit, "loop", .exactly 1, "loop(callback)", none⟩))

end RuleScript
