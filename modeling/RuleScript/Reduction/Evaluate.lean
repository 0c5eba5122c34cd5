/-
# Evaluation

A statement is a buffer of nodes. It is reduced step by step: a rule that
fits, or else the tightest operator, replaces some nodes by one value node,
until nothing applies. What is left must be a single value. A statement list
is its statements in order and has the value of the last one.

Evaluation is defined by levels. `Engine.next` builds one level from the
level below it, which evaluates nested nodes and carries out calls;
`Engine.level` stacks levels on the engine that only gives up. A level that
is high enough for a program gives the program's result.

Key definitions: `Engine.next`, `Engine.level`, `evaluateList`, `reduce`,
`callFunction`.
-/
import RuleScript.Library.Dispatch
import RuleScript.Reduction.Literal
import RuleScript.Reduction.Operator
import RuleScript.Number.Arithmetic

namespace RuleScript

open Eval (fail onHeap modifyHeap)

variable (e : Engine) (ctx : Context)

/-! ### Nested expressions -/

/-- The value of nodes that must give one. -/
def evaluateValue (nodes : List Node) (pos : Position) : Eval Value :=
  match nodes with
  | [] => fail ctx pos .noExpression
  | n :: _ => do
    match ← e.evaluate ctx nodes with
    | .absent => fail ctx n.pos .noValue
    | v => return v

/-- The value of one node of a buffer. -/
def evaluateNode (n : Node) : Eval Value :=
  match n with
  | .value _ v => pure v
  | .symbol pos _ => fail ctx pos (.unexpected n.describe)
  | n => evaluateValue e ctx [n] n.pos

/-- The values of parts, each of which must hold an expression. -/
def evaluateParts (pos : Position) (missing : Cause) : List (List Node) → Eval (List Value)
  | [] => pure []
  | part :: rest =>
    match part with
    | [] => fail ctx pos missing
    | n :: _ => do
      let v ← evaluateValue e ctx part n.pos
      return v :: (← evaluateParts pos missing rest)

/-- The values of the arguments of a call. -/
def evaluateArguments (args : List Node) (pos : Position) : Eval (List Value) :=
  evaluateParts e ctx pos .missingArgument (Node.splitOn "," args)

/-! ### Calls -/

/-- The parameters with their values; null where one is missing. -/
def bindParameters : List String → List Value → Table Value → Table Value
  | [], _, t => t
  | p :: ps, vs, t => bindParameters ps vs.tail (t.set p (vs.headD .null))

/-- Call a function of the language. -/
def callScript (f : ScriptFunction) (args : List Node) (pos : Position) : Eval Value := do
  let values ← evaluateArguments e ctx args pos
  if f.params.length < values.length then
    fail ctx pos (.tooManyArguments ((Function.script f).name?.getD "function") f.params.length
      values.length)
  else
    let scope ←
      if f.isBlock then pure f.scope
      else Eval.allocate (·.newScope (some f.scope) (bindParameters f.params values []))
    match ← e.evaluate (ctx.within scope f.source) f.body with
    | .absent => return .null
    | v => return v

/-- Whether another call may become active. -/
def Settings.admitsCall (s : Settings) (active : Nat) : Bool :=
  match s.maxDepth with
  | some m => active < m
  | none => true

/-- The frame of a call. -/
def callFrame (f : Function) (pos : Position) : Frame :=
  ⟨f.name?.getD "<anonymous>", pos.line, pos.column, ctx.source⟩

/-- What a call does while it is active. -/
def callBody (f : Function) (args : List Node) (pos : Position) : Eval Value :=
  match f with
  | .script g => callScript e ctx g args pos
  | .native g => do
    let values ← evaluateArguments e ctx args pos
    callNative ⟨e, ctx, pos⟩ g values

/-- Call a function with unevaluated argument nodes. -/
def callFunction (ref : FunctionRef) (args : List Node) (pos : Position) : Eval Value := do
  let m ← get
  if !ctx.settings.admitsCall m.calls.length then fail ctx pos .depthExceeded
  else
    match m.heap.function? ref with
    | none => fail ctx pos (.notCallable "function")
    | some f => Eval.withFrame (callFrame ctx f pos) (callBody e ctx f args pos)

/-! ### Rules -/

/-- The number of a literal. -/
def evaluateLiteral (pos : Position) (text suffix : String) : Eval Value :=
  match literalNumber text suffix with
  | .ok x => pure (.number x)
  | .error .malformed => fail ctx pos .invalidNumber
  | .error .unknownSuffix => fail ctx pos .unrecognizedNumber
  | .error (.internal i) => throw (.internal i none)

/-- The value of a variable. -/
def readVariable (pos : Position) (name : String) : Eval Value := do
  match ← onHeap (·.read? ctx.scope name) with
  | some v => return v
  | none => fail ctx pos (.undefinedVariable name)

/-- The parameter names between commas. -/
def parameterNames (pos : Position) : List (List Node) → Eval (List String)
  | [] => pure []
  | part :: rest =>
    match part with
    | [.word _ name] => do return name :: (← parameterNames pos rest)
    | n :: _ => fail ctx n.pos .parameterNotWord
    | [] => fail ctx pos .parameterNotWord

/-- A value that must be a function. -/
def expectFunction (v : Value) (pos : Position) : Eval FunctionRef :=
  match v with
  | .function f => pure f
  | v => fail ctx pos (.notCallable v.kind)

/-- The operand of a sign. -/
def signOperand : SignOperand → Eval (Value × Position)
  | .number pos text suffix => do return (← evaluateLiteral ctx pos text suffix, pos)
  | .word pos name => do return (← readVariable ctx pos name, pos)
  | .paren pos body => do return (← evaluateValue e ctx body pos, pos)

/-- A sign applied to its operand. -/
def applySign (negative : Bool) (operand : SignOperand) : Eval Value := do
  match ← signOperand e ctx operand with
  | (.number x, _) => return .number (if negative then -x else x)
  | (v, pos) => fail ctx pos (.signOperand (if negative then "-" else "+") v.kind)

/-- An element of a list by a number: an integer, from the end if negative.
The number is moved by the size before it is checked. -/
def elementAt {α : Type} (xs : List α) (index : Float) (pos : Position) : Eval α :=
  let moved := if index < 0.0 then index + Number.ofInt xs.length else index
  let found := do
    let k ← Number.integer? moved
    if k < 0 then none else xs[k.toNat]?
  match found with
  | some x => pure x
  | none => fail ctx pos (.indexOutOfRange (Number.compact index))

/-- The element of an array, character of a string or entry of a dict. -/
def applyIndex (target : Value) (body : List Node) (pos : Position) : Eval Value := do
  let index ← evaluateValue e ctx body pos
  let finite : Eval Float := match index with
    | .number x =>
      if Number.isFinite x then pure x
      else fail ctx pos (.expected "a finite number as array/string index")
    | _ => fail ctx pos (.expected "a finite number as array/string index")
  match target with
  | .array r => do elementAt ctx (← onHeap (·.items r)) (← finite) pos
  | .string s => do return .string (String.ofList [← elementAt ctx s.toList (← finite) pos])
  | .dict d =>
    match index with
    | .string key => do
      match (← onHeap (·.dict d)).get? key with
      | some v => return v
      | none => fail ctx pos (.noSuchDictIndex key)
    | _ => fail ctx pos (.expected "a string as dict index")
  | v => fail ctx pos (.notIndexable v.kind)

/-- A dict entry as key nodes, the colon's position and value nodes. -/
def entryParts? (entry : List Node) : Option (Node × List Node × Position × List Node) :=
  let key := entry.takeWhile fun n => !n.isSymbolText ":"
  match key, entry.drop key.length with
  | first :: _, colon :: v :: rest => some (first, key, colon.pos, v :: rest)
  | _, _ => none

/-- The entries of a dict written to a table in turn. -/
def evaluateEntries (pos : Position) : List (List Node) → Table Value → Eval (Table Value)
  | [], t => pure t
  | entry :: rest, t =>
    match entryParts? entry with
    | none => fail ctx ((entry.head?.map (·.pos)).getD pos) .entryNotPair
    | some (first, keyNodes, colonPos, valueNodes) => do
      match ← evaluateValue e ctx keyNodes first.pos with
      | .string key => do
        let v ← evaluateValue e ctx valueNodes colonPos
        evaluateEntries pos rest (t.set key v)
      | _ => fail ctx first.pos (.expected "a string as dict key")

/-- The entries of a dict; a comma may stand behind the last one. -/
def dictEntries (body : List Node) : List (List Node) :=
  let entries := Node.splitOn "," body
  if entries.getLast?.any (·.isEmpty) then entries.dropLast else entries

/-- The value of a redex. -/
def Redex.run : Redex → Eval Value
  | .function name paramsPos params body => do
    let names ← parameterNames ctx paramsPos (Node.splitOn "," params)
    let f ← Eval.newFunction (.script ⟨names, body, ctx.scope, ctx.source, name, false, none⟩)
    match name with
    | some n => do
      modifyHeap (·.define ctx.scope n f)
      return f
    | none => return f
  | .wordString text => return .string text
  | .declaration name pos body => do
    let v ← evaluateValue e ctx body pos
    modifyHeap (·.assign ctx.scope name v)
    return .absent
  | .capture v name => do
    modifyHeap (·.assign ctx.scope name v)
    return v
  | .member target dot key keyPos =>
    match target with
    | .dict d => do
      match (← onHeap (·.dict d)).get? key with
      | some v => return v
      | none => fail ctx keyPos (.noSuchMember key)
    | v => fail ctx dot (.notIndexable v.kind)
  | .invoke callee calleePos args pos => do
    let f ← expectFunction ctx callee calleePos
    e.call ctx f args pos
  | .invokeBlock callee calleePos block pos => do
    let f ← expectFunction ctx callee calleePos
    let callback ← Eval.newFunction (.script ⟨[], block, ctx.scope, ctx.source, none, true, none⟩)
    e.call ctx f [.value pos callback] pos
  | .index target body pos => applyIndex e ctx target body pos
  | .sign negative operand => applySign e ctx negative operand
  | .number pos text suffix => evaluateLiteral ctx pos text suffix
  | .word pos name => readVariable ctx pos name
  | .quoted raw => return .string (unquote raw)
  | .paren pos body => evaluateValue e ctx body pos
  | .array pos body => do
    Eval.newArray (← evaluateParts e ctx pos .missingElement (Node.splitOn "," body))
  | .dict pos body => do
    Eval.newDict (← evaluateEntries e ctx pos (dictEntries body) [])

/-- Apply the leftmost rule that fits. -/
def applyRule (buffer : List Node) : Eval (Option (List Node)) :=
  match Match.find? buffer with
  | none => pure none
  | some m => do
    Eval.fire ctx "RULE" m.rule.name m.pos
    let v ← m.redex.run e ctx
    return some (m.result v)

/-! ### Operators -/

/-- What an operator does with two numbers. -/
def Operator.onNumbers? : Operator → Option (Float → Float → Value)
  | .power => some fun a b => .number (Number.power a b)
  | .times => some fun a b => .number (a * b)
  | .divide => some fun a b => .number (Number.divide a b)
  | .less => some fun a b => .bool (a < b)
  | .greater => some fun a b => .bool (b < a)
  | .lessEqual => some fun a b => .bool (a ≤ b)
  | .greaterEqual => some fun a b => .bool (b ≤ a)
  | .bitAnd => some fun a b => .number (Number.bitAnd a b)
  | .bitXor => some fun a b => .number (Number.bitXor a b)
  | .bitOr => some fun a b => .number (Number.bitOr a b)
  | _ => none

/-- What an operator does with two truth values. -/
def Operator.onBools? : Operator → Option (Bool → Bool → Bool)
  | .and => some (· && ·)
  | .or => some (· || ·)
  | _ => none

namespace Application

/-- The operand on one side. -/
def operand (a : Application) (side : List Node) : Eval (Value × Node) :=
  match side with
  | [] => fail ctx a.pos (.missingOperand a.operator.symbol)
  | n :: _ => do return (← evaluateNode e ctx n, n)

/-- An operand that must be a number. -/
def numberOf (a : Application) (side : String) : Value × Node → Eval Float
  | (.number x, _) => pure x
  | (v, n) => fail ctx n.pos (.operandKind "number" side a.operator.symbol v.kind)

/-- An operand that must be a truth value. -/
def boolOf (a : Application) (side : String) : Value × Node → Eval Bool
  | (.bool b, _) => pure b
  | (v, n) => fail ctx n.pos (.operandKind "boolean" side a.operator.symbol v.kind)

/-- The buffer with the operator and its operands replaced by a value. -/
def between (a : Application) (v : Value) : List Node :=
  (a.before.drop 1).reverse ++ .value a.pos v :: a.after.drop 1

/-- The buffer with the operator and its right operand replaced by a
value. -/
def leading (a : Application) (v : Value) : List Node :=
  a.before.reverse ++ .value a.pos v :: a.after.drop 1

/-- Plus or minus: a sign, or an operator between numbers. The right operand
is evaluated first. -/
def applyPlusMinus (a : Application) (sign : Float → Float) (op : Float → Float → Float) :
    Eval (List Node) := do
  let b ← a.numberOf ctx "right" (← a.operand e ctx a.after)
  if isUnaryPosition a.before.head? then return a.leading (.number (sign b))
  else
    let x ← a.numberOf ctx "left" (← a.operand e ctx a.before)
    return a.between (.number (op x b))

/-- Two operands, each evaluated before either is checked. -/
def operands (a : Application) : Eval ((Value × Node) × (Value × Node)) := do
  let l ← a.operand e ctx a.before
  let r ← a.operand e ctx a.after
  return (l, r)

/-- The word or value behind a hash as a string. -/
def applyHash (a : Application) : Eval (List Node) :=
  match a.after with
  | [] => fail ctx a.pos .missingWord
  | .word _ text :: _ => return a.leading (.string text)
  | n :: _ => do
    let v ← evaluateNode e ctx n
    return a.leading (.string (v.shown (← onHeap id)))

/-- Assign the value of everything on the right. -/
def applyAssign (a : Application) : Eval (List Node) :=
  match a.before with
  | [] => fail ctx a.pos .missingName
  | .word pos name :: rest => do
    let v ← evaluateValue e ctx a.after a.pos
    modifyHeap (·.assign ctx.scope name v)
    return rest.reverse ++ [.value pos v]
  | n :: _ => fail ctx n.pos .nameNotWord

/-- The buffer after an operator is applied. -/
def run (a : Application) : Eval (List Node) :=
  match a.operator.onNumbers?, a.operator.onBools? with
  | some f, _ => do
    let (l, r) ← a.operands e ctx
    let x ← a.numberOf ctx "left" l
    let y ← a.numberOf ctx "right" r
    return a.between (f x y)
  | none, some f => do
    let (l, r) ← a.operands e ctx
    let x ← a.boolOf ctx "left" l
    let y ← a.boolOf ctx "right" r
    return a.between (.bool (f x y))
  | none, none =>
    match a.operator with
    | .plus => a.applyPlusMinus e ctx id (· + ·)
    | .minus => a.applyPlusMinus e ctx (- ·) (· - ·)
    | .not => do
      let b ← a.boolOf ctx "right" (← a.operand e ctx a.after)
      return a.leading (.bool !b)
    | .equal => do
      let (l, r) ← a.operands e ctx
      return a.between (.bool (l.1.strictEq r.1))
    | .notEqual => do
      let (l, r) ← a.operands e ctx
      return a.between (.bool !(l.1.strictEq r.1))
    | .assign => a.applyAssign e ctx
    | _ => a.applyHash e ctx

end Application

/-- Apply the tightest operator. -/
def applyOperator (buffer : List Node) : Eval (Option (List Node)) :=
  match Application.find? buffer with
  | none => pure none
  | some a => do
    Eval.fire ctx "OP" a.operator.symbol a.pos
    return some (← a.run e ctx)

/-! ### Statements -/

/-- One step of a reduction. -/
def reduceStep (buffer : List Node) : Eval (Option (List Node)) := do
  match ← applyRule e ctx buffer with
  | some b => return some b
  | none => applyOperator e ctx buffer

/-- The value of a buffer that nothing applies to. -/
def finish (buffer : List Node) : Eval Value :=
  match buffer with
  | [.value _ v] => pure v
  | _ =>
    match (buffer.find? (!·.isValue)).or buffer[1]? with
    | some n => fail ctx n.pos (.unexpected n.describe)
    | none => pure .absent

/-- Reduce a buffer in at most `steps` steps. -/
def reduceFor : (steps : Nat) → List Node → Eval Value
  | 0, buffer => finish ctx buffer
  | steps + 1, buffer => do
    match ← reduceStep e ctx buffer with
    | some b => reduceFor steps b
    | none => finish ctx buffer

/-- Reduce a statement. Every step takes away a node that is no value, so
there are no more steps than nodes. -/
def reduce (buffer : List Node) : Eval Value := reduceFor e ctx buffer.length buffer

/-- The value of a statement; an empty one has none. -/
def evaluateStatement (statement : List Node) : Eval Value :=
  match statement with
  | [] => pure .absent
  | statement => reduce e ctx statement

/-- The value of the last of some statements, evaluated in order. -/
def evaluateStatements (last : Value) : List (List Node) → Eval Value
  | [] => pure last
  | s :: rest => do
    let v ← evaluateStatement e ctx s
    evaluateStatements v rest

/-- The value of a statement list. -/
def evaluateList (nodes : List Node) : Eval Value :=
  evaluateStatements e ctx .absent (Node.splitOn ";" nodes)

/-! ### Levels -/

/-- The level above an engine. -/
def Engine.next (e : Engine) : Engine where
  evaluate ctx nodes := evaluateList e ctx nodes
  call ctx f args pos := callFunction e ctx f args pos

/-- The engine with `n` levels. -/
def Engine.level : Nat → Engine
  | 0 => .exhausted
  | n + 1 => (Engine.level n).next

end RuleScript
