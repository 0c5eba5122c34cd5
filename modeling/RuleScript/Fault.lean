/-
# Faults

A fault of a script has a cause, and a cause has one of four kinds and a
message. The fault adds where it happened, under which source name, and, once
it has left a call, the calls that were active there.

Two things are kept apart from faults. An internal error is an arithmetic
conversion that failed outside any native operation. Exhaustion means that
evaluation nested deeper than it may; it becomes a fault only when it leaves
the program.

Key definitions: `FaultKind`, `Cause`, `Cause.kind`, `Cause.message`,
`Frame`, `Fault`, `InternalError`, `Stop`.
-/
import RuleScript.Arity
import RuleScript.Source.Node
import RuleScript.Number.Numeral

namespace RuleScript

/-- The four kinds of faults. -/
inductive FaultKind where
  | syntactic
  | typing
  | range
  | reference
deriving Repr, DecidableEq

/-- The name of a kind. -/
def FaultKind.label : FaultKind → String
  | .syntactic => "SyntaxError"
  | .typing => "TypeError"
  | .range => "RangeError"
  | .reference => "ReferenceError"

/-- Why evaluation failed. -/
inductive Cause where
  | invalidSource
  | invalidNumber
  | unrecognizedNumber
  /-- A span holds no expression. -/
  | noExpression
  /-- An expression that must give a value gives none. -/
  | noValue
  /-- A node is left over that no rule reads. -/
  | unexpected (node : String)
  | missingArgument
  | missingElement
  | missingOperand (symbol : String)
  /-- Nothing follows the sign that turns a word into a string. -/
  | missingWord
  | missingName
  | nameNotWord
  | parameterNotWord
  | entryNotPair
  /-- A text of a data format is malformed. -/
  | malformedData (message : String)
  /-- An operand has the wrong kind. -/
  | operandKind (wanted side symbol got : String)
  | signOperand (symbol got : String)
  | notIndexable (got : String)
  | notCallable (got : String)
  /-- An argument, index, key or callback result is not what is expected. -/
  | expected (what : String)
  | wrongArity (name : String) (arity : Arity) (got : Nat)
  | unsupportedResult (className : String)
  | tooManyArguments (name : String) (most got : Nat)
  | depthExceeded
  | indexOutOfRange (index : String)
  | invalidIndex (index : String)
  | noSuchDictIndex (key : String)
  | invalidAmount (what : String)
  | notEnoughValues
  | loopExceeded (limit : Int)
  | modifiedDuringSort
  | undefinedVariable (name : String)
  | noSuchMember (key : String)
  /-- A host operation, or a conversion inside a native one, failed. -/
  | host (kind : FaultKind) (message : String)
deriving Repr, DecidableEq

namespace Cause

/-- The kind of a cause. -/
def kind : Cause → FaultKind
  | .invalidSource | .invalidNumber | .unrecognizedNumber | .noExpression | .noValue
  | .unexpected _ | .missingArgument | .missingElement | .missingOperand _ | .missingWord
  | .missingName | .nameNotWord | .parameterNotWord | .entryNotPair | .malformedData _ =>
    .syntactic
  | .operandKind .. | .signOperand .. | .notIndexable _ | .notCallable _ | .expected _
  | .wrongArity .. | .unsupportedResult _ => .typing
  | .tooManyArguments .. | .depthExceeded | .indexOutOfRange _ | .invalidIndex _
  | .noSuchDictIndex _ | .invalidAmount _ | .notEnoughValues | .loopExceeded _
  | .modifiedDuringSort => .range
  | .undefinedVariable _ | .noSuchMember _ => .reference
  | .host kind _ => kind

/-- The message of a cause. -/
def message : Cause → String
  | .invalidSource => "invalid syntax"
  | .invalidNumber => "invalid number"
  | .unrecognizedNumber => "unrecognized number"
  | .noExpression => "expect an expression"
  | .noValue => "expect a value"
  | .unexpected node => "unexpected " ++ node
  | .missingArgument => "missing argument"
  | .missingElement => "missing array element"
  | .missingOperand symbol => "missing operand for \"" ++ symbol ++ "\""
  | .missingWord => "expect a word or value following \"#\""
  | .missingName => "no variable name given"
  | .nameNotWord => "expect a word as variable name"
  | .parameterNotWord => "expect a word as parameter name"
  | .entryNotPair => "expect a key:value pair as dict entry"
  | .malformedData message => message
  | .operandKind wanted side symbol got =>
    "expect a " ++ wanted ++ " on the " ++ side ++ " of \"" ++ symbol ++ "\" (got " ++ got ++ ")"
  | .signOperand symbol got => "invalid operand for \"" ++ symbol ++ "\" (" ++ got ++ ")"
  | .notIndexable got => "invalid index access (" ++ got ++ ")"
  | .notCallable got => "invalid function call (" ++ got ++ ")"
  | .expected what => "expect " ++ what
  | .wrongArity name arity got =>
    name ++ " expects " ++ arity.describe ++ ", got " ++ Number.integerText got
  | .unsupportedResult className =>
    "native function returned an unsupported value (" ++ className ++ ")"
  | .tooManyArguments name most got =>
    name ++ " expects at most " ++ Number.integerText most ++ " arguments, got "
      ++ Number.integerText got
  | .depthExceeded => "maximum call depth exceeded"
  | .indexOutOfRange index => "index(" ++ index ++ ") out of range"
  | .invalidIndex index => "invalid index (" ++ index ++ ")"
  | .noSuchDictIndex key => "unknown dict index \"" ++ key ++ "\""
  | .invalidAmount what => "invalid " ++ what
  | .notEnoughValues => "not enough values in the given array"
  | .loopExceeded limit => "loop exceeded " ++ Number.integerText limit ++ " iterations"
  | .modifiedDuringSort => "list modified during sort"
  | .undefinedVariable name => "variable \"" ++ name ++ "\" is not defined"
  | .noSuchMember key => "unknown index \"" ++ key ++ "\""
  | .host _ message => message

end Cause

/-- An active call: the function's name, where it was called, and the source
name there. -/
structure Frame where
  name : String
  line : Option Int
  column : Option Int
  source : String
deriving Repr, DecidableEq

/-- A fault of a script. The trace lists the active calls, outermost first,
as they stood at the innermost call that the fault left. -/
structure Fault where
  cause : Cause
  line : Option Int
  column : Option Int
  source : String
  trace : Option (List Frame)
deriving Repr, DecidableEq

namespace Fault

/-- A fault at a position that has left no call yet. -/
def raisedAt (cause : Cause) (pos : Option Position) (source : String) : Fault :=
  ⟨cause, pos.bind (·.line), pos.bind (·.column), source, none⟩

/-- A line or column as text. -/
def coordinate : Option Int → String
  | some n => Number.integerText n
  | none => "None"

/-- The message with the place of the fault. -/
def text (f : Fault) : String :=
  match f.line with
  | none => if f.source = "" then f.cause.message else f.cause.message ++ " (@" ++ f.source ++ ")"
  | some l =>
    f.cause.message ++ " (Ln " ++ Number.integerText l ++ ", Col " ++ coordinate f.column
      ++ " @" ++ f.source ++ ")"

end Fault

/-- A conversion that failed outside any native operation. -/
inductive InternalError where
  /-- An integer has no double near it. -/
  | tooLarge
  /-- A text is no integer in a base. -/
  | badInteger (base : Nat) (text : String)
deriving Repr, DecidableEq

/-- The message of an internal error. -/
def InternalError.message : InternalError → String
  | .tooLarge => "int too large to convert to float"
  | .badInteger base text => Number.IntegerError.malformed.message base text

/-- How evaluation may stop without a value. -/
inductive Stop where
  | fault (f : Fault)
  | internal (e : InternalError) (trace : Option (List Frame))
  | exhausted (trace : Option (List Frame))
deriving Repr, DecidableEq

/-- The stop with the active calls noted, unless it has them already. -/
def Stop.traced (calls : List Frame) : Stop → Stop
  | .fault f => .fault { f with trace := some (f.trace.getD calls) }
  | .internal e trace => .internal e (some (trace.getD calls))
  | .exhausted trace => .exhausted (some (trace.getD calls))

end RuleScript
