/-
# Operators

Once no rule fits, the operator that binds tightest is applied; of several,
the leftmost. Plus and minus bind tighter as signs than between operands.
Assignment binds loosest.

Key definitions: `Operator`, `Operator.ofSymbol?`, `Operator.priority`,
`Application`, `Application.find?`.
-/
import RuleScript.Reduction.Rule

namespace RuleScript

/-- The operators. -/
inductive Operator where
  | power | not | hash | times | divide | plus | minus
  | less | greater | lessEqual | greaterEqual | equal | notEqual
  | bitAnd | bitXor | bitOr | and | or | assign
deriving Repr, DecidableEq

namespace Operator

/-- The operators in the order of their table. -/
def table : List Operator :=
  [.power, .not, .hash, .times, .divide, .plus, .minus, .less, .greater, .lessEqual,
    .greaterEqual, .equal, .notEqual, .bitAnd, .bitXor, .bitOr, .and, .or, .assign]

/-- The symbol of an operator. -/
def symbol : Operator → String
  | .power => "**"
  | .not => "!"
  | .hash => "#"
  | .times => "*"
  | .divide => "/"
  | .plus => "+"
  | .minus => "-"
  | .less => "<"
  | .greater => ">"
  | .lessEqual => "<="
  | .greaterEqual => ">="
  | .equal => "=="
  | .notEqual => "!="
  | .bitAnd => "&"
  | .bitXor => "^"
  | .bitOr => "|"
  | .and => "&&"
  | .or => "||"
  | .assign => "="

/-- The operator of a symbol. -/
def ofSymbol? (text : String) : Option Operator := table.find? (·.symbol == text)

/-- How tightly an operator binds; lower is tighter. -/
def priority (unary : Bool) : Operator → Nat
  | .power => 1
  | .not | .hash => 2
  | .times | .divide => 3
  | .plus | .minus => if unary then 2 else 4
  | .less | .greater | .lessEqual | .greaterEqual => 6
  | .equal | .notEqual => 7
  | .bitAnd => 8
  | .bitXor => 9
  | .bitOr => 10
  | .and => 11
  | .or => 12
  | .assign => 13

end Operator

/-- An operator in a buffer: the nodes to its left, last first, its position,
and the nodes to its right. -/
structure Application where
  operator : Operator
  before : List Node
  pos : Position
  after : List Node
deriving Repr

namespace Application

/-- How tightly an operator binds at its place. -/
def priority (a : Application) : Nat := a.operator.priority (isUnaryPosition a.before.head?)

/-- The operators in a buffer from left to right. -/
def allFrom (before : List Node) : List Node → List Application
  | [] => []
  | n :: rest =>
    match n with
    | .symbol p text =>
      match Operator.ofSymbol? text with
      | some op => ⟨op, before, p, rest⟩ :: allFrom (n :: before) rest
      | none => allFrom (n :: before) rest
    | n => allFrom (n :: before) rest

/-- The tighter of two operators, the first if they bind equally tight. -/
def tighter (a b : Application) : Application := if b.priority < a.priority then b else a

/-- The operator that is applied first. -/
def find? (buffer : List Node) : Option Application :=
  match allFrom [] buffer with
  | [] => none
  | a :: rest => some (rest.foldl tighter a)

end Application

end RuleScript
