/-
# Structural rules

A rule looks at a few neighbouring nodes of a buffer and, if they have the
right shape, takes from them what it needs: a redex. The rules stand in a
table. A buffer is searched from left to right, and at each place the rules
are tried in table order; the first that fits fires.

Key definitions: `Redex`, `Rule`, `Rule.table`, `Rule.redex?`, `Match`,
`Match.find?`.
-/
import RuleScript.Source.Node

namespace RuleScript

/-- What a sign is applied to. -/
inductive SignOperand where
  | number (pos : Position) (text suffix : String)
  | word (pos : Position) (name : String)
  | paren (pos : Position) (body : List Node)
deriving Repr

/-- What a rule takes from the nodes it fits. -/
inductive Redex where
  | function (name : Option String) (paramsPos : Position) (params body : List Node)
  | wordString (text : String)
  /-- `name = (…)` at the end of a statement. -/
  | declaration (name : String) (pos : Position) (body : List Node)
  /-- `value $ name`. -/
  | capture (value : Value) (name : String)
  | member (target : Value) (dot : Position) (key : String) (keyPos : Position)
  | invoke (callee : Value) (calleePos : Position) (args : List Node) (pos : Position)
  | invokeBlock (callee : Value) (calleePos : Position) (block : List Node) (pos : Position)
  | index (target : Value) (body : List Node) (pos : Position)
  | sign (negative : Bool) (operand : SignOperand)
  | number (pos : Position) (text suffix : String)
  | word (pos : Position) (name : String)
  | quoted (raw : String)
  | paren (pos : Position) (body : List Node)
  | array (pos : Position) (body : List Node)
  | dict (pos : Position) (body : List Node)
deriving Repr

/-- A sign is unary at the start of a buffer or behind a symbol. -/
def isUnaryPosition : Option Node → Bool
  | none => true
  | some n => n.isSymbol

/-- Whether a call, an index or a member access follows. -/
def hasPostfix : List Node → Bool
  | .span .. :: _ => true
  | n :: _ => n.isSymbolText "."
  | [] => false

/-- Whether a word behind `before` and in front of `after` is read as a
variable: not as the target of an assignment, and not as a name. -/
def isReference (before : Option Node) (after : List Node) : Bool :=
  let target := match after with
    | n :: _ => n.isSymbolText "="
    | [] => false
  let named := match before with
    | some (.symbol _ t) => t == "$" || t == "." || t == "#" || t == "@"
    | _ => false
  !target && !named

/-- The structural rules. -/
inductive Rule where
  | functionNamed | functionAnonymous | wordString | assignmentEqual | assignmentDollar
  | member | invoke | invokeCallback | index
  | negativeNumber | negativeWord | negativeParenthesis
  | positiveNumber | positiveWord | positiveParenthesis
  | number | word | glob | parenthesis | array | dict
deriving Repr, DecidableEq

namespace Rule

/-- The rules in the order in which they are tried. -/
def table : List Rule :=
  [.functionNamed, .functionAnonymous, .wordString, .assignmentEqual, .assignmentDollar,
    .member, .invoke, .invokeCallback, .index,
    .negativeNumber, .negativeWord, .negativeParenthesis,
    .positiveNumber, .positiveWord, .positiveParenthesis,
    .number, .word, .glob, .parenthesis, .array, .dict]

/-- The name of a rule in the evaluation trace. -/
def name : Rule → String
  | .functionNamed => "function(named)"
  | .functionAnonymous => "function(anonymous)"
  | .wordString => "word(string)"
  | .assignmentEqual => "assignment(equal)"
  | .assignmentDollar => "assignment(dollar)"
  | .member => "member"
  | .invoke => "invoke"
  | .invokeCallback => "invoke(callback)"
  | .index => "index"
  | .negativeNumber => "negative(number)"
  | .negativeWord => "negative(word)"
  | .negativeParenthesis => "negative(parenthesis)"
  | .positiveNumber => "positive(number)"
  | .positiveWord => "positive(word)"
  | .positiveParenthesis => "positive(parenthesis)"
  | .number => "number"
  | .word => "word"
  | .glob => "glob"
  | .parenthesis => "parenthesis"
  | .array => "array"
  | .dict => "dict"

/-- How many nodes a rule takes. -/
def width : Rule → Nat
  | .functionNamed => 4
  | .functionAnonymous | .assignmentEqual | .assignmentDollar | .member => 3
  | .wordString | .invoke | .invokeCallback | .index
  | .negativeNumber | .negativeWord | .negativeParenthesis
  | .positiveNumber | .positiveWord | .positiveParenthesis => 2
  | .number | .word | .glob | .parenthesis | .array | .dict => 1

/-- A unary sign with this text and the nodes behind it. -/
def signed? (text : String) (before : Option Node) : List Node → Option (List Node)
  | n :: rest => if n.isSymbolText text && isUnaryPosition before then some rest else none
  | [] => none

/-- A sign in front of a number. -/
def signNumber? (text : String) (before : Option Node) (nodes : List Node) : Option Redex :=
  match signed? text before nodes with
  | some (.number p t s :: _) => some (.sign (text == "-") (.number p t s))
  | _ => none

/-- A sign in front of a word that nothing is applied to. -/
def signWord? (text : String) (before : Option Node) (nodes : List Node) : Option Redex :=
  match signed? text before nodes with
  | some (.word p t :: after) =>
    if hasPostfix after then none else some (.sign (text == "-") (.word p t))
  | _ => none

/-- A sign in front of a parenthesis that nothing is applied to. -/
def signParen? (text : String) (before : Option Node) (nodes : List Node) : Option Redex :=
  match signed? text before nodes with
  | some (.span p .paren body :: after) =>
    if hasPostfix after then none else some (.sign (text == "-") (.paren p body))
  | _ => none

/-- What a rule takes from the nodes at a place, given the node before it;
`none` if it does not fit. -/
def redex? (rule : Rule) (before : Option Node) (nodes : List Node) : Option Redex :=
  match rule with
  | .functionNamed =>
    match nodes with
    | .symbol _ t :: .word _ name :: .span pp .paren params :: .span _ .brace body :: _ =>
      if t = "@" then some (.function (some name) pp params body) else none
    | _ => none
  | .functionAnonymous =>
    match nodes with
    | .symbol _ t :: .span pp .paren params :: .span _ .brace body :: _ =>
      if t = "@" then some (.function none pp params body) else none
    | _ => none
  | .wordString =>
    match nodes with
    | .symbol _ t :: .word _ text :: _ => if t = "#" then some (.wordString text) else none
    | _ => none
  | .assignmentEqual =>
    match nodes with
    | [.word _ name, .symbol _ t, .span p .paren body] =>
      if t = "=" then some (.declaration name p body) else none
    | _ => none
  | .assignmentDollar =>
    match nodes with
    | .value _ v :: .symbol _ t :: .word _ name :: _ =>
      if t = "$" then some (.capture v name) else none
    | _ => none
  | .member =>
    match nodes with
    | .value _ v :: .symbol dot t :: .word keyPos key :: _ =>
      if t = "." then some (.member v dot key keyPos) else none
    | _ => none
  | .invoke =>
    match nodes with
    | .value vp v :: .span p .paren args :: _ => some (.invoke v vp args p)
    | _ => none
  | .invokeCallback =>
    match nodes with
    | .value vp v :: .span p .brace block :: _ => some (.invokeBlock v vp block p)
    | _ => none
  | .index =>
    match nodes with
    | .value _ v :: .span p .bracket body :: _ => some (.index v body p)
    | _ => none
  | .negativeNumber => signNumber? "-" before nodes
  | .negativeWord => signWord? "-" before nodes
  | .negativeParenthesis => signParen? "-" before nodes
  | .positiveNumber => signNumber? "+" before nodes
  | .positiveWord => signWord? "+" before nodes
  | .positiveParenthesis => signParen? "+" before nodes
  | .number =>
    match nodes with
    | .number p t s :: _ => some (.number p t s)
    | _ => none
  | .word =>
    match nodes with
    | .word p name :: after => if isReference before after then some (.word p name) else none
    | _ => none
  | .glob =>
    match nodes with
    | .quoted _ raw :: _ => some (.quoted raw)
    | _ => none
  | .parenthesis =>
    match nodes with
    | .span p .paren body :: _ => some (.paren p body)
    | _ => none
  | .array =>
    match nodes with
    | .span p .bracket body :: _ => some (.array p body)
    | _ => none
  | .dict =>
    match nodes with
    | .span p .brace body :: _ => some (.dict p body)
    | _ => none

end Rule

/-- A rule that fits somewhere in a buffer: the nodes before, the position of
its first node, and the nodes after. -/
structure Match where
  rule : Rule
  redex : Redex
  before : List Node
  pos : Position
  after : List Node
deriving Repr

namespace Match

/-- The first rule of the table that fits at the front of `nodes`. -/
def here? (before : Option Node) (nodes : List Node) : Option (Rule × Redex) :=
  Rule.table.findSome? fun r => (r.redex? before nodes).map fun x => (r, x)

/-- The leftmost match in a buffer, given the nodes to its left, last
first. -/
def findFrom? (before : List Node) : List Node → Option Match
  | [] => none
  | n :: rest =>
    match here? before.head? (n :: rest) with
    | some (rule, redex) =>
      some ⟨rule, redex, before.reverse, n.pos, (n :: rest).drop rule.width⟩
    | none => findFrom? (n :: before) rest

/-- The leftmost match in a buffer. -/
def find? (buffer : List Node) : Option Match := findFrom? [] buffer

/-- The buffer with the matched nodes replaced by their value. -/
def result (m : Match) (v : Value) : List Node := m.before ++ .value m.pos v :: m.after

end Match

end RuleScript
