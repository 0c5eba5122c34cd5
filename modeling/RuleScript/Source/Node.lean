/-
# Nodes

A source text becomes a list of nodes: numbers, words, quoted strings,
symbols, and spans, which hold the nodes between a pair of brackets. The
engine adds value nodes, which carry a value already computed. Every node has
a position; positions given from outside may lack a line or a column.

Key definitions: `Position`, `Delimiter`, `Node`, `Node.pos`,
`Node.splitOn`.
-/
import RuleScript.Value

namespace RuleScript

/-- Where a node starts: line and column count from one, the offset from
zero. -/
structure Position where
  line : Option Int
  column : Option Int
  offset : Int
deriving Repr, DecidableEq, Inhabited

/-- The bracket that opens a span. -/
inductive Delimiter where
  | paren
  | bracket
  | brace
  /-- A bracket of a span built from outside; no rule of the language reads
  it. -/
  | other (text : String)
deriving Repr, DecidableEq

namespace Delimiter

/-- The opening bracket. -/
def opening : Delimiter → String
  | .paren => "("
  | .bracket => "["
  | .brace => "\x7b"
  | .other text => text

/-- The delimiter of an opening bracket. -/
def ofOpening (text : String) : Delimiter :=
  if text = "(" then .paren
  else if text = "[" then .bracket
  else if text = "\x7b" then .brace
  else .other text

end Delimiter

/-- A node of a source text. -/
inductive Node where
  /-- A number token, its radix suffix split off. -/
  | number (pos : Position) (text suffix : String)
  | word (pos : Position) (text : String)
  /-- A quoted string with its quotes. -/
  | quoted (pos : Position) (raw : String)
  | symbol (pos : Position) (text : String)
  | span (pos : Position) (delimiter : Delimiter) (body : List Node)
  | value (pos : Position) (value : Value)
deriving Repr, Inhabited

namespace Node

/-- Where a node starts. -/
def pos : Node → Position
  | .number p _ _ => p
  | .word p _ => p
  | .quoted p _ => p
  | .symbol p _ => p
  | .span p _ _ => p
  | .value p _ => p

/-- Whether a node carries a value already. -/
def isValue : Node → Bool
  | .value .. => true
  | _ => false

/-- Whether a node is a symbol. -/
def isSymbol : Node → Bool
  | .symbol .. => true
  | _ => false

/-- Whether a node is the symbol with this text. -/
def isSymbolText (text : String) : Node → Bool
  | .symbol _ t => t == text
  | _ => false

/-- How a node is named in a complaint. -/
def describe : Node → String
  | .symbol _ text => s!"symbol \"{text}\""
  | .word _ text => s!"word \"{text}\""
  | .number _ text suffix => s!"number \"{text}{suffix}\""
  | .quoted .. => "string"
  | .span _ delimiter _ => "\"" ++ delimiter.opening ++ "\""
  | .value .. => "value"

/-- Cut a node list at the symbols `text`. The spans inside are single nodes,
so only separators at this level count. -/
def splitOnFrom (text : String) (part : List Node) : List Node → List (List Node)
  | [] => [part.reverse]
  | n :: rest =>
    if n.isSymbolText text then part.reverse :: splitOnFrom text [] rest
    else splitOnFrom text (n :: part) rest

/-- The parts of a node list between the symbols `text`; an empty list has no
parts. -/
def splitOn (text : String) : List Node → List (List Node)
  | [] => []
  | nodes => splitOnFrom text [] nodes

end Node

/-- The text between the quotes of a quoted string. A string that ran to the
end of its source has no closing quote. -/
def unquote (raw : String) : String :=
  match raw.toList with
  | [] => ""
  | q :: rest =>
    if rest.getLast? = some q then String.ofList rest.dropLast else String.ofList rest

end RuleScript
