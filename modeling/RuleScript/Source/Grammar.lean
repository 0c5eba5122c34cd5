/-
# The grammar of source texts

A grammar of rules that refer to each other, with choices that take the first
alternative that fits and repetitions that take all they can. It finds the tokens
of a source text and the nesting of its brackets at once; statements, operators and
calls are left to the evaluation.

The tree of a text is an `Outline`: a rule that makes a record tells its tag and
where it starts, and has the records inside it as children or, as a leaf, its text.
Other rules hand on the records inside them, or leave nothing.

Rules call each other on the stack of the host. `Production.level` gives the rules with a
number of calls inside each other, and a text that needs more exhausts them. An open
span takes two calls, so the room for spans says how many there are.

Key definitions: `Cursor`, `Grammar.Pattern`, `Grammar.Pattern.match?`,
`Grammar.Production`, `Grammar.Expr`, `Grammar.Production.body`, `Grammar.Expr.parse`,
`Grammar.Production.level`.
-/
import RuleScript.Source.Outline
import RuleScript.Text.Blank
import RuleScript.Text.Search
import RuleScript.Text.Word

namespace RuleScript

open RuleScript.Text

/-- A place in a source text: line and column from one, offset from zero. -/
structure Cursor where
  line : Nat
  column : Nat
  offset : Nat
deriving Repr, DecidableEq

namespace Cursor

/-- The start of a text. -/
def start : Cursor := ⟨1, 1, 0⟩

/-- The place after one character; only a line feed ends a line. -/
def next (k : Cursor) (c : Char) : Cursor :=
  if c = '\n' then ⟨k.line + 1, 1, k.offset + 1⟩ else ⟨k.line, k.column + 1, k.offset + 1⟩

/-- The place after some characters. -/
def advance (k : Cursor) (cs : List Char) : Cursor := cs.foldl next k

/-- The place as a position. -/
def position (k : Cursor) : Position := ⟨some k.line, some k.column, k.offset⟩

end Cursor

/-! ### Characters and brackets -/

/-- A quote of a string. -/
def isQuote (c : Char) : Bool := c = '\'' || c = '"' || c = '\x60'

/-- A bracket of a span. -/
def isBracket (c : Char) : Bool :=
  c = '(' || c = ')' || c = '[' || c = ']' || c = '\x7b' || c = '\x7d'

/-- A digit that starts a number. -/
def isNumberStart (c : Char) : Bool := '0' ≤ c && c ≤ '9'

/-- A character of a number token. -/
def isNumberChar (c : Char) : Bool :=
  ('0' ≤ c && c ≤ '9') || ('a' ≤ c && c ≤ 'z') || ('A' ≤ c && c ≤ 'Z') || c = '.'

/-- The closing bracket. -/
def Delimiter.closing : Delimiter → String
  | .paren => ")"
  | .bracket => "]"
  | .brace => "\x7d"
  | .other text => text

/-- The tag of a span. -/
def Delimiter.tag : Delimiter → String
  | .paren => "paren"
  | .bracket => "bracket"
  | .brace => "brace"
  | .other text => text

namespace Grammar

/-! ### Patterns -/

/-- A pattern of characters. -/
inductive Pattern where
  /-- A character of a class. -/
  | one (p : Char → Bool)
  | both (a b : Pattern)
  | either (a b : Pattern)
  /-- As often as possible; the pattern takes at least a character each time. -/
  | many (a : Pattern)
  | maybe (a : Pattern)
  | finish

namespace Pattern

/-- Repeat a step as often as `k` can go on behind it, at most `fuel` times. -/
def repeating (step : (List Char → Option (List Char)) → List Char → Option (List Char))
    (k : List Char → Option (List Char)) : (fuel : Nat) → List Char → Option (List Char)
  | 0, cs => k cs
  | fuel + 1, cs =>
    match step (repeating step k fuel) cs with
    | some rest => some rest
    | none => k cs

/-- Match a pattern at the front of a text such that `k` can go on behind it. The
first way that is tried and fits is taken. -/
def run : Pattern → (k : List Char → Option (List Char)) → List Char → Option (List Char)
  | .one p, k, cs =>
    match cs with
    | c :: cs => if p c then k cs else none
    | [] => none
  | .both a b, k, cs => a.run (b.run k) cs
  | .either a b, k, cs =>
    match a.run k cs with
    | some rest => some rest
    | none => b.run k cs
  | .many a, k, cs => repeating a.run k cs.length cs
  | .maybe a, k, cs =>
    match a.run k cs with
    | some rest => some rest
    | none => k cs
  | .finish, k, cs => if cs.isEmpty then k cs else none

/-- The text behind a pattern at the front of a text. -/
def match? (p : Pattern) (cs : List Char) : Option (List Char) := p.run some cs

/-- A character on its own. -/
def char (c : Char) : Pattern := .one (· = c)

/-- Two characters, one after the other. -/
def pair (a b : Char) : Pattern := .both (.char a) (.char b)

end Pattern

/-- A part of a string with a quote: a backslash with the character that it keeps,
or any other character but the quote. -/
def stringPart (q : Char) : Pattern :=
  .either (.both (.char '\\') (.maybe (.one fun _ => true))) (.one fun c => c ≠ q && c ≠ '\\')

/-- A string with a quote; the closing quote may be missing where the text ends. -/
def stringPattern (q : Char) : Pattern :=
  .both (.char q) (.both (.many (stringPart q)) (.maybe (.char q)))

/-- A symbol: one of seven pairs, or else a character of no other class. -/
def symbolPattern : Pattern :=
  .either (.pair '*' '*') <| .either (.pair '=' '=') <| .either (.pair '!' '=') <|
    .either (.pair '<' '=') <| .either (.pair '>' '=') <| .either (.pair '&' '&') <|
      .either (.pair '|' '|') <|
        .one fun c => !isSpace c && !isWordChar c && !isBracket c && !isQuote c

/-! ### Rules -/

/-- The rules of the grammar. -/
inductive Production where
  | program | node
  | span (d : Delimiter)
  | string (tag : String) (quote : Char)
  | number | word | symbol | blank | endOfInput

/-- An expression of the grammar. -/
inductive Expr where
  | rule (r : Production)
  /-- A text that leaves nothing. -/
  | literal (text : List Char)
  | regex (p : Pattern)
  | sequence (parts : List Expr)
  | choice (parts : List Expr)
  | zeroOrMore (part : Expr)

/-- What a rule makes of what it matched. -/
inductive Ast where
  /-- A record with the records inside as children. -/
  | record
  /-- A record with the text. -/
  | leaf
  /-- The records inside. -/
  | promote
  /-- Nothing. -/
  | discard

namespace Production

/-- The tag of a rule's record. -/
def tag : Production → String
  | .program => "program"
  | .node => "node"
  | .span d => d.tag
  | .string tag _ => tag
  | .number => "number"
  | .word => "word"
  | .symbol => "symbol"
  | .blank => "_"
  | .endOfInput => "end_of_input"

/-- What a rule makes of what it matched. -/
def ast : Production → Ast
  | .program | .span _ => .record
  | .node => .promote
  | .string .. | .number | .word | .symbol => .leaf
  | .blank | .endOfInput => .discard

/-- What a node may be. -/
def alternatives : List Production :=
  [.span .paren, .span .bracket, .span .brace, .string "single_string" '\'',
    .string "double_string" '"', .string "backtick_string" '\x60', .number, .word, .symbol]

/-- Nodes with blanks behind each. -/
def nodes : Expr := .zeroOrMore (.sequence [.rule .node, .rule .blank])

/-- The expression of a rule. -/
def body : Production → Expr
  | .program => .sequence [.rule .blank, nodes, .rule .endOfInput]
  | .node => .choice (alternatives.map .rule)
  | .span d => .sequence [.literal d.opening.toList, .rule .blank, nodes, .literal d.closing.toList]
  | .string _ q => .regex (stringPattern q)
  | .number => .regex (.both (.one isNumberStart) (.many (.one isNumberChar)))
  | .word => .regex (.both (.one isWordStart) (.many (.one isWordChar)))
  | .symbol => .regex symbolPattern
  | .blank => .regex (.many (.one isSpace))
  | .endOfInput => .regex .finish

end Production

/-! ### Parsing -/

/-- What parsing gives. -/
inductive ParseResult where
  /-- The stack of the host was exhausted. -/
  | exhausted
  | failed
  /-- The records found, and where the text goes on. -/
  | found (trees : List Outline) (place : Cursor) (rest : List Char)

/-- Parsing a text from a place on. -/
abbrev Parser := Cursor → List Char → ParseResult

namespace Parser

/-- Go on with a parser behind what was found. -/
def behind (p : Parser) : ParseResult → ParseResult
  | .found trees place rest =>
    match p place rest with
    | .found more place rest => .found (trees ++ more) place rest
    | result => result
  | result => result

/-- Repeat a parser until it fails, at most `fuel` times. -/
def repeating (p : Parser) : (fuel : Nat) → Parser
  | 0, place, cs => .found [] place cs
  | fuel + 1, place, cs =>
    match p place cs with
    | .found trees place rest => (repeating p fuel).behind (.found trees place rest)
    | .failed => .found [] place cs
    | .exhausted => .exhausted

end Parser

/-- The text in front of its rest. -/
def textBefore (rest cs : List Char) : List Char := cs.take (cs.length - rest.length)

mutual

/-- Parse by an expression, given the rules. -/
def Expr.parse (rules : Production → Parser) : Expr → Parser
  | .rule r, place, cs => rules r place cs
  | .literal text, place, cs =>
    match dropPiece? text cs with
    | some rest => .found [] (place.advance text) rest
    | none => .failed
  | .regex p, place, cs =>
    match p.match? cs with
    | some rest => .found [] (place.advance (textBefore rest cs)) rest
    | none => .failed
  | .sequence parts, place, cs => Expr.parseAll rules parts place cs
  | .choice parts, place, cs => Expr.parseFirst rules parts place cs
  | .zeroOrMore part, place, cs => Parser.repeating (part.parse rules) cs.length place cs

/-- Parse by expressions one after the other. -/
def Expr.parseAll (rules : Production → Parser) : List Expr → Parser
  | [], place, cs => .found [] place cs
  | e :: es, place, cs => Parser.behind (Expr.parseAll rules es) (e.parse rules place cs)

/-- Parse by the first expression that fits. -/
def Expr.parseFirst (rules : Production → Parser) : List Expr → Parser
  | [], _, _ => .failed
  | e :: es, place, cs =>
    match e.parse rules place cs with
    | .failed => Expr.parseFirst rules es place cs
    | result => result

end

namespace Production

/-- The records that a rule makes, from where it starts, the text it matched, and
the records inside. -/
def trees (r : Production) (place : Cursor) (text : List Char) (inside : List Outline) : List Outline :=
  match r.ast with
  | .record => [.record (.named r.tag) none (some place.line) (some place.column) (.list inside)]
  | .leaf =>
    [.record (.named r.tag) (some (String.ofList text)) (some place.line) (some place.column) (.list [])]
  | .promote => inside
  | .discard => []

/-- Parse by a rule, given the rules it refers to. -/
def parse (rules : Production → Parser) (r : Production) : Parser := fun place cs =>
  match r.body.parse rules place cs with
  | .found inside place' rest => .found (r.trees place (textBefore rest cs) inside) place' rest
  | result => result

/-- The rules with so many calls inside each other. -/
def level : (calls : Nat) → Production → Parser
  | 0, _ => fun _ _ => .exhausted
  | calls + 1, r => r.parse (level calls)

end Production

end Grammar

end RuleScript
