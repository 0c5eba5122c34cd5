/-
# Tokens and brackets

A source text read from left to right, without its grammar. `tokens` cuts it into
tokens, skipping the space between them:

* a quote opens a string, in which a backslash keeps the next character, and
  which runs to the matching quote or to the end of the text;
* an ASCII digit starts a number over ASCII letters, digits and points;
* a word character that is no digit starts a word;
* the brackets open and close spans;
* seven pairs of characters are one symbol, and any other character that is
  no word character is a symbol of its own.

A digit of another script starts no token. `assemble` turns the tokens into nodes
with a stack of the spans that are open. What the grammar makes of a text is the
same (`RuleScript.parse_of_scansTo`).

Key definitions: `Lexeme`, `Token`, `lexeme?`, `tokens`, `assemble`.
-/
import RuleScript.Source.Tree

namespace RuleScript

open RuleScript.Text

/-! ### Tokens -/

/-- What a token is. -/
inductive Lexeme where
  | number (text : List Char)
  | word (text : List Char)
  | quoted (raw : List Char)
  | symbol (text : List Char)
  | opening (delimiter : Delimiter)
  | closing (delimiter : Delimiter)
deriving Repr, DecidableEq

/-- A token and where it starts. -/
structure Token where
  cursor : Cursor
  lexeme : Lexeme
deriving Repr, DecidableEq

/-- Whether two characters make one symbol. -/
def isPair (a b : Char) : Bool :=
  match a, b with
  | '*', '*' | '=', '=' | '!', '=' | '<', '=' | '>', '=' | '&', '&' | '|', '|' => true
  | _, _ => false

/-- The rest of a string after its opening quote `q`, up to and with the
closing quote or to the end of the text. -/
def stringTail (q : Char) : List Char → List Char
  | [] => []
  | '\\' :: [] => ['\\']
  | '\\' :: c :: cs => '\\' :: c :: stringTail q cs
  | c :: cs => if c = q then [c] else c :: stringTail q cs

/-- The bracket that a character is. -/
def bracket? : Char → Option Lexeme
  | '(' => some (.opening .paren)
  | '[' => some (.opening .bracket)
  | '\x7b' => some (.opening .brace)
  | ')' => some (.closing .paren)
  | ']' => some (.closing .bracket)
  | '\x7d' => some (.closing .brace)
  | _ => none

/-- The token at the front of a text that starts with `c`, with its
characters; `none` if `c` starts no token. -/
def lexeme? (c : Char) (cs : List Char) : Option (Lexeme × List Char) :=
  match bracket? c with
  | some b => some (b, [c])
  | none =>
    if isQuote c then
      let raw := c :: stringTail c cs
      some (.quoted raw, raw)
    else if '0' ≤ c ∧ c ≤ '9' then
      let text := c :: cs.takeWhile isNumberChar
      some (.number text, text)
    else if isWordStart c then
      let text := c :: cs.takeWhile isWordChar
      some (.word text, text)
    else if isWordChar c || isSpace c then none
    else
      match cs with
      | d :: _ => if isPair c d then some (.symbol [c, d], [c, d]) else some (.symbol [c], [c])
      | [] => some (.symbol [c], [c])

/-- The tokens of a text from a place on; `none` if some character starts no
token. Every token has a character, so the length of the text is fuel
enough. -/
def tokensFrom : (fuel : Nat) → Cursor → List Char → Option (List Token)
  | _, _, [] => some []
  | 0, _, _ :: _ => none
  | fuel + 1, k, c :: cs =>
    if isSpace c then tokensFrom fuel (k.next c) cs
    else
      match lexeme? c cs with
      | none => none
      | some (x, text) =>
        (tokensFrom fuel (k.advance text) ((c :: cs).drop text.length)).map (⟨k, x⟩ :: ·)

/-- The tokens of a source text. -/
def tokens (source : String) : Option (List Token) :=
  tokensFrom source.toList.length .start source.toList

/-! ### Brackets -/

/-- A span that is still open: its bracket, and the nodes before it, last
first. -/
structure OpenSpan where
  pos : Position
  delimiter : Delimiter
  before : List Node

/-- Build nodes from tokens, with room for so many open spans, given the spans still
open (innermost first) and the nodes so far of the innermost one, last first. -/
def assemble (spans : Nat) : List Token → List OpenSpan → List Node → Except ParseError (List Node)
  | [], [], done => .ok done.reverse
  | [], _ :: _, _ => .error .malformed
  | t :: rest, stack, done =>
    let pos := t.cursor.position
    match t.lexeme with
    | .opening d =>
      if spans ≤ stack.length then .error .tooDeep
      else assemble spans rest (⟨pos, d, done⟩ :: stack) []
    | .closing d =>
      match stack with
      | [] => .error .malformed
      | s :: stack =>
        if s.delimiter = d then assemble spans rest stack (.span s.pos d done.reverse :: s.before)
        else .error .malformed
    | .number text => assemble spans rest stack (.ofNumber pos text :: done)
    | .word text => assemble spans rest stack (.word pos (String.ofList text) :: done)
    | .quoted raw => assemble spans rest stack (.quoted pos (String.ofList raw) :: done)
    | .symbol text => assemble spans rest stack (.symbol pos (String.ofList text) :: done)

end RuleScript
