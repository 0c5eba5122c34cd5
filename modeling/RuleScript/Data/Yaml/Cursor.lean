/-
# Places in a YAML text

A cursor is a place in a text together with the text from there on. A line
ends at a line feed, a next-line sign, one of the two Unicode separators, or
a carriage return that no line feed follows. A byte order mark takes no
column.

A mark is a place that a message can show: it prints the line around it,
shortened to a window, with a caret below.

Key definitions: `Cursor`, `Cursor.step`, `Cursor.takeWhile`, `Mark`,
`Mark.text`.
-/
import RuleScript.Number.Layout

namespace RuleScript.Yaml

/-- A place in a text, counted from zero. -/
structure Mark where
  index : Nat
  line : Nat
  column : Nat
deriving Repr, DecidableEq, Inhabited

/-- What stands for the end of the text. -/
def finis : Char := '\x00'

/-- A character that ends a line. -/
def isBreak (c : Char) : Bool :=
  c = '\n' || c = '\r' || c = '\x85' || c = '\u2028' || c = '\u2029'

/-- The end of a line or of the text. -/
def isBreakOrEnd (c : Char) : Bool := isBreak c || c = finis

/-- A space, or the end of a line or of the text. -/
def isSpaceOrEnd (c : Char) : Bool := c = ' ' || isBreakOrEnd c

/-- A blank, or the end of a line or of the text. -/
def isBlankOrEnd (c : Char) : Bool := c = '\t' || isSpaceOrEnd c

/-- A character of a name: an ASCII letter or digit, a hyphen or an
underscore. -/
def isNameChar (c : Char) : Bool := c.isAlphanum || c = '-' || c = '_'

/-- A hexadecimal digit. -/
def isHexChar (c : Char) : Bool :=
  c.isDigit || ('a' ≤ c && c ≤ 'f') || ('A' ≤ c && c ≤ 'F')

/-- A place in a text and the text from there on. -/
structure Cursor where
  rest : List Char
  mark : Mark
deriving Repr, DecidableEq, Inhabited

namespace Cursor

/-- The start of a text. -/
def start (text : List Char) : Cursor := ⟨text, ⟨0, 0, 0⟩⟩

/-- The column of a place. -/
def column (k : Cursor) : Nat := k.mark.column

/-- The character `n` places on, or the end. -/
def peek (k : Cursor) (n : Nat) : Char := k.rest.getD n finis

/-- The character at a place, or the end. -/
def head (k : Cursor) : Char := k.peek 0

/-- The place after the character `c`, with `next` the text behind it. -/
def passing (m : Mark) (c : Char) (next : List Char) : Mark :=
  if isBreak c && !(c = '\r' && next.head? = some '\n') then ⟨m.index + 1, m.line + 1, 0⟩
  else if c = '\uFEFF' then ⟨m.index + 1, m.line, m.column⟩
  else ⟨m.index + 1, m.line, m.column + 1⟩

/-- One character on. -/
def step (k : Cursor) : Cursor :=
  match k.rest with
  | [] => k
  | c :: cs => ⟨cs, passing k.mark c cs⟩

/-- Some characters on. -/
def skip : (n : Nat) → Cursor → Cursor
  | 0, k => k
  | n + 1, k => skip n k.step

/-- The characters from here on that satisfy `p`, and the place after
them, by recursion on the text. -/
def takeFrom (p : Char → Bool) : List Char → Mark → List Char × Cursor
  | [], m => ([], ⟨[], m⟩)
  | c :: cs, m =>
    if p c then
      let (taken, k) := takeFrom p cs (passing m c cs)
      (c :: taken, k)
    else ([], ⟨c :: cs, m⟩)

/-- The characters from here on that satisfy `p`, and the place after them. -/
def takeWhile (p : Char → Bool) (k : Cursor) : List Char × Cursor := takeFrom p k.rest k.mark

/-- The place after the characters that satisfy `p`. -/
def dropWhile (p : Char → Bool) (k : Cursor) : Cursor := (k.takeWhile p).2

/-- The place after the spaces. -/
def skipSpaces (k : Cursor) : Cursor := k.dropWhile (· = ' ')

/-- The place after a comment, if one starts here. -/
def skipComment (k : Cursor) : Cursor :=
  if k.head = '#' then k.dropWhile (!isBreak ·) else k

/-- A line end here as it counts in a text, and the place after it; nothing
if the line goes on. -/
def lineBreak (k : Cursor) : List Char × Cursor :=
  match k.rest with
  | '\r' :: '\n' :: _ => (['\n'], k.step.step)
  | c :: _ =>
    if c = '\r' || c = '\n' || c = '\x85' then (['\n'], k.step)
    else if c = '\u2028' || c = '\u2029' then ([c], k.step)
    else ([], k)
  | [] => ([], k)

/-- Whether three equal characters `c` stand here with a blank or an end
behind them. -/
def atRule (k : Cursor) (c : Char) : Bool :=
  k.peek 0 = c && k.peek 1 = c && k.peek 2 = c && isBlankOrEnd (k.peek 3)

/-- Whether a rule that separates documents stands here. -/
def atSeparator (k : Cursor) : Bool := k.atRule '-' || k.atRule '.'

end Cursor

namespace Mark

/-- How far a snippet reaches to each side. -/
def reach : Nat := 37

/-- What a snippet shows of one side of a line, `cs` being that side from
the mark outward: all of it, or the part within reach less five characters;
and whether it was cut. -/
def side (cs : List Char) : List Char × Bool :=
  let line := cs.takeWhile (!isBreak ·)
  if reach ≤ line.length then (line.take (reach - 5), true) else (line, false)

/-- The line around a mark, with a caret below it. -/
def snippet (text : List Char) (m : Mark) : String :=
  let (before, cutBefore) := side (text.take m.index).reverse
  let (after, cutAfter) := side (text.drop m.index)
  let dots := " ... ".toList
  let front := (if cutBefore then dots else []) ++ before.reverse
  let line := front ++ after ++ (if cutAfter then dots else [])
  "    " ++ String.ofList line ++ "\n" ++ String.ofList (List.replicate (4 + front.length) ' ')
    ++ "^"

/-- A mark as a message shows it. -/
def text (source : List Char) (m : Mark) : String :=
  "  in \"<unicode string>\", line " ++ Number.integerText (m.line + 1) ++ ", column "
    ++ Number.integerText (m.column + 1) ++ ":\n" ++ m.snippet source

end Mark

end RuleScript.Yaml
