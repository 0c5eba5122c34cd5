/-
# Blanks and lines

Three classes of white characters, each a table:

* `isSpace` separates tokens of a source text;
* `isBlank` is what trimming takes off the ends of a text: the same, and the
  four information separators;
* `isLineBreak` ends a line of a displayed text.

`lines` cuts a text at its line breaks; a carriage return and the line feed
after it are one break, and a break at the very end opens no further line.

Key definitions: `isSpace`, `isBlank`, `isLineBreak`, `trim`, `lines`.
-/
import RuleScript.Text.Range

namespace RuleScript.Text

/-- Closed ranges of the characters that separate tokens. -/
def spaceRanges : Array (Nat × Nat) := #[
  (0x09, 0x0D), (0x20, 0x20), (0x85, 0x85), (0xA0, 0xA0), (0x1680, 0x1680),
  (0x2000, 0x200A), (0x2028, 0x2029), (0x202F, 0x202F), (0x205F, 0x205F),
  (0x3000, 0x3000)]

/-- A character that separates tokens. -/
def isSpace (c : Char) : Bool := inRanges spaceRanges c.toNat

/-- A character that trimming removes: a space or an information separator. -/
def isBlank (c : Char) : Bool :=
  isSpace c || (0x1C ≤ c.toNat && c.toNat ≤ 0x1F)

/-- A character that ends a displayed line. -/
def isLineBreak (c : Char) : Bool :=
  inRanges #[(0x0A, 0x0D), (0x1C, 0x1E), (0x85, 0x85), (0x2028, 0x2029)] c.toNat

/-- The characters without the ones at the left end that satisfy `p`. -/
def dropLeft (p : Char → Bool) (cs : List Char) : List Char := cs.dropWhile p

/-- The characters without the ones at the right end that satisfy `p`. -/
def dropRight (p : Char → Bool) (cs : List Char) : List Char :=
  (cs.reverse.dropWhile p).reverse

/-- A text without the characters at its two ends that satisfy `p`. -/
def stripEnds (p : Char → Bool) (s : String) : String :=
  String.ofList (dropRight p (dropLeft p s.toList))

/-- A text without the blanks at its two ends. -/
def trim (s : String) : String := stripEnds isBlank s

/-- Cut at line breaks, with the current line collected backwards in `line`. -/
def linesFrom (line : List Char) : List Char → List (List Char)
  | [] => if line.isEmpty then [] else [line.reverse]
  | '\r' :: '\n' :: rest => line.reverse :: linesFrom [] rest
  | c :: rest =>
    if isLineBreak c then line.reverse :: linesFrom [] rest
    else linesFrom (c :: line) rest

/-- The displayed lines of a text, without their breaks. -/
def lines (s : String) : List String :=
  (linesFrom [] s.toList).map String.ofList

/-- A text read with universal line ends: a carriage return, alone or before
a line feed, becomes a line feed. -/
def unifyLineEnds : List Char → List Char
  | [] => []
  | '\r' :: '\n' :: rest => '\n' :: unifyLineEnds rest
  | c :: rest => (if c = '\r' then '\n' else c) :: unifyLineEnds rest

end RuleScript.Text
