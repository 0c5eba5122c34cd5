/-
# Characters of names

A word is made of word characters and does not start with a digit. The
digits meant here are those of the tables of word characters; the digits
that a numeral is read with are a smaller class.

Key definitions: `isWordChar`, `isWordDigit`, `isWordStart`.
-/
import RuleScript.Text.Range
import RuleScript.Text.WordTable

namespace RuleScript.Text

/-- A character that may stand in a word. -/
def isWordChar (c : Char) : Bool := inRanges wordRanges c.toNat

/-- A word character that is a decimal digit. -/
def isWordDigit (c : Char) : Bool := inRanges wordDigitRanges c.toNat

/-- A character that may start a word: a word character that is no digit. -/
def isWordStart (c : Char) : Bool := isWordChar c && !isWordDigit c

end RuleScript.Text
