/-
# Quoted text

The quoted form of a text for diagnostics. Single quotes are used unless the
text holds a single quote and no double quote. A backslash, the quote in use
and everything that does not show as itself is escaped.

Key definitions: `quoted`.
-/
import RuleScript.Text.Range
import RuleScript.Text.PrintableTable

namespace RuleScript.Text

/-- A character that shows as itself. -/
def isPrintable (c : Char) : Bool := inRanges printableRanges c.toNat

/-- The lower-case hexadecimal digit of a number below sixteen. -/
def hexDigit (n : Nat) : Char :=
  if n < 10 then Char.ofNat ('0'.toNat + n) else Char.ofNat ('a'.toNat + n - 10)

/-- The last `width` hexadecimal digits of `n`. -/
def hex : (width : Nat) → Nat → List Char
  | 0, _ => []
  | w + 1, n => hex w (n / 16) ++ [hexDigit (n % 16)]

/-- One character inside quotes `q`. -/
def quoteChar (q : Char) (c : Char) : List Char :=
  if c = q ∨ c = '\\' then ['\\', c]
  else if c = '\t' then ['\\', 't']
  else if c = '\n' then ['\\', 'n']
  else if c = '\r' then ['\\', 'r']
  else if isPrintable c then [c]
  else if c.toNat < 0x100 then '\\' :: 'x' :: hex 2 c.toNat
  else if c.toNat < 0x10000 then '\\' :: 'u' :: hex 4 c.toNat
  else '\\' :: 'U' :: hex 8 c.toNat

/-- The quoted form of a text. -/
def quoted (s : String) : String :=
  let cs := s.toList
  let q := if cs.contains '\'' && !cs.contains '"' then '"' else '\''
  String.ofList (q :: cs.flatMap (quoteChar q) ++ [q])

end RuleScript.Text
