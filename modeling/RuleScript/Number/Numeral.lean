/-
# Reading numerals

A decimal numeral is an optional sign, digits with an optional point (or a
point and digits), and an optional exponent. `Numeral.read?` recognises one
and `Numeral.toNumber` gives the nearest double. Around it stand the wider
texts that a number literal and an integer setting may have: blanks at the
ends, single underscores between digits, digits of any script.

Key definitions: `Numeral`, `Numeral.read?`, `Numeral.toNumber`,
`readNumber?`, `readInteger`.
-/
import RuleScript.Text.Blank
import RuleScript.Text.Digit
import RuleScript.Text.Quoted
import RuleScript.Number.Layout

namespace RuleScript.Number

open RuleScript.Text

/-- A decimal numeral: the digits of its whole part and fraction, and its
exponent. -/
structure Numeral where
  negative : Bool
  whole : List Nat
  fraction : List Nat
  exponent : Int
deriving Repr, DecidableEq

/-- The number that digits write in a base, after the digits `n`. -/
def digitsValueFrom (base : Nat) (n : Nat) (digits : List Nat) : Nat :=
  digits.foldl (fun a d => a * base + d) n

/-- The number that digits write in a base. -/
def digitsValue (base : Nat) (digits : List Nat) : Nat := digitsValueFrom base 0 digits

/-- The digits at the front of a text, and the rest. -/
def takeDigits : List Char → List Nat × List Char
  | [] => ([], [])
  | c :: cs =>
    match digitValue? c with
    | some d => ((d :: (takeDigits cs).1), (takeDigits cs).2)
    | none => ([], c :: cs)

/-- An optional sign at the front of a text. -/
def takeSign : List Char → Bool × List Char
  | '-' :: cs => (true, cs)
  | '+' :: cs => (false, cs)
  | cs => (false, cs)

/-- An exponent that takes the whole text: a mark, an optional sign and
digits, or nothing at all. -/
def readExponent? : List Char → Option Int
  | [] => some 0
  | c :: cs =>
    if c = 'e' ∨ c = 'E' then
      let (negative, cs) := takeSign cs
      match takeDigits cs with
      | (d :: ds, []) => some (signed negative (digitsValue 10 (d :: ds)))
      | _ => none
    else none

/-- Recognise a decimal numeral that takes the whole text. -/
def Numeral.read? (cs : List Char) : Option Numeral :=
  let (negative, cs) := takeSign cs
  match takeDigits cs with
  | ([], '.' :: cs) =>
    match takeDigits cs with
    | ([], _) => none
    | (fraction, cs) => (readExponent? cs).map fun e => ⟨negative, [], fraction, e⟩
  | ([], _) => none
  | (whole, '.' :: cs) =>
    let (fraction, cs) := takeDigits cs
    (readExponent? cs).map fun e => ⟨negative, whole, fraction, e⟩
  | (whole, cs) => (readExponent? cs).map fun e => ⟨negative, whole, [], e⟩

/-- The double nearest to `± coefficient * 10 ^ exponent`. Beyond `10 ^ 400`
that is an infinity, and below `10 ^ -400` a zero; the number of digits is
estimated from above and from below by the number of binary digits. -/
def ofDecimal (negative : Bool) (coefficient : Nat) (exponent : Int) : Float :=
  let most : Int := exponent + Int.ofNat (Nat.log2 coefficient / 3)
  let least : Int := exponent + Int.ofNat (Nat.log2 coefficient * 3 / 10)
  let x :=
    if coefficient = 0 ∨ most < -400 then 0.0
    else if 400 < least then infinity
    else Float.ofScientific coefficient (exponent < 0) exponent.natAbs
  if negative then -x else x

/-- The double nearest to the number a numeral writes. -/
def Numeral.toNumber (n : Numeral) : Float :=
  ofDecimal n.negative (digitsValue 10 (n.whole ++ n.fraction))
    (n.exponent - Int.ofNat n.fraction.length)

/-- A character with its digit, if it is one, written in ASCII. -/
def plainDigit (c : Char) : Char :=
  match digitValue? c with
  | some d => Char.ofNat ('0'.toNat + d)
  | none => c

/-- An ASCII digit. -/
def isPlainDigit (c : Char) : Bool := '0' ≤ c && c ≤ '9'

/-- Take out underscores, each of which must stand between two characters
that satisfy `p`; `before` is the character to the left. -/
def dropUnderscores? (p : Char → Bool) (before : Char) : List Char → Option (List Char)
  | [] => if before = '_' then none else some []
  | c :: cs =>
    if c = '_' then
      if p before then dropUnderscores? p c cs else none
    else if before = '_' && !p c then none
    else (dropUnderscores? p c cs).map (c :: ·)

/-- The letters of a text in ASCII lower case. -/
def lowerAscii (cs : List Char) : List Char := cs.map Char.toLower

/-- A floating-point text: blanks at the ends, an optional sign, then a word
for infinity or no number, or a numeral whose digits may have underscores
between them. -/
def readNumber? (s : String) : Option Float := do
  let cs := (stripEnds isSpace s).toList.map plainDigit
  let cs ← dropUnderscores? isPlainDigit ' ' cs
  let (negative, body) := takeSign cs
  let word := String.ofList (lowerAscii body)
  if word = "inf" ∨ word = "infinity" then
    return if negative then -infinity else infinity
  else if word = "nan" then
    return nan
  else
    return (← Numeral.read? cs).toNumber

/-- Why a text is not an integer. -/
inductive IntegerError where
  | malformed
  /-- A decimal numeral of this many digits is refused. -/
  | tooLong (digits : Nat)
deriving Repr, DecidableEq

/-- The longest decimal integer that is read. -/
def integerDigitLimit : Nat := 4300

/-- The message of an integer that is too long to be written. -/
def writtenTooLong : String :=
  "Exceeds the limit (" ++ integerText integerDigitLimit
    ++ " digits) for integer string conversion; use sys.set_int_max_str_digits() to increase the limit"

/-- How much of a quoted text a message shows. -/
def shownTextLimit : Nat := 200

/-- The message of a text that is no integer in a base. -/
def IntegerError.message (base : Nat) (text : String) : IntegerError → String
  | .malformed =>
    "invalid literal for int() with base " ++ integerText base ++ ": "
      ++ String.ofList ((quoted text).toList.take shownTextLimit)
  | .tooLong digits =>
    "Exceeds the limit (" ++ integerText integerDigitLimit
      ++ " digits) for integer string conversion: value has " ++ integerText digits
      ++ " digits; use sys.set_int_max_str_digits() to increase the limit"

/-- The letter after a zero that announces a base. -/
def isBaseMark (base : Nat) (c : Char) : Bool :=
  (base = 16 && (c = 'x' || c = 'X')) || (base = 8 && (c = 'o' || c = 'O'))
    || (base = 2 && (c = 'b' || c = 'B'))

/-- Skip the announcement of a base, such as `0x`, and one underscore after
it. -/
def skipBaseMark (base : Nat) : List Char → List Char
  | '0' :: m :: cs =>
    if isBaseMark base m then
      match cs with
      | '_' :: cs => cs
      | cs => cs
    else '0' :: m :: cs
  | cs => cs

/-- The digit of a base that a character is. -/
def baseDigit? (base : Nat) (c : Char) : Option Nat := (radixDigit? c).filter (· < base)

/-- The text from its first character that is neither a digit of a base nor
an underscore. -/
def afterDigits (base : Nat) (cs : List Char) : List Char :=
  cs.dropWhile fun c => c = '_' || (baseDigit? base c).isSome

/-- The digits that a text starts with, and single underscores between
them. -/
def leadingDigits? (base : Nat) (cs : List Char) : Option (List Nat) := do
  let run := cs.takeWhile fun c => c = '_' || (baseDigit? base c).isSome
  let digits ← dropUnderscores? (fun c => (baseDigit? base c).isSome) ' ' run
  return digits.filterMap (baseDigit? base)

/-- An integer text in a base: blanks at the ends, an optional sign, an
optional announcement of the base, digits with single underscores between
them. More decimal digits than the limit are refused, whatever follows. -/
def readInteger (base : Nat) (s : String) : Except IntegerError Int := do
  let cs := (stripEnds isSpace s).toList.map plainDigit
  let (negative, cs) := takeSign cs
  let cs := skipBaseMark base cs
  let some digits := leadingDigits? base cs
    | throw .malformed
  if base = 10 ∧ integerDigitLimit < digits.length then throw (.tooLong digits.length)
  if digits.isEmpty ∨ afterDigits base cs ≠ [] then throw .malformed
  return signed negative (digitsValue base digits)

end RuleScript.Number
