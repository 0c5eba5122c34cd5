/-
# Reading JSON

The grammar is JSON with the three words `NaN`, `Infinity` and `-Infinity`
for numbers. A malformed text is refused at its first fault, which is given
by the text that is left there; line and column are counted from it. A list or
table takes a frame of the host's stack.

Key definitions: `Json.Cause`, `Json.Refusal`, `Json.value`, `Json.read`.
-/
import RuleScript.Data.Datum
import RuleScript.Number.Numeral
import RuleScript.Table
import RuleScript.Text.Search

namespace RuleScript.Json

open RuleScript.Number (takeDigits digitsValue ofDecimal signed isPlainDigit)

/-- What is wrong with a JSON text. -/
inductive Cause where
  | value
  | extra
  | propertyName
  | colon
  | comma
  | unterminated
  | control
  | escape
  | unicodeEscape
  | byteOrderMark
deriving Repr, DecidableEq

/-- The message of a cause. -/
def Cause.message : Cause → String
  | .value => "Expecting value"
  | .extra => "Extra data"
  | .propertyName => "Expecting property name enclosed in double quotes"
  | .colon => "Expecting ':' delimiter"
  | .comma => "Expecting ',' delimiter"
  | .unterminated => "Unterminated string starting at"
  | .control => "Invalid control character at"
  | .escape => "Invalid \\escape"
  | .unicodeEscape => "Invalid \\uXXXX escape"
  | .byteOrderMark => "Unexpected UTF-8 BOM (decode using utf-8-sig)"

/-- Why a text is not read. -/
inductive Refusal where
  /-- It is malformed; the text that is left at the fault is given. -/
  | malformed (cause : Cause) (rest : List Char)
  /-- It holds a decimal integer of too many digits. -/
  | integerTooLong (digits : Nat)
  /-- It nests too deep. -/
  | tooDeep
deriving Repr, DecidableEq

/-- A value read, and the text that is left. -/
abbrev Reading (α : Type) := Except Refusal (α × List Char)

/-- A blank of JSON. -/
def isBlank (c : Char) : Bool := c = ' ' || c = '\t' || c = '\n' || c = '\r'

/-- Skip blanks. -/
def skip (cs : List Char) : List Char := cs.dropWhile isBlank

/-- Four hexadecimal digits at the front of a text. -/
def hexDigits? : List Char → Option (Nat × List Char)
  | a :: b :: c :: d :: rest => do
    let digit (c : Char) : Option Nat :=
      (Text.radixDigit? c).bind fun n => if n < 16 then some n else none
    return (digitsValue 16 [← digit a, ← digit b, ← digit c, ← digit d], rest)
  | _ => none

/-- The character of a code point; the replacement character for half of a
pair. -/
def scalar (n : Nat) : Char := if n.isValidChar then Char.ofNat n else '\ufffd'

/-- The second half of a pair of escapes for one character. -/
def lowHalf? (high : Nat) : List Char → Except Unit (Option (Char × List Char))
  | '\\' :: 'u' :: rest =>
    if rest.length < 5 ∨ high < 0xD800 ∨ 0xDC00 ≤ high then .ok none
    else
      match hexDigits? rest with
      | none => .error ()
      | some (low, rest) =>
        if 0xDC00 ≤ low ∧ low < 0xE000 then
          .ok (some (Char.ofNat (0x10000 + (high - 0xD800) * 0x400 + (low - 0xDC00)), rest))
        else .ok none
  | _ => .ok none

/-- The character that a letter after a backslash stands for. -/
def simpleEscape? : Char → Option Char
  | '"' => some '"'
  | '\\' => some '\\'
  | '/' => some '/'
  | 'b' => some '\x08'
  | 'f' => some '\x0c'
  | 'n' => some '\n'
  | 'r' => some '\r'
  | 't' => some '\t'
  | _ => none

/-- The characters of a string up to its closing quote. `start` is the text
from the opening quote on. -/
def stringBody (start : List Char) : (fuel : Nat) → (taken : List Char) → List Char →
    Reading String
  | 0, _, _ => .error (.malformed .unterminated start)
  | _, _, [] => .error (.malformed .unterminated start)
  | fuel + 1, taken, c :: cs =>
    if c = '"' then .ok (String.ofList taken.reverse, cs)
    else if c = '\\' then
      match cs with
      | [] => .error (.malformed .unterminated start)
      | 'u' :: digits =>
        if digits.length < 5 then .error (.malformed .unicodeEscape cs)
        else
          match hexDigits? digits with
          | none => .error (.malformed .unicodeEscape cs)
          | some (n, rest) =>
            match lowHalf? n rest with
            | .error () => .error (.malformed .unicodeEscape (rest.drop 1))
            | .ok (some (d, rest)) => stringBody start fuel (d :: taken) rest
            | .ok none => stringBody start fuel (scalar n :: taken) rest
      | d :: rest =>
        match simpleEscape? d with
        | some e => stringBody start fuel (e :: taken) rest
        | none => .error (.malformed .escape (c :: cs))
    else if c.toNat < 0x20 then .error (.malformed .control (c :: cs))
    else stringBody start fuel (c :: taken) cs

/-- A string whose opening quote is at the front. -/
def string (cs : List Char) : Reading String := stringBody cs cs.length [] (cs.drop 1)

/-- The ASCII digits at the front of a text, and the rest. -/
def plainDigits (cs : List Char) : List Nat × List Char :=
  ((cs.takeWhile isPlainDigit).map (fun c => c.toNat - '0'.toNat), cs.dropWhile isPlainDigit)

/-- An exponent at the front of a text, if there is one with a digit. -/
def exponent? : List Char → Option (Int × List Char)
  | c :: cs =>
    if c = 'e' ∨ c = 'E' then
      let (negative, cs) := match cs with
        | '-' :: d :: cs => (true, d :: cs)
        | '+' :: d :: cs => (false, d :: cs)
        | cs => (false, cs)
      match plainDigits cs with
      | ([], _) => none
      | (digits, rest) => some (signed negative (digitsValue 10 digits), rest)
    else none
  | [] => none

/-- The digits before the point: a zero alone, or digits that do not start
with zero. -/
def wholeDigits? : List Char → Option (List Nat × List Char)
  | '0' :: cs => some ([0], cs)
  | cs =>
    match plainDigits cs with
    | ([], _) => none
    | r => some r

/-- The digits behind a point, if there is one with a digit behind it. -/
def fractionDigits? : List Char → Option (List Nat × List Char)
  | '.' :: cs =>
    match plainDigits cs with
    | ([], _) => none
    | r => some r
  | _ => none

/-- A number at the front of a text. -/
def number (start : List Char) : Reading Datum :=
  let (negative, cs) := match start with
    | '-' :: cs => (true, cs)
    | cs => (false, cs)
  match wholeDigits? cs with
  | none => .error (.malformed .value start)
  | some (whole, cs) =>
    let (fraction, cs) := (fractionDigits? cs).elim (none, cs) fun (f, cs) => (some f, cs)
    let (exp, cs) := (exponent? cs).elim (none, cs) fun (e, cs) => (some e, cs)
    match fraction, exp with
    | none, none =>
      if Number.integerDigitLimit < whole.length then .error (.integerTooLong whole.length)
      else .ok (.integer (signed negative (digitsValue 10 whole)), cs)
    | _, _ =>
      let fraction := fraction.getD []
      .ok (.number (ofDecimal negative (digitsValue 10 (whole ++ fraction))
        (exp.getD 0 - Int.ofNat fraction.length)), cs)

/-- The words that stand for data. -/
def words : List (List Char × Datum) := [
  ("null".toList, .null),
  ("true".toList, .bool true),
  ("false".toList, .bool false),
  ("NaN".toList, .number Number.nan),
  ("Infinity".toList, .number Number.infinity),
  ("-Infinity".toList, .number (-Number.infinity))]

/-- An entry written to entries in order: a later entry of the same key takes
the place of the earlier. -/
def putEntry (entries : List (String × Datum)) (k : String) (d : Datum) : List (String × Datum) :=
  Table.set entries k d

mutual

/-- A value at the front of a text; blanks before it are not skipped. -/
def value : (fuel frames : Nat) → List Char → Reading Datum
  | 0, _, cs => .error (.malformed .value cs)
  | fuel + 1, frames, cs =>
    match cs with
    | '"' :: _ => (string cs).map fun (s, rest) => (.text s, rest)
    | '[' :: rest =>
      match frames with
      | 0 => .error .tooDeep
      | frames + 1 =>
        match skip rest with
        | ']' :: rest => .ok (.list [], rest)
        | rest => (items fuel frames [] rest).map fun (ds, rest) => (.list ds, rest)
    | '\x7b' :: rest =>
      match frames with
      | 0 => .error .tooDeep
      | frames + 1 =>
        match skip rest with
        | '\x7d' :: rest => .ok (.table [], rest)
        | rest => (entries fuel frames [] rest).map fun (es, rest) => (.table es, rest)
    | cs =>
      match words.findSome? fun (w, d) => (Text.dropPiece? w cs).map fun rest => (d, rest) with
      | some r => .ok r
      | none => number cs

/-- The elements of a list up to its end, after `done`, last first. -/
def items : (fuel frames : Nat) → (done : List Datum) → List Char → Reading (List Datum)
  | 0, _, _, cs => .error (.malformed .value cs)
  | fuel + 1, frames, done, cs =>
    match value fuel frames cs with
    | .error e => .error e
    | .ok (d, rest) =>
      match skip rest with
      | ']' :: rest => .ok ((d :: done).reverse, rest)
      | ',' :: rest => items fuel frames (d :: done) (skip rest)
      | rest => .error (.malformed .comma rest)

/-- The entries of a table up to its end, after `done`. -/
def entries : (fuel frames : Nat) → (done : List (String × Datum)) → List Char →
    Reading (List (String × Datum))
  | 0, _, _, cs => .error (.malformed .value cs)
  | fuel + 1, frames, done, cs =>
    match cs with
    | '"' :: _ =>
      match string cs with
      | .error e => .error e
      | .ok (k, rest) =>
        match skip rest with
        | ':' :: rest =>
          match value fuel frames (skip rest) with
          | .error e => .error e
          | .ok (d, rest) =>
            match skip rest with
            | '\x7d' :: rest => .ok (putEntry done k d, rest)
            | ',' :: rest => entries fuel frames (putEntry done k d) (skip rest)
            | rest => .error (.malformed .comma rest)
        | rest => .error (.malformed .colon rest)
    | cs => .error (.malformed .propertyName cs)

end

/-- Data from a whole text. Every value has a character, so the length of the
text is fuel enough. -/
def read (frames : Nat) (text : String) : Except Refusal Datum :=
  let cs := text.toList
  if cs.head? = some '\ufeff' then .error (.malformed .byteOrderMark cs)
  else
    match value (cs.length + 1) frames (skip cs) with
    | .error e => .error e
    | .ok (d, rest) =>
      match skip rest with
      | [] => .ok d
      | rest => .error (.malformed .extra rest)

/-- The message of a fault in a text, with its line and column. -/
def faultMessage (text : String) (cause : Cause) (rest : List Char) : String :=
  let cs := text.toList
  let before := cs.take (cs.length - rest.length)
  let line := before.count '\n' + 1
  let column := (before.reverse.takeWhile (· ≠ '\n')).length + 1
  "invalid JSON: " ++ cause.message ++ " at line " ++ Number.integerText line ++ " column "
    ++ Number.integerText column

end RuleScript.Json
