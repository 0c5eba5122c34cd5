/-
# Number literals

A literal has a text and a radix suffix. Without a suffix, or with `D`, it is
a decimal and may have a fraction and an exponent. With `B`, `O` or `H` it is
binary, octal or hexadecimal; digits after a point are checked and dropped.

Key definitions: `LiteralError`, `literalNumber`.
-/
import RuleScript.Number.Numeral
import RuleScript.Text.Case
import RuleScript.Fault

namespace RuleScript

/-- Why a literal is no number. -/
inductive LiteralError where
  | malformed
  | unknownSuffix
  /-- The digits pass, but the integer has no double. -/
  | internal (e : InternalError)
deriving Repr, DecidableEq

/-- The base of a radix suffix. -/
def suffixBase? (suffix : String) : Option Nat :=
  if suffix = "B" then some 2
  else if suffix = "O" then some 8
  else if suffix = "H" then some 16
  else none

/-- Whether a character in upper case is a digit of a base. -/
def isBaseDigit (base : Nat) (c : Char) : Bool :=
  if '0' ≤ c ∧ c ≤ '9' then c.toNat - '0'.toNat < base
  else 'A' ≤ c && c ≤ 'F' && c.toNat - 'A'.toNat + 10 < base

/-- A literal in a base other than ten. -/
def radixNumber (base : Nat) (text : String) : Except LiteralError Float :=
  let whole := text.toList.takeWhile (· ≠ '.')
  let fraction := (text.toList.dropWhile (· ≠ '.')).drop 1
  let digits := (whole ++ fraction).flatMap Text.upperChar
  if whole.isEmpty || !digits.all (isBaseDigit base) then .error .malformed
  else
    match Number.readInteger base (String.ofList whole) with
    | .ok n =>
      match Number.ofInt? n with
      | some x => .ok x
      | none => .error (.internal .tooLarge)
    | .error _ => .error (.internal (.badInteger base (String.ofList whole)))

/-- The number of a literal. -/
def literalNumber (text suffix : String) : Except LiteralError Float :=
  if suffix = "" ∨ suffix = "D" then
    match Number.readNumber? text with
    | some x => if Number.isNaN x then .error .malformed else .ok x
    | none => .error .malformed
  else
    match suffixBase? suffix with
    | some base => radixNumber base text
    | none => .error .unknownSuffix

end RuleScript
