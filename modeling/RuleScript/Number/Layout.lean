/-
# How numbers are written

Three forms of the same digits:

* `literal` writes the shortest digits that read back, positionally when the
  decimal exponent is at least -4 and below 16, with a fraction part always
  present; otherwise with an exponent of at least two digits and a sign;
* `display` writes what a script reads: an integer below `10 ^ 21` without a
  fraction, `NaN`, `Infinity`, and any other number as its literal;
* `compact` writes at most six significant digits, positionally when the
  decimal exponent is at least -4 and below 6, without zeros at the end.

Key definitions: `literal`, `display`, `compact`.
-/
import RuleScript.Number.Exact
import RuleScript.Number.Decimal

namespace RuleScript.Number

/-- The digits of a natural number. -/
def digitsOf (n : Nat) : List Char := Nat.toDigits 10 n

/-- The digits of an integer with its sign. -/
def integerText (n : Int) : String :=
  match n with
  | .ofNat m => String.ofList (digitsOf m)
  | .negSucc m => String.ofList ('-' :: digitsOf (m + 1))

/-- `n` zeros. -/
def zeros (n : Nat) : List Char := List.replicate n '0'

/-- Which exponents are written positionally, and whether a whole number
keeps a zero after the point. -/
structure Layout where
  lowest : Int
  limit : Int
  keepsPoint : Bool

/-- Digits with the point `before` places after the first digit's left. -/
def positional (keepsPoint : Bool) (digits : List Char) (before : Int) : List Char :=
  match before with
  | .ofNat k =>
    if k = 0 then '0' :: '.' :: digits
    else if k < digits.length then digits.take k ++ '.' :: digits.drop k
    else digits ++ zeros (k - digits.length) ++ (if keepsPoint then ['.', '0'] else [])
  | .negSucc k => '0' :: '.' :: zeros (k + 1) ++ digits

/-- An exponent with its sign and at least two digits. -/
def exponentText (e : Int) : List Char :=
  let digits := digitsOf e.natAbs
  let padded := if digits.length < 2 then '0' :: digits else digits
  (if e < 0 then '-' else '+') :: padded

/-- Digits with a point after the first and an exponent. -/
def scientific (digits : List Char) (e : Int) : List Char :=
  let point := if digits.length ≤ 1 then [] else ['.']
  digits.take 1 ++ point ++ digits.drop 1 ++ 'e' :: exponentText e

/-- A decimal in a layout. -/
def Layout.write (l : Layout) (d : Decimal) : List Char :=
  let digits := digitsOf d.coefficient
  let e := d.exponent + Int.ofNat digits.length - 1
  if l.lowest ≤ e ∧ e < l.limit then positional l.keepsPoint digits (e + 1)
  else scientific digits e

/-- A sign in front of digits. -/
def withSign (negative : Bool) (cs : List Char) : List Char :=
  if negative then '-' :: cs else cs

/-- Literals are positional from `10 ^ -4` up to `10 ^ 16` and keep a
fraction part. -/
def literalLayout : Layout := ⟨-4, 16, true⟩

/-- Compact numbers are positional from `10 ^ -4` up to `10 ^ 6`. -/
def compactLayout : Layout := ⟨-4, 6, false⟩

/-- The shortest digits of a number that read back. -/
def literal (x : Float) : String :=
  match decode x with
  | .nan => "nan"
  | .infinite negative => if negative then "-inf" else "inf"
  | .finite negative 0 _ => if negative then "-0.0" else "0.0"
  | .finite negative m e =>
    String.ofList (withSign negative (literalLayout.write (shortest m e)))

/-- Integers below this bound are displayed without a fraction. -/
def displayLimit : Int := Int.pow 10 21

/-- A number as scripts show it. -/
def display (x : Float) : String :=
  match decode x with
  | .nan => "NaN"
  | .infinite negative => if negative then "-Infinity" else "Infinity"
  | .finite .. =>
    match integer? x with
    | some n => if -displayLimit < n ∧ n < displayLimit then integerText n else literal x
    | none => literal x

/-- A number to six significant digits. -/
def compact (x : Float) : String :=
  match decode x with
  | .nan => "nan"
  | .infinite negative => if negative then "-inf" else "inf"
  | .finite negative 0 _ => if negative then "-0" else "0"
  | .finite negative m e =>
    String.ofList (withSign negative (compactLayout.write (rounded 6 m e)))

end RuleScript.Number
