/-
# The exact value of a number

A number of the language is a double. `decode` reads its bits as an exact
value: not a number, an infinity, or `± mantissa * 2 ^ exponent`. Truncation,
floor, ceiling and the test for an integer are integer arithmetic on that
value, so nothing about them rests on floating-point rounding.

Key definitions: `Exact`, `decode`, `truncate?`, `floor?`, `ceil?`,
`integer?`, `ofInt?`.
-/

namespace RuleScript.Number

/-- The exact value of a double. -/
inductive Exact where
  | nan
  | infinite (negative : Bool)
  /-- The value `± mantissa * 2 ^ exponent`. -/
  | finite (negative : Bool) (mantissa : Nat) (exponent : Int)
deriving Repr, DecidableEq

/-- Read the 64 bits of a double: a sign, eleven bits of exponent and
fifty-two of fraction. -/
def Exact.ofBits (bits : Nat) : Exact :=
  let negative := bits / Nat.pow 2 63 % 2 = 1
  let exponent := bits / Nat.pow 2 52 % Nat.pow 2 11
  let fraction := bits % Nat.pow 2 52
  if exponent = 2047 then
    if fraction = 0 then .infinite negative else .nan
  else if exponent = 0 then .finite negative fraction (-1074)
  else .finite negative (fraction + Nat.pow 2 52) (Int.ofNat exponent - 1075)

/-- The exact value of a number. -/
def decode (x : Float) : Exact := .ofBits x.toBits.toNat

/-- The integer part of `mantissa * 2 ^ exponent`. -/
def wholePart (mantissa : Nat) : Int → Nat
  | .ofNat e => mantissa * Nat.pow 2 e
  | .negSucc e => mantissa / Nat.pow 2 (e + 1)

/-- Whether `mantissa * 2 ^ exponent` has a fraction. -/
def hasFraction (mantissa : Nat) : Int → Bool
  | .ofNat _ => false
  | .negSucc e => mantissa % Nat.pow 2 (e + 1) ≠ 0

/-- An integer from its sign and magnitude. -/
def signed (negative : Bool) (n : Nat) : Int := if negative then -(n : Int) else n

/-- The value with its fraction cut off; `none` if it is not finite. -/
def Exact.truncate? : Exact → Option Int
  | .finite negative m e => some (signed negative (wholePart m e))
  | _ => none

/-- The greatest integer not above the value; `none` if it is not finite. -/
def Exact.floor? : Exact → Option Int
  | .finite negative m e =>
    let whole := signed negative (wholePart m e)
    some (if negative && hasFraction m e then whole - 1 else whole)
  | _ => none

/-- The least integer not below the value; `none` if it is not finite. -/
def Exact.ceil? : Exact → Option Int
  | .finite negative m e =>
    let whole := signed negative (wholePart m e)
    some (if !negative && hasFraction m e then whole + 1 else whole)
  | _ => none

/-- The value when it is an integer. -/
def Exact.integer? : Exact → Option Int
  | .finite negative m e =>
    if hasFraction m e then none else some (signed negative (wholePart m e))
  | _ => none

/-- A number with its fraction cut off; `none` if it is not finite. -/
def truncate? (x : Float) : Option Int := (decode x).truncate?

/-- The greatest integer not above a number; `none` if it is not finite. -/
def floor? (x : Float) : Option Int := (decode x).floor?

/-- The least integer not below a number; `none` if it is not finite. -/
def ceil? (x : Float) : Option Int := (decode x).ceil?

/-- The integer that a number is, if it is one. -/
def integer? (x : Float) : Option Int := (decode x).integer?

/-- Whether a number is finite. -/
def isFinite (x : Float) : Bool :=
  match decode x with
  | .finite .. => true
  | _ => false

/-- Whether a number is an infinity. -/
def isInfinite (x : Float) : Bool :=
  match decode x with
  | .infinite _ => true
  | _ => false

/-- Whether a number is not a number. -/
def isNaN (x : Float) : Bool :=
  match decode x with
  | .nan => true
  | _ => false

/-- Whether the sign bit of a number is set. -/
def signBit (x : Float) : Bool :=
  match decode x with
  | .nan => false
  | .infinite negative => negative
  | .finite negative _ _ => negative

/-- The double nearest to an integer. -/
def ofInt : Int → Float
  | .ofNat n => Float.ofNat n
  | .negSucc n => -(Float.ofNat (n + 1))

/-- The double nearest to an integer; `none` if it is too large for one. -/
def ofInt? (n : Int) : Option Float :=
  let x := ofInt n
  if isInfinite x then none else some x

/-- Positive infinity. -/
def infinity : Float := 1.0 / 0.0

/-- Not a number. -/
def nan : Float := 0.0 / 0.0

end RuleScript.Number
