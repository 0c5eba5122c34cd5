/-
# Decimal digits of a number

A positive double is the rational number `mantissa * 2 ^ exponent`. Every
decimal between the midpoints to its two neighbours reads back as that
double. `shortest` finds the fewest digits that do: for one digit, two digits
and so on it looks at the two multiples of the decimal unit around the value
and takes one that lies between the midpoints, the nearer one if both do.
Seventeen digits are always enough. `rounded` gives a fixed number of
significant digits instead, with ties to the even digit.

Key definitions: `Decimal`, `Ratio`, `shortest`, `rounded`.
-/

namespace RuleScript.Number

/-- The decimal `coefficient * 10 ^ exponent`. -/
structure Decimal where
  coefficient : Nat
  exponent : Int
deriving Repr, DecidableEq

/-- A positive rational number as a quotient of two naturals. -/
structure Ratio where
  num : Nat
  den : Nat
deriving Repr, DecidableEq

namespace Ratio

/-- Whether `a ≤ b`. -/
def le (a b : Ratio) : Bool := a.num * b.den ≤ b.num * a.den

/-- Whether `a < b`. -/
def lt (a b : Ratio) : Bool := a.num * b.den < b.num * a.den

/-- The number `m * b ^ e`. -/
def scaled (b m : Nat) : Int → Ratio
  | .ofNat e => ⟨m * Nat.pow b e, 1⟩
  | .negSucc e => ⟨m, Nat.pow b (e + 1)⟩

/-- The number `m * 2 ^ e`. -/
def binary (m : Nat) (e : Int) : Ratio := scaled 2 m e

/-- The number `m * 10 ^ e`. -/
def decimal (m : Nat) (e : Int) : Ratio := scaled 10 m e

/-- The integer part of `r / 10 ^ e`. -/
def floorDecimal (r : Ratio) : Int → Nat
  | .ofNat e => r.num / (r.den * Nat.pow 10 e)
  | .negSucc e => r.num * Nat.pow 10 (e + 1) / r.den

/-- The exponent `e` with `10 ^ e ≤ r < 10 ^ (e + 1)`, given a guess that is
at most one off. -/
def decimalExponent (r : Ratio) (guess : Int) : Int :=
  if (decimal 1 (guess + 1)).le r then guess + 1
  else if (decimal 1 guess).le r then guess
  else guess - 1

end Ratio

/-- The decimal exponent of `mantissa * 2 ^ exponent`, guessed from its
number of binary digits: `log10 2` is about 0.30103. -/
def magnitude (mantissa : Nat) (exponent : Int) : Int :=
  let bits : Int := Int.ofNat mantissa.log2 + exponent
  (Ratio.binary mantissa exponent).decimalExponent (Int.fdiv (bits * 30103) 100000)

/-- The reals that round to `mantissa * 2 ^ exponent`: from the midpoint below
to the midpoint above, ends included when the mantissa is even. Below a power
of two the neighbour is only half as far. -/
structure Interval where
  low : Ratio
  high : Ratio
  closed : Bool
deriving Repr, DecidableEq

/-- The interval of a double. -/
def Interval.around (mantissa : Nat) (exponent : Int) : Interval where
  low :=
    if mantissa = Nat.pow 2 52 ∧ exponent ≠ -1074 then .binary (4 * mantissa - 1) (exponent - 2)
    else .binary (2 * mantissa - 1) (exponent - 1)
  high := .binary (2 * mantissa + 1) (exponent - 1)
  closed := mantissa % 2 = 0

/-- Whether a rational lies in the interval. -/
def Interval.holds (i : Interval) (r : Ratio) : Bool :=
  if i.closed then i.low.le r && r.le i.high else i.low.lt r && r.lt i.high

/-- The better of the two multiples of `10 ^ unit` around `value`, if one of
them lies in the interval. The nearer one is better, and of two equally near
the even one. -/
def Interval.pick? (i : Interval) (value : Ratio) (unit : Int) : Option Decimal :=
  let below := value.floorDecimal unit
  let takesBelow := i.holds (.decimal below unit)
  let takesAbove := i.holds (.decimal (below + 1) unit)
  let middle := Ratio.decimal (2 * below + 1) unit
  let twice : Ratio := ⟨2 * value.num, value.den⟩
  let nearerBelow := twice.lt middle || (twice.le middle && below % 2 = 0)
  if takesBelow && (nearerBelow || !takesAbove) then some ⟨below, unit⟩
  else if takesAbove then some ⟨below + 1, unit⟩
  else none

/-- Take zeros off the end of the coefficient, at most `fuel` of them. -/
def Decimal.stripZeros : (fuel : Nat) → Decimal → Decimal
  | 0, d => d
  | fuel + 1, d =>
    if d.coefficient ≠ 0 ∧ d.coefficient % 10 = 0 then
      stripZeros fuel ⟨d.coefficient / 10, d.exponent + 1⟩
    else d

/-- Try `digits`, `digits + 1`, … significant digits, `fuel` counts in all. -/
def shortestFrom (i : Interval) (value : Ratio) (top : Int) : (fuel digits : Nat) → Option Decimal
  | 0, _ => none
  | fuel + 1, digits =>
    match i.pick? value (top - Int.ofNat digits + 1) with
    | some d => some d
    | none => shortestFrom i value top fuel (digits + 1)

/-- The fewest digits that read back as `mantissa * 2 ^ exponent`, for a
positive mantissa. -/
def shortest (mantissa : Nat) (exponent : Int) : Decimal :=
  let value := Ratio.binary mantissa exponent
  let found := shortestFrom (.around mantissa exponent) value (magnitude mantissa exponent) 17 1
  (found.getD ⟨mantissa, 0⟩).stripZeros 1

/-- The value `mantissa * 2 ^ exponent` to `digits` significant digits, ties
to the even digit, without zeros at the end. -/
def rounded (digits : Nat) (mantissa : Nat) (exponent : Int) : Decimal :=
  let value := Ratio.binary mantissa exponent
  let unit := magnitude mantissa exponent - Int.ofNat digits + 1
  let below := value.floorDecimal unit
  let middle := Ratio.decimal (2 * below + 1) unit
  let twice : Ratio := ⟨2 * value.num, value.den⟩
  let up := middle.lt twice || (middle.le twice && below % 2 = 1)
  Decimal.stripZeros (digits + 1) ⟨if up then below + 1 else below, unit⟩

end RuleScript.Number
