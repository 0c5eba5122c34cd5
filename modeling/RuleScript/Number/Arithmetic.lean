/-
# Arithmetic of the language

Division and powers never fail: a quotient by zero and a pole are
infinities, a quotient of zeros and a power outside the reals are not a
number, and a power too large is positive infinity. Bitwise operators work
on the number cut to a signed 32-bit word, and cut their result to one again.

Key definitions: `divide`, `power`, `lowWord`, `toWord`, `bitAnd`, `bitOr`,
`bitXor`, `roundHalfUp`.
-/
import RuleScript.Number.Exact

namespace RuleScript.Number

/-- The quotient of two numbers. -/
def divide (a b : Float) : Float :=
  if b == 0.0 then
    if a == 0.0 || isNaN a then nan
    else if signBit a == signBit b then infinity else -infinity
  else a / b

/-- The power of two numbers. From finite operands no negative infinity
results. -/
def power (a b : Float) : Float :=
  let r := Float.pow a b
  if isFinite a && isFinite b && isInfinite r then infinity else r

/-- The bits of the first number that the second does not have. -/
def bitsWithout (m n : Nat) : Nat := Nat.bitwise (fun a b => a && !b) m n

/-- Bitwise and of integers, whose bits in two's complement have no end. -/
def integerAnd : Int → Int → Int
  | .ofNat m, .ofNat n => .ofNat (m &&& n)
  | .ofNat m, .negSucc n => .ofNat (bitsWithout m n)
  | .negSucc m, .ofNat n => .ofNat (bitsWithout n m)
  | .negSucc m, .negSucc n => .negSucc (m ||| n)

/-- Bitwise or of integers. -/
def integerOr : Int → Int → Int
  | .ofNat m, .ofNat n => .ofNat (m ||| n)
  | .ofNat m, .negSucc n => .negSucc (bitsWithout n m)
  | .negSucc m, .ofNat n => .negSucc (bitsWithout m n)
  | .negSucc m, .negSucc n => .negSucc (m &&& n)

/-- Bitwise exclusive or of integers. -/
def integerXor : Int → Int → Int
  | .ofNat m, .ofNat n => .ofNat (m ^^^ n)
  | .ofNat m, .negSucc n => .negSucc (m ^^^ n)
  | .negSucc m, .ofNat n => .negSucc (m ^^^ n)
  | .negSucc m, .negSucc n => .ofNat (m ^^^ n)

/-- The low 32 bits of an integer, the highest of them as a sign. -/
def lowWord (n : Int) : Int :=
  let low := integerAnd n 0xFFFFFFFF
  if 0x80000000 ≤ low then low - 0x100000000 else low

/-- The word of a number with its fraction cut off; zero if the number is not
finite. -/
def toWord (x : Float) : Int :=
  match truncate? x with
  | some n => lowWord n
  | none => 0

/-- A bitwise operation on the words of two numbers, as a word. -/
def onWords (f : Int → Int → Int) (a b : Float) : Float :=
  ofInt (lowWord (f (toWord a) (toWord b)))

/-- Bitwise and. -/
def bitAnd (a b : Float) : Float := onWords integerAnd a b

/-- Bitwise or. -/
def bitOr (a b : Float) : Float := onWords integerOr a b

/-- Bitwise exclusive or. -/
def bitXor (a b : Float) : Float := onWords integerXor a b

/-- A finite number through an integer, any other number as it is. -/
def viaInteger (f : Float → Option Int) (x : Float) : Float :=
  match f x with
  | some n => ofInt n
  | none => x

/-- The greatest integer not above a number. -/
def floor (x : Float) : Float := viaInteger floor? x

/-- The least integer not below a number. -/
def ceil (x : Float) : Float := viaInteger ceil? x

/-- The nearest integer, a half going up. -/
def roundHalfUp (x : Float) : Float := if isFinite x then floor (x + 0.5) else x

/-- The natural logarithm; minus infinity at zero, not a number below. -/
def log (x : Float) : Float :=
  if x == 0.0 then -infinity
  else if x < 0.0 || isNaN x then nan
  else Float.log x

/-- The magnitude of a number. -/
def abs (x : Float) : Float := if signBit x then -x else x

end RuleScript.Number
