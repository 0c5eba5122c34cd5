/-
# Number operations

Key definitions: `MathOp.run`, `UnaryOp.compute`, `nextRandom`.
-/
import RuleScript.Library.Argument
import RuleScript.Number.Arithmetic

namespace RuleScript

/-- The functions of one number. -/
def UnaryOp.compute : UnaryOp → Float → Float
  | .abs => Number.abs
  | .floor => Number.floor
  | .ceil => Number.ceil
  | .round => Number.roundHalfUp
  | .sqrt => Float.sqrt
  | .exp => Float.exp
  | .log => Number.log
  | .sin => Float.sin
  | .cos => Float.cos
  | .tan => Float.tan

/-- The next state of the random source. -/
def nextSeed (seed : UInt64) : UInt64 := seed * 6364136223846793005 + 1442695040888963407

/-- The number in `[0, 1)` that a state of the random source gives. -/
def seedNumber (seed : UInt64) : Float :=
  Number.ofInt (seed.toNat / Int.pow 2 11) / Number.ofInt (Int.pow 2 53)

/-- The best of some numbers by an order, or a default for none. If one of
them is not a number, neither is the result. -/
def bestNumber (better : Float → Float → Bool) (default : Float) (xs : List Float) : Float :=
  if xs.any Number.isNaN then Number.nan
  else
    match xs with
    | [] => default
    | x :: rest => rest.foldl (fun best y => if better y best then y else best) x

/-- Run a number operation. -/
def MathOp.run (s : Site) (args : List Value) : MathOp → Eval Product
  | .pow => do
    let base ← s.number "a number as base" (args.getD 0 .null)
    let exponent ← s.number "a number as exponent" (args.getD 1 .null)
    return .value (.number (Number.power base exponent))
  | .min => do
    let xs ← args.mapM (s.number "numbers")
    return .value (.number (bestNumber (fun a b => a < b) Number.infinity xs))
  | .max => do
    let xs ← args.mapM (s.number "numbers")
    return .value (.number (bestNumber (fun a b => b < a) (-Number.infinity) xs))
  | .random => do
    modify fun m => { m with seed := nextSeed m.seed }
    return .value (.number (seedNumber (← get).seed))
  | .unary op => do
    let x ← s.number ("a number for Math." ++ op.name) (args.getD 0 .null)
    return .value (.number (op.compute x))

end RuleScript
