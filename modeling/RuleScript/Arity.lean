/-
# How many arguments a function takes

Key definitions: `Arity`, `Arity.admits`, `Arity.describe`.
-/
import RuleScript.Number.Layout

namespace RuleScript

/-- The fewest and the most arguments; no most if any number is taken. -/
structure Arity where
  fewest : Nat
  most : Option Nat
deriving Repr, DecidableEq, Inhabited

namespace Arity

/-- Exactly `n` arguments. -/
def exactly (n : Nat) : Arity := ⟨n, some n⟩

/-- From `a` to `b` arguments. -/
def between (a b : Nat) : Arity := ⟨a, some b⟩

/-- `n` arguments or more. -/
def atLeast (n : Nat) : Arity := ⟨n, none⟩

/-- Whether `n` arguments are taken. -/
def admits (a : Arity) (n : Nat) : Bool :=
  a.fewest ≤ n && (match a.most with | none => true | some m => n ≤ m)

/-- A number of arguments in words. -/
def plural (n : Nat) : String :=
  if n = 1 then "1 argument" else Number.integerText n ++ " arguments"

/-- An arity in words. -/
def describe (a : Arity) : String :=
  match a.most with
  | none => "at least " ++ plural a.fewest
  | some m =>
    if a.fewest = m then plural m
    else Number.integerText a.fewest ++ " to " ++ Number.integerText m ++ " arguments"

end Arity

end RuleScript
