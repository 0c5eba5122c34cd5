/-
# The root scope

Every runner has a root scope with the constants, the core operations, and a
dict for each family of operations.

Key definitions: `rootBindings`, `probeBindings`.
-/
import RuleScript.Machine

namespace RuleScript

/-- A native operation as a fresh function. -/
def newNative (s : Signature) (op : Operation) : Eval (String × Value) := do
  return (s.name, ← Eval.newFunction (.native ⟨op, s.name, s.arity, s.usage, none⟩))

/-- A family of operations as a fresh dict, with further entries. -/
def newFamily (ops : List (Signature × Operation)) (more : Table Value) : Eval Value := do
  let natives ← ops.mapM fun (s, op) => newNative s op
  Eval.newDict (natives ++ more)

/-- Ratio of a circle's circumference to its diameter. -/
def piNumber : Float := 3.141592653589793

/-- Base of the natural logarithm. -/
def eulerNumber : Float := 2.718281828459045

/-- The bindings of a root scope, in order. -/
def rootBindings : Eval (Table Value) := do
  let constants : Table Value :=
    [("true", .bool true), ("false", .bool false), ("null", .null),
      ("NaN", .number Number.nan), ("infinity", .number Number.infinity)]
  let core ← CoreOp.catalogue.mapM fun op => newNative op.signature (.core op)
  let array ← newFamily (ArrayOp.catalogue.map fun op => (op.signature, .array op)) []
  let string ← newFamily (StringOp.catalogue.map fun op => (op.signature, .string op)) []
  let dict ← newFamily (DictOp.catalogue.map fun op => (op.signature, .dict op)) []
  let math ← newFamily (MathOp.catalogue.map fun op => (op.signature, .math op))
    [("PI", .number piNumber), ("E", .number eulerNumber)]
  let json ← newFamily (DataOp.catalogue.map fun op => (op.signature, .data .json op)) []
  let yaml ← newFamily (DataOp.catalogue.map fun op => (op.signature, .data .yaml op)) []
  return constants ++ core ++
    [("Array", array), ("String", string), ("Dict", dict), ("Math", math), ("JSON", json),
      ("YAML", yaml)]

/-- The bindings of the probes, in order. -/
def probeBindings : Eval (Table Value) :=
  ProbeOp.catalogue.mapM fun op => newNative op.signature (.probe op)

end RuleScript
