/-
# Runtime values

A value is a scalar or a reference: arrays, dicts and functions live in the
machine's heap and have an identity. `absent` marks a statement that produced
no value; it is never data.

Key definitions: `Value`, `Value.kind`, `Value.strictEq`, `Value.isTruthy`.
-/
import RuleScript.Number.Exact

namespace RuleScript

/-- A scope in the heap. -/
structure ScopeRef where
  index : Nat
deriving Repr, DecidableEq, Inhabited

/-- An array in the heap. -/
structure ArrayRef where
  index : Nat
deriving Repr, DecidableEq, Inhabited

/-- A dict in the heap. -/
structure DictRef where
  index : Nat
deriving Repr, DecidableEq, Inhabited

/-- A function in the heap. -/
structure FunctionRef where
  index : Nat
deriving Repr, DecidableEq, Inhabited

/-- A runtime value. -/
inductive Value where
  /-- The result of a statement that produces no value. -/
  | absent
  | null
  | bool (b : Bool)
  | number (x : Float)
  | string (s : String)
  | array (r : ArrayRef)
  | dict (r : DictRef)
  | function (r : FunctionRef)
deriving Repr, Inhabited

namespace Value

/-- The name of a value's kind. -/
def kind : Value → String
  | .absent => "undefined"
  | .null => "null"
  | .bool _ => "boolean"
  | .number _ => "number"
  | .string _ => "string"
  | .array _ => "array"
  | .dict _ => "dict"
  | .function _ => "function"

/-- Same kind and equal value for scalars; identity for references. -/
def strictEq : Value → Value → Bool
  | .absent, .absent => true
  | .null, .null => true
  | .bool a, .bool b => a == b
  | .number a, .number b => a == b
  | .string a, .string b => a == b
  | .array a, .array b => a == b
  | .dict a, .dict b => a == b
  | .function a, .function b => a == b
  | _, _ => false

/-- How a value counts as a condition: null, false, zero, no number and the
empty string count as false. -/
def isTruthy : Value → Bool
  | .null => false
  | .bool b => b
  | .number x => !(x == 0.0) && !Number.isNaN x
  | .string s => s != ""
  | _ => true

/-- Whether this is the mark of a statement without a value. -/
def isAbsent : Value → Bool
  | .absent => true
  | _ => false

end Value

end RuleScript
