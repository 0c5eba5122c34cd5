/-
# The operations of the standard library

Every native operation of the language by name, with its usage line and its
arity. The catalogues list them in the order in which they are bound.

Key definitions: `CoreOp`, `ArrayOp`, `StringOp`, `DictOp`, `MathOp`,
`DataOp`, `ProbeOp`, `Operation`, `Signature`.
-/
import RuleScript.Arity
import RuleScript.Value

namespace RuleScript

/-- What a script sees of a native operation. -/
structure Signature where
  name : String
  usage : Option String
  arity : Arity
deriving Repr, DecidableEq

/-- Operations bound at the root: reflection, conversion, output, control. -/
inductive CoreOp where
  | boolean | dir | exist | get | help | branch | choose | number | print | set | string
  | typeOf | repeating
deriving Repr, DecidableEq

namespace CoreOp

/-- The core operations in binding order. -/
def catalogue : List CoreOp :=
  [.boolean, .dir, .exist, .get, .help, .branch, .choose, .number, .print, .set, .string,
    .typeOf, .repeating]

/-- The signature of a core operation. -/
def signature : CoreOp → Signature
  | .boolean => ⟨"boolean", "boolean(value)", .exactly 1⟩
  | .dir => ⟨"dir", "dir(dict?)", .between 0 1⟩
  | .exist => ⟨"exist", "exist(name)", .exactly 1⟩
  | .get => ⟨"get", "get(name)", .exactly 1⟩
  | .help => ⟨"help", "help(function)", .exactly 1⟩
  | .branch => ⟨"if", "if(condition) \x7b ... \x7d", .exactly 1⟩
  | .choose => ⟨"ifElse", "ifElse(condition, thenFn, elseFn)", .exactly 3⟩
  | .number => ⟨"number", "number(value)", .exactly 1⟩
  | .print => ⟨"print", "print(values...)", .atLeast 0⟩
  | .set => ⟨"set", "set(name, value)", .exactly 2⟩
  | .string => ⟨"string", "string(value)", .exactly 1⟩
  | .typeOf => ⟨"typeOf", "typeOf(value)", .exactly 1⟩
  | .repeating => ⟨"while", "while(conditionFn) \x7b ... \x7d", .exactly 1⟩

end CoreOp

/-- Operations on arrays. -/
inductive ArrayOp where
  | clear | clone | create | filter | flat | forEach | includes | indexOf | insert | lastIndexOf
  | map | ofValues | pop | push | remove | set | shift | sizeOf | slice | sort | unpack | unshift
deriving Repr, DecidableEq

namespace ArrayOp

/-- The array operations in binding order. -/
def catalogue : List ArrayOp :=
  [.clear, .clone, .create, .filter, .flat, .forEach, .includes, .indexOf, .insert,
    .lastIndexOf, .map, .ofValues, .pop, .push, .remove, .set, .shift, .sizeOf, .slice, .sort,
    .unpack, .unshift]

/-- The signature of an array operation. -/
def signature : ArrayOp → Signature
  | .clear => ⟨"clear", "Array.clear(array)", .exactly 1⟩
  | .clone => ⟨"clone", "Array.clone(array)", .exactly 1⟩
  | .create => ⟨"create", "Array.create(size = 0, init = null)", .between 0 2⟩
  | .filter => ⟨"filter", "Array.filter(array, callback)", .exactly 2⟩
  | .flat => ⟨"flat", "Array.flat(arrays, depth = 1)", .between 1 2⟩
  | .forEach => ⟨"forEach", "Array.forEach(array, callback)", .exactly 2⟩
  | .includes => ⟨"includes", "Array.includes(array, value)", .exactly 2⟩
  | .indexOf => ⟨"indexOf", "Array.indexOf(array, value)", .exactly 2⟩
  | .insert => ⟨"insert", "Array.insert(array, index, data...)", .atLeast 3⟩
  | .lastIndexOf => ⟨"lastIndexOf", "Array.lastIndexOf(array, value)", .exactly 2⟩
  | .map => ⟨"map", "Array.map(array, callback)", .exactly 2⟩
  | .ofValues => ⟨"of", "Array.of(values...)", .atLeast 0⟩
  | .pop => ⟨"pop", "Array.pop(array)", .exactly 1⟩
  | .push => ⟨"push", "Array.push(array, data...)", .atLeast 2⟩
  | .remove => ⟨"remove", "Array.remove(array, index, count = 1)", .between 2 3⟩
  | .set => ⟨"set", "Array.set(array, index, value)", .exactly 3⟩
  | .shift => ⟨"shift", "Array.shift(array)", .exactly 1⟩
  | .sizeOf => ⟨"sizeOf", "Array.sizeOf(array)", .exactly 1⟩
  | .slice => ⟨"slice", "Array.slice(array, start = 0, end = Array.sizeOf(array))", .between 1 3⟩
  | .sort => ⟨"sort", "Array.sort(array, compareFn?)", .between 1 2⟩
  | .unpack => ⟨"unpack", "Array.unpack(array, names, loose = false)", .between 2 3⟩
  | .unshift => ⟨"unshift", "Array.unshift(array, data...)", .atLeast 2⟩

end ArrayOp

/-- Operations on strings. -/
inductive StringOp where
  | indexOf | join | render | sizeOf | slice | split | toLowerCase | toUpperCase | trim
deriving Repr, DecidableEq

namespace StringOp

/-- The string operations in binding order. -/
def catalogue : List StringOp :=
  [.indexOf, .join, .render, .sizeOf, .slice, .split, .toLowerCase, .toUpperCase, .trim]

/-- The signature of a string operation. -/
def signature : StringOp → Signature
  | .indexOf => ⟨"indexOf", "String.indexOf(string, search)", .exactly 2⟩
  | .join => ⟨"join", "String.join(strings, separator = '')", .between 1 2⟩
  | .render => ⟨"render", "String.render(template, view = \x7b\x7d)", .between 1 2⟩
  | .sizeOf => ⟨"sizeOf", "String.sizeOf(string)", .exactly 1⟩
  | .slice =>
    ⟨"slice", "String.slice(string, start = 0, end = String.sizeOf(string))", .between 1 3⟩
  | .split => ⟨"split", "String.split(string, separator?)", .between 1 2⟩
  | .toLowerCase => ⟨"toLowerCase", "String.toLowerCase(string)", .exactly 1⟩
  | .toUpperCase => ⟨"toUpperCase", "String.toUpperCase(string)", .exactly 1⟩
  | .trim => ⟨"trim", "String.trim(string)", .exactly 1⟩

end StringOp

/-- Operations on dicts. -/
inductive DictOp where
  | clone | has | keys | merge | remove | set | values
deriving Repr, DecidableEq

namespace DictOp

/-- The dict operations in binding order. -/
def catalogue : List DictOp := [.clone, .has, .keys, .merge, .remove, .set, .values]

/-- The signature of a dict operation. -/
def signature : DictOp → Signature
  | .clone => ⟨"clone", "Dict.clone(dict)", .exactly 1⟩
  | .has => ⟨"has", "Dict.has(dict, key)", .exactly 2⟩
  | .keys => ⟨"keys", "Dict.keys(dict)", .exactly 1⟩
  | .merge => ⟨"merge", "Dict.merge(dicts...)", .atLeast 1⟩
  | .remove => ⟨"remove", "Dict.remove(dict, key)", .exactly 2⟩
  | .set => ⟨"set", "Dict.set(dict, key, value)", .exactly 3⟩
  | .values => ⟨"values", "Dict.values(dict)", .exactly 1⟩

end DictOp

/-- Functions of one number. -/
inductive UnaryOp where
  | abs | floor | ceil | round | sqrt | exp | log | sin | cos | tan
deriving Repr, DecidableEq

/-- The name of a function of one number. -/
def UnaryOp.name : UnaryOp → String
  | .abs => "abs"
  | .floor => "floor"
  | .ceil => "ceil"
  | .round => "round"
  | .sqrt => "sqrt"
  | .exp => "exp"
  | .log => "log"
  | .sin => "sin"
  | .cos => "cos"
  | .tan => "tan"

/-- Operations on numbers. -/
inductive MathOp where
  | max | min | pow | random
  | unary (op : UnaryOp)
deriving Repr, DecidableEq

namespace MathOp

/-- The number operations in binding order. -/
def catalogue : List MathOp :=
  [.max, .min, .pow, .random] ++
    [UnaryOp.abs, .floor, .ceil, .round, .sqrt, .exp, .log, .sin, .cos, .tan].map .unary

/-- The signature of a number operation. -/
def signature : MathOp → Signature
  | .max => ⟨"max", "Math.max(values...)", .atLeast 0⟩
  | .min => ⟨"min", "Math.min(values...)", .atLeast 0⟩
  | .pow => ⟨"pow", "Math.pow(base, exponent)", .exactly 2⟩
  | .random => ⟨"random", "Math.random()", .exactly 0⟩
  | .unary op => ⟨op.name, some ("Math." ++ op.name ++ "(x)"), .exactly 1⟩

end MathOp

/-- The two data formats that values are read from and written to. -/
inductive DataFormat where
  | json
  | yaml
deriving Repr, DecidableEq

/-- Operations of a data format. -/
inductive DataOp where
  | parse | stringify
deriving Repr, DecidableEq

namespace DataOp

/-- The data operations in binding order. -/
def catalogue : List DataOp := [.parse, .stringify]

/-- The signature of a data operation. -/
def signature : DataOp → Signature
  | .parse => ⟨"parse", "parse(text)", .exactly 1⟩
  | .stringify => ⟨"stringify", "stringify(value, indent?)", .between 1 2⟩

end DataOp

/-- Operations that look at the call itself; an embedding may add them. -/
inductive ProbeOp where
  | callSite | apply | count | document
deriving Repr, DecidableEq

namespace ProbeOp

/-- The probes in binding order. -/
def catalogue : List ProbeOp := [.callSite, .apply, .count, .document]

/-- The signature of a probe. -/
def signature : ProbeOp → Signature
  | .callSite => ⟨"where", none, .exactly 0⟩
  | .apply => ⟨"apply", "apply(fn, values...)", .atLeast 1⟩
  | .count => ⟨"count", none, .between 1 3⟩
  | .document => ⟨"document", none, .exactly 2⟩

end ProbeOp

/-- What a native function does. -/
inductive Operation where
  | core (op : CoreOp)
  | array (op : ArrayOp)
  | string (op : StringOp)
  | dict (op : DictOp)
  | math (op : MathOp)
  | data (format : DataFormat) (op : DataOp)
  | probe (op : ProbeOp)
  /-- What `if` hands back: run the block if the condition held. -/
  | branch (condition : Bool)
  /-- What `while` hands back: run the block while the condition holds, within
  the limit that was in force. -/
  | loop (condition : FunctionRef) (limit : Option Int)
  /-- A method of a host. -/
  | method (host method : Nat)
  /-- Give null. -/
  | idle
deriving Repr, DecidableEq

end RuleScript
