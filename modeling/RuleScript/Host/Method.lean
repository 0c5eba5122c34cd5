/-
# Hosts

A host is an object of the embedding program that lends its methods to
scripts. A method works on the host's counters and on argument values, and
either hands back a product or fails. Products are wider than values: host
integers, sequences and mappings become numbers, arrays and dicts on the way
in, and what has no counterpart is refused.

A method's script name is its own name in camel case.

Key definitions: `Product`, `HostFault`, `HostMethod`, `Host`, `scriptName`.
-/
import RuleScript.Fault
import RuleScript.Table
import RuleScript.Text.Blank
import RuleScript.Text.Case
import RuleScript.Text.Search

namespace RuleScript

/-- A key of a host mapping. -/
inductive ProductKey where
  | text (s : String)
  | other
deriving Repr, DecidableEq

/-- What a native operation hands back. -/
inductive Product where
  /-- A value of the language; arrays and dicts in it are copied. -/
  | value (v : Value)
  | integer (n : Int)
  | sequence (items : List Product)
  | mapping (entries : List (ProductKey × Product))
  /-- Something without a counterpart, known by its class. -/
  | foreign (className : String)
  /-- A method of the host that hands it back. -/
  | method (index : Nat)
deriving Repr, Inhabited

/-- How a host method fails. -/
inductive HostFaultClass where
  | typing | index | key | lookup | value | arithmetic | division | runtime
deriving Repr, DecidableEq

namespace HostFaultClass

/-- The name of a class of host faults. -/
def name : HostFaultClass → String
  | .typing => "TypeError"
  | .index => "IndexError"
  | .key => "KeyError"
  | .lookup => "LookupError"
  | .value => "ValueError"
  | .arithmetic => "ArithmeticError"
  | .division => "ZeroDivisionError"
  | .runtime => "RuntimeError"

/-- The class with a name. -/
def ofName? (s : String) : Option HostFaultClass :=
  [typing, index, key, lookup, value, arithmetic, division, runtime].find? (·.name == s)

/-- The kind of fault a script sees. -/
def kind : HostFaultClass → FaultKind
  | .typing | .runtime => .typing
  | .index | .value | .arithmetic | .division => .range
  | .key | .lookup => .reference

end HostFaultClass

/-- A failure of a host method, with a text if it gave one. -/
structure HostFault where
  faultClass : HostFaultClass
  text : Option String
deriving Repr, DecidableEq

/-- What a script sees of a host's failure: its text, or the name of its
class where there is none. A failed look-up with a text names the key. -/
def HostFault.cause (f : HostFault) : Cause :=
  match f.faultClass, f.text with
  | .key, some t => .host .reference ("unknown key \"" ++ t ++ "\"")
  | c, some t => .host c.kind (if t = "" then c.name else t)
  | c, none => .host c.kind c.name

/-- The state of a host: named integers. -/
abbrev Counters := Table Int

/-- A method of a host. -/
structure HostMethod where
  member : String
  arity : Arity
  usage : Option String
  /-- Whether scripts may see the method by name. -/
  exposed : Bool
  run : Counters → List Value → Except HostFault Product × Counters

/-- A host: its methods in order of their names, and its state. A
host that counts as empty lends nothing. -/
structure Host where
  methods : List HostMethod
  isEmpty : Bool
  counters : Counters

/-- A part of a name with its first letter in upper case. -/
def capitalize : List Char → List Char
  | [] => []
  | c :: cs => Text.upperChar c ++ cs

/-- A method's name in camel case: underscores at the ends are dropped, and
the others make the next letter upper case. -/
def scriptName (member : String) : String :=
  match Text.cut ['_'] (Text.stripEnds (· = '_') member).toList with
  | [] => ""
  | head :: rest => String.ofList (head ++ rest.flatMap capitalize)

end RuleScript
