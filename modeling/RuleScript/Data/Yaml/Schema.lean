/-
# Tags, and how a text gets one

A node's tag names its kind. A scalar without a tag that may be read off its
text gets the tag of the first form it has: a truth value, a number, an
integer, the merge sign, null, a timestamp or the value sign; any other text
is a string.

Key definitions: `Kind`, `Kind.ofTag`, `plainKind`.
-/
import RuleScript.Data.Yaml.Timestamp

namespace RuleScript.Yaml

/-- The kinds that tags name. -/
inductive Kind where
  | null | bool | integer | number | binary | timestamp | text
  | sequence | mapping | set | orderedMap | pairs
  /-- The sign of an entry whose value is merged in. -/
  | merge
  /-- The sign of an entry that stands for the whole mapping. -/
  | value
  | other (tag : String)
deriving Repr, DecidableEq

namespace Kind

/-- What the tags of the known kinds start with. -/
def domain : String := "tag:yaml.org,2002:"

/-- The known kinds with their names. -/
def known : List (String × Kind) :=
  [("null", .null), ("bool", .bool), ("int", .integer), ("float", .number), ("binary", .binary),
    ("timestamp", .timestamp), ("str", .text), ("seq", .sequence), ("map", .mapping),
    ("set", .set), ("omap", .orderedMap), ("pairs", .pairs), ("merge", .merge),
    ("value", .value)]

/-- The kind that a tag names. -/
def ofTag (tag : String) : Kind :=
  match known.find? fun p => domain ++ p.1 == tag with
  | some p => p.2
  | none => .other tag

/-- The tag of a kind. -/
def tag : Kind → String
  | .other tag => tag
  | kind =>
    match known.find? fun p => p.2 == kind with
    | some p => domain ++ p.1
    | none => domain

/-- Whether the nodes of a kind hold other nodes, and so are no keys. -/
def isCollection : Kind → Bool
  | .sequence | .mapping | .set | .orderedMap | .pairs => true
  | _ => false

end Kind

/-! ### Forms of plain text -/

/-- The text behind a sign. -/
def dropSign : List Char → List Char
  | '+' :: cs => cs
  | '-' :: cs => cs
  | cs => cs

/-- A decimal digit or an underscore. -/
def isDigitOrLine (c : Char) : Bool := c.isDigit || c = '_'

/-- Digits and underscores, starting with a digit: what follows them. -/
def afterDigits? : List Char → Option (List Char)
  | c :: cs => if c.isDigit then some (cs.dropWhile isDigitOrLine) else none
  | [] => none

/-- Groups of a number in base sixty: what follows one or more of them. -/
def afterGroups? : (fuel : Nat) → List Char → Option (List Char)
  | 0, _ => none
  | fuel + 1, cs =>
    match cs with
    | ':' :: cs =>
      let ds := cs.takeWhile Char.isDigit
      let rest := cs.drop ds.length
      let good := ds.length = 1 ∨ (ds.length = 2 ∧ ds.headD '9' ≤ '5')
      if good then
        if rest.head? = some ':' then afterGroups? fuel rest else some rest
      else none
    | _ => none

/-- The words for truth values. -/
def boolWords : List String :=
  ["yes", "Yes", "YES", "no", "No", "NO", "true", "True", "TRUE", "false", "False", "FALSE",
    "on", "On", "ON", "off", "Off", "OFF"]

/-- The words for null. -/
def nullWords : List String := ["~", "null", "Null", "NULL", ""]

/-- Whether a text writes an integer: in base two, eight, ten, sixteen or
sixty. -/
def isIntegerText (cs : List Char) : Bool :=
  match dropSign cs with
  | ['0'] => true
  | '0' :: 'b' :: ds => !ds.isEmpty && ds.all fun c => c = '0' || c = '1' || c = '_'
  | '0' :: 'x' :: ds => !ds.isEmpty && ds.all fun c => c.isDigit || c = '_'
      || ('a' ≤ c && c ≤ 'f') || ('A' ≤ c && c ≤ 'F')
  | '0' :: ds => ds.all fun c => ('0' ≤ c && c ≤ '7') || c = '_'
  | ds =>
    match afterDigits? ds with
    | some [] => true
    | some rest => afterGroups? rest.length rest = some []
    | none => false

/-- Whether a text is an exponent, or nothing. -/
def isExponentText : List Char → Bool
  | [] => true
  | e :: sign :: ds =>
    (e = 'e' || e = 'E') && (sign = '+' || sign = '-') && !ds.isEmpty && ds.all Char.isDigit
  | _ => false

/-- Whether a text writes a number with a point, an infinity or no number. -/
def isNumberText (cs : List Char) : Bool :=
  let body := dropSign cs
  let whole := match afterDigits? body with
    | some ('.' :: rest) => isExponentText (rest.dropWhile isDigitOrLine)
    | some rest =>
      match afterGroups? rest.length rest with
      | some ('.' :: rest) => rest.all isDigitOrLine
      | _ => false
    | none => false
  let part := match cs with
    | '.' :: rest =>
      match afterDigits? rest with
      | some rest => isExponentText rest
      | none => false
    | _ => false
  whole || part || [".inf", ".Inf", ".INF"].contains (String.ofList body)
    || [".nan", ".NaN", ".NAN"].contains (String.ofList cs)

/-- The kind of an untagged scalar that may be read off its text. -/
def plainKind (text : String) : Kind :=
  let cs := text.toList
  if boolWords.contains text then .bool
  else if isNumberText cs then .number
  else if isIntegerText cs then .integer
  else if text = "<<" then .merge
  else if nullWords.contains text then .null
  else if Timestamp.isPlain cs then .timestamp
  else if text = "=" then .value
  else .text

end RuleScript.Yaml
