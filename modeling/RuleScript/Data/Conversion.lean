/-
# Values and data

`deserialize` reads data from a text of a named format, `Datum.build` makes
it a value. `serialize` goes the other way: a value becomes data, and data
text. On the way out, whole numbers become integers, numbers that are not
finite become null, functions are dropped from dicts and become null in
arrays. A function on its own, and the mark of a missing value anywhere, is
not data.

Each way takes two frames of the host's stack for a list or table and one for
anything else; writing YAML takes three for a list or table.

Key definitions: `DataError`, `DataError.cause`, `DataFormat.ofName?`, `deserialize`,
`Datum.build`, `Value.toDatum`, `serialize`.
-/
import RuleScript.Data.Json.Read
import RuleScript.Data.Json.Write
import RuleScript.Data.Yaml.Read
import RuleScript.Data.Yaml.Write
import RuleScript.Library.Argument
import RuleScript.Text.Case

namespace RuleScript

/-- Why a text is not read or a value not written. -/
inductive DataError where
  | unsupportedFormat (name : String)
  /-- The text is malformed, or holds something that cannot be read. -/
  | unreadable (message : String)
  /-- A word tagged as a truth value is none. -/
  | unknownWord (word : String)
  /-- A text tagged as a number has no characters. -/
  | emptyNumber (message : String)
  /-- A text tagged as a timestamp is none. -/
  | notTimestamp (message : String)
  /-- What is tagged as a timestamp is no text. -/
  | notText (message : String)
  /-- An integer is too large for what it stands for. -/
  | tooLarge (message : String)
  /-- The value is of a class that is not data. -/
  | notData (className : String)
  | tooDeep
  /-- There is no room in the memory. -/
  | noRoom
deriving Repr, DecidableEq

/-- The message of a data error. -/
def DataError.message : DataError → String
  | .unsupportedFormat name => "Unsupported serialization format: " ++ Text.quoted name
  | .unreadable message => message
  | .unknownWord word => Text.quoted word
  | .emptyNumber message => message
  | .notTimestamp message => message
  | .notText message => message
  | .tooLarge message => message
  | .notData className => "cannot serialize a " ++ className
  | .tooDeep => Cause.depthExceeded.message
  | .noRoom => ""

/-- What a script sees of a data error. -/
def DataError.cause (e : DataError) : Cause :=
  match e with
  | .unsupportedFormat _ | .unreadable _ => .malformedData e.message
  | .unknownWord word => .host .reference ("unknown key \"" ++ word ++ "\"")
  | .emptyNumber _ | .tooLarge _ => .host .range e.message
  | .notTimestamp _ | .notText _ | .notData _ => .host .typing e.message
  | .tooDeep => .depthExceeded
  | .noRoom => .host .typing "MemoryError"

/-- The format of a name, in any case. -/
def DataFormat.ofName? (name : String) : Option DataFormat :=
  let name := Text.toLower name
  if name = "json" then some .json else if name = "yaml" then some .yaml else none

/-- The data error of a YAML text that is refused with a message. -/
def yamlError (e : Yaml.Refusal) (message : String) : DataError :=
  match e with
  | .unknownWord word => .unknownWord word
  | .emptyNumber => .emptyNumber message
  | .notTimestamp => .notTimestamp message
  | .notText => .notText message
  | .codeTooLarge | .integerTooLarge => .tooLarge message
  | .tooDeep => .tooDeep
  | _ => .unreadable message

/-- The data error of an indent that is refused. -/
def indentError : Json.IndentError → DataError
  | .noIndex => .tooLarge "cannot fit 'int' into an index-sized integer"
  | .noRoom => .noRoom

/-- Data from a text of a format. -/
def DataFormat.read (format : DataFormat) (frames : Nat) (text : String) :
    Except DataError Datum :=
  match format with
  | .json =>
    match Json.read frames text with
    | .ok d => .ok d
    | .error (.malformed cause rest) => .error (.unreadable (Json.faultMessage text cause rest))
    | .error (.integerTooLong digits) =>
      .error (.unreadable ((Number.IntegerError.tooLong digits).message 10 text))
    | .error .tooDeep => .error .tooDeep
  | .yaml =>
    match Yaml.read frames text with
    | .ok d => .ok d
    | .error e => .error (yamlError e (e.message text.toList))

/-- Data as text of a format. -/
def DataFormat.write (format : DataFormat) (room : Room) (indent : Option Int) (d : Datum) :
    Except DataError String :=
  match format with
  | .json => (Json.write room.spaces indent d).mapError indentError
  | .yaml => if room.frames < 3 * d.depth then .error .tooDeep else .ok (Yaml.write d)

/-- Data from a text of a named format. -/
def deserialize (frames : Nat) (name text : String) : Except DataError Datum :=
  match DataFormat.ofName? name with
  | some format => format.read frames text
  | none => .error (.unsupportedFormat name)

namespace Datum

mutual

/-- Data as a value: every number a double, lists and tables fresh. -/
def build : (frames : Nat) → Datum → Eval Value
  | 0, _ => throw (.exhausted none)
  | _ + 1, .null => pure .null
  | _ + 1, .bool b => pure (.bool b)
  | _ + 1, .integer n =>
    match Number.ofInt? n with
    | some x => pure (.number x)
    | none => throw (.internal .tooLarge none)
  | _ + 1, .number x => pure (.number x)
  | _ + 1, .text s => pure (.string s)
  | 1, .list _ | 1, .table _ => throw (.exhausted none)
  | frames + 2, .list ds => do Eval.newArray (← buildAll frames ds)
  | frames + 2, .table es => do Eval.newDict (← buildEntries frames es)

/-- Data as values. -/
def buildAll (frames : Nat) : List Datum → Eval (List Value)
  | [] => pure []
  | d :: ds => do return (← d.build frames) :: (← buildAll frames ds)

/-- Entries as entries of a dict. -/
def buildEntries (frames : Nat) : List (String × Datum) → Eval (Table Value)
  | [] => pure []
  | (k, d) :: es => do return (k, ← d.build frames) :: (← buildEntries frames es)

end

end Datum

/-- The class of a value that is not data. -/
def Value.className (h : Heap) : Value → String
  | .function f =>
    match h.function? f with
    | some (.script _) => "ScriptFunction"
    | _ => "NativeFunction"
  | .absent => "_NoValue"
  | v => v.kind

/-- A value as data. -/
def Value.toDatum (h : Heap) : (frames : Nat) → (inArray : Bool) → Value → Except DataError Datum
  | 0, _, _ => .error .tooDeep
  | frames + 1, inArray, v =>
    match v with
    | .null => .ok .null
    | .bool b => .ok (.bool b)
    | .string s => .ok (.text s)
    | .number x =>
      match Number.integer? x with
      | some n => .ok (.integer n)
      | none => .ok (if Number.isFinite x then .number x else .null)
    | .array r =>
      match frames with
      | 0 => .error .tooDeep
      | frames + 1 => do return .list (← (h.items r).mapM (toDatum h frames true))
    | .dict r =>
      match frames with
      | 0 => .error .tooDeep
      | frames + 1 => do
        let entries := (h.dict r).filter fun p => match p.2 with | .function _ => false | _ => true
        return .table (← entries.mapM fun p => do return (p.1, ← toDatum h frames false p.2))
    | .function _ => if inArray then .ok .null else .error (.notData (v.className h))
    | .absent => .error (.notData (v.className h))

/-- A value as text of a named format. What is not data is refused before an
unknown format is. -/
def serialize (room : Room) (h : Heap) (name : String) (indent : Option Int) (v : Value) :
    Except DataError String := do
  let d ← v.toDatum h room.frames false
  match DataFormat.ofName? name with
  | some format => format.write room indent d
  | none => throw (.unsupportedFormat name)

end RuleScript
