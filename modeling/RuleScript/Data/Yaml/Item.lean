/-
# What the nodes of a YAML document stand for

A scalar becomes an item of the kind of its node; sequences, mappings, sets,
ordered maps and lists of pairs become items that hold items. `Item.datum`
makes plain data of an item: a timestamp, bytes, a pair or a set becomes a
text, and so does the key of every entry.

Keys are the same if they are equal as numbers, truth values counting as one
and zero, or else are of one kind and equal. The first of two equal keys
stays and the last value wins.

Key definitions: `Item`, `scalarItem`, `Item.sameKey`, `Item.shown`,
`Item.datum`.
-/
import RuleScript.Data.Datum
import RuleScript.Data.Yaml.Binary
import RuleScript.Data.Yaml.Graph
import RuleScript.Data.Yaml.SetOrder
import RuleScript.Number.Numeral
import RuleScript.Table
import RuleScript.Text.Case
import RuleScript.Text.Search

namespace RuleScript.Yaml

/-- What a node stands for. -/
inductive Item where
  | null
  | bool (b : Bool)
  | integer (n : Int)
  | number (x : Float)
  | text (s : String)
  | timestamp (t : Timestamp)
  | bytes (bs : List Nat)
  | list (items : List Item)
  | table (entries : List (Item × Item))
  | pairs (entries : List (Item × Item))
  | set (items : List Item)
deriving Repr, Inhabited

/-! ### Scalars -/

/-- A text without its underscores. -/
def withoutLines (s : String) : List Char := s.toList.filter (· ≠ '_')

/-- An integer in a base, or a refusal. -/
def integerIn (base : Nat) (cs : List Char) : Reading Int :=
  match Number.readInteger base (String.ofList cs) with
  | .ok n => .ok n
  | .error e => .error (.badValue (e.message base (String.ofList cs)))

/-- A number, or a refusal. -/
def numberFrom (cs : List Char) : Reading Float :=
  match Number.readNumber? (String.ofList cs) with
  | some x => .ok x
  | none =>
    .error (.badValue ("could not convert string to float: " ++ Text.quoted (String.ofList cs)))

/-- The integer that a text writes: in base two, eight, ten or sixteen by its
front, or in base sixty with colons between the digits. -/
def integerItem (s : String) : Reading Item := do
  let cs := withoutLines s
  if cs.isEmpty then throw .emptyNumber
  let negative := cs.head? = some '-'
  let body := dropSign cs
  let n ← match body with
    | [] => throw .emptyNumber
    | ['0'] => pure 0
    | '0' :: 'b' :: ds => integerIn 2 ds
    | '0' :: 'x' :: ds => integerIn 16 ds
    | '0' :: ds => integerIn 8 ('0' :: ds)
    | ds =>
      if ds.contains ':' then do
        let parts ← (Text.cut [':'] ds).mapM (integerIn 10)
        pure (parts.foldl (fun n part => n * 60 + part) 0)
      else integerIn 10 ds
  return .integer (if negative then -n else n)

/-- The sum of numbers times powers of sixty, last number first. Each power
is rounded to a double by itself. -/
def sixtySum (weight : Nat) (sum : Float) : List Float → Reading Float
  | [] => .ok sum
  | x :: xs =>
    match Number.ofInt? weight with
    | some w => sixtySum (weight * 60) (sum + x * w) xs
    | none => .error .integerTooLarge

/-- The number that a text writes. -/
def numberItem (s : String) : Reading Item := do
  let cs := (Text.toLower (String.ofList (withoutLines s))).toList
  if cs.isEmpty then throw .emptyNumber
  let sign : Float := if cs.head? = some '-' then -1.0 else 1.0
  let body := dropSign cs
  if String.ofList body = ".inf" then return .number (sign * Number.infinity)
  else if String.ofList body = ".nan" then return .number Number.nan
  else if body.contains ':' then
    let parts ← (Text.cut [':'] body).mapM numberFrom
    return .number (sign * (← sixtySum 1 0.0 parts.reverse))
  else return .number (sign * (← numberFrom body))

/-- The truth value of a word. -/
def boolItem (s : String) : Reading Item :=
  let word := Text.toLower s
  if word = "yes" ∨ word = "true" ∨ word = "on" then .ok (.bool true)
  else if word = "no" ∨ word = "false" ∨ word = "off" then .ok (.bool false)
  else .error (.unknownWord word)

/-- A character by its code, in quotes. -/
def codeText (c : Char) : String :=
  let n := c.toNat
  let code :=
    if n < 0x100 then 'x' :: Text.hex 2 n
    else if n < 0x10000 then 'u' :: Text.hex 4 n
    else 'U' :: Text.hex 8 n
  String.ofList ('\'' :: '\\' :: code ++ ['\''])

/-- What cannot be written in ASCII: the first run of characters beyond
it. -/
def asciiFault? (cs : List Char) : Option String :=
  match cs.findIdx? (128 ≤ ·.toNat) with
  | none => none
  | some first =>
    let run := (cs.drop first).takeWhile (128 ≤ ·.toNat)
    let what := match run with
      | [c] => "character " ++ codeText c ++ " in position " ++ Number.integerText first
      | _ =>
        "characters in position " ++ Number.integerText first ++ "-"
          ++ Number.integerText (first + run.length - 1)
    some ("'ascii' codec can't encode " ++ what ++ ": ordinal not in range(128)")

/-- The bytes that a text writes; `start` is the place of its node. -/
def binaryItem (start : Mark) (s : String) : Reading Item :=
  match asciiFault? s.toList with
  | some message => faultAt (.notAscii message) start
  | none =>
    match decodeBase64 s.toList with
    | .ok bytes => .ok (.bytes bytes)
    | .error e => faultAt (.notBase64 e.message) start

/-- A text without a line feed at its end. -/
def withoutLastBreak (s : String) : List Char :=
  match s.toList.reverse with
  | '\n' :: rest => rest.reverse
  | _ => s.toList

/-- The timestamp that a text writes; a line feed may follow it. -/
def timestampItem (s : String) : Reading Item :=
  match Timestamp.read? (withoutLastBreak s) with
  | none => .error .notTimestamp
  | some t =>
    match t.check with
    | .ok t => .ok (.timestamp t)
    | .error message => .error (.badValue message)

/-- The text of a node that should be a scalar. A mapping passes for one if
an entry of it has the value sign as its key. -/
def scalarText (g : Graph) : (fuel : Nat) → Nat → Reading String
  | 0, _ => .error .tooDeep
  | fuel + 1, n =>
    let node := g.node n
    match node.content with
    | .scalar s => .ok s
    | .sequence _ => faultAt (.expectedKind "a scalar node" "sequence") node.start
    | .mapping entries =>
      match entries.find? fun p => (g.node p.1).kind = .value with
      | some p => scalarText g fuel p.2
      | none => faultAt (.expectedKind "a scalar node" "mapping") node.start

/-- The item of a node whose kind is no collection. -/
def scalarItem (g : Graph) (n : Nat) : Reading Item := do
  let node := g.node n
  let read (f : String → Reading Item) : Reading Item := do f (← scalarText g (g.size + 1) n)
  match node.kind with
  | .null => read fun _ => .ok .null
  | .bool => read boolItem
  | .integer => read integerItem
  | .number => read numberItem
  | .binary => read (binaryItem node.start)
  | .timestamp =>
    read fun s => match node.content with
      | .scalar _ => timestampItem s
      | _ => .error .notText
  | .text => read fun s => .ok (.text s)
  | kind => faultAt (.unknownTag kind.tag) node.start

/-! ### Keys -/

namespace Item

/-- An item as an exact number, if it is one. -/
def rank? : Item → Option (Int ⊕ Float)
  | .bool b => some (.inl (if b then 1 else 0))
  | .integer n => some (.inl n)
  | .number x =>
    match Number.integer? x with
    | some n => some (.inl n)
    | none => some (.inr x)
  | _ => none

/-- Whether two items are the same key. -/
def sameKey (a b : Item) : Bool :=
  match a.rank?, b.rank? with
  | some (.inl m), some (.inl n) => m == n
  | some (.inr x), some (.inr y) => x == y || (Number.isNaN x && Number.isNaN y)
  | _, _ =>
    match a, b with
    | .null, .null => true
    | .text s, .text t => s == t
    | .timestamp s, .timestamp t => s.same t
    | .bytes s, .bytes t => s == t
    | _, _ => false

/-- Entries with one more written to them. -/
def setEntry (entries : List (Item × Item)) (key value : Item) : List (Item × Item) :=
  match entries with
  | [] => [(key, value)]
  | (k, v) :: rest =>
    if k.sameKey key then (k, value) :: rest else (k, v) :: setEntry rest key value

/-- Entries written one after the other. -/
def tableOf (pairs : List (Item × Item)) : List (Item × Item) :=
  pairs.foldl (fun t p => setEntry t p.1 p.2) []

/-! ### Texts -/

/-- The elements of a set in the order in which they show: by their slots if
all are numbers, else as they were written. -/
def setOrder (items : List Item) : List Item :=
  let residue? : Item → Option Int
    | .bool b => some (if b then 1 else 0)
    | .integer n => some (integerResidue n)
    | .number x => Yaml.residue? (Number.decode x)
    | _ => none
  match items.mapM fun i => (residue? i).map (·, i) with
  | some xs => slotOrder xs
  | none => items

/-- The text of a truth value in diagnostics. -/
def boolText (b : Bool) : String := if b then "True" else "False"

mutual

/-- An item as it shows in diagnostics. -/
def shown : Item → String
  | .null => "None"
  | .bool b => boolText b
  | .integer n => Number.integerText n
  | .number x => Number.literal x
  | .text s => Text.quoted s
  | .timestamp t => t.described
  | .bytes bs => shownBytes bs
  | .list items => "[" ++ String.intercalate ", " (shownAll items) ++ "]"
  | .table entries =>
    "\x7b" ++ String.intercalate ", " (shownEntries "" ": " "" entries) ++ "\x7d"
  | .pairs entries => "[" ++ String.intercalate ", " (shownEntries "(" ", " ")" entries) ++ "]"
  | .set items =>
    if items.isEmpty then "set()"
    else "\x7b" ++ String.intercalate ", " (shownAll items) ++ "\x7d"

/-- Items as they show in diagnostics. -/
def shownAll : List Item → List String
  | [] => []
  | i :: is => i.shown :: shownAll is

/-- Entries as they show in diagnostics. -/
def shownEntries (front between back : String) : List (Item × Item) → List String
  | [] => []
  | (k, v) :: es =>
    (front ++ k.shown ++ between ++ v.shown ++ back) :: shownEntries front between back es

end

mutual

/-- Whether every integer of an item is short enough to be shown. -/
def isShort : Item → Bool
  | .integer n => n.natAbs < 10 ^ Number.integerDigitLimit
  | .list items | .set items => areShort items
  | .table entries | .pairs entries => areShortEntries entries
  | _ => true

/-- Whether every integer of the items is short enough to be shown. -/
def areShort : List Item → Bool
  | [] => true
  | i :: is => i.isShort && areShort is

/-- Whether every integer of the entries is short enough to be shown. -/
def areShortEntries : List (Item × Item) → Bool
  | [] => true
  | (k, v) :: es => k.isShort && v.isShort && areShortEntries es

end

/-- The text of an item as it shows in diagnostics, if it can be shown. -/
def shown? (i : Item) : Reading String :=
  if i.isShort then .ok i.shown else .error (.badValue Number.writtenTooLong)

/-- The text of a key. -/
def keyText : Item → Reading String
  | .text s => .ok s
  | .timestamp t => .ok (t.text " ")
  | i => i.shown?

/-- Pairs as texts. -/
def pairTexts (entries : List (Item × Item)) : Reading (List Datum) :=
  entries.mapM fun (k, v) => do return .text ("(" ++ (← k.shown?) ++ ", " ++ (← v.shown?) ++ ")")

mutual

/-- An item as plain data. -/
def datum : Item → Reading Datum
  | .null => .ok .null
  | .bool b => .ok (.bool b)
  | .integer n => if (Number.ofInt? n).isSome then .ok (.integer n) else .error .integerTooLarge
  | .number x => .ok (.number x)
  | .text s => .ok (.text s)
  | .timestamp t => .ok (.text (t.text "T"))
  | .bytes bs => .ok (.text (shownBytes bs))
  | .list items => do return .list (← datumAll items)
  | .table entries => do return .table (Table.setAll [] (← datumEntries entries))
  | .pairs entries => do return .list (← pairTexts entries)
  | .set items => do return .text (← shown? (.set items))

/-- Items as plain data. -/
def datumAll : List Item → Reading (List Datum)
  | [] => .ok []
  | i :: is => do return (← i.datum) :: (← datumAll is)

/-- Entries as entries of plain data. -/
def datumEntries : List (Item × Item) → Reading (List (String × Datum))
  | [] => .ok []
  | (k, v) :: es => do return (← k.keyText, ← v.datum) :: (← datumEntries es)

end

end Item

end RuleScript.Yaml
