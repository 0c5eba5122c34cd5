/-
# Writing JSON

Compact unless an indent is given. With an indent, every element and entry
stands on a line of its own, indented by its depth; a negative indent gives
lines without indentation. Characters beyond ASCII are written as they are.

An indent is refused if it is no index of the host, or if that many spaces do
not fit its memory. A text on its own is written without a look at it.

Key definitions: `Json.quote`, `Json.IndentError`, `Json.write`.
-/
import RuleScript.Data.Datum
import RuleScript.Text.Quoted

namespace RuleScript.Json

/-- One character of a JSON string. -/
def escape (c : Char) : List Char :=
  if c = '"' then ['\\', '"']
  else if c = '\\' then ['\\', '\\']
  else if c = '\n' then ['\\', 'n']
  else if c = '\r' then ['\\', 'r']
  else if c = '\t' then ['\\', 't']
  else if c = '\x0c' then ['\\', 'f']
  else if c = '\x08' then ['\\', 'b']
  else if c.toNat < 0x20 then '\\' :: 'u' :: Text.hex 4 c.toNat
  else [c]

/-- A JSON string. -/
def quote (s : String) : List Char := '"' :: s.toList.flatMap escape ++ ['"']

/-- How the parts of a list or table are set. -/
structure Style where
  /-- Spaces per depth; no line breaks at all without it. -/
  indent : Option Nat

/-- The break before a part at a depth. -/
def Style.newline (s : Style) (depth : Nat) : List Char :=
  match s.indent with
  | some n => '\n' :: List.replicate (n * depth) ' '
  | none => []

/-- What stands between a key and its value. -/
def Style.colon (s : Style) : List Char :=
  match s.indent with
  | some _ => [':', ' ']
  | none => [':']

mutual

/-- Data at a depth. -/
def writeAt (s : Style) (depth : Nat) : Datum → List Char
  | .null => "null".toList
  | .bool b => (if b then "true" else "false").toList
  | .integer n => (Number.integerText n).toList
  | .number x => (Number.literal x).toList
  | .text t => quote t
  | .list [] => "[]".toList
  | .list (d :: ds) =>
    '[' :: s.newline (depth + 1) ++ writeAt s (depth + 1) d ++ writeItems s (depth + 1) ds
      ++ s.newline depth ++ [']']
  | .table [] => ['\x7b', '\x7d']
  | .table ((k, d) :: es) =>
    '\x7b' :: s.newline (depth + 1) ++ quote k ++ s.colon ++ writeAt s (depth + 1) d
      ++ writeEntries s (depth + 1) es ++ s.newline depth ++ ['\x7d']

/-- Further elements of a list. -/
def writeItems (s : Style) (depth : Nat) : List Datum → List Char
  | [] => []
  | d :: ds => ',' :: s.newline depth ++ writeAt s depth d ++ writeItems s depth ds

/-- Further entries of a table. -/
def writeEntries (s : Style) (depth : Nat) : List (String × Datum) → List Char
  | [] => []
  | (k, d) :: es =>
    ',' :: s.newline depth ++ quote k ++ s.colon ++ writeAt s depth d ++ writeEntries s depth es

end

/-- Why an indent is refused. -/
inductive IndentError where
  /-- It is no index of the host. -/
  | noIndex
  /-- There is no room for that many spaces. -/
  | noRoom
deriving Repr, DecidableEq

/-- Whether the host can count with an integer: it has 64 bits for an index. -/
def isIndex (n : Int) : Bool := -9223372036854775808 ≤ n && n < 9223372036854775808

/-- The style of an indent; an indent of zero counts as none. -/
def Style.ofIndent (spaces : Nat) : Option Int → Except IndentError Style
  | none => .ok ⟨none⟩
  | some n =>
    if n = 0 then .ok ⟨none⟩
    else if !isIndex n then .error .noIndex
    else if spaces < n.toNat then .error .noRoom
    else .ok ⟨some n.toNat⟩

/-- Data as JSON text, in a host with room for so many spaces. -/
def write (spaces : Nat) (indent : Option Int) (d : Datum) : Except IndentError String :=
  match d with
  | .text t => .ok (String.ofList (quote t))
  | d => do return String.ofList (writeAt (← Style.ofIndent spaces indent) 0 d)

end RuleScript.Json
