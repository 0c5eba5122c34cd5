/-
# Nodes from an outline

An outline is a parse tree of a source text, as the grammar gives it or some other
parser of the same language: records with a tag, a text, a line and a column, and
children. `Outline.nodes` flattens lists and grouping records and turns every other
record into a node. The offset of a node is recovered from the source text:
the start of its line, or of the last line if there is none of that number,
and its column.

Key definitions: `Outline`, `Outline.nodes`, `OutlineError`, `Node.ofNumber`.
-/
import RuleScript.Source.Node
import RuleScript.Text.Quoted

namespace RuleScript

/-- The letters that name a radix at the end of a number. -/
def isRadixSuffix (c : Char) : Bool := c = 'B' || c = 'O' || c = 'H' || c = 'D'

/-- A number token as text and radix suffix. -/
def splitSuffix (text : List Char) : List Char × List Char :=
  match text.getLast? with
  | some c => if isRadixSuffix c then (text.dropLast, [c]) else (text, [])
  | none => (text, [])

/-- The node of a number token. -/
def Node.ofNumber (pos : Position) (text : List Char) : Node :=
  .number pos (String.ofList (splitSuffix text).1) (String.ofList (splitSuffix text).2)

/-- The tag of a record; one that is no text is known by how it shows. -/
inductive Tag where
  | named (name : String)
  | shown (text : String)
deriving Repr, DecidableEq

/-- How a tag shows in a complaint. -/
def Tag.text : Tag → String
  | .named name => Text.quoted name
  | .shown text => text

/-- A parse tree reported from outside. -/
inductive Outline where
  | list (items : List Outline)
  | record (tag : Tag) (text : Option String) (line column : Option Int) (children : Outline)
  /-- Anything else; it yields no node. -/
  | scrap
deriving Repr, Inhabited

/-- Why an outline yields no nodes. -/
inductive OutlineError where
  | unknownTag (tag : Tag)
  | missingText
  | emptyNumber
  | noSuchLine
deriving Repr, DecidableEq

/-- The message of an outline error. -/
def OutlineError.message : OutlineError → String
  | .unknownTag tag => "unknown parse node " ++ tag.text
  | .missingText => Text.quoted "text"
  | .emptyNumber => "string index out of range"
  | .noSuchLine => "list index out of range"

/-- The offsets at which the lines of a text start, given the offset of its
first character. -/
def lineStarts (offset : Nat) : List Char → List Nat
  | [] => []
  | c :: cs =>
    if c = '\n' then (offset + 1) :: lineStarts (offset + 1) cs else lineStarts (offset + 1) cs

/-- An outline's line or column: one where none or zero is given. -/
def orOne : Option Int → Int
  | none => 1
  | some n => if n = 0 then 1 else n

/-- The position of a record in a text whose lines start at `starts`. A line
beyond the last counts as the last, and a line below one from the end. -/
def outlinePosition (starts : List Nat) (line column : Option Int) :
    Except OutlineError Position :=
  let l := orOne line
  let c := orOne column
  let k := min l starts.length - 1
  let k := if k < 0 then k + starts.length else k
  if k < 0 then .error .noSuchLine
  else .ok ⟨some l, some c, Int.ofNat (starts.getD k.toNat 0) + c - 1⟩

/-- The span that a tag names. -/
def spanTag? (name : String) : Option Delimiter :=
  if name = "paren" then some .paren
  else if name = "bracket" then some .bracket
  else if name = "brace" then some .brace
  else none

/-- The leaf that a tag names, from its position and text. -/
def leafTag? (name : String) : Option (Position → String → Except OutlineError Node) :=
  if name = "number" then
    some fun pos text =>
      if text = "" then .error .emptyNumber else .ok (.ofNumber pos text.toList)
  else if name = "word" then some fun pos text => .ok (.word pos text)
  else if name = "symbol" then some fun pos text => .ok (.symbol pos text)
  else if name = "single_string" ∨ name = "double_string" ∨ name = "backtick_string" then
    some fun pos text => .ok (.quoted pos text)
  else none

mutual

/-- The nodes of an outline in a text whose lines start at `starts`. -/
def Outline.nodesAt (starts : List Nat) : Outline → Except OutlineError (List Node)
  | .scrap => .ok []
  | .list items => Outline.nodesOfAll starts items
  | .record (.shown text) .. => .error (.unknownTag (.shown text))
  | .record (.named name) text line column children =>
    if name = "program" ∨ name = "node" then children.nodesAt starts
    else if name = "_" ∨ name = "end_of_input" then .ok []
    else
      match spanTag? name, leafTag? name with
      | some d, _ => do
        let pos ← outlinePosition starts line column
        return [.span pos d (← children.nodesAt starts)]
      | none, some leaf => do
        let some text := text | throw .missingText
        return [← leaf (← outlinePosition starts line column) text]
      | none, none => .error (.unknownTag (.named name))

/-- The nodes of a list of outlines, one after the other. -/
def Outline.nodesOfAll (starts : List Nat) : List Outline → Except OutlineError (List Node)
  | [] => .ok []
  | o :: rest => do return (← o.nodesAt starts) ++ (← Outline.nodesOfAll starts rest)

end

/-- The nodes of an outline of a source text. -/
def Outline.nodes (source : String) (o : Outline) : Except OutlineError (List Node) :=
  o.nodesAt (0 :: lineStarts 0 source.toList)

end RuleScript
