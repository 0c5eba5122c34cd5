/-
# Pieces of a template

A template is text with tags: insertions, sections, and inverted sections.
Comments, partial templates and changes of the delimiters leave no piece. A tag
that is alone on its line takes the line with it, unless it is an insertion.

A section that is never closed takes the place of the whole template.

Key definitions: `Piece`, `TemplateError`, `parse`.
-/
import RuleScript.Number.Layout
import RuleScript.Template.Tag

namespace RuleScript.Template

/-- A piece of a template. -/
inductive Piece where
  | text (cs : List Char)
  | insertion (name : String)
  | repeated (name : String) (body : List Piece)
  | inverted (name : String) (body : List Piece)
deriving Repr

/-- Why a template cannot be read. -/
inductive TemplateError where
  /-- A section ends that was not the last to start; the position is behind
  its tag. -/
  | mismatch (position : Nat) (name : String)
  /-- New delimiters are not two. -/
  | delimiters
deriving Repr, DecidableEq

/-- The message of a template error. -/
def TemplateError.message : TemplateError → String
  | .mismatch position name =>
    "Section end tag mismatch at position " ++ Number.integerText position ++ ". Found \x7b\x7b/"
      ++ name ++ "\x7d\x7d, expected \x7b\x7b#" ++ name ++ "\x7d\x7d"
  | .delimiters => "list index out of range"

/-- A section that is open: its kind and name, and the pieces before it, last
first. -/
structure OpenSection where
  kind : TagKind
  name : List Char
  before : List Piece

/-- A character that ends a line. -/
def endsLine (c : Char) : Bool := c = '\r' || c = '\n'

/-- A space or tab. -/
def isIndent (c : Char) : Bool := c = ' ' || c = '\t'

/-- Whether a place is at the edge of a line, given the character there. -/
def atEdge : Option Char → Bool
  | none => true
  | some c => endsLine c

/-- The text behind one line end at its front. -/
def dropLineEnd : List Char → List Char
  | '\r' :: '\n' :: cs => cs
  | '\r' :: cs => cs
  | '\n' :: cs => cs
  | cs => cs

/-- Text as a piece in front of others; no piece for no text. -/
def addText (cs : List Char) (pieces : List Piece) : List Piece :=
  if cs.isEmpty then pieces else .text cs :: pieces

/-- The words of a text. -/
def words (cs : List Char) : List (List Char) :=
  (cs.splitBy fun a b => Text.isBlank a == Text.isBlank b).filter fun w => !w.all Text.isBlank

/-- Read a template from `rest` on. `size` is the length of the template,
`last` the character before `rest`, `sections` the open sections innermost
first, and `pieces` what was read of the innermost one, last first. -/
def parseFrom (size : Nat) : (fuel : Nat) → Delimiters → Option Char → List Char →
    List OpenSection → List Piece → Except TemplateError (List Piece)
  | 0, _, _, rest, _, pieces => .ok (addText rest pieces).reverse
  | fuel + 1, d, last, rest, sections, pieces =>
    match nextTag? d [] rest with
    | none => .ok (addText rest pieces).reverse
    | some (before, tag, after) =>
      let text := before.dropWhile isIndent
      let alone := atEdge (text.head?.or last) && atEdge after.head? && tag.kind ≠ .insertion
      let next := if alone then dropLineEnd after else after
      let pieces := addText (if alone then text.reverse else before.reverse) pieces
      -- Of the consumed text only the last character matters from here on.
      let consumed := rest.length - next.length
      let last := rest[consumed - 1]?
      match tag.kind with
      | .comment | .inclusion => parseFrom size fuel d last next sections pieces
      | .insertion =>
        parseFrom size fuel d last next sections (.insertion (String.ofList tag.key) :: pieces)
      | .change =>
        match words tag.key with
        | opening :: closing :: _ => parseFrom size fuel ⟨opening, closing⟩ last next sections pieces
        | _ => .error .delimiters
      | .sectionStart | .sectionInverted =>
        parseFrom size fuel d last next (⟨tag.kind, tag.key, pieces⟩ :: sections) []
      | .sectionEnd =>
        match sections with
        | [] => .error (.mismatch (size - next.length) (String.ofList tag.key))
        | s :: sections =>
          if s.name = tag.key then
            let name := String.ofList tag.key
            let piece :=
              if s.kind = .sectionStart then Piece.repeated name pieces.reverse
              else Piece.inverted name pieces.reverse
            parseFrom size fuel d last next sections (piece :: s.before)
          else .error (.mismatch (size - next.length) (String.ofList tag.key))

/-- The pieces of a template. Every tag has a character, so the length of the
template is fuel enough. -/
def parse (template : String) : Except TemplateError (List Piece) :=
  let cs := template.toList
  parseFrom cs.length (cs.length + 1) .standard none cs [] []

end RuleScript.Template
