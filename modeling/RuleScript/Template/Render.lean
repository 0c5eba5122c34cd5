/-
# Filling templates

An insertion is replaced by the view of its name, a section repeats its contents
for every element of a view, and an inverted section shows its contents when the
view counts as false.

A name is looked up in a stack of views, innermost first. Attributes are asked for
one after the other, and one that is a method is called at once: it may fail, and
the initialiser of a scope changes the heap for all that is filled after it.

Key definitions: `Site.member`, `Site.resolve`, `Site.renderPieces`,
`Site.render`.
-/
import RuleScript.Library.Argument
import RuleScript.Template.Piece
import RuleScript.Template.View

namespace RuleScript

open Template (TemplateError)

namespace Site

variable (D : Disguise) (s : Site)

/-- A view written as a literal. -/
def literal (v : View) : Eval String := do
  match ← Eval.onHeap (v.literal? D · s.frames) with
  | some text => return text
  | none => throw (.exhausted none)

/-- What an attribute gives. -/
def openAttribute (v : View) : Attribute → Eval View
  | .value w => pure w
  | .literal => View.text <$> literal D s v
  | .failure message => s.fail (.host .typing message)
  | .initialiser r => do
    if D.initialises then Eval.modifyHeap (·.clearScope r)
    return .held .null

/-- An attribute of a view, if it has one of that name. -/
def member (v : View) (name : String) : Eval (Option View) := do
  match ← Eval.onHeap (v.attribute? D · name) with
  | some a => some <$> openAttribute D s v a
  | none => return none

/-- An attribute of the nearest view that has one of that name. -/
def nearest (name : String) : List View → Eval (Option View)
  | [] => pure none
  | v :: stack => do
    match ← member D s v name with
    | some w => return some w
    | none => nearest name stack

/-- Follow names from a view on. -/
def follow (v : View) : List String → Eval (Option View)
  | [] => pure (some v)
  | name :: names => do
    match ← member D s v name with
    | some w => follow w names
    | none => return none

/-- Look a dotted name up in a stack of views, innermost first: its first part in
the nearest view that has it, the other parts as attributes. A single dot is the
innermost view. -/
def resolve (stack : List View) (name : String) : Eval (Option View) :=
  if name = "." then pure stack.head?
  else
    match (Text.cut ['.'] name.toList).map String.ofList with
    | [] => pure none
    | first :: rest => do
      match ← nearest D s first stack with
      | some v => follow D s v rest
      | none => return none

/-- A view as inserted text. -/
def insertion : View → Eval String
  | .held (.string text) => pure text
  | v => literal D s v

/-- What a section repeats over: the elements of a list, any other true view once,
a false one not at all. A scope looks like a list, but has no first element. -/
def elements (v : View) : Eval (List View) := do
  if ← Eval.onHeap v.isTruthy then
    match v with
    | .list vs => return vs
    | .held (.array r) => return (← items r).map .held
    | .names ns => return ns.map .text
    | .scope _ => s.fail (.host .reference "unknown key \"0\"")
    | v => return [v]
  else return []

mutual

/-- A piece filled from a stack of views. -/
def renderPiece (stack : List View) : Template.Piece → Eval (List Char)
  | .text cs => pure cs
  | .insertion name => do
    match ← resolve D s stack name with
    | some v => return (← insertion D s v).toList
    | none => return []
  | .repeated name body => do
    match ← resolve D s stack name with
    | some v => do
      let parts ← (← elements s v).mapM fun w => renderPieces (w :: stack) body
      return parts.flatten
    | none => return []
  | .inverted name body => do
    match ← resolve D s stack name with
    | some v => do
      if ← Eval.onHeap v.isTruthy then return [] else renderPieces stack body
    | none => renderPieces stack body

/-- Pieces filled from a stack of views, one after the other. -/
def renderPieces (stack : List View) : List Template.Piece → Eval (List Char)
  | [] => pure []
  | p :: ps => do
    let front ← renderPiece stack p
    return front ++ (← renderPieces stack ps)

end

/-- A template filled from a view. -/
def render (template : String) (view : View) : Eval String := do
  match Template.parse template with
  | .ok pieces => return String.ofList (← renderPieces D s [view] pieces)
  | .error e =>
    match e with
    | .mismatch .. => s.fail (.host .typing e.message)
    | .delimiters => s.fail (.host .range e.message)

end Site

end RuleScript
