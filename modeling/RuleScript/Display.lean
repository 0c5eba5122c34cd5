/-
# How values are displayed

`Value.shown` is the quoted form: strings in quotes, an array with its size
and its elements, nested arrays, dicts and functions only named. Single
quotes are used unless the text holds a single quote and no double quote;
nothing is escaped. `Value.text` is the printed form, which leaves strings as
they are.

Key definitions: `quoteText`, `Value.shown`, `Value.text`.
-/
import RuleScript.Heap

namespace RuleScript

/-- A string in quotes. -/
def quoteText (s : String) : String :=
  if s.toList.contains '\'' && !s.toList.contains '"' then "\"" ++ s ++ "\"" else "'" ++ s ++ "'"

namespace Value

/-- A value inside an array. -/
def showInside : Value → String
  | .absent => "undefined"
  | .null => "null"
  | .bool b => if b then "true" else "false"
  | .number x => Number.display x
  | .string s => quoteText s
  | .array _ => "<array>"
  | .dict _ => "<dict>"
  | .function _ => "<function>"

/-- The quoted form of a value. -/
def shown (h : Heap) : Value → String
  | .array r =>
    let items := h.items r
    "(size: " ++ Number.integerText items.length ++ ") ["
      ++ String.intercalate ", " (items.map showInside) ++ "]"
  | v => v.showInside

/-- The printed form of a value. -/
def text (h : Heap) : Value → String
  | .string s => s
  | v => v.shown h

end Value

end RuleScript
