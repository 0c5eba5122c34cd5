/-
# Reports of failures

The message of a failed run names the kind and the fault, then shows the
failing line of the source under its number with a caret below the column,
then the calls that were active.

Key definitions: `FaultToken`, `sourceContext?`, `callTrace?`, `report`,
`formatReport`.
-/
import RuleScript.Fault
import RuleScript.Text.Blank

namespace RuleScript

/-- Where a run failed, for a host. -/
structure FaultToken where
  kind : String
  line : Int
  column : Option Int
  source : String
deriving Repr, DecidableEq

/-- The failing line under its number, with a caret at the column. A line
that the text does not have shows nothing. -/
def sourceContext? (source : String) (line : Int) (column : Option Int) : Option String :=
  if line < 1 then none
  else
    ((Text.lines source)[(line - 1).toNat]?).map fun shown =>
      let gutter := Number.integerText line ++ " | "
      match column with
      | none => gutter ++ shown
      | some c =>
        let spaces := List.replicate (Int.ofNat gutter.length + c - 1).toNat ' '
        gutter ++ shown ++ "\n" ++ String.ofList spaces ++ "^"

/-- The active calls, outermost first. -/
def callTrace? (calls : List Frame) : Option String :=
  if calls.isEmpty then none
  else
    let call (f : Frame) : String :=
      let place := match f.line with
        | some l => " @" ++ Number.integerText l ++ ":" ++ Fault.coordinate f.column
        | none => ""
      "(" ++ f.name ++ place ++ ")"
    some ("Quill stacktrace: " ++ String.intercalate " " (calls.map call))

/-- A further line of a message, if there is one. -/
def andLine : Option String → String
  | some s => "\n" ++ s
  | none => ""

/-- A message and token from a kind, a text, a place and the active calls. -/
def reportAt (runner source kind text : String) (line column : Option Int)
    (calls : List Frame) : String × Option FaultToken :=
  let context := line.bind fun l => sourceContext? source l column
  (kind ++ ": " ++ text ++ andLine context ++ andLine (callTrace? calls),
    line.map fun l => ⟨kind, l, column, runner⟩)

/-- The message and token of a failed run. `runner` is the source name of the
runner and `source` the text that was run. An internal error has no place of
its own and is shown where the last rule or operator fired. -/
def report (runner source : String) (focus : Option Position) : Stop → String × Option FaultToken
  | .fault f =>
    reportAt runner source f.cause.kind.label f.text f.line f.column (f.trace.getD [])
  | .internal e trace =>
    reportAt runner source "InternalError" e.message (focus.bind (·.line)) (focus.bind (·.column))
      (trace.getD [])
  | .exhausted _ =>
    let f := Fault.raisedAt .depthExceeded focus runner
    reportAt runner source f.cause.kind.label f.text f.line f.column []

/-- A message with its place in front, when there is one. -/
def formatReport (message : String) : Option FaultToken → String
  | none => message
  | some t =>
    t.source ++ ":" ++ Number.integerText t.line ++ ":" ++ Fault.coordinate t.column ++ ": "
      ++ message

end RuleScript
