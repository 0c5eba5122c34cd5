/-
# Data for templates

A template is handed its data converted: whole numbers become integers, and arrays
and dicts are taken apart at every depth. Anything else is seen as it is held.

Key definitions: `Site.toView`, `Site.renderTemplate`.
-/
import RuleScript.Template.Render

namespace RuleScript

namespace Site

/-- Data as a view; whole numbers become integers. Each value takes a frame, and
what an array or dict holds another. -/
def toView : (frames : Nat) → Value → Eval View
  | 0, _ => throw (.exhausted none)
  | frames + 1, v =>
    match v with
    | .number x =>
      match Number.integer? x with
      | some n => pure (.integer n)
      | none => pure (.held (.number x))
    | .array r =>
      match frames with
      | 0 => throw (.exhausted none)
      | frames + 1 => do return .list (← (← items r).mapM (toView frames))
    | .dict r =>
      match frames with
      | 0 => throw (.exhausted none)
      | frames + 1 => do
        return .table (← (← Eval.onHeap (·.dict r)).mapM fun p => do
          return (p.1, ← toView frames p.2))
    | v => pure (.held v)

/-- What a template is filled from: a dict, or nothing if none is given. -/
def templateView (s : Site) : Option Value → Eval View
  | none => pure (.table [])
  | some v => do toView s.frames (.dict (← s.dict "a dict as view" v))

/-- Fill a template. -/
def renderTemplate (D : Disguise) (s : Site) (args : List Value) : Eval Product := do
  let template ← s.string "a string as template" (args.getD 0 .null)
  let view ← s.templateView args[1]?
  return .value (.string (← render D s template view))

end Site

end RuleScript
