/-
# String operations

Lengths and positions count characters. `render` fills a template from a
dict.

Key definitions: `StringOp.run`.
-/
import RuleScript.Library.Inspection

namespace RuleScript

open Site (items)

/-- Texts as a product. -/
def textsProduct (parts : List (List Char)) : Product :=
  .sequence (parts.map fun p => .value (.string (String.ofList p)))

/-- Run a string operation. -/
def StringOp.run (s : Site) (args : List Value) : StringOp → Eval Product
  | .join => do
    let r ← s.array "an array of strings to join" (args.getD 0 .null)
    let parts ← (← items r).mapM (s.string "strings to join")
    let separator ← match args[1]? with
      | some v => s.string "a string as separator" v
      | none => pure ""
    return .value (.string (Text.join separator parts))
  | .toLowerCase => do
    return .value (.string (Text.toLower (← s.string "a string to convert" (args.getD 0 .null))))
  | .toUpperCase => do
    return .value (.string (Text.toUpper (← s.string "a string to convert" (args.getD 0 .null))))
  | .slice => do
    let text ← s.string "a string as source" (args.getD 0 .null)
    let start ← s.number? "a number as begin index" args[1]?
    let finish ← s.number? "a number as end index" args[2]?
    let cs := text.toList
    return .value (.string (String.ofList
      (Number.sliceList cs (Number.sliceBounds cs.length start finish))))
  | .sizeOf => do
    return Site.countProduct (← s.string "a string" (args.getD 0 .null)).toList.length
  | .split => do
    let text ← s.string "a string to split" (args.getD 0 .null)
    match args[1]? with
    | none => return .sequence [.value (.string text)]
    | some v => do
      let separator ← s.string "a string as separator" v
      if separator = "" then return textsProduct (text.toList.map fun c => [c])
      else return textsProduct (Text.cut separator.toList text.toList)
  | .indexOf => do
    let text ← s.string "a string to search in" (args.getD 0 .null)
    let search ← s.string "a string to search for" (args.getD 1 .null)
    return Site.countProduct
      (match Text.find? search.toList text.toList with | some k => k | none => -1)
  | .trim => do
    return .value (.string (Text.trim (← s.string "a string to trim" (args.getD 0 .null))))
  | .render => s.renderTemplate .plain args

end RuleScript
