/-
# Dict operations

Keys keep the order in which they were first written.

Key definitions: `DictOp.run`.
-/
import RuleScript.Library.Argument

namespace RuleScript

/-- A table as a product. -/
def tableProduct (t : Table Value) : Product :=
  .mapping (t.map fun p => (.text p.1, .value p.2))

/-- Run a dict operation. -/
def DictOp.run (s : Site) (args : List Value) : DictOp → Eval Product
  | .keys => do
    let d ← s.dict "a dict" (args.getD 0 .null)
    return .sequence ((← Eval.onHeap (·.dict d)).names.map fun k => .value (.string k))
  | .values => do
    let d ← s.dict "a dict" (args.getD 0 .null)
    return .sequence ((← Eval.onHeap (·.dict d)).entries.map .value)
  | .has => do
    let d ← s.dict "a dict" (args.getD 0 .null)
    let key ← s.string "a string as key" (args.getD 1 .null)
    return .value (.bool ((← Eval.onHeap (·.dict d)).has key))
  | .set => do
    let d ← s.dict "a dict to modify" (args.getD 0 .null)
    let key ← s.string "a string as key" (args.getD 1 .null)
    Eval.modifyHeap fun h => h.setDict d ((h.dict d).set key (args.getD 2 .null))
    return .value .null
  | .remove => do
    let d ← s.dict "a dict to modify" (args.getD 0 .null)
    let key ← s.string "a string as key" (args.getD 1 .null)
    Eval.modifyHeap fun h => h.setDict d ((h.dict d).erase key)
    return .value .null
  | .clone => do
    let d ← s.dict "a dict to clone" (args.getD 0 .null)
    return tableProduct (← Eval.onHeap (·.dict d))
  | .merge => do
    let tables ← args.mapM fun v => do
      let d ← s.dict "dicts to merge" v
      Eval.onHeap (·.dict d)
    return tableProduct (tables.foldl (fun t u => t.setAll u) [])

end RuleScript
