/-
# Array operations

Mutating operations change the array in place. Callbacks of `forEach`, `map`
and `filter` run over the elements as they were at the call and see the live
array as their third argument. While an array is being sorted it is empty;
if elements are added to it meanwhile, the sort fails after restoring it.

Key definitions: `ArrayOp.run`, `elementIndex`, `flatten`, `sortArray`.
-/
import RuleScript.Library.Argument
import RuleScript.Library.Sorting
import RuleScript.Number.Conversion

namespace RuleScript

open Site (items)

/-- A position in an array of `size` elements: an integer, from the end if
negative. With `allowEnd` the position after the last element counts too. -/
def elementIndex (s : Site) (index : Float) (size : Nat) (allowEnd : Bool) : Eval Nat :=
  match Number.integer? index with
  | none => s.fail (.invalidIndex (Number.display index))
  | some n =>
    let k := if n < 0 then n + size else n
    if 0 ≤ k ∧ k < size + (if allowEnd then 1 else 0) then pure k.toNat
    else s.fail (.indexOutOfRange (Number.display index))

/-- The elements with nested arrays spliced in, as long as the level is at
least one; each nesting takes one off the level, and a frame. -/
def flatten : (frames : Nat) → Float → List Value → Eval (List Value)
  | 0, _, _ => throw (.exhausted none)
  | frames + 1, level, xs => do
    let parts ← xs.mapM fun x =>
      match x with
      | .array r =>
        if 1.0 ≤ level then do flatten frames (level - 1.0) (← items r) else pure [x]
      | x => pure [x]
    return parts.flatten

/-- The sign of a comparison result as an order: whether the first value is
less. No number counts as equal. -/
def callbackLess (s : Site) (f : FunctionRef) : Comparison := fun a b => do
  match ← s.invoke f [a, b] with
  | .number x => return x < 0.0
  | _ => s.fail (.expected "a number from the compare function")

/-- The order of numbers, and of strings by their characters. -/
def plainLess : Comparison := fun a b =>
  match a, b with
  | .number x, .number y => pure (x < y)
  | .string x, .string y => pure (x < y)
  | _, _ => pure false

/-- Whether values can be sorted by their own order: all numbers or all
strings. -/
def isPlain (xs : List Value) : Bool :=
  xs.all (fun | .number _ => true | _ => false) || xs.all (fun | .string _ => true | _ => false)

/-- Sort an array in place. -/
def sortArray (s : Site) (r : ArrayRef) (lt : Comparison) : Eval Product := do
  let cell ← Eval.onHeap (·.arrayCell r)
  Eval.modifyHeap (·.setItems r [])
  let (sorted, stop) ← sortItems lt cell.items
  let after ← Eval.onHeap (·.arrayCell r)
  Eval.modifyHeap (·.setItems r sorted)
  match stop with
  | some e => throw e
  | none =>
    if after.additions = cell.additions then return .value (.array r)
    else s.fail .modifiedDuringSort

/-- The arguments of an iteration callback. -/
def iterationArgs (r : ArrayRef) (i : Nat) (x : Value) : List Value :=
  [x, .number (Number.ofInt i), .array r]

/-- The results of a callback over the elements, from position `i` on. -/
def iterate (s : Site) (r : ArrayRef) (f : FunctionRef) : (i : Nat) → List Value → Eval (List Value)
  | _, [] => pure []
  | i, x :: xs => do
    let v ← s.invoke f (iterationArgs r i x)
    return v :: (← iterate s r f (i + 1) xs)

/-- The elements for which a callback gives true. -/
def keepWhere (s : Site) (r : ArrayRef) (f : FunctionRef) :
    (i : Nat) → List Value → Eval (List Value)
  | _, [] => pure []
  | i, x :: xs => do
    let .bool keep ← s.invoke f (iterationArgs r i x)
      | s.fail (.expected "a boolean from the filter callback")
    let rest ← keepWhere s r f (i + 1) xs
    return if keep then x :: rest else rest

/-- Values as a product. -/
def listProduct (vs : List Value) : Product := .sequence (vs.map .value)

/-- The largest size of an array that is made in one go. -/
def maxArraySize : Int := Int.pow 10 9

/-- A new array with one value in every place. -/
def createArray (s : Site) (args : List Value) : Eval Product :=
  match args with
  | [] => pure (.sequence [])
  | first :: rest => do
    let size ← s.number "a number as array size" first
    match Number.truncate? size with
    | none => s.fail (.invalidAmount "array size")
    | some n =>
      if size < 0.0 then s.fail (.invalidAmount "array size")
      else if Int.pow 2 63 ≤ n then
        s.fail (.host .range "cannot fit 'int' into an index-sized integer")
      else if maxArraySize < n then s.fail (.host .typing "MemoryError")
      else return listProduct (List.replicate n.toNat (rest.headD .null))

/-- Bind names to the elements of an array. -/
def unpackArray (s : Site) (args : List Value) : Eval Product := do
  let r ← s.array "an array to unpack" (args.getD 0 .null)
  let names ← s.array "an array of strings as variable names" (args.getD 1 .null)
  let names ← (← items names).mapM (s.string "strings as variable names")
  let loose ← match args[2]? with
    | some v => s.bool "a boolean as loose option" v
    | none => pure false
  let xs ← items r
  if xs.length < names.length && !loose then s.fail .notEnoughValues
  else
    names.zipIdx.forM fun (name, i) =>
      Eval.modifyHeap (·.assign s.ctx.scope name (xs.getD i .null))
    return .value .null

/-- Remove elements from an array. -/
def removeItems (s : Site) (args : List Value) : Eval Product := do
  let r ← s.array "an array as the first argument" (args.getD 0 .null)
  let index ← s.number "a number as start index" (args.getD 1 .null)
  let xs ← items r
  let start ← elementIndex s index xs.length false
  let count ← match args[2]? with
    | none => pure 1
    | some v => do
      let c ← s.number "a number as removing count" v
      if c < 0.0 || Number.isNaN c then s.fail (.invalidAmount "removing count")
      else pure ((Number.truncate? c).getD xs.length).toNat
  Eval.modifyHeap (·.setItems r (xs.take start ++ xs.drop (start + count)))
  return .value .null

/-- The position of a value, or -1. -/
def positionProduct (i : Option Nat) : Product :=
  Site.countProduct (match i with | some k => k | none => -1)

/-- Run an array operation. -/
def ArrayOp.run (s : Site) (args : List Value) : ArrayOp → Eval Product
  | .create => createArray s args
  | .clone => do
    let r ← s.array "an array to clone" (args.getD 0 .null)
    return listProduct (← items r)
  | .ofValues => return listProduct args
  | .sizeOf => do
    let r ← s.array "an array" (args.getD 0 .null)
    return Site.countProduct (← items r).length
  | .set => do
    let r ← s.array "an array to modify" (args.getD 0 .null)
    let index ← s.number "a number as index" (args.getD 1 .null)
    let xs ← items r
    let k ← elementIndex s index xs.length false
    Eval.modifyHeap (·.setItems r (xs.set k (args.getD 2 .null)))
    return .value .null
  | .push => do
    let r ← s.array "an array to modify" (args.getD 0 .null)
    Eval.modifyHeap fun h => h.addItems r (h.items r ++ args.drop 1)
    return .value .null
  | .unshift => do
    let r ← s.array "an array to modify" (args.getD 0 .null)
    Eval.modifyHeap fun h => h.addItems r ((args.drop 1).reverse ++ h.items r)
    return .value .null
  | .pop => do
    let r ← s.array "an array to modify" (args.getD 0 .null)
    let xs ← items r
    Eval.modifyHeap (·.setItems r xs.dropLast)
    return .value (xs.getLast?.getD .null)
  | .shift => do
    let r ← s.array "an array to modify" (args.getD 0 .null)
    let xs ← items r
    Eval.modifyHeap (·.setItems r (xs.drop 1))
    return .value (xs.headD .null)
  | .slice => do
    let r ← s.array "an array as source" (args.getD 0 .null)
    let start ← s.number? "a number as begin index" args[1]?
    let finish ← s.number? "a number as end index" args[2]?
    let xs ← items r
    return listProduct (Number.sliceList xs (Number.sliceBounds xs.length start finish))
  | .insert => do
    let r ← s.array "an array to operate on" (args.getD 0 .null)
    let index ← s.number "a number as start index" (args.getD 1 .null)
    let xs ← items r
    let k ← elementIndex s index xs.length true
    Eval.modifyHeap (·.addItems r (xs.take k ++ args.drop 2 ++ xs.drop k))
    return .value .null
  | .remove => removeItems s args
  | .clear => do
    let r ← s.array "an array to operate on" (args.getD 0 .null)
    Eval.modifyHeap (·.setItems r [])
    return .value .null
  | .flat => do
    let r ← s.array "an array to flat" (args.getD 0 .null)
    let depth ← match args[1]? with
      | some v => s.number "a number as depth" v
      | none => pure 1.0
    if depth ≤ 0.0 || Number.isNaN depth then s.fail (.invalidAmount "depth")
    else return listProduct (← flatten s.frames depth (← items r))
  | .unpack => unpackArray s args
  | .indexOf => do
    let r ← s.array "an array to search in" (args.getD 0 .null)
    let target := args.getD 1 .null
    return positionProduct ((← items r).findIdx? (·.strictEq target))
  | .lastIndexOf => do
    let r ← s.array "an array to search in" (args.getD 0 .null)
    let target := args.getD 1 .null
    let xs ← items r
    return positionProduct ((xs.reverse.findIdx? (·.strictEq target)).map (xs.length - 1 - ·))
  | .includes => do
    let r ← s.array "an array to check" (args.getD 0 .null)
    let target := args.getD 1 .null
    let same : Value → Bool := match target with
      | .number t =>
        if Number.isNaN t then fun | .number x => Number.isNaN x | _ => false
        else (·.strictEq target)
      | _ => (·.strictEq target)
    return .value (.bool ((← items r).any same))
  | .sort => do
    let r ← s.array "an array as the first argument" (args.getD 0 .null)
    match args[1]? with
    | some v => do
      let f ← s.function "a function as the second argument" v
      sortArray s r (callbackLess s f)
    | none => do
      if isPlain (← items r) then sortArray s r plainLess
      else s.fail (.expected "numbers or strings to sort without a compare function")
  | .forEach => do
    let r ← s.array "an array to iterate" (args.getD 0 .null)
    let f ← s.function "a function as callback" (args.getD 1 .null)
    let _ ← iterate s r f 0 (← items r)
    return .value .null
  | .map => do
    let r ← s.array "an array to map" (args.getD 0 .null)
    let f ← s.function "a function as callback" (args.getD 1 .null)
    return listProduct (← iterate s r f 0 (← items r))
  | .filter => do
    let r ← s.array "an array to filter" (args.getD 0 .null)
    let f ← s.function "a function as callback" (args.getD 1 .null)
    return listProduct (← keepWhere s r f 0 (← items r))

end RuleScript
