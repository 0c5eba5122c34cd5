/-
# Numbers from texts and bounds

`ofText` is how a text counts as a number: blank texts are zero, a decimal
numeral is what it writes, a signed `Infinity` an infinity, an integer behind
`0x`, `0o` or `0b` that integer, and anything else not a number.

`sliceBounds` are the ends of a slice: negative bounds count from the end,
fractions are cut off, and what lies outside is moved to the nearer end.

Key definitions: `ofText`, `sliceBounds`.
-/
import RuleScript.Number.Numeral
import RuleScript.Text.Case

namespace RuleScript.Number

open RuleScript.Text

/-- The base that two characters announce. -/
def announcedBase? (mark : List Char) : Option Nat :=
  let mark := toLower (String.ofList mark)
  if mark = "0x" then some 16
  else if mark = "0o" then some 8
  else if mark = "0b" then some 2
  else none

/-- A text as a number; `none` if it writes an integer too large for one. -/
def ofText (text : String) : Option Float :=
  let s := trim text
  let cs := s.toList
  if cs.isEmpty then some 0.0
  else
    match Numeral.read? cs with
    | some n => some n.toNumber
    | none =>
      if cs.dropWhile (fun c => c = '+' || c = '-') = "Infinity".toList then
        some (if cs.head? = some '-' then -infinity else infinity)
      else
        match announcedBase? (cs.take 2) with
        | none => some nan
        | some base =>
          match readInteger base (String.ofList (cs.drop 2)) with
          | .ok n => ofInt? n
          | .error _ => some nan

/-- One bound of a slice of `size` elements. -/
def sliceBound (size : Nat) (default : Nat) : Option Float → Nat
  | none => default
  | some x =>
    match decode x with
    | .nan => 0
    | .infinite negative => if negative then 0 else size
    | .finite .. =>
      match truncate? x with
      | some (.ofNat n) => min n size
      | some (.negSucc n) => size - (n + 1)
      | none => 0

/-- The two bounds of a slice of `size` elements. -/
def sliceBounds (size : Nat) (start finish : Option Float) : Nat × Nat :=
  (sliceBound size 0 start, sliceBound size size finish)

/-- The elements from position `lo` up to position `hi`. -/
def sliceList {α : Type} (xs : List α) (bounds : Nat × Nat) : List α :=
  (xs.take bounds.2).drop bounds.1

end RuleScript.Number
