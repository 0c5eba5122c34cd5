/-
# Characters from bytes

`decodeUtf8` reads bytes as UTF-8. Bytes that are no UTF-8 are refused at the
first of them that starts no character, with the number of bytes that looked
like the start of one.

Key definitions: `Utf8Error`, `decodeUtf8`, `Utf8Error.message`.
-/
import RuleScript.Number.Layout
import RuleScript.Text.Quoted

namespace RuleScript.Text

/-- Why bytes are no character. -/
inductive Utf8Cause where
  | start | continuation | ending
deriving Repr, DecidableEq

/-- The bytes from position `first` on that are no character. -/
structure Utf8Error where
  cause : Utf8Cause
  first : Nat
  count : Nat
  byte : Nat
deriving Repr, DecidableEq

/-- The message of a cause. -/
def Utf8Cause.message : Utf8Cause → String
  | .start => "invalid start byte"
  | .continuation => "invalid continuation byte"
  | .ending => "unexpected end of data"

/-- The message of an error. -/
def Utf8Error.message (e : Utf8Error) : String :=
  let what :=
    if e.count = 1 then
      "byte 0x" ++ String.ofList (hex 2 e.byte) ++ " in position " ++ Number.integerText e.first
    else
      "bytes in position " ++ Number.integerText e.first ++ "-"
        ++ Number.integerText (e.first + e.count - 1)
  "'utf-8' codec can't decode " ++ what ++ ": " ++ e.cause.message

/-- How many bytes follow a first byte, and the bounds of the next one. -/
def utf8Shape? (b : Nat) : Option (Nat × Nat × Nat) :=
  if 0xC2 ≤ b ∧ b ≤ 0xDF then some (1, 0x80, 0xBF)
  else if b = 0xE0 then some (2, 0xA0, 0xBF)
  else if b = 0xED then some (2, 0x80, 0x9F)
  else if 0xE1 ≤ b ∧ b ≤ 0xEF then some (2, 0x80, 0xBF)
  else if b = 0xF0 then some (3, 0x90, 0xBF)
  else if b = 0xF4 then some (3, 0x80, 0x8F)
  else if 0xF1 ≤ b ∧ b ≤ 0xF3 then some (3, 0x80, 0xBF)
  else none

/-- The code that the following bytes complete, `more` of them being wanted
and the next one bounded; else the cause and how many bytes were good. -/
def utf8Tail : (more lo hi code good : Nat) → List Nat → Except (Utf8Cause × Nat) Nat
  | 0, _, _, code, _, _ => .ok code
  | _ + 1, _, _, _, good, [] => .error (.ending, good)
  | more + 1, lo, hi, code, good, b :: bs =>
    if lo ≤ b ∧ b ≤ hi then utf8Tail more 0x80 0xBF (code * 0x40 + b % 0x40) (good + 1) bs
    else .error (.continuation, good)

/-- Read bytes from position `first` on; `skip` of them belong to the
character before. -/
def decodeFrom (first skip : Nat) : List Nat → Except Utf8Error (List Char)
  | [] => .ok []
  | b :: bs =>
    match skip with
    | skip + 1 => decodeFrom (first + 1) skip bs
    | 0 =>
      if b < 0x80 then (decodeFrom (first + 1) 0 bs).map (Char.ofNat b :: ·)
      else
        match utf8Shape? b with
        | none => .error ⟨.start, first, 1, b⟩
        | some (more, lo, hi) =>
          match utf8Tail more lo hi (b % 2 ^ (6 - more)) 1 bs with
          | .error (cause, good) => .error ⟨cause, first, good, b⟩
          | .ok code => (decodeFrom (first + 1) more bs).map (Char.ofNat code :: ·)

/-- The characters that bytes write. -/
def decodeUtf8 (bytes : List Nat) : Except Utf8Error (List Char) := decodeFrom 0 0 bytes

end RuleScript.Text
