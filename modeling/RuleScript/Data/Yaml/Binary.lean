/-
# Bytes in base 64

Four characters write three bytes. Characters outside the alphabet are passed
over; a padding sign ends the text once the last group is complete with it.

Key definitions: `Base64Error`, `decodeBase64`, `shownBytes`.
-/
import RuleScript.Number.Layout
import RuleScript.Text.Quoted

namespace RuleScript.Yaml

/-- Why a text is no base 64. -/
inductive Base64Error where
  | padding
  /-- This many characters leave one over. -/
  | leftover (count : Nat)
deriving Repr, DecidableEq

/-- The message of an error. -/
def Base64Error.message : Base64Error → String
  | .padding => "Incorrect padding"
  | .leftover count =>
    "Invalid base64-encoded string: number of data characters (" ++ Number.integerText count
      ++ ") cannot be 1 more than a multiple of 4"

/-- The value of a character of the alphabet. -/
def sextet? (c : Char) : Option Nat :=
  if 'A' ≤ c ∧ c ≤ 'Z' then some (c.toNat - 'A'.toNat)
  else if 'a' ≤ c ∧ c ≤ 'z' then some (c.toNat - 'a'.toNat + 26)
  else if '0' ≤ c ∧ c ≤ '9' then some (c.toNat - '0'.toNat + 52)
  else if c = '+' then some 62
  else if c = '/' then some 63
  else none

/-- Where decoding stands: the values of the current group, how many padding
signs follow them, and the bytes so far, last first. -/
structure Base64State where
  group : List Nat
  pads : Nat
  bytes : List Nat

/-- The byte that two neighbouring values complete, the second being at
position `place` of its group. -/
def joinSextets (place a b : Nat) : Nat :=
  match place with
  | 1 => a * 4 + b / 16
  | 2 => a % 16 * 16 + b / 4
  | _ => a % 4 * 64 + b

/-- The state after one more value. -/
def Base64State.add (s : Base64State) (v : Nat) : Base64State :=
  match s.group with
  | [] => ⟨[v], 0, s.bytes⟩
  | a :: more =>
    let place := more.length + 1
    ⟨if place = 3 then [] else v :: a :: more, 0, joinSextets place a v :: s.bytes⟩

/-- Decode the rest of a text. -/
def decodeBase64From (s : Base64State) : List Char → Except Base64Error (List Nat)
  | [] =>
    match s.group.length with
    | 0 => .ok s.bytes.reverse
    | 1 => .error (.leftover (s.bytes.length / 3 * 4 + 1))
    | _ => .error .padding
  | c :: cs =>
    if c = '=' then
      if 2 ≤ s.group.length then
        if 4 ≤ s.group.length + s.pads + 1 then .ok s.bytes.reverse
        else decodeBase64From { s with pads := s.pads + 1 } cs
      else decodeBase64From s cs
    else
      match sextet? c with
      | some v => decodeBase64From (s.add v) cs
      | none => decodeBase64From s cs

/-- The bytes of a text in base 64. -/
def decodeBase64 (cs : List Char) : Except Base64Error (List Nat) :=
  decodeBase64From ⟨[], 0, []⟩ cs

/-- One byte inside quotes `q`. -/
def shownByte (q : Char) (b : Nat) : List Char :=
  let c := Char.ofNat b
  if c = q ∨ c = '\\' then ['\\', c]
  else if c = '\t' then ['\\', 't']
  else if c = '\n' then ['\\', 'n']
  else if c = '\r' then ['\\', 'r']
  else if 32 ≤ b ∧ b < 127 then [c]
  else '\\' :: 'x' :: Text.hex 2 b

/-- Bytes as they show in diagnostics. -/
def shownBytes (bytes : List Nat) : String :=
  let q := if bytes.contains '\''.toNat && !bytes.contains '"'.toNat then '"' else '\''
  String.ofList ('b' :: q :: bytes.flatMap (shownByte q) ++ [q])

end RuleScript.Yaml
