/-
# Upper and lower case

Full case mapping of a text: one character may become several (the sharp s
becomes two capital letters). Lower case has one rule that looks around: a
capital sigma at the end of a word takes its final form. It stands at the
end of a word when, looking past marks, a cased letter comes before it and
none after it.

Key definitions: `toUpper`, `toLower`.
-/
import RuleScript.Text.Range
import RuleScript.Text.CaseTable

namespace RuleScript.Text

/-- Where `n` goes under one run of a case table. -/
def CaseRun.apply? (r : CaseRun) (n : Nat) : Option Nat :=
  if r.first ≤ n ∧ n ≤ r.last ∧ (n - r.first) % r.step = 0 then
    some (Int.ofNat n + r.shift).toNat
  else none

/-- The other case of a character by a pair of tables, or the character
itself. -/
def mapCase (expansions : Array (Nat × List Nat)) (runs : Array CaseRun) (c : Char) : List Char :=
  match expansions.find? fun e => e.1 == c.toNat with
  | some e => e.2.map Char.ofNat
  | none =>
    match runs.findSome? fun r => r.apply? c.toNat with
    | some n => [Char.ofNat n]
    | none => [c]

/-- The upper case of one character. -/
def upperChar (c : Char) : List Char := mapCase upperExpansions upperRuns c

/-- The lower case of one character, away from the final sigma rule. -/
def lowerChar (c : Char) : List Char := mapCase lowerExpansions lowerRuns c

/-- A letter that has a case. -/
def isCased (c : Char) : Bool := inRanges casedRanges c.toNat

/-- A character that a case rule looks past. -/
def isCaseIgnorable (c : Char) : Bool := inRanges caseIgnorableRanges c.toNat

/-- Whether the first character that is not looked past has a case. -/
def startsCased (cs : List Char) : Bool :=
  match cs.dropWhile isCaseIgnorable with
  | c :: _ => isCased c
  | [] => false

/-- Lower case of the characters, given the ones before them, nearest
first. -/
def lowerAfter (before : List Char) : List Char → List Char
  | [] => []
  | c :: rest =>
    let here :=
      if c = 'Σ' then
        [if startsCased before && !startsCased rest then 'ς' else 'σ']
      else lowerChar c
    here ++ lowerAfter (c :: before) rest

/-- A text in upper case. -/
def toUpper (s : String) : String := String.ofList (s.toList.flatMap upperChar)

/-- A text in lower case. -/
def toLower (s : String) : String := String.ofList (lowerAfter [] s.toList)

end RuleScript.Text
