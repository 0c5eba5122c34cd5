/-
# Faults of a YAML text

A fault says what was being done and where that started, and what the
problem is and where. The two places are both shown unless they are the same
line and column.

Key definitions: `Activity`, `Problem`, `Refusal`, `Refusal.message`.
-/
import RuleScript.Data.Yaml.Cursor
import RuleScript.Text.Quoted

namespace RuleScript.Yaml

open RuleScript.Text (quoted)

/-- What was being done when a fault was found. -/
inductive Activity where
  | scanning (what : String)
  | parsing (what : String)
  | constructing (what : String)
  /-- The stream should hold one document. -/
  | singleDocument
  /-- An anchor is set a second time. -/
  | anchoring (name : String)
deriving Repr, DecidableEq

/-- The message of an activity. -/
def Activity.message : Activity → String
  | .scanning what => "while scanning " ++ what
  | .parsing what => "while parsing " ++ what
  | .constructing what => "while constructing " ++ what
  | .singleDocument => "expected a single document in the stream"
  | .anchoring name => "found duplicate anchor " ++ quoted name ++ "; first occurrence"

/-- What is wrong. -/
inductive Problem where
  /-- A character starts no token. -/
  | cannotStart (c : Char)
  /-- What looked like a key has no colon. -/
  | missingColon
  /-- Something may not stand here. -/
  | notAllowed (what : String)
  | expectedChar (wanted : String) (got : Char)
  | expectedToken (wanted got : String)
  | expectedInFlow (wanted got : String)
  | expectedKind (wanted got : String)
  | expectedItem (count : Nat)
  | zeroIndent
  | endOfStream
  | separatorInside
  | unknownEscape (c : Char)
  | badUriByte (message : String)
  | unknownHandle (handle : String)
  | repeatedVersion
  | wrongVersion
  | repeatedHandle (handle : String)
  | undefinedAlias (name : String)
  | secondOccurrence
  | anotherDocument
  | unhashableKey
  | unknownTag (tag : String)
  | notAscii (message : String)
  | notBase64 (message : String)
deriving Repr, DecidableEq

/-- The message of a problem. -/
def Problem.message : Problem → String
  | .cannotStart c => "found character " ++ quoted c.toString ++ " that cannot start any token"
  | .missingColon => "could not find expected ':'"
  | .notAllowed what => what ++ " are not allowed here"
  | .expectedChar wanted got => "expected " ++ wanted ++ ", but found " ++ quoted got.toString
  | .expectedToken wanted got => "expected " ++ wanted ++ ", but found " ++ quoted got
  | .expectedInFlow wanted got => "expected " ++ wanted ++ ", but got " ++ quoted got
  | .expectedKind wanted got => "expected " ++ wanted ++ ", but found " ++ got
  | .expectedItem count =>
    "expected a single mapping item, but found " ++ Number.integerText count ++ " items"
  | .zeroIndent => "expected indentation indicator in the range 1-9, but found 0"
  | .endOfStream => "found unexpected end of stream"
  | .separatorInside => "found unexpected document separator"
  | .unknownEscape c => "found unknown escape character " ++ quoted c.toString
  | .badUriByte message => message
  | .unknownHandle handle => "found undefined tag handle " ++ quoted handle
  | .repeatedVersion => "found duplicate YAML directive"
  | .wrongVersion => "found incompatible YAML document (version 1.* is required)"
  | .repeatedHandle handle => "duplicate tag handle " ++ quoted handle
  | .undefinedAlias name => "found undefined alias " ++ quoted name
  | .secondOccurrence => "second occurrence"
  | .anotherDocument => "but found another document"
  | .unhashableKey => "found unhashable key"
  | .unknownTag tag => "could not determine a constructor for the tag " ++ quoted tag
  | .notAscii message => "failed to convert base64 data into ascii: " ++ message
  | .notBase64 message => "failed to decode base64 data: " ++ message

/-- Why a text is not read. -/
inductive Refusal where
  | fault (context : Option (Activity × Option Mark)) (problem : Problem) (place : Mark)
  /-- The text holds a character that no YAML text may hold. -/
  | unacceptable (c : Char) (index : Nat)
  /-- A scalar does not write a value of the kind that its tag names. -/
  | badValue (message : String)
  /-- A scalar is not one of the words for a truth value. -/
  | unknownWord (word : String)
  /-- A scalar tagged as a number has no characters. -/
  | emptyNumber
  /-- A scalar tagged as a timestamp is none. -/
  | notTimestamp
  /-- What is tagged as a timestamp is a mapping that passes for a scalar. -/
  | notText
  /-- The code of an escape does not fit a machine integer. -/
  | codeTooLarge
  /-- An integer has no nearest double. -/
  | integerTooLarge
  | tooDeep
deriving Repr, DecidableEq

/-- The result of a reading step. -/
abbrev Reading (α : Type) := Except Refusal α

/-- A fault with a context that has its own place. -/
def faultIn {α : Type} (doing : Activity) (since : Mark) (problem : Problem) (place : Mark) :
    Reading α :=
  .error (.fault (some (doing, some since)) problem place)

/-- A fault without a context. -/
def faultAt {α : Type} (problem : Problem) (place : Mark) : Reading α :=
  .error (.fault none problem place)

/-- The lines of a fault's context; the place is left out where the problem
has the same. -/
def contextLines (source : List Char) (place : Mark) : Option (Activity × Option Mark) → List String
  | none => []
  | some (doing, none) => [doing.message]
  | some (doing, some since) =>
    if since.line = place.line ∧ since.column = place.column then [doing.message]
    else [doing.message, since.text source]

/-- The message of a refusal of a text. -/
def Refusal.message (source : List Char) : Refusal → String
  | .fault context problem place =>
    "invalid YAML: " ++ String.intercalate "\n"
      (contextLines source place context ++ [problem.message, place.text source])
  | .unacceptable c index =>
    "invalid YAML: unacceptable character #x"
      ++ String.ofList (Text.hex 4 c.toNat)
      ++ ": special characters are not allowed\n  in \"<unicode string>\", position "
      ++ Number.integerText index
  | .badValue message => message
  | .unknownWord word => quoted word
  | .emptyNumber => "string index out of range"
  | .notTimestamp => "'NoneType' object has no attribute 'groupdict'"
  | .notText => "expected string or bytes-like object, got 'list'"
  | .codeTooLarge => "Python int too large to convert to C int"
  | .integerTooLarge => "int too large to convert to float"
  | .tooDeep => "maximum call depth exceeded"

end RuleScript.Yaml
