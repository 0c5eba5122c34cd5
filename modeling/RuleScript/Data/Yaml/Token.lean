/-
# Tokens of a YAML text

A token is a mark of structure or a piece of content, with the places where
it starts and ends.

Key definitions: `Directive`, `Lexeme`, `Lexeme.label`, `Token`.
-/
import RuleScript.Data.Yaml.Cursor

namespace RuleScript.Yaml

/-- A directive in front of a document. -/
inductive Directive where
  | version (major minor : Nat)
  /-- A short form for tags that start alike. -/
  | handle (name expansion : String)
  | other
deriving Repr, DecidableEq

/-- What a token is. -/
inductive Lexeme where
  | streamStart
  | streamEnd
  | directive (d : Directive)
  | documentStart
  | documentEnd
  | blockSequenceStart
  | blockMappingStart
  | blockEnd
  | flowSequenceStart
  | flowMappingStart
  | flowSequenceEnd
  | flowMappingEnd
  | key
  | value
  | blockEntry
  | flowEntry
  | alias (name : String)
  | anchor (name : String)
  /-- A tag with its handle, if it is written with one. -/
  | tag (handle : Option String) (suffix : String)
  | scalar (text : String) (plain : Bool)
deriving Repr, DecidableEq

/-- How a token is named in a message. -/
def Lexeme.label : Lexeme → String
  | .streamStart => "<stream start>"
  | .streamEnd => "<stream end>"
  | .directive _ => "<directive>"
  | .documentStart => "<document start>"
  | .documentEnd => "<document end>"
  | .blockSequenceStart => "<block sequence start>"
  | .blockMappingStart => "<block mapping start>"
  | .blockEnd => "<block end>"
  | .flowSequenceStart => "["
  | .flowMappingStart => "\x7b"
  | .flowSequenceEnd => "]"
  | .flowMappingEnd => "\x7d"
  | .key => "?"
  | .value => ":"
  | .blockEntry => "-"
  | .flowEntry => ","
  | .alias _ => "<alias>"
  | .anchor _ => "<anchor>"
  | .tag .. => "<tag>"
  | .scalar .. => "<scalar>"

/-- A token and its two ends. -/
structure Token where
  lexeme : Lexeme
  start : Mark
  finish : Mark
deriving Repr, DecidableEq

end RuleScript.Yaml
