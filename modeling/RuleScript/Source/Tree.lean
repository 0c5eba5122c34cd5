/-
# From a text to its nodes

A source text is parsed by its grammar, and the tree that comes out is turned into
nodes. A bracket that closes nothing, closes the wrong kind or stays open makes the
source malformed, and so does a character that starts no token. Spans nested deeper
than there is room for are refused.

Key definitions: `ParseError`, `parse`.
-/
import RuleScript.Source.Grammar

namespace RuleScript

/-- Why a source text has no nodes. -/
inductive ParseError where
  | malformed
  | tooDeep
deriving Repr, DecidableEq

/-- The nodes of a source text, with room for so many open spans: the program takes
a call, an open span two, and the nodes inside the innermost span two more. -/
def parse (spans : Nat) (source : String) : Except ParseError (List Node) :=
  match Grammar.Production.level (2 * spans + 3) .program .start source.toList with
  | .exhausted => .error .tooDeep
  | .failed => .error .malformed
  | .found trees _ _ =>
    match Outline.nodes source (.list trees) with
    | .ok nodes => .ok nodes
    | .error _ => .error .malformed

end RuleScript
