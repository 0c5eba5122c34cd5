/-
# Searching and cutting text

`find?` gives the first place where a piece occurs; `cut` splits at its
leftmost occurrences that do not overlap; `join` puts pieces back together.
Positions count characters.

Key definitions: `startsWith`, `find?`, `cut`, `join`.
-/

namespace RuleScript.Text

/-- The characters after `piece`, when `cs` starts with it. -/
def dropPiece? : (piece cs : List Char) → Option (List Char)
  | [], cs => some cs
  | _ :: _, [] => none
  | p :: ps, c :: cs => if p = c then dropPiece? ps cs else none

/-- The first position at which `piece` occurs. -/
def find? (piece : List Char) : List Char → Option Nat
  | [] => if piece.isEmpty then some 0 else none
  | c :: cs =>
    if (dropPiece? piece (c :: cs)).isSome then some 0
    else (find? piece cs).map (· + 1)

/-- Cut at the leftmost occurrences of a nonempty `piece` that do not
overlap. `skip` characters of an occurrence are still to be passed over, and
`part` holds the current part backwards. -/
def cutFrom (piece : List Char) : (skip : Nat) → (part : List Char) → List Char → List (List Char)
  | _, part, [] => [part.reverse]
  | skip + 1, part, _ :: cs => cutFrom piece skip part cs
  | 0, part, c :: cs =>
    if (dropPiece? piece (c :: cs)).isSome then
      part.reverse :: cutFrom piece (piece.length - 1) [] cs
    else cutFrom piece 0 (c :: part) cs

/-- The parts of a text between the occurrences of a nonempty `piece`. -/
def cut (piece : List Char) (cs : List Char) : List (List Char) := cutFrom piece 0 [] cs

/-- The parts with a separator between them. -/
def join (separator : String) (parts : List String) : String :=
  String.intercalate separator parts

end RuleScript.Text
