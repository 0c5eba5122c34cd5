/-
# Tags of a template

A tag stands between two delimiters. Between the opening delimiter and the
contents, and before the closing delimiter, blanks are skipped. The contents
are one of

* new delimiters between two equal signs;
* a name between braces, inserted like any other;
* an optional sign and a name or text.

The contents are as short as they can be with the closing delimiter behind
them. Blanks are skipped as long as that leaves any contents; `giveBack`
tries fewer of them otherwise.

Key definitions: `Tag`, `Delimiters`, `tagAt?`, `nextTag?`.
-/
import RuleScript.Text.Blank
import RuleScript.Text.Search

namespace RuleScript.Template

open RuleScript.Text

/-- The kind of a tag. -/
inductive TagKind where
  | insertion
  | comment
  | inclusion
  | sectionStart
  | sectionInverted
  | sectionEnd
  | change
deriving Repr, DecidableEq

/-- A tag. -/
structure Tag where
  kind : TagKind
  key : List Char
deriving Repr, DecidableEq

/-- The delimiters in force. -/
structure Delimiters where
  opening : List Char
  closing : List Char
deriving Repr, DecidableEq

/-- The delimiters a template starts with: two braces. -/
def Delimiters.standard : Delimiters := ⟨['\x7b', '\x7b'], ['\x7d', '\x7d']⟩

/-- Skip `n` characters, or fewer if nothing matches behind them. -/
def giveBack {α : Type} (k : List Char → Option α) (cs : List Char) : (n : Nat) → Option α
  | 0 => k cs
  | n + 1 => (k (cs.drop (n + 1))).or (giveBack k cs n)

/-- Skip blanks, fewer of them if nothing matches behind them. -/
def skipBlanks {α : Type} (k : List Char → Option α) (cs : List Char) : Option α :=
  giveBack k cs (cs.takeWhile isBlank).length

/-- The shortest contents, at least one character and all satisfying `p`, such
that `k` matches behind them. `taken` holds the contents so far, last first. -/
def shortest {α : Type} (p : Char → Bool) (k : List Char → Option α) (taken : List Char) :
    List Char → Option (List Char × α)
  | [] => none
  | c :: cs =>
    if p c then
      match k cs with
      | some a => some ((c :: taken).reverse, a)
      | none => shortest p k (c :: taken) cs
    else none

/-- The text behind a piece, blanks before it skipped. -/
def behind? (piece cs : List Char) : Option (List Char) :=
  dropPiece? piece (cs.dropWhile isBlank)

/-- The kind of tag that a sign announces. -/
def signKind? : Char → Option TagKind
  | '!' => some .comment
  | '>' => some .inclusion
  | '&' => some .insertion
  | '/' => some .sectionEnd
  | '#' => some .sectionStart
  | '^' => some .sectionInverted
  | _ => none

/-- Contents between two marks. -/
def enclosed? (kind : TagKind) (close : Char) (closing : List Char) (cs : List Char) :
    Option (Tag × List Char) :=
  skipBlanks (fun cs =>
    (shortest (· ≠ '\n') (fun cs => (behind? [close] cs).bind (behind? closing)) [] cs).map
      fun (key, rest) => (⟨kind, key⟩, rest)) cs

/-- Contents that take the rest of the tag. -/
def upToClosing? (kind : TagKind) (closing : List Char) (cs : List Char) : Option (Tag × List Char) :=
  skipBlanks (fun cs =>
    (shortest (fun _ => true) (behind? closing) [] cs).map fun (key, rest) => (⟨kind, key⟩, rest)) cs

/-- The contents of a tag and the text behind it. -/
def contents? (closing : List Char) (cs : List Char) : Option (Tag × List Char) :=
  match cs with
  | [] => none
  | c :: rest =>
    let marked :=
      if c = '=' then enclosed? .change '=' closing rest
      else if c = '\x7b' then enclosed? .insertion '\x7d' closing rest
      else none
    let signed := (signKind? c).bind fun kind => upToClosing? kind closing rest
    marked.or (signed.or (upToClosing? .insertion closing cs))

/-- The tag at the front of a text, and the text behind it. -/
def tagAt? (d : Delimiters) (cs : List Char) : Option (Tag × List Char) :=
  (dropPiece? d.opening cs).bind (skipBlanks (contents? d.closing))

/-- The first tag of a text: the text before it, last character first, the
tag, and the text behind it. -/
def nextTag? (d : Delimiters) (before : List Char) : List Char →
    Option (List Char × Tag × List Char)
  | [] => none
  | c :: cs =>
    match tagAt? d (c :: cs) with
    | some (tag, rest) => some (before, tag, rest)
    | none => nextTag? d (c :: before) cs

end RuleScript.Template
