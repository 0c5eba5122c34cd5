/-
# How a scalar is written

A text is written plain where that is safe: where it reads back as the same
text, starts with no indicator and holds none that would end it, and holds no
line end and nothing that has to be escaped. Else it is put in single quotes,
and in double quotes where single ones cannot hold it: next to a line end
they lose spaces.

Key definitions: `ScalarStyle`, `holdsIndicator`, `scalarStyle`.
-/
import RuleScript.Data.Yaml.Cursor
import RuleScript.Data.Yaml.Schema

namespace RuleScript.Yaml

/-- The ways to write a scalar. -/
inductive ScalarStyle where
  | plain | single | double
deriving Repr, DecidableEq

/-- A line end that is kept in a text. -/
def isKeptBreak (c : Char) : Bool := c = '\n' || c = '\x85' || c = '\u2028' || c = '\u2029'

/-- A character that shows as itself in any style. -/
def isShowable (c : Char) : Bool :=
  c = '\n' || (' ' ≤ c && c ≤ '~')
    || ((c = '\x85' || (0xA0 ≤ c.toNat && c.toNat ≤ 0xFFFD)
      || (0x10000 ≤ c.toNat && c.toNat < 0x10FFFF)) && c ≠ '\uFEFF')

/-- Whether a character satisfying `p` stands right before one satisfying
`q`. -/
def holdsNext (p q : Char → Bool) : List Char → Bool
  | a :: b :: cs => (p a && q b) || holdsNext p q (b :: cs)
  | _ => false

/-- Whether a text holds a colon before a blank or the end, or a hash behind
a blank; `before` is the character in front. -/
def holdsIndicator (before : Char) : List Char → Bool
  | [] => false
  | c :: cs =>
    (c = ':' && isBlankOrEnd (cs.headD finis)) || (c = '#' && isBlankOrEnd before)
      || holdsIndicator c cs

/-- Whether a text starts with an indicator. -/
def startsWithIndicator : List Char → Bool
  | [] => false
  | c :: cs =>
    "#,[]\x7b\x7d&*!|>'\"%@\x60".toList.contains c
      || ((c = '?' || c = ':' || c = '-') && isBlankOrEnd (cs.headD finis))

/-- Whether a text starts like a rule between documents. -/
def startsWithRule (cs : List Char) : Bool :=
  cs.take 3 = ['-', '-', '-'] || cs.take 3 = ['.', '.', '.']

/-- Whether single quotes can hold a text. -/
def fitsSingle (cs : List Char) : Bool :=
  cs.all isShowable && !holdsNext (· = ' ') isKeptBreak cs && !holdsNext isKeptBreak (· = ' ') cs

/-- A space or a line end. -/
def isEdge (c : Char) : Bool := c = ' ' || isKeptBreak c

/-- Whether a text may stand without quotes in a block. -/
def fitsPlain (cs : List Char) : Bool :=
  fitsSingle cs && !cs.any isKeptBreak
    && !(cs.head?.any isEdge) && !(cs.getLast?.any isEdge)
    && !startsWithRule cs && !startsWithIndicator cs
    && !holdsIndicator (cs.headD finis) cs.tail

/-- The style of a text of a kind; a key that stands on one line with its
value is written on one line. -/
def scalarStyle (kind : Kind) (asKey : Bool) (s : String) : ScalarStyle :=
  let cs := s.toList
  let many := cs.any isKeptBreak
  if plainKind s = kind && fitsPlain cs && !(asKey && cs.isEmpty) then .plain
  else if fitsSingle cs && !(asKey && many) then .single
  else .double

end RuleScript.Yaml
