/-
# Scalars as they are written

Three ways to write a scalar. A plain one runs until a colon, a comment or an
indicator ends it; a quoted one runs to its closing quote, with escapes if
the quotes are double; a block scalar is a run of lines indented alike, kept
as they are or folded. In the first two, and in folded blocks, a single line
end counts as a space and further ones as themselves.

Each reader gives the text and the place after it. Its fuel is the length of
the text that is left, which every round shortens.

Key definitions: `readPlain`, `readQuoted`, `readBlock`.
-/
import RuleScript.Data.Yaml.Fault

namespace RuleScript.Yaml

/-- A text read and the place after it. -/
abbrev Span := List Char × Cursor

/-- A line end folded into the text, given the empty lines after it. -/
def foldBreak (lineEnd breaks : List Char) : List Char :=
  if lineEnd ≠ ['\n'] then lineEnd ++ breaks
  else if breaks.isEmpty then [' ']
  else breaks

/-! ### Plain scalars -/

/-- A plain scalar's text and the place after it; also whether a key may
start there. -/
structure PlainSpan where
  text : List Char
  finish : Mark
  next : Cursor
  keyMayFollow : Bool

/-- Whether `c`, with `next` behind it, ends a run of plain text. -/
def endsPlain (inFlow : Bool) (c next : Char) : Bool :=
  isBlankOrEnd c
    || (c = ':' && (isBlankOrEnd next || (inFlow && ",[]\x7b\x7d".toList.contains next)))
    || (inFlow && ",?[]\x7b\x7d".toList.contains c)

/-- A run of plain text without blanks. -/
def plainRun (inFlow : Bool) : List Char → Mark → Span
  | [], m => ([], ⟨[], m⟩)
  | c :: cs, m =>
    if endsPlain inFlow c (cs.headD finis) then ([], ⟨c :: cs, m⟩)
    else
      let (taken, k) := plainRun inFlow cs (Cursor.passing m c cs)
      (c :: taken, k)

/-- The empty lines at a place; `none` where a document separator follows. -/
def plainBreaks : (fuel : Nat) → Cursor → Option (List Char) × Cursor
  | 0, k => (some [], k)
  | fuel + 1, k =>
    if k.head = ' ' then plainBreaks fuel k.step
    else if isBreak k.head then
      let (lineEnd, k) := k.lineBreak
      if k.atSeparator then (none, k)
      else
        let (more, k) := plainBreaks fuel k
        (more.map (lineEnd ++ ·), k)
    else (some [], k)

/-- What stands between two runs of plain text: nothing, spaces, or a folded
line end. -/
structure PlainGap where
  text : List Char
  next : Cursor
  brokeLine : Bool

/-- The gap at a place. -/
def plainGap (k : Cursor) : PlainGap :=
  let (spaces, k) := k.takeWhile (· = ' ')
  if isBreak k.head then
    let (lineEnd, k) := k.lineBreak
    if k.atSeparator then ⟨[], k, true⟩
    else
      match plainBreaks k.rest.length k with
      | (none, k) => ⟨[], k, true⟩
      | (some breaks, k) => ⟨foldBreak lineEnd breaks, k, true⟩
  else ⟨spaces, k, false⟩

/-- Runs of plain text with gaps between them; `gap` is the one before, and
`sofar` what has been read. -/
def plainRuns (inFlow : Bool) (indent : Int) :
    (fuel : Nat) → (gap : List Char) → (sofar : PlainSpan) → PlainSpan
  | 0, _, sofar => sofar
  | fuel + 1, gap, sofar =>
    let k := sofar.next
    if k.head = '#' then sofar
    else
      let (run, k) := plainRun inFlow k.rest k.mark
      if run.isEmpty then sofar
      else
        let g := plainGap k
        let sofar := ⟨sofar.text ++ gap ++ run, k.mark, g.next, g.brokeLine⟩
        if g.text.isEmpty || g.next.head = '#' || (!inFlow && (g.next.column : Int) < indent) then
          sofar
        else plainRuns inFlow indent fuel g.text sofar

/-- The plain scalar at a place; `indent` is the least column of a further
line of it. -/
def readPlain (inFlow : Bool) (indent : Int) (k : Cursor) : PlainSpan :=
  plainRuns inFlow indent (k.rest.length + 1) [] ⟨[], k.mark, k, false⟩

/-! ### Quoted scalars -/

/-- The character that an escape letter stands for. -/
def escaped? : Char → Option Char
  | '0' => some '\x00'
  | 'a' => some '\x07'
  | 'b' => some '\x08'
  | 't' => some '\t'
  | '\t' => some '\t'
  | 'n' => some '\n'
  | 'v' => some '\x0b'
  | 'f' => some '\x0c'
  | 'r' => some '\r'
  | 'e' => some '\x1b'
  | ' ' => some ' '
  | '"' => some '"'
  | '\\' => some '\\'
  | '/' => some '/'
  | 'N' => some '\x85'
  | '_' => some '\xa0'
  | 'L' => some '\u2028'
  | 'P' => some '\u2029'
  | _ => none

/-- How many digits the code of an escape has. -/
def codeLength? : Char → Option Nat
  | 'x' => some 2
  | 'u' => some 4
  | 'U' => some 8
  | _ => none

/-- The value of a hexadecimal digit. -/
def hexValue (c : Char) : Nat :=
  if c.isDigit then c.toNat - '0'.toNat
  else if 'a' ≤ c then c.toNat - 'a'.toNat + 10
  else c.toNat - 'A'.toNat + 10

/-- The number that hexadecimal digits write. -/
def hexNumber (cs : List Char) : Nat := cs.foldl (fun n c => n * 16 + hexValue c) 0

/-- Whether a code is the first half of a pair that stands for one
character. -/
def isHighHalf (n : Nat) : Bool := 0xD800 ≤ n && n < 0xDC00

/-- Whether a code is the second half of such a pair. -/
def isLowHalf (n : Nat) : Bool := 0xDC00 ≤ n && n < 0xE000

/-- The second half of a pair, if an escape here writes one. -/
def lowHalf? : List Char → Option Nat
  | '\\' :: 'u' :: a :: b :: c :: d :: _ =>
    let digits := [a, b, c, d]
    if digits.all isHexChar && isLowHalf (hexNumber digits) then some (hexNumber digits) else none
  | _ => none

/-- The character with a code; a half of a pair on its own has none. -/
def codeChar (n : Nat) : Reading Char :=
  if n < 0x110000 then .ok (if n.isValidChar then Char.ofNat n else '\uFFFD')
  else if n < 0x80000000 then .error (.badValue "chr() arg not in range(0x110000)")
  else .error .codeTooLarge

/-- The line ends and blanks inside a quoted scalar that started at
`since`. -/
def quotedBreaks (since : Mark) : (fuel : Nat) → Cursor → Reading Span
  | 0, k => .ok ([], k)
  | fuel + 1, k =>
    if k.atSeparator then faultIn (.scanning "a quoted scalar") since .separatorInside k.mark
    else
      let k := k.dropWhile fun c => c = ' ' || c = '\t'
      if isBreak k.head then do
        let (lineEnd, k) := k.lineBreak
        let (more, k) ← quotedBreaks since fuel k
        return (lineEnd ++ more, k)
      else .ok ([], k)

/-- The escape after a backslash in a double-quoted scalar. -/
def readEscape (since : Mark) (k : Cursor) : Reading Span :=
  match escaped? k.head, codeLength? k.head with
  | some c, _ => .ok ([c], k.step)
  | none, some n =>
    let k := k.step
    let digits := k.rest.take n
    match digits.find? (!isHexChar ·) with
    | some c => wrong n c k
    | none =>
      if digits.length < n then wrong n finis k
      else
        let code := hexNumber digits
        match lowHalf? (k.rest.drop n) with
        | some low =>
          if isHighHalf code then
            .ok ([Char.ofNat (0x10000 + (code - 0xD800) * 0x400 + (low - 0xDC00))], k.skip (n + 6))
          else do return ([← codeChar code], k.skip n)
        | none => do return ([← codeChar code], k.skip n)
  | none, none =>
    if isBreak k.head then quotedBreaks since (k.rest.length + 1) k.lineBreak.2
    else faultIn (.scanning "a double-quoted scalar") since (.unknownEscape k.head) k.mark
where
  /-- A code with a character that is no digit. -/
  wrong (n : Nat) (c : Char) (k : Cursor) : Reading Span :=
    faultIn (.scanning "a double-quoted scalar") since
      (.expectedChar ("escape sequence of " ++ Number.integerText n ++ " hexadecimal numbers") c)
      k.mark

/-- A character that stands for itself in any quoted scalar. -/
def isQuotable (c : Char) : Bool :=
  !(c = '\'' || c = '"' || c = '\\' || c = ' ' || c = '\t' || isBreak c)

/-- Quoted text up to a blank, a line end or the closing quote. -/
def quotedRun (double : Bool) (since : Mark) : (fuel : Nat) → Cursor → Reading Span
  | 0, k => .ok ([], k)
  | fuel + 1, k =>
    let (run, k) := k.takeWhile isQuotable
    let c := k.head
    let andThen (text : List Char) (k : Cursor) : Reading Span := do
      let (more, k) ← quotedRun double since fuel k
      return (run ++ text ++ more, k)
    if !double && c = '\'' && k.peek 1 = '\'' then andThen ['\''] (k.skip 2)
    else if (double && c = '\'') || (!double && (c = '"' || c = '\\')) then andThen [c] k.step
    else if double && c = '\\' then do
      let (text, k) ← readEscape since k.step
      andThen text k
    else .ok (run, k)

/-- Blanks or a folded line end inside a quoted scalar. -/
def quotedGap (since : Mark) (k : Cursor) : Reading Span :=
  let (blanks, k) := k.takeWhile fun c => c = ' ' || c = '\t'
  if k.head = finis then faultIn (.scanning "a quoted scalar") since .endOfStream k.mark
  else if isBreak k.head then do
    let (lineEnd, k) := k.lineBreak
    let (breaks, k) ← quotedBreaks since (k.rest.length + 1) k
    return (foldBreak lineEnd breaks, k)
  else .ok (blanks, k)

/-- Quoted text up to the closing quote. -/
def quotedRuns (double : Bool) (since : Mark) : (fuel : Nat) → Cursor → Reading Span
  | 0, k => .ok ([], k)
  | fuel + 1, k => do
    let (run, k) ← quotedRun double since (k.rest.length + 1) k
    if k.head = (if double then '"' else '\'') then return (run, k)
    else
      let (gap, k) ← quotedGap since k
      let (more, k) ← quotedRuns double since fuel k
      return (run ++ gap ++ more, k)

/-- The quoted scalar at a place. -/
def readQuoted (double : Bool) (k : Cursor) : Reading Span := do
  let (text, next) ← quotedRuns double k.mark (k.rest.length + 1) k.step
  return (text, next.step)

/-! ### Block scalars -/

/-- What becomes of the line ends at the end of a block scalar. -/
inductive Chomping where
  | clip | strip | keep
deriving Repr, DecidableEq

/-- The chomping sign at a place. -/
def chomping? : Char → Option Chomping
  | '+' => some .keep
  | '-' => some .strip
  | _ => none

/-- The indentation digit at a place, if there is one. -/
def blockIncrement (since : Mark) (k : Cursor) : Reading (Option Nat × Cursor) :=
  if k.head = '0' then faultIn (.scanning "a block scalar") since .zeroIndent k.mark
  else if k.head.isDigit then .ok (some (k.head.toNat - '0'.toNat), k.step)
  else .ok (none, k)

/-- The header of a block scalar: sign and digit in either order. -/
def blockHeader (since : Mark) (k : Cursor) : Reading (Chomping × Option Nat × Cursor) := do
  let (sign, increment, k) ← match chomping? k.head with
    | some sign => do
      let (increment, k) ← blockIncrement since k.step
      pure (sign, increment, k)
    | none => do
      match ← blockIncrement since k with
      | (none, k) => pure (.clip, none, k)
      | (some n, k) =>
        match chomping? k.head with
        | some sign => pure (sign, some n, k.step)
        | none => pure (.clip, some n, k)
  if isSpaceOrEnd k.head then return (sign, increment, k)
  else
    faultIn (.scanning "a block scalar") since
      (.expectedChar "chomping or indentation indicators" k.head) k.mark

/-- The rest of a header line: spaces and a comment. -/
def headerEnd (doing : Activity) (since : Mark) (k : Cursor) : Reading Cursor :=
  let k := k.skipSpaces.skipComment
  if isBreakOrEnd k.head then .ok k.lineBreak.2
  else faultIn doing since (.expectedChar "a comment or a line break" k.head) k.mark

/-- The empty lines in front of a block scalar, and the widest run of spaces
among them and before its first line. -/
def blockIndentation : (fuel : Nat) → (widest : Nat) → Cursor → List Char × Nat × Cursor
  | 0, widest, k => ([], widest, k)
  | fuel + 1, widest, k =>
    if k.head = ' ' then blockIndentation fuel (max widest k.step.column) k.step
    else if isBreak k.head then
      let (lineEnd, k) := k.lineBreak
      let (more, widest, k) := blockIndentation fuel widest k
      (lineEnd ++ more, widest, k)
    else ([], widest, k)

/-- Skip spaces up to a column. -/
def skipToColumn (indent : Nat) : (fuel : Nat) → Cursor → Cursor
  | 0, k => k
  | fuel + 1, k =>
    if k.column < indent && k.head = ' ' then skipToColumn indent fuel k.step else k

/-- The empty lines inside a block scalar. -/
def blockBreaks (indent : Nat) : (fuel : Nat) → Cursor → Span
  | 0, k => ([], k)
  | fuel + 1, k =>
    let k := skipToColumn indent k.rest.length k
    if isBreak k.head then
      let (lineEnd, k) := k.lineBreak
      let (more, k) := blockBreaks indent fuel k
      (lineEnd ++ more, k)
    else ([], k)

/-- The end of a block scalar, given its last line end and the empty lines
after it. -/
def chomp (sign : Chomping) (lineEnd breaks : List Char) : List Char :=
  match sign with
  | .strip => []
  | .clip => lineEnd
  | .keep => lineEnd ++ breaks

/-- A blank that starts a line of a block scalar. -/
def isInset (c : Char) : Bool := c = ' ' || c = '\t'

/-- The lines of a block scalar, with the empty lines before them. -/
def blockLines (folded : Bool) (sign : Chomping) (indent : Nat) :
    (fuel : Nat) → (breaks : List Char) → Cursor → Span
  | 0, _, k => ([], k)
  | fuel + 1, breaks, k =>
    let inset := isInset k.head
    let (line, k) := k.takeWhile (!isBreak ·)
    let (lineEnd, k) := k.lineBreak
    let (more, k) := blockBreaks indent (k.rest.length + 1) k
    if k.column = indent && k.head ≠ finis then
      let fold := folded && lineEnd = ['\n'] && !inset && !isInset k.head
      let joint := if !fold then lineEnd else if more.isEmpty then [' '] else []
      let (tail, k) := blockLines folded sign indent fuel more k
      (breaks ++ line ++ joint ++ tail, k)
    else (breaks ++ line ++ chomp sign lineEnd more, k)

/-- The block scalar at a place; `indent` is the column of the block around
it. -/
def readBlock (folded : Bool) (indent : Int) (k : Cursor) : Reading Span := do
  let since := k.mark
  let (sign, increment, k) ← blockHeader since k.step
  let k ← headerEnd (.scanning "a block scalar") since k
  let least := (max 1 (indent + 1)).toNat
  let (breaks, column, k) := match increment with
    | some n =>
      let column := least + n - 1
      let (breaks, k) := blockBreaks column (k.rest.length + 1) k
      (breaks, column, k)
    | none =>
      let (breaks, widest, k) := blockIndentation (k.rest.length + 1) 0 k
      (breaks, max least widest, k)
  if k.column = column && k.head ≠ finis then
    return blockLines folded sign column (k.rest.length + 1) breaks k
  else return (chomp sign [] breaks, k)

end RuleScript.Yaml
