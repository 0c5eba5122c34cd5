/-
# The tokens of a YAML text

`tokenStream` cuts a text into tokens. Structure is written by indentation
and by indicators; that a scalar is the key of a mapping shows only at the
colon behind it, on the same line and at most 1024 characters on. So the
scan remembers, for every level of flow brackets, the last token that may
turn out to be a key, and puts the key's token in front of it when the colon
comes. Such a token must be a key if it stands at the column of a block.

A text that cannot be cut to its end gives the tokens that are settled by
then, and the refusal: a token is settled once neither it nor one before it
may still turn out to be a key.

Key definitions: `TokenStream`, `tokenStream`.
-/
import RuleScript.Data.Yaml.Property

namespace RuleScript.Yaml

/-- The tokens of a text, and what stopped the scan if it did not reach the
end. -/
structure TokenStream where
  tokens : List Token
  trouble : Option Refusal
deriving Repr, DecidableEq

/-- A token that may turn out to be a key: its number, its place, and
whether it must. -/
structure PossibleKey where
  number : Nat
  required : Bool
  mark : Mark
deriving Repr, DecidableEq

/-- The state of a scan. -/
structure Scan where
  cursor : Cursor
  /-- How many flow brackets are open; a bracket too many makes it
  negative. -/
  flow : Int
  /-- The tokens so far, last first. -/
  tokens : List Token
  count : Nat
  /-- The column of the innermost block. -/
  indent : Int
  /-- The columns of the blocks around it. -/
  outer : List Int
  keyAllowed : Bool
  /-- The possible key of each level of flow brackets. -/
  keys : List (Int × PossibleKey)
  done : Bool
deriving Repr

namespace Scan

/-- The start of a scan. -/
def start (text : List Char) : Scan where
  cursor := .start text
  flow := 0
  tokens := [⟨.streamStart, ⟨0, 0, 0⟩, ⟨0, 0, 0⟩⟩]
  count := 1
  indent := -1
  outer := []
  keyAllowed := true
  keys := []
  done := false

/-- The place of a scan. -/
def mark (s : Scan) : Mark := s.cursor.mark

/-- Whether the scan is inside flow brackets. -/
def inFlow (s : Scan) : Bool := s.flow ≠ 0

/-- Add a token. -/
def add (s : Scan) (lexeme : Lexeme) (start finish : Mark) : Scan :=
  { s with tokens := ⟨lexeme, start, finish⟩ :: s.tokens, count := s.count + 1 }

/-- Add a token without an extent. -/
def addHere (s : Scan) (lexeme : Lexeme) : Scan := s.add lexeme s.mark s.mark

/-- Add a token that runs from here to a later place, and go there. -/
def addTo (s : Scan) (lexeme : Lexeme) (next : Cursor) : Scan :=
  { s.add lexeme s.mark next.mark with cursor := next }

/-- Put a token in front of the one with a number. -/
def insertAt (s : Scan) (number : Nat) (lexeme : Lexeme) (mark : Mark) : Scan :=
  let later := s.count - number
  { s with
    tokens := s.tokens.take later ++ ⟨lexeme, mark, mark⟩ :: s.tokens.drop later
    count := s.count + 1 }

/-! ### Possible keys -/

/-- A possible key that turns out to be none. -/
def drop (s : Scan) (key : PossibleKey) : Reading Unit :=
  if key.required then faultIn (.scanning "a simple key") key.mark .missingColon s.mark
  else .ok ()

/-- Whether a possible key is too far back to be one. -/
def isStale (s : Scan) (key : PossibleKey) : Bool :=
  key.mark.line ≠ s.mark.line || 1024 < s.mark.index - key.mark.index

/-- Give up the possible keys that are too far back. -/
def dropStale (s : Scan) : Reading Scan := do
  for (_, key) in s.keys do
    if s.isStale key then s.drop key
  return { s with keys := s.keys.filter fun p => !s.isStale p.2 }

/-- The possible key of the innermost flow bracket. -/
def key? (s : Scan) : Option PossibleKey := s.keys.lookup s.flow

/-- Forget the possible key of the innermost flow bracket. -/
def forgetKey (s : Scan) : Scan := { s with keys := s.keys.filter fun p => p.1 ≠ s.flow }

/-- Give up the possible key of the innermost flow bracket. -/
def dropKey (s : Scan) : Reading Scan :=
  match s.key? with
  | some key => do
    s.drop key
    return s.forgetKey
  | none => .ok s

/-- Note that the next token may turn out to be a key. -/
def noteKey (s : Scan) : Reading Scan :=
  if s.keyAllowed then do
    let required := !s.inFlow && s.indent = s.cursor.column
    let s ← s.dropKey
    return { s with keys := (s.flow, ⟨s.count, required, s.mark⟩) :: s.keys }
  else .ok s

/-- How many tokens are settled. -/
def settled (s : Scan) : Nat := s.keys.foldl (fun n p => min n p.2.number) s.count

/-! ### Blocks -/

/-- The blocks to end at a column: the columns that are left, and how many
end. -/
def unwound (column : Int) : (indent : Int) → (outer : List Int) → Int × List Int × Nat
  | indent, [] => (indent, [], 0)
  | indent, o :: outer =>
    if column < indent then
      let (i, os, n) := unwound column o outer
      (i, os, n + 1)
    else (indent, o :: outer, 0)

/-- End the blocks that start to the right of a column. -/
def unwind (s : Scan) (column : Int) : Scan :=
  if s.inFlow then s
  else
    let (indent, outer, n) := unwound column s.indent s.outer
    (List.replicate n ()).foldl (fun s _ => s.addHere .blockEnd) { s with indent, outer }

/-- Start a block at a column, if it lies to the right of the innermost one;
also whether it does. -/
def openBlock (s : Scan) (column : Nat) : Scan × Bool :=
  if s.indent < column then
    ({ s with indent := column, outer := s.indent :: s.outer }, true)
  else (s, false)

/-- Start a block here, with its token. -/
def startBlock (s : Scan) (lexeme : Lexeme) : Scan :=
  match s.openBlock s.cursor.column with
  | (s, true) => s.addHere lexeme
  | (s, false) => s

/-! ### Tokens -/

/-- Skip spaces, comments and line ends; after a line end outside flow
brackets a key may start. -/
def skipToToken : (fuel : Nat) → Scan → Scan
  | 0, s => s
  | fuel + 1, s =>
    let k := s.cursor.skipSpaces.skipComment
    if isBreak k.head then
      skipToToken fuel
        { s with cursor := k.lineBreak.2, keyAllowed := s.keyAllowed || !s.inFlow }
    else { s with cursor := k }

/-- Skip a byte order mark at the start of the text. -/
def skipOrderMark (s : Scan) : Scan :=
  if s.mark.index = 0 && s.cursor.head = '\uFEFF' then { s with cursor := s.cursor.step } else s

/-- The end of the text. -/
def finish (s : Scan) : Reading Scan := do
  let s ← (s.unwind (-1)).dropKey
  return { s.addHere .streamEnd with keyAllowed := false, keys := [], done := true }

/-- A directive. -/
def directive (s : Scan) : Reading Scan := do
  let s ← (s.unwind (-1)).dropKey
  let (d, finish, next) ← readDirective s.cursor
  return { s.add (.directive d) s.mark finish with cursor := next, keyAllowed := false }

/-- A rule between documents. -/
def rule (s : Scan) (lexeme : Lexeme) : Reading Scan := do
  let s ← (s.unwind (-1)).dropKey
  return { s.addTo lexeme (s.cursor.skip 3) with keyAllowed := false }

/-- An opening flow bracket. -/
def openFlow (s : Scan) (lexeme : Lexeme) : Reading Scan := do
  let s ← s.noteKey
  return { s.addTo lexeme s.cursor.step with flow := s.flow + 1, keyAllowed := true }

/-- A closing flow bracket. -/
def closeFlow (s : Scan) (lexeme : Lexeme) : Reading Scan := do
  let s ← s.dropKey
  return { s.addTo lexeme s.cursor.step with flow := s.flow - 1, keyAllowed := false }

/-- A comma inside flow brackets. -/
def flowEntry (s : Scan) : Reading Scan := do
  let s ← s.dropKey
  return { s.addTo .flowEntry s.cursor.step with keyAllowed := true }

/-- An indicator that starts a block outside flow brackets. -/
def blockIndicator (s : Scan) (what : String) (block lexeme : Lexeme) (keyAfter : Bool) :
    Reading Scan := do
  if !s.inFlow && !s.keyAllowed then faultAt (.notAllowed what) s.mark
  else
    let s := if s.inFlow then s else s.startBlock block
    let s ← s.dropKey
    return { s.addTo lexeme s.cursor.step with keyAllowed := keyAfter }

/-- A colon. It settles that a possible key is one, or is the value of a key
written with a question mark. -/
def value (s : Scan) : Reading Scan :=
  match s.key? with
  | some key =>
    let s := s.forgetKey.insertAt key.number .key key.mark
    let s :=
      if s.inFlow then s
      else
        match s.openBlock key.mark.column with
        | (s, true) => s.insertAt key.number .blockMappingStart key.mark
        | (s, false) => s
    .ok { s.addTo .value s.cursor.step with keyAllowed := false }
  | none => s.blockIndicator "mapping values" .blockMappingStart .value (!s.inFlow)

/-- An anchor or alias. -/
def anchor (s : Scan) (doing : Activity) (lexeme : String → Lexeme) : Reading Scan := do
  let s ← s.noteKey
  let (name, next) ← readAnchor doing s.cursor
  return { s.addTo (lexeme name) next with keyAllowed := false }

/-- A tag. -/
def tag (s : Scan) : Reading Scan := do
  let s ← s.noteKey
  let (lexeme, next) ← readTag s.cursor
  return { s.addTo lexeme next with keyAllowed := false }

/-- A block scalar. -/
def blockScalar (s : Scan) (folded : Bool) : Reading Scan := do
  let s ← s.dropKey
  let (text, next) ← readBlock folded s.indent s.cursor
  return { s.addTo (.scalar (String.ofList text) false) next with keyAllowed := true }

/-- A quoted scalar. -/
def quotedScalar (s : Scan) (double : Bool) : Reading Scan := do
  let s ← s.noteKey
  let (text, next) ← readQuoted double s.cursor
  return { s.addTo (.scalar (String.ofList text) false) next with keyAllowed := false }

/-- A plain scalar. -/
def plainScalar (s : Scan) : Reading Scan := do
  let s ← s.noteKey
  let p := readPlain s.inFlow (s.indent + 1) s.cursor
  return { s.add (.scalar (String.ofList p.text) true) s.mark p.finish with
    cursor := p.next, keyAllowed := p.keyMayFollow }

/-- Whether a plain scalar starts here. -/
def atPlain (s : Scan) : Bool :=
  let c := s.cursor.head
  !(isBlankOrEnd c || "-?:,[]\x7b\x7d#&*!|>'\"%@\x60".toList.contains c)
    || (!isBlankOrEnd (s.cursor.peek 1)
      && (c = '-' || (!s.inFlow && (c = '?' || c = ':'))))

/-- Whether an indicator stands here: any one in flow brackets, else with a
blank or an end behind it. -/
def atIndicator (s : Scan) : Bool := s.inFlow || isBlankOrEnd (s.cursor.peek 1)

/-- Whether the scan is at the start of a line. -/
def atLineStart (s : Scan) : Bool := s.cursor.column = 0

/-- The next token. -/
def token (s : Scan) : Reading Scan :=
  let c := s.cursor.head
  if c = finis then s.finish
  else if c = '%' && s.atLineStart then s.directive
  else if s.atLineStart && s.cursor.atRule '-' then s.rule .documentStart
  else if s.atLineStart && s.cursor.atRule '.' then s.rule .documentEnd
  else if c = '[' then s.openFlow .flowSequenceStart
  else if c = '\x7b' then s.openFlow .flowMappingStart
  else if c = ']' then s.closeFlow .flowSequenceEnd
  else if c = '\x7d' then s.closeFlow .flowMappingEnd
  else if c = ',' then s.flowEntry
  else if c = '-' && isBlankOrEnd (s.cursor.peek 1) then
    s.blockIndicator "sequence entries" .blockSequenceStart .blockEntry true
  else if c = '?' && s.atIndicator then
    s.blockIndicator "mapping keys" .blockMappingStart .key (!s.inFlow)
  else if c = ':' && s.atIndicator then s.value
  else if c = '*' then s.anchor (.scanning "an alias") .alias
  else if c = '&' then s.anchor (.scanning "an anchor") .anchor
  else if c = '!' then s.tag
  else if c = '|' && !s.inFlow then s.blockScalar false
  else if c = '>' && !s.inFlow then s.blockScalar true
  else if c = '\'' then s.quotedScalar false
  else if c = '"' then s.quotedScalar true
  else if s.atPlain then s.plainScalar
  else
    .error (.fault (some (.scanning "for the next token", none)) (.cannotStart c) s.mark)

/-- Go on to the next token and read it. -/
def advance (s : Scan) : Reading Scan := do
  let s := skipToToken (s.cursor.rest.length + 1) s.skipOrderMark
  let s ← s.dropStale
  (s.unwind s.cursor.column).token

/-- The first `n` tokens, and a refusal. -/
def stopped (s : Scan) (n : Nat) (e : Refusal) : TokenStream := ⟨s.tokens.reverse.take n, some e⟩

/-- Scan to the end; `n` tokens were settled before. -/
def run : (fuel : Nat) → (n : Nat) → Scan → TokenStream
  | 0, n, s => s.stopped n .tooDeep
  | fuel + 1, n, s =>
    if s.done then ⟨s.tokens.reverse, none⟩
    else
      match s.dropStale with
      | .error e => s.stopped n e
      | .ok s =>
        match s.advance with
        | .error e => s.stopped s.settled e
        | .ok next => run fuel s.settled next

end Scan

/-- A character that a text may hold. -/
def isAcceptable (c : Char) : Bool :=
  c = '\t' || c = '\n' || c = '\r' || c = '\x85' || (' ' ≤ c && c ≤ '~')
    || (0xA0 ≤ c.toNat && c.toNat ≤ 0xFFFD) || 0x10000 ≤ c.toNat

/-- The tokens of a text. -/
def tokenStream (text : List Char) : TokenStream :=
  match text.findIdx? (!isAcceptable ·) with
  | some i => ⟨[], some (.unacceptable (text.getD i finis) i)⟩
  | none => (Scan.start text).run (text.length + 2) 0

end RuleScript.Yaml
