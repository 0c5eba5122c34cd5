/-
# Writing YAML

Sequences and mappings are written in blocks, an empty one as a pair of
brackets. A sequence inside a mapping is not indented. Lines are folded at
spaces once they are wider than eighty columns. A document that is a plain
scalar ends with a rule.

Key definitions: `Page`, `Page.scalar`, `Page.datum`, `write`.
-/
import RuleScript.Data.Datum
import RuleScript.Data.Yaml.Style
import RuleScript.Text.Quoted

namespace RuleScript.Yaml

/-- A text being written: its column, whether a blank was just written, and
whether only indentation and indicators stand on the line. -/
structure Page where
  text : String
  column : Nat
  blank : Bool
  fresh : Bool
deriving Repr

namespace Page

/-- The column after which lines are folded. -/
def width : Nat := 80

/-- The columns of one level. -/
def level : Nat := 2

/-- A page with nothing on it. -/
def empty : Page := ⟨"", 0, true, true⟩

/-- Write characters on the line. -/
def put (p : Page) (cs : List Char) : Page :=
  { p with text := p.text ++ String.ofList cs, column := p.column + cs.length }

/-- Write an indicator, with a space in front if one is needed. -/
def indicator (p : Page) (sign : String) (apart keepFresh : Bool) : Page :=
  let p := p.put ((if p.blank || !apart then [] else [' ']) ++ sign.toList)
  { p with blank := false, fresh := p.fresh && keepFresh }

/-- End the line. -/
def newLine (p : Page) (sign : Char) : Page :=
  ⟨p.text ++ sign.toString, 0, true, true⟩

/-- Go to the column `indent`, on a new line if need be. -/
def indentTo (p : Page) (indent : Nat) : Page :=
  let p :=
    if !p.fresh || indent < p.column || (p.column = indent && !p.blank) then p.newLine '\n'
    else p
  if p.column < indent then
    { p.put (List.replicate (indent - p.column) ' ') with blank := true }
  else p

/-- The page in the middle of a text. -/
def inText (p : Page) : Page := { p with blank := false, fresh := false }

/-! ### Scalars -/

/-- A text cut into runs: spaces, line ends, and the rest. -/
def runs (cs : List Char) : List (List Char) :=
  cs.splitBy fun a b => (a = ' ') == (b = ' ') && isKeptBreak a == isKeptBreak b

/-- Write a plain text. -/
def plain (p : Page) (indent : Nat) (split : Bool) (cs : List Char) : Page :=
  if cs.isEmpty then p
  else
    let p := inText (if p.blank then p else p.put [' '])
    (runs cs).foldl (fun p run =>
      if run = [' '] && width < p.column && split then (p.indentTo indent).inText
      else p.put run) p

/-- Write line ends: one more line feed than there are, and every other sign
as it is. -/
def breaks (p : Page) (run : List Char) : Page :=
  let p := if run.head? = some '\n' then p.newLine '\n' else p
  run.foldl newLine p

/-- Write the runs of a text in single quotes; `first` says whether the next
run is the first. -/
def singleRuns (indent : Nat) (split : Bool) (p : Page) (first : Bool) :
    List (List Char) → Page
  | [] => p
  | run :: rest =>
    let p :=
      if run.any isKeptBreak then (p.breaks run).indentTo indent
      else if run = [' '] && width < p.column && split && !first && !rest.isEmpty then
        p.indentTo indent
      else p.put (run.flatMap fun c => if c = '\'' then ['\'', '\''] else [c])
    singleRuns indent split p false rest

/-- Write a text in single quotes. -/
def single (p : Page) (indent : Nat) (split : Bool) (cs : List Char) : Page :=
  (singleRuns indent split (p.indicator "'" true false) true (runs cs)).indicator "'" false false

/-- The letter that stands for a character behind a backslash. -/
def escapeLetter? : Char → Option Char
  | '\x00' => some '0'
  | '\x07' => some 'a'
  | '\x08' => some 'b'
  | '\t' => some 't'
  | '\n' => some 'n'
  | '\x0b' => some 'v'
  | '\x0c' => some 'f'
  | '\r' => some 'r'
  | '\x1b' => some 'e'
  | '"' => some '"'
  | '\\' => some '\\'
  | '\x85' => some 'N'
  | '\xa0' => some '_'
  | '\u2028' => some 'L'
  | '\u2029' => some 'P'
  | _ => none

/-- A character that stands for itself in double quotes. -/
def isBare (c : Char) : Bool :=
  ((' ' ≤ c && c ≤ '~') || (0xA0 ≤ c.toNat && c.toNat ≤ 0xFFFD))
    && !(c = '"' || c = '\\' || c = '\u2028' || c = '\u2029' || c = '\uFEFF')

/-- Hexadecimal digits in upper case. -/
def upperHex (digits n : Nat) : List Char := (Text.hex digits n).map Char.toUpper

/-- A character that does not stand for itself. -/
def escape (c : Char) : List Char :=
  match escapeLetter? c with
  | some letter => ['\\', letter]
  | none =>
    let n := c.toNat
    if n < 0x100 then '\\' :: 'x' :: upperHex 2 n
    else if n < 0x10000 then '\\' :: 'u' :: upperHex 4 n
    else '\\' :: 'U' :: upperHex 8 n

/-- Write a text in double quotes from the character at `index` on, `word`
being what is held back, last first. A line is folded at a space or behind an
escape, by a backslash at its end, and by another one in front of a space
that the next line starts with. No line is folded before the first character
or the last one. -/
def doubleRuns (indent : Nat) (split : Bool) :
    (index : Nat) → (word : List Char) → Page → List Char → Page
  | _, word, p, [] => p.put word.reverse
  | index, word, p, c :: rest =>
    let escaped := !isBare c
    let p := if escaped then (p.put word.reverse).put (escape c) else p
    let word := if escaped then [] else word
    let wide := width + (if escaped then 1 else 0) < p.column + word.length
    if 0 < index && !rest.isEmpty && (c = ' ' || escaped || word.isEmpty) && wide && split then
      let p := ((p.put (word.reverse ++ ['\\'])).indentTo indent).inText
      let next := if escaped then rest.headD finis else c
      let p := if next = ' ' then p.put ['\\'] else p
      doubleRuns indent split (index + 1) (if escaped then [] else [c]) p rest
    else doubleRuns indent split (index + 1) (if escaped then [] else c :: word) p rest

/-- Write a text in double quotes. -/
def double (p : Page) (indent : Nat) (split : Bool) (cs : List Char) : Page :=
  (doubleRuns indent split 0 [] (p.indicator "\"" true false) cs).indicator "\"" false false

/-- The column of what a node inside a block at `indent` holds. -/
def inside : Option Nat → Nat
  | none => level
  | some i => i + level

/-- Write a scalar inside a block at `indent`. -/
def scalar (p : Page) (indent : Option Nat) (kind : Kind) (asKey : Bool) (s : String) : Page :=
  match scalarStyle kind asKey s with
  | .plain => p.plain (inside indent) (!asKey) s.toList
  | .single => p.single (inside indent) (!asKey) s.toList
  | .double => p.double (inside indent) (!asKey) s.toList

/-! ### Collections -/

/-- Whether a key stands on one line with its value: if it is not empty, has
one line and is short. -/
def isInlineKey (s : String) : Bool :=
  s.length < 123 && s ≠ "" && !s.toList.any isKeptBreak

/-- A number as YAML writes it: with a point also where there is an
exponent. -/
def numberText (x : Float) : String :=
  let cs := (Number.literal x).toList
  if cs.contains 'e' && !cs.contains '.' then
    String.ofList (cs.takeWhile (· ≠ 'e') ++ ['.', '0'] ++ cs.dropWhile (· ≠ 'e'))
  else String.ofList cs

/-- Write the key of an entry, up to the colon. -/
def key (p : Page) (indent : Nat) (s : String) : Page :=
  let p := p.indentTo indent
  if isInlineKey s then (p.scalar (some indent) .text true s).indicator ":" false false
  else
    let p := (p.indicator "?" true true).scalar (some indent) .text false s
    (p.indentTo indent).indicator ":" true true

/-- The column of a block inside one at `indent`. -/
def blockColumn (indentless : Bool) : Option Nat → Nat
  | none => 0
  | some i => if indentless then i else i + level

mutual

/-- Write data inside a block at `indent`, which is a mapping or not. -/
def datum (p : Page) (indent : Option Nat) (inMapping : Bool) : Datum → Page
  | .null => p.scalar indent .null false "null"
  | .bool b => p.scalar indent .bool false (if b then "true" else "false")
  | .integer n => p.scalar indent .integer false (Number.integerText n)
  | .number x => p.scalar indent .number false (numberText x)
  | .text s => p.scalar indent .text false s
  | .list [] => (p.indicator "[" true false).indicator "]" false false
  | .list (d :: ds) => items p (blockColumn (inMapping && !p.fresh) indent) (d :: ds)
  | .table [] => (p.indicator "\x7b" true false).indicator "\x7d" false false
  | .table (e :: es) => entries p (blockColumn false indent) (e :: es)

/-- Write the items of a sequence at a column. -/
def items (p : Page) (indent : Nat) : List Datum → Page
  | [] => p
  | d :: ds =>
    items (datum ((p.indentTo indent).indicator "-" true true) (some indent) false d) indent ds

/-- Write the entries of a mapping at a column. -/
def entries (p : Page) (indent : Nat) : List (String × Datum) → Page
  | [] => p
  | (k, d) :: es => entries (datum (p.key indent k) (some indent) true d) indent es

end

end Page

/-- Whether data is one scalar that is written plain. -/
def isPlainScalar : Datum → Bool
  | .text s => scalarStyle .text false s = .plain
  | .list _ | .table _ => false
  | _ => true

/-- Data as a text. -/
def write (d : Datum) : String :=
  let p := (Page.empty.datum none false d).indentTo 0
  if isPlainScalar d then ((p.indicator "..." true false).indentTo 0).text else p.text

end RuleScript.Yaml
