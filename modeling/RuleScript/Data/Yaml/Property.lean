/-
# Directives, anchors and tags

What stands beside the content of a text: the directives in front of a
document, the anchors and aliases that name nodes, and the tags that name
their kinds.

Key definitions: `readDirective`, `readAnchor`, `readTag`.
-/
import RuleScript.Data.Yaml.Scalar
import RuleScript.Data.Yaml.Token
import RuleScript.Text.Utf8

namespace RuleScript.Yaml

/-! ### Anchors and aliases -/

/-- Whether a character may follow a name of a node. -/
def followsName (c : Char) : Bool := isBlankOrEnd c || "?:,]\x7d%@\x60".toList.contains c

/-- The name behind the sign of an anchor or alias. -/
def readAnchor (doing : Activity) (k : Cursor) : Reading (String × Cursor) :=
  let since := k.mark
  let (name, next) := k.step.takeWhile isNameChar
  if name.isEmpty || !followsName next.head then
    faultIn doing since (.expectedChar "alphabetic or numeric character" next.head) next.mark
  else .ok (String.ofList name, next)

/-! ### Tags -/

/-- A character of a tag other than an escape. -/
def isUriChar (c : Char) : Bool :=
  c.isAlphanum || "-;/?:@&=+$,_.!~*'()[]".toList.contains c

/-- The bytes of the escapes at a place. -/
def uriBytes (doing : Activity) (since : Mark) : (fuel : Nat) → Cursor → Reading (List Nat × Cursor)
  | 0, k => .ok ([], k)
  | fuel + 1, k =>
    if k.head = '%' then
      let k := k.step
      let a := k.peek 0
      let b := k.peek 1
      if isHexChar a && isHexChar b then do
        let (more, k) ← uriBytes doing since fuel (k.skip 2)
        return (hexNumber [a, b] :: more, k)
      else
        faultIn doing since
          (.expectedChar "URI escape sequence of 2 hexadecimal numbers"
            (if isHexChar a then b else a)) k.mark
    else .ok ([], k)

/-- The characters of the escapes at a place. -/
def uriEscapes (doing : Activity) (since : Mark) (k : Cursor) : Reading (List Char × Cursor) := do
  let (bytes, next) ← uriBytes doing since (k.rest.length + 1) k
  match Text.decodeUtf8 bytes with
  | .ok cs => return (cs, next)
  | .error e => faultIn doing since (.badUriByte e.message) k.mark

/-- The characters of a tag at a place. -/
def uriRuns (doing : Activity) (since : Mark) : (fuel : Nat) → Cursor → Reading (List Char × Cursor)
  | 0, k => .ok ([], k)
  | fuel + 1, k => do
    let (run, k) := k.takeWhile isUriChar
    if k.head = '%' then
      let (text, k) ← uriEscapes doing since k
      let (more, k) ← uriRuns doing since fuel k
      return (run ++ text ++ more, k)
    else return (run, k)

/-- The tag text at a place, of which there must be some. -/
def readUri (what : String) (since : Mark) (k : Cursor) : Reading (String × Cursor) :=
  if isUriChar k.head || k.head = '%' then do
    let (text, k) ← uriRuns (.scanning what) since (k.rest.length + 1) k
    return (String.ofList text, k)
  else faultIn (.parsing what) since (.expectedChar "URI" k.head) k.mark

/-- The handle at a place: an exclamation mark, or a name between two. -/
def readHandle (what : String) (since : Mark) (k : Cursor) : Reading (String × Cursor) :=
  if k.head ≠ '!' then faultIn (.scanning what) since (.expectedChar "'!'" k.head) k.mark
  else if k.peek 1 = ' ' then .ok ("!", k.step)
  else
    let (name, next) := k.step.takeWhile isNameChar
    if next.head = '!' then .ok (String.ofList ('!' :: name ++ ['!']), next.step)
    else faultIn (.scanning what) since (.expectedChar "'!'" next.head) next.mark

/-- The tag at a place. -/
def readTag (k : Cursor) : Reading (Lexeme × Cursor) := do
  let since := k.mark
  let (handle, suffix, next) ←
    if k.peek 1 = '<' then do
      let (uri, next) ← readUri "a tag" since (k.skip 2)
      if next.head = '>' then pure (none, uri, next.step)
      else faultIn (.parsing "a tag") since (.expectedChar "'>'" next.head) next.mark
    else if isBlankOrEnd (k.peek 1) then pure (none, "!", k.step)
    else do
      let word := k.step.rest.takeWhile (!isSpaceOrEnd ·)
      let (handle, next) ←
        if word.contains '!' then readHandle "a tag" since k else pure ("!", k.step)
      let (uri, next) ← readUri "a tag" since next
      pure (some handle, uri, next)
  if isSpaceOrEnd next.head then return (.tag handle suffix, next)
  else faultIn (.scanning "a tag") since (.expectedChar "' '" next.head) next.mark

/-! ### Directives -/

/-- A fault inside a directive. -/
def directiveFault {α : Type} (since : Mark) (wanted : String) (k : Cursor) : Reading α :=
  faultIn (.scanning "a directive") since (.expectedChar wanted k.head) k.mark

/-- The number at a place in a version. -/
def readVersionPart (since : Mark) (k : Cursor) : Reading (Nat × Cursor) :=
  let (digits, next) := k.takeWhile Char.isDigit
  if digits.isEmpty then directiveFault since "a digit" k
  else .ok (digits.foldl (fun n c => n * 10 + (c.toNat - '0'.toNat)) 0, next)

/-- The version that a directive gives. -/
def readVersion (since : Mark) (k : Cursor) : Reading (Directive × Cursor) := do
  let (major, k) ← readVersionPart since k.skipSpaces
  if k.head ≠ '.' then directiveFault since "a digit or '.'" k
  else
    let (minor, k) ← readVersionPart since k.step
    if isSpaceOrEnd k.head then return (.version major minor, k)
    else directiveFault since "a digit or ' '" k

/-- The handle and expansion that a directive gives. -/
def readHandleDirective (since : Mark) (k : Cursor) : Reading (Directive × Cursor) := do
  let (handle, k) ← readHandle "a directive" since k.skipSpaces
  if k.head ≠ ' ' then directiveFault since "' '" k
  else
    let (expansion, k) ← readUri "a directive" since k.skipSpaces
    if isSpaceOrEnd k.head then return (.handle handle expansion, k)
    else directiveFault since "' '" k

/-- The directive at a place; the end of the token comes first of the two
places. -/
def readDirective (k : Cursor) : Reading (Directive × Mark × Cursor) := do
  let since := k.mark
  let (name, next) := k.step.takeWhile isNameChar
  if name.isEmpty || !isSpaceOrEnd next.head then
    directiveFault since "alphabetic or numeric character" next
  else
    let word := String.ofList name
    let (directive, next) ←
      if word = "YAML" then readVersion since next
      else if word = "TAG" then readHandleDirective since next
      else pure (.other, next)
    let finish := next.mark
    let line := if directive = .other then next.dropWhile (!isBreak ·) else next
    return (directive, finish, ← headerEnd (.scanning "a directive") since line)

end RuleScript.Yaml
