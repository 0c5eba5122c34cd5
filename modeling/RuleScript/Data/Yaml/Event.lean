/-
# The events of a YAML text

Tokens become events: documents, scalars, aliases, and the starts and ends of
sequences and mappings, in the order of the text. A pushdown machine reads
them off. `Expecting` says what it reads next, a stack says what comes after
that, and a second stack holds the places where the open collections started,
for messages.

Like the tokens, the events of a malformed text end with its refusal.

Key definitions: `EventKind`, `Event`, `Expecting`, `EventStream`,
`eventStream`.
-/
import RuleScript.Data.Yaml.TokenStream

namespace RuleScript.Yaml

/-- What an event is. -/
inductive EventKind where
  | streamStart
  | streamEnd
  | documentStart
  | documentEnd
  | alias (name : String)
  /-- A scalar; whether its kind may be read off its text. -/
  | scalar (anchor tag : Option String) (readable : Bool) (text : String)
  | sequenceStart (anchor tag : Option String)
  | sequenceEnd
  | mappingStart (anchor tag : Option String)
  | mappingEnd
deriving Repr, DecidableEq

/-- An event and where it starts. -/
structure Event where
  kind : EventKind
  start : Mark
deriving Repr, DecidableEq

/-- What the machine reads next. -/
inductive Expecting where
  | stream
  | implicitDocument
  | document
  | documentContent
  | documentEnd
  | blockNode
  | blockSequenceStart
  | blockSequence
  | indentlessSequence
  | blockMappingStart
  | blockKey
  | blockValue
  | flowSequenceStart
  | flowSequence
  | pairKey
  | pairValue
  | pairEnd
  | flowMappingStart
  | flowKey
  | flowValue
  | flowMissingValue
  | nothing
deriving Repr, DecidableEq

/-- The state of the machine. -/
structure Parser where
  tokens : List Token
  trouble : Option Refusal
  now : Expecting
  after : List Expecting
  /-- Where the open collections started. -/
  marks : List Mark
  /-- The tag handles in force. -/
  handles : List (String × String)
deriving Repr

/-- A step of the machine. -/
abbrev Parsing := StateT Parser (Except Refusal)

namespace Parsing

/-- The next token. -/
def peek : Parsing Token := do
  let p ← get
  match p.tokens, p.trouble with
  | t :: _, _ => return t
  | [], some e => throw e
  | [], none => throw .tooDeep

/-- The next token, taken. -/
def take : Parsing Token := do
  let t ← peek
  modify fun p => { p with tokens := p.tokens.drop 1 }
  return t

/-- What the next token is. -/
def next : Parsing Lexeme := return (← peek).lexeme

/-- Read this next. -/
def goto (x : Expecting) : Parsing Unit := modify fun p => { p with now := x }

/-- Read this after what comes now. -/
def push (x : Expecting) : Parsing Unit := modify fun p => { p with after := x :: p.after }

/-- Go back to what was to come after. -/
def pop : Parsing Unit :=
  modify fun p => { p with now := p.after.headD .nothing, after := p.after.drop 1 }

/-- Note where a collection starts. -/
def enter (m : Mark) : Parsing Unit := modify fun p => { p with marks := m :: p.marks }

/-- Leave a collection. -/
def leave : Parsing Unit := do
  modify fun p => { p with marks := p.marks.drop 1 }
  pop

/-- Where the innermost open collection started. -/
def since : Parsing Mark := return (← get).marks.headD default

/-- A scalar without text. -/
def emptyScalar (m : Mark) : Parsing Event := return ⟨.scalar none none true "", m⟩

/-- Stop at a token that is not wanted. -/
def unexpected {α : Type} (doing : Activity) (problem : String → Problem) : Parsing α := do
  let t ← peek
  throw (.fault (some (doing, some (← since))) (problem t.lexeme.label) t.start)

/-! ### Nodes -/

/-- The anchor and tag in front of a node, with the place where the first of
them starts and the place of the tag. -/
structure Properties where
  anchor : Option String
  tag : Option (Option String × String)
  start : Option Mark
  tagStart : Mark

/-- The properties in front of a node, in either order. -/
def properties : Parsing Properties := do
  let first ← peek
  match first.lexeme with
  | .anchor name =>
    let _ ← take
    let second ← peek
    match second.lexeme with
    | .tag handle suffix =>
      let _ ← take
      return ⟨some name, some (handle, suffix), some first.start, second.start⟩
    | _ => return ⟨some name, none, some first.start, first.start⟩
  | .tag handle suffix =>
    let _ ← take
    let second ← peek
    match second.lexeme with
    | .anchor name =>
      let _ ← take
      return ⟨some name, some (handle, suffix), some first.start, first.start⟩
    | _ => return ⟨none, some (handle, suffix), some first.start, first.start⟩
  | _ => return ⟨none, none, none, first.start⟩

/-- The tag in full. -/
def fullTag (p : Properties) : Parsing (Option String) := do
  match p.tag with
  | none => return none
  | some (none, suffix) => return some suffix
  | some (some handle, suffix) =>
    match (← get).handles.lookup handle with
    | some expansion => return some (expansion ++ suffix)
    | none =>
      throw (.fault (some (.parsing "a node", p.start)) (.unknownHandle handle) p.tagStart)

/-- The event of a node: an alias, a scalar, or the start of a collection. -/
def node (block indentless : Bool) : Parsing Event := do
  let first ← peek
  match first.lexeme with
  | .alias name =>
    let _ ← take
    pop
    return ⟨.alias name, first.start⟩
  | _ =>
    let p ← properties
    let tag ← fullTag p
    let t ← peek
    let start := p.start.getD t.start
    let content (x : Expecting) (kind : EventKind) : Parsing Event := do
      goto x
      return ⟨kind, start⟩
    match t.lexeme, block, indentless with
    | .blockEntry, _, true => content .indentlessSequence (.sequenceStart p.anchor tag)
    | .scalar text plain, _, _ =>
      let _ ← take
      pop
      let readable := (plain && tag.isNone) || tag = some "!"
      return ⟨.scalar p.anchor tag readable text, start⟩
    | .flowSequenceStart, _, _ => content .flowSequenceStart (.sequenceStart p.anchor tag)
    | .flowMappingStart, _, _ => content .flowMappingStart (.mappingStart p.anchor tag)
    | .blockSequenceStart, true, _ => content .blockSequenceStart (.sequenceStart p.anchor tag)
    | .blockMappingStart, true, _ => content .blockMappingStart (.mappingStart p.anchor tag)
    | lexeme, _, _ =>
      if p.anchor.isSome || tag.isSome then
        pop
        return ⟨.scalar p.anchor tag (tag.isNone || tag = some "!") "", start⟩
      else
        let what := if block then "a block node" else "a flow node"
        throw (.fault (some (.parsing what, some start))
          (.expectedToken "the node content" lexeme.label) t.start)

/-! ### Documents -/

/-- The handles that are in force unless a directive changes them. -/
def defaultHandles : List (String × String) := [("!", "!"), ("!!", "tag:yaml.org,2002:")]

/-- Read directives; `version` says whether one gave the version, and
`handles` are those given so far. -/
def directives : (fuel : Nat) → (version : Bool) → (handles : List (String × String)) → Parsing Unit
  | 0, _, _ => throw .tooDeep
  | fuel + 1, version, handles => do
    let t ← peek
    match t.lexeme with
    | .directive d =>
      let _ ← take
      match d with
      | .version major _ =>
        if version then throw (.fault none .repeatedVersion t.start)
        else if major ≠ 1 then throw (.fault none .wrongVersion t.start)
        else directives fuel true handles
      | .handle name expansion =>
        if (handles.lookup name).isSome then throw (.fault none (.repeatedHandle name) t.start)
        else directives fuel version (handles ++ [(name, expansion)])
      | .other => directives fuel version handles
    | _ => modify fun p => { p with handles := handles ++ defaultHandles }

/-- Skip document ends. -/
def skipEnds : (fuel : Nat) → Parsing Unit
  | 0 => throw .tooDeep
  | fuel + 1 => do
    match ← next with
    | .documentEnd =>
      let _ ← take
      skipEnds fuel
    | _ => pure ()

/-- The start of a document that has a rule in front, or the end of the
stream. -/
def document : Parsing Event := do
  let left := (← get).tokens.length + 1
  skipEnds left
  let first ← peek
  match first.lexeme with
  | .streamEnd =>
    goto .nothing
    return ⟨.streamEnd, first.start⟩
  | _ =>
    directives left false []
    let t ← peek
    match t.lexeme with
    | .documentStart =>
      let _ ← take
      push .documentEnd
      goto .documentContent
      return ⟨.documentStart, first.start⟩
    | lexeme =>
      throw (.fault none (.expectedToken "'<document start>'" lexeme.label) t.start)

/-- The start of the first document, which needs no rule in front. -/
def implicitDocument : Parsing Event := do
  let t ← peek
  match t.lexeme with
  | .directive _ | .documentStart | .streamEnd => document
  | _ =>
    modify fun p => { p with handles := defaultHandles }
    push .documentEnd
    goto .blockNode
    return ⟨.documentStart, t.start⟩

/-- The content of a document, which may be empty. -/
def documentContent : Parsing Event := do
  let t ← peek
  match t.lexeme with
  | .directive _ | .documentStart | .documentEnd | .streamEnd =>
    pop
    emptyScalar t.start
  | _ => node true false

/-- The end of a document. -/
def documentEnd : Parsing Event := do
  let t ← peek
  if t.lexeme = .documentEnd then let _ ← take
  goto .document
  return ⟨.documentEnd, t.start⟩

/-! ### Collections -/

/-- What may stand behind an indicator: nothing, if one of `ends` follows,
and then an empty scalar goes to `empty`; else a node, and then `after`. -/
def content (ends : Lexeme → Bool) (after : Expecting) (t : Token) (read : Parsing Event) :
    Parsing Event := do
  if ends (← next) then
    goto after
    emptyScalar t.finish
  else
    push after
    read

/-- The token that a collection ends with. -/
def close (kind : EventKind) : Parsing Event := do
  let t ← take
  leave
  return ⟨kind, t.start⟩

/-- The token that a collection starts with. -/
def opening : Parsing Unit := do enter (← take).start

/-- An entry of a block sequence, or its end. -/
def blockSequence : Parsing Event := do
  match ← next with
  | .blockEntry =>
    let t ← take
    content (fun x => x = .blockEntry || x = .blockEnd) .blockSequence t (node true false)
  | .blockEnd => close .sequenceEnd
  | _ => unexpected (.parsing "a block collection") (.expectedToken "<block end>")

/-- An entry of a sequence that is not indented, or its end. -/
def indentlessSequence : Parsing Event := do
  let t ← peek
  match t.lexeme with
  | .blockEntry =>
    let t ← take
    content (fun x => x = .blockEntry || x = .key || x = .value || x = .blockEnd)
      .indentlessSequence t (node true false)
  | _ =>
    pop
    return ⟨.sequenceEnd, t.start⟩

/-- What may follow a key or value of a block mapping that is empty. -/
def endsBlockPart (x : Lexeme) : Bool := x = .key || x = .value || x = .blockEnd

/-- A key of a block mapping, or its end. -/
def blockKey : Parsing Event := do
  match ← next with
  | .key =>
    let t ← take
    content endsBlockPart .blockValue t (node true true)
  | .blockEnd => close .mappingEnd
  | _ => unexpected (.parsing "a block mapping") (.expectedToken "<block end>")

/-- A value of a block mapping. -/
def blockValue : Parsing Event := do
  let t ← peek
  match t.lexeme with
  | .value =>
    let t ← take
    content endsBlockPart .blockKey t (node true true)
  | _ =>
    goto .blockKey
    emptyScalar t.start

/-- An entry of a flow sequence. -/
def flowEntry : Parsing Event := do
  let t ← peek
  match t.lexeme with
  | .key =>
    goto .pairKey
    return ⟨.mappingStart none none, t.start⟩
  | .flowSequenceEnd => close .sequenceEnd
  | _ =>
    push .flowSequence
    node false false

/-- A comma and an entry of a flow sequence, or its end. -/
def flowSequence : Parsing Event := do
  match ← next with
  | .flowSequenceEnd => close .sequenceEnd
  | .flowEntry =>
    let _ ← take
    flowEntry
  | _ => unexpected (.parsing "a flow sequence") (.expectedInFlow "',' or ']'")

/-- What may follow an empty key of a pair in a flow sequence. -/
def endsPairKey (x : Lexeme) : Bool := x = .value || x = .flowEntry || x = .flowSequenceEnd

/-- The key of a pair in a flow sequence. -/
def pairKey : Parsing Event := do
  let t ← take
  content endsPairKey .pairValue t (node false false)

/-- The value of a pair in a flow sequence. -/
def pairValue : Parsing Event := do
  let t ← peek
  match t.lexeme with
  | .value =>
    let t ← take
    content (fun x => x = .flowEntry || x = .flowSequenceEnd) .pairEnd t (node false false)
  | _ =>
    goto .pairEnd
    emptyScalar t.start

/-- The end of a pair in a flow sequence. -/
def pairEnd : Parsing Event := do
  goto .flowSequence
  return ⟨.mappingEnd, (← peek).start⟩

/-- What may follow an empty key of a flow mapping. -/
def endsFlowKey (x : Lexeme) : Bool := x = .value || x = .flowEntry || x = .flowMappingEnd

/-- An entry of a flow mapping. -/
def flowMappingEntry : Parsing Event := do
  match ← next with
  | .key =>
    let t ← take
    content endsFlowKey .flowValue t (node false false)
  | .flowMappingEnd => close .mappingEnd
  | _ =>
    push .flowMissingValue
    node false false

/-- A comma and an entry of a flow mapping, or its end. -/
def flowKey : Parsing Event := do
  match ← next with
  | .flowMappingEnd => close .mappingEnd
  | .flowEntry =>
    let _ ← take
    flowMappingEntry
  | _ => unexpected (.parsing "a flow mapping") (.expectedInFlow "',' or '\x7d'")

/-- The value of an entry of a flow mapping. -/
def flowValue : Parsing Event := do
  let t ← peek
  match t.lexeme with
  | .value =>
    let t ← take
    content (fun x => x = .flowEntry || x = .flowMappingEnd) .flowKey t (node false false)
  | _ =>
    goto .flowKey
    emptyScalar t.start

/-- The value that an entry of a flow mapping lacks. -/
def flowMissingValue : Parsing Event := do
  goto .flowKey
  emptyScalar (← peek).start

/-- The next event. -/
def event : Parsing Event := do
  match (← get).now with
  | .stream =>
    let t ← take
    goto .implicitDocument
    return ⟨.streamStart, t.start⟩
  | .implicitDocument => implicitDocument
  | .document => document
  | .documentContent => documentContent
  | .documentEnd => documentEnd
  | .blockNode => node true false
  | .blockSequenceStart => do opening; blockSequence
  | .blockSequence => blockSequence
  | .indentlessSequence => indentlessSequence
  | .blockMappingStart => do opening; blockKey
  | .blockKey => blockKey
  | .blockValue => blockValue
  | .flowSequenceStart => do opening; flowEntry
  | .flowSequence => flowSequence
  | .pairKey => pairKey
  | .pairValue => pairValue
  | .pairEnd => pairEnd
  | .flowMappingStart => do opening; flowMappingEntry
  | .flowKey => flowKey
  | .flowValue => flowValue
  | .flowMissingValue => flowMissingValue
  | .nothing => throw .tooDeep

end Parsing

/-- The events of a text, and what stopped the machine if it did not reach
the end. -/
structure EventStream where
  events : List Event
  trouble : Option Refusal
deriving Repr, DecidableEq

/-- The events from a state on. -/
def eventsFrom : (fuel : Nat) → Parser → EventStream
  | 0, _ => ⟨[], some .tooDeep⟩
  | fuel + 1, p =>
    if p.now = .nothing then ⟨[], none⟩
    else
      match Parsing.event.run p with
      | .error e => ⟨[], some e⟩
      | .ok (e, p) =>
        let rest := eventsFrom fuel p
        ⟨e :: rest.events, rest.trouble⟩

/-- The events of a token stream. No token makes more than eight events. -/
def eventStream (s : TokenStream) : EventStream :=
  eventsFrom (8 * s.tokens.length + 16) ⟨s.tokens, s.trouble, .stream, [], [], []⟩

end RuleScript.Yaml
