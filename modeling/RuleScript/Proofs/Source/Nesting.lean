/-
# Brackets and spans

The nodes of a source text, written out again as tokens (`Node.pieces`), are
its tokens: `assemble` loses none, adds none and leaves every position where it
was (`assemble_pieces`). The brackets of nodes nest properly by kind
(`Balanced`), and a token list with such brackets is the tokens of some nodes.
Where tokens become nodes, no more spans are open at one time than there is room
for (`NestsBeyond`, `assemble_within`). Otherwise the brackets are at fault, or
too many spans are open (`assemble_tooDeep`). And the tokens of nodes become these
nodes again, but for the positions (`Node.bare`, `assemble_nodes`).

Key definitions: `Node.bare`, `Piece`, `Node.pieces`, `Node.lexemes`, `Node.Proper`,
`Balanced`, `opened`, `NestsBeyond`.
Key theorems: `assemble_cons`, `assemble_pieces`, `assemble_within`,
`assemble_tooDeep`, `Balanced.exists_nodes`, `assemble_nodes`.
-/
import Mathlib.Algebra.Order.Ring.Int
import RuleScript.Proofs.Source.Scanning

namespace RuleScript

/-! ### Nodes without positions -/

/-- No position. -/
def Position.blank : Position := ⟨none, none, 0⟩

namespace Node

mutual

/-- A node without positions. -/
def bare : Node → Node
  | .number _ text suffix => .number .blank text suffix
  | .word _ text => .word .blank text
  | .quoted _ raw => .quoted .blank raw
  | .symbol _ text => .symbol .blank text
  | .span _ d body => .span .blank d (bareAll body)
  | .value _ v => .value .blank v

/-- Nodes without positions. -/
def bareAll : List Node → List Node
  | [] => []
  | n :: ns => bare n :: bareAll ns

end

end Node

/-! ### Nodes written out -/

/-- A token of a node: the opening bracket of a span and every other node stand
at a position, a closing bracket at none that the node remembers. -/
structure Piece where
  pos : Option Position
  lexeme : Lexeme

/-- A token as part of a node. -/
def Token.piece (t : Token) : Piece where
  pos := match t.lexeme with
    | .closing _ => none
    | _ => some t.cursor.position
  lexeme := t.lexeme

namespace Node

mutual

/-- The tokens of a node. -/
def pieces : Node → List Piece
  | .number p text suffix => [⟨some p, .number (text.toList ++ suffix.toList)⟩]
  | .word p text => [⟨some p, .word text.toList⟩]
  | .quoted p raw => [⟨some p, .quoted raw.toList⟩]
  | .symbol p text => [⟨some p, .symbol text.toList⟩]
  | .span p d body => ⟨some p, .opening d⟩ :: (piecesAll body ++ [⟨none, .closing d⟩])
  | .value .. => []

/-- The tokens of nodes, one after the other. -/
def piecesAll : List Node → List Piece
  | [] => []
  | n :: ns => pieces n ++ piecesAll ns

end

/-- The tokens of nodes without their positions. -/
def lexemes (nodes : List Node) : List Lexeme := (piecesAll nodes).map (·.lexeme)

theorem piecesAll_append : ∀ ns ns' : List Node, piecesAll (ns ++ ns') = piecesAll ns ++ piecesAll ns'
  | [], _ => rfl
  | n :: ns, ns' => by simp [piecesAll, piecesAll_append ns]

theorem piecesAll_concat (ns : List Node) (n : Node) :
    piecesAll (ns ++ [n]) = piecesAll ns ++ n.pieces := by
  simp [piecesAll_append, piecesAll]

@[simp]
theorem lexemes_nil : lexemes [] = [] := rfl

@[simp]
theorem lexemes_cons (n : Node) (ns : List Node) :
    lexemes (n :: ns) = n.pieces.map (·.lexeme) ++ lexemes ns := by
  simp [lexemes, piecesAll]

theorem lexemes_span (p : Position) (d : Delimiter) (body : List Node) :
    (span p d body).pieces.map (·.lexeme) = .opening d :: (lexemes body ++ [.closing d]) := by
  simp [pieces, lexemes]

/-- A node that a source text may have: it carries no value, and the suffix of
a number is the one that its token ends with. -/
inductive Proper : Node → Prop
  | number (p : Position) {text suffix : String}
      (h : splitSuffix (text.toList ++ suffix.toList) = (text.toList, suffix.toList)) :
      Proper (.number p text suffix)
  | word (p : Position) (text : String) : Proper (.word p text)
  | quoted (p : Position) (raw : String) : Proper (.quoted p raw)
  | symbol (p : Position) (text : String) : Proper (.symbol p text)
  | span (p : Position) (d : Delimiter) {body : List Node} (h : ∀ n ∈ body, Proper n) :
      Proper (.span p d body)

end Node

theorem splitSuffix_append (text : List Char) : (splitSuffix text).1 ++ (splitSuffix text).2 = text := by
  unfold splitSuffix
  split
  · rename_i c hc
    obtain ⟨front, rfl⟩ := List.getLast?_eq_some_iff.mp hc
    split <;> simp
  · simp

/-- The node of a token that is no bracket. -/
def Lexeme.leaf? (p : Position) : Lexeme → Option Node
  | .number text => some (.ofNumber p text)
  | .word text => some (.word p (String.ofList text))
  | .quoted raw => some (.quoted p (String.ofList raw))
  | .symbol text => some (.symbol p (String.ofList text))
  | .opening _ => none
  | .closing _ => none

theorem Lexeme.leaf?_pieces {p : Position} {x : Lexeme} {n : Node} (h : x.leaf? p = some n) :
    n.pieces = [⟨some p, x⟩] := by
  cases x <;> cases h <;> simp [Node.ofNumber, Node.pieces, splitSuffix_append]

theorem Lexeme.leaf?_proper {p : Position} {x : Lexeme} {n : Node} (h : x.leaf? p = some n) :
    n.Proper := by
  cases x <;> cases h
  · exact .number p (by simp [splitSuffix_append])
  · exact .word p _
  · exact .quoted p _
  · exact .symbol p _

/-! ### One token -/

section Assembly

variable {spans : Nat} {t : Token} {rest : List Token} {stack : List OpenSpan} {done : List Node}

theorem assemble_leaf {n : Node} (h : t.lexeme.leaf? t.cursor.position = some n) :
    assemble spans (t :: rest) stack done = assemble spans rest stack (n :: done) := by
  rw [assemble]
  cases hx : t.lexeme <;> rw [hx] at h <;> cases h <;> rfl

theorem assemble_opening {d : Delimiter} (h : t.lexeme = .opening d) (hroom : stack.length < spans) :
    assemble spans (t :: rest) stack done = assemble spans rest (⟨t.cursor.position, d, done⟩ :: stack) [] := by
  rw [assemble]
  simp [h, Nat.not_le.mpr hroom]

theorem assemble_closing {s : OpenSpan} (h : t.lexeme = .closing s.delimiter) :
    assemble spans (t :: rest) (s :: stack) done =
      assemble spans rest stack (.span s.pos s.delimiter done.reverse :: s.before) := by
  rw [assemble]
  simp [h]

/-- What the first token does: it is a node of its own, it opens a span if
there is room for one, it closes the innermost span if the brackets fit, or it
is at fault. -/
theorem assemble_cons (spans : Nat) (t : Token) (rest : List Token) (stack : List OpenSpan)
    (done : List Node) :
    (∃ n, t.lexeme.leaf? t.cursor.position = some n ∧
      assemble spans (t :: rest) stack done = assemble spans rest stack (n :: done)) ∨
    (∃ d, t.lexeme = .opening d ∧ stack.length < spans ∧
      assemble spans (t :: rest) stack done = assemble spans rest (⟨t.cursor.position, d, done⟩ :: stack) []) ∨
    (∃ s below, stack = s :: below ∧ t.lexeme = .closing s.delimiter ∧
      assemble spans (t :: rest) stack done =
        assemble spans rest below (.span s.pos s.delimiter done.reverse :: s.before)) ∨
    (∃ d, t.lexeme = .opening d ∧ spans ≤ stack.length ∧
      assemble spans (t :: rest) stack done = .error .tooDeep) ∨
    assemble spans (t :: rest) stack done = .error .malformed := by
  cases hx : t.lexeme with
  | opening d =>
    by_cases hroom : stack.length < spans
    · exact .inr (.inl ⟨d, rfl, hroom, assemble_opening hx hroom⟩)
    · refine .inr (.inr (.inr (.inl ⟨d, rfl, Nat.not_lt.mp hroom, ?_⟩)))
      rw [assemble]
      simp [hx, Nat.not_lt.mp hroom]
  | closing d =>
    cases stack with
    | nil =>
      refine .inr (.inr (.inr (.inr ?_)))
      rw [assemble]
      simp [hx]
    | cons s below =>
      by_cases hd : s.delimiter = d
      · subst hd
        exact .inr (.inr (.inl ⟨s, below, rfl, rfl, assemble_closing hx⟩))
      · refine .inr (.inr (.inr (.inr ?_)))
        rw [assemble]
        simp [hx, hd]
  | number | word | quoted | symbol => exact .inl ⟨_, rfl, assemble_leaf (by rw [hx]; rfl)⟩

end Assembly

/-! ### Nothing is lost -/

/-- The tokens of the nodes so far, with the spans that are still open. -/
def piecesSoFar : List OpenSpan → List Node → List Piece
  | [], done => Node.piecesAll done.reverse
  | s :: stack, done =>
    piecesSoFar stack s.before ++ ⟨some s.pos, .opening s.delimiter⟩ :: Node.piecesAll done.reverse

theorem piecesSoFar_cons : ∀ (stack : List OpenSpan) (done : List Node) (n : Node),
    piecesSoFar stack (n :: done) = piecesSoFar stack done ++ n.pieces
  | [], done, n => by simp [piecesSoFar, Node.piecesAll_concat]
  | s :: stack, done, n => by simp [piecesSoFar, Node.piecesAll_concat]

/-- **The nodes of tokens are these tokens.** -/
theorem assemble_pieces {spans : Nat} : ∀ {ts : List Token} {stack : List OpenSpan} {done nodes : List Node},
    assemble spans ts stack done = .ok nodes →
      Node.piecesAll nodes = piecesSoFar stack done ++ ts.map Token.piece
  | [], [], done, nodes, h => by
    obtain rfl := Except.ok.inj h
    simp [piecesSoFar]
  | [], _ :: _, _, _, h => by cases h
  | t :: rest, stack, done, nodes, h => by
    rcases assemble_cons spans t rest stack done with ⟨n, hn, hstep⟩ | ⟨d, hd, -, hstep⟩ |
      ⟨s, below, rfl, hs, hstep⟩ | ⟨d, -, -, hstep⟩ | hstep
    · rw [assemble_pieces (hstep.symm.trans h), piecesSoFar_cons, Lexeme.leaf?_pieces hn]
      have hpiece : t.piece = ⟨some t.cursor.position, t.lexeme⟩ := by
        cases hx : t.lexeme <;> simp_all [Token.piece, Lexeme.leaf?]
      simp [hpiece]
    · rw [assemble_pieces (hstep.symm.trans h)]
      simp [piecesSoFar, Token.piece, hd, Node.piecesAll]
    · rw [assemble_pieces (hstep.symm.trans h), piecesSoFar_cons]
      simp [piecesSoFar, Token.piece, hs, Node.pieces]
    · rw [hstep] at h
      cases h
    · rw [hstep] at h
      cases h

/-! ### Brackets that fit -/

/-- Tokens whose brackets are closed in turn, each by one of its kind. -/
inductive Balanced : List Lexeme → Prop
  | nil : Balanced []
  | leaf {x : Lexeme} {xs : List Lexeme} (hx : ∀ d, x ≠ .opening d ∧ x ≠ .closing d) (h : Balanced xs) :
      Balanced (x :: xs)
  | span (d : Delimiter) {body xs : List Lexeme} (hbody : Balanced body) (h : Balanced xs) :
      Balanced (.opening d :: (body ++ .closing d :: xs))

theorem Balanced.append {xs ys : List Lexeme} (hxs : Balanced xs) (hys : Balanced ys) :
    Balanced (xs ++ ys) := by
  induction hxs with
  | nil => exact hys
  | leaf hx _ ih => exact .leaf hx ih
  | span d hbody _ _ ih =>
    simpa using Balanced.span d hbody ih

theorem balanced_singleton {x : Lexeme} (hx : ∀ d, x ≠ .opening d ∧ x ≠ .closing d) : Balanced [x] :=
  .leaf hx .nil

mutual

theorem Node.balanced_pieces : ∀ n : Node, Balanced (n.pieces.map (·.lexeme))
  | .number .. => balanced_singleton (by simp)
  | .word .. => balanced_singleton (by simp)
  | .quoted .. => balanced_singleton (by simp)
  | .symbol .. => balanced_singleton (by simp)
  | .span p d body => by
    rw [Node.lexemes_span]
    exact .span d (Node.balanced_lexemes body) .nil
  | .value .. => .nil

/-- The tokens of nodes are balanced. -/
theorem Node.balanced_lexemes : ∀ nodes : List Node, Balanced (Node.lexemes nodes)
  | [] => .nil
  | n :: ns => by
    rw [Node.lexemes_cons]
    exact (Node.balanced_pieces n).append (Node.balanced_lexemes ns)

end

/-- Balanced tokens are the tokens of some nodes. -/
theorem Balanced.exists_nodes {xs : List Lexeme} (h : Balanced xs) :
    ∃ nodes : List Node, (∀ n ∈ nodes, n.Proper) ∧ Node.lexemes nodes = xs := by
  induction h with
  | nil => exact ⟨[], by simp, rfl⟩
  | @leaf x xs hx _ ih =>
    obtain ⟨nodes, hproper, hnodes⟩ := ih
    have hleaf : ∃ n, x.leaf? Cursor.start.position = some n := by
      cases x with
      | opening d => exact absurd rfl (hx d).1
      | closing d => exact absurd rfl (hx d).2
      | number | word | quoted | symbol => exact ⟨_, rfl⟩
    obtain ⟨n, hn⟩ := hleaf
    refine ⟨n :: nodes, List.forall_mem_cons.mpr ⟨Lexeme.leaf?_proper hn, hproper⟩, ?_⟩
    simp [Lexeme.leaf?_pieces hn, hnodes]
  | span d _ _ ihbody ih =>
    obtain ⟨body, hbody, hlexemes⟩ := ihbody
    obtain ⟨nodes, hproper, hnodes⟩ := ih
    refine ⟨.span Cursor.start.position d body :: nodes, List.forall_mem_cons.mpr ⟨.span _ d hbody, hproper⟩, ?_⟩
    rw [Node.lexemes_cons, Node.lexemes_span, hlexemes, hnodes]
    simp

/-! ### How deep spans nest -/

/-- How many more spans are open behind a token than before it. -/
def Lexeme.turn : Lexeme → Int
  | .opening _ => 1
  | .closing _ => -1
  | _ => 0

/-- How many more spans are open behind some tokens than before them. -/
def opened (xs : List Lexeme) : Int := (xs.map Lexeme.turn).sum

/-- Somewhere in the tokens more than `n` spans are open. -/
def NestsBeyond (n : Nat) (xs : List Lexeme) : Prop := ∃ front, front <+: xs ∧ (n : Int) < opened front

@[simp]
theorem opened_nil : opened [] = 0 := rfl

@[simp]
theorem opened_cons (x : Lexeme) (xs : List Lexeme) : opened (x :: xs) = x.turn + opened xs := rfl

@[simp]
theorem opened_append (xs ys : List Lexeme) : opened (xs ++ ys) = opened xs + opened ys := by
  simp [opened]

theorem Balanced.opened {xs : List Lexeme} (h : Balanced xs) : RuleScript.opened xs = 0 := by
  induction h with
  | nil => rfl
  | @leaf x xs hx _ ih =>
    have hturn : x.turn = 0 := by
      cases x with
      | opening d => exact absurd rfl (hx d).1
      | closing d => exact absurd rfl (hx d).2
      | number | word | quoted | symbol => rfl
    simp [hturn, ih]
  | span d _ _ ihbody ih => simp [Lexeme.turn, ihbody, ih]

theorem Lexeme.turn_of_leaf? {p : Position} {x : Lexeme} {n : Node} (h : x.leaf? p = some n) :
    x.turn = 0 := by
  cases x <;> first | rfl | cases h

/-- Where the tokens become nodes, there was room for every span. -/
theorem assemble_within {spans : Nat} : ∀ {ts : List Token} {stack : List OpenSpan} {done nodes : List Node},
    assemble spans ts stack done = .ok nodes → stack.length ≤ spans →
    ∀ front, front <+: ts.map (·.lexeme) → stack.length + opened front ≤ spans
  | [], stack, _, _, _, hroom, front, hfront => by
    obtain rfl := List.prefix_nil.mp hfront
    simpa using hroom
  | t :: rest, stack, done, nodes, h, hroom, front, hfront => by
    cases front with
    | nil => simpa using hroom
    | cons x front =>
      rw [List.map_cons, List.cons_prefix_cons] at hfront
      obtain ⟨rfl, hfront⟩ := hfront
      rcases assemble_cons spans t rest stack done with ⟨n, hn, hstep⟩ | ⟨d, hd, hlt, hstep⟩ |
        ⟨s, below, rfl, hs, hstep⟩ | ⟨d, -, -, hstep⟩ | hstep
      · have := assemble_within (hstep.symm.trans h) hroom front hfront
        simpa [Lexeme.turn_of_leaf? hn] using this
      · have := assemble_within (hstep.symm.trans h) hlt front hfront
        simp only [List.length_cons, opened_cons, hd, Lexeme.turn] at this ⊢
        omega
      · have := assemble_within (hstep.symm.trans h) (Nat.le_of_succ_le hroom) front hfront
        simp only [List.length_cons, opened_cons, hs, Lexeme.turn] at this ⊢
        omega
      · rw [hstep] at h
        cases h
      · rw [hstep] at h
        cases h

/-- Tokens are refused for their depth only where too many spans are open. -/
theorem assemble_tooDeep {spans : Nat} : ∀ {ts : List Token} {stack : List OpenSpan} {done : List Node},
    assemble spans ts stack done = .error .tooDeep →
    ∃ front, front <+: ts.map (·.lexeme) ∧ (spans : Int) < stack.length + opened front
  | [], [], _, h => by cases h
  | [], _ :: _, _, h => by cases h
  | t :: rest, stack, done, h => by
    rcases assemble_cons spans t rest stack done with ⟨n, hn, hstep⟩ | ⟨d, hd, -, hstep⟩ |
      ⟨s, below, rfl, hs, hstep⟩ | ⟨d, hd, hfull, -⟩ | hstep
    · obtain ⟨front, hfront, hdeep⟩ := assemble_tooDeep (hstep.symm.trans h)
      refine ⟨t.lexeme :: front, by simpa using hfront, ?_⟩
      simpa [Lexeme.turn_of_leaf? hn] using hdeep
    · obtain ⟨front, hfront, hdeep⟩ := assemble_tooDeep (hstep.symm.trans h)
      refine ⟨t.lexeme :: front, by simpa using hfront, ?_⟩
      simp only [List.length_cons, opened_cons, hd, Lexeme.turn] at hdeep ⊢
      omega
    · obtain ⟨front, hfront, hdeep⟩ := assemble_tooDeep (hstep.symm.trans h)
      refine ⟨t.lexeme :: front, by simpa using hfront, ?_⟩
      simp only [List.length_cons, opened_cons, hs, Lexeme.turn] at hdeep ⊢
      omega
    · refine ⟨[t.lexeme], by simp, ?_⟩
      simp only [opened_cons, opened_nil, hd, Lexeme.turn]
      omega
    · rw [hstep] at h
      cases h

/-! ### Nodes come back -/

theorem splitSuffix_ofNumber {p : Position} {text suffix : String}
    (h : splitSuffix (text.toList ++ suffix.toList) = (text.toList, suffix.toList)) :
    Node.ofNumber p (text.toList ++ suffix.toList) = .number p text suffix := by
  simp [Node.ofNumber, h]

/-- A span has room for its body where the whole span has room. -/
theorem room_of_span {spans : Nat} {n : Int} {d : Delimiter} {body : List Lexeme}
    (h : ∀ front, front <+: .opening d :: (body ++ [.closing d]) → n + opened front ≤ spans) :
    n + 1 ≤ spans ∧ ∀ front, front <+: body → n + 1 + opened front ≤ spans := by
  have hinside (front : List Lexeme) (hfront : front <+: body) : n + 1 + opened front ≤ spans := by
    have := h (.opening d :: front)
      (List.cons_prefix_cons.mpr ⟨rfl, hfront.trans (List.prefix_append ..)⟩)
    simp only [opened_cons, Lexeme.turn] at this
    omega
  exact ⟨by simpa using hinside [] List.nil_prefix, hinside⟩

mutual

theorem assemble_node {spans : Nat} : ∀ {n : Node}, n.Proper → ∀ (ts rest : List Token) (stack : List OpenSpan)
    (done : List Node), ts.map (·.lexeme) = n.pieces.map (·.lexeme) →
    (∀ front, front <+: n.pieces.map (·.lexeme) → stack.length + opened front ≤ spans) →
    ∃ n', n'.bare = n.bare ∧ assemble spans (ts ++ rest) stack done = assemble spans rest stack (n' :: done)
  | .number p text suffix, hn, ts, rest, stack, done, hts, _ => by
    cases hn with
    | number _ hsplit =>
      obtain ⟨t, rfl, ht⟩ := List.map_eq_singleton_iff.mp hts
      refine ⟨.number t.cursor.position text suffix, rfl, assemble_leaf ?_⟩
      rw [ht, Lexeme.leaf?, splitSuffix_ofNumber hsplit]
  | .word p text, _, ts, rest, stack, done, hts, _ => by
    obtain ⟨t, rfl, ht⟩ := List.map_eq_singleton_iff.mp hts
    exact ⟨.word t.cursor.position text, rfl, assemble_leaf (by simp [ht, Lexeme.leaf?])⟩
  | .quoted p raw, _, ts, rest, stack, done, hts, _ => by
    obtain ⟨t, rfl, ht⟩ := List.map_eq_singleton_iff.mp hts
    exact ⟨.quoted t.cursor.position raw, rfl, assemble_leaf (by simp [ht, Lexeme.leaf?])⟩
  | .symbol p text, _, ts, rest, stack, done, hts, _ => by
    obtain ⟨t, rfl, ht⟩ := List.map_eq_singleton_iff.mp hts
    exact ⟨.symbol t.cursor.position text, rfl, assemble_leaf (by simp [ht, Lexeme.leaf?])⟩
  | .span p d body, hn, ts, rest, stack, done, hts, hroom => by
    cases hn with
    | span _ _ hbody =>
      rw [Node.lexemes_span] at hts hroom
      obtain ⟨t, ts, rfl, ht, hts⟩ := List.map_eq_cons_iff.mp hts
      obtain ⟨inside, last, rfl, hinside, hlast⟩ := List.map_eq_append_iff.mp hts
      obtain ⟨t', rfl, ht'⟩ := List.map_eq_singleton_iff.mp hlast
      obtain ⟨hopen, hroom⟩ := room_of_span hroom
      obtain ⟨body', hbare, hstep⟩ := assemble_nodes hbody inside (t' :: rest)
        (⟨t.cursor.position, d, done⟩ :: stack) [] hinside (by simpa using hroom)
      refine ⟨.span t.cursor.position d body', by rw [Node.bare, Node.bare, hbare], ?_⟩
      rw [List.cons_append, assemble_opening ht (by omega), List.append_assoc, List.singleton_append,
        hstep, assemble_closing ht']
      simp

/-- **Tokens of nodes become these nodes**, at the positions of the tokens. -/
theorem assemble_nodes {spans : Nat} : ∀ {nodes : List Node}, (∀ n ∈ nodes, n.Proper) →
    ∀ (ts rest : List Token) (stack : List OpenSpan) (done : List Node),
    ts.map (·.lexeme) = Node.lexemes nodes →
    (∀ front, front <+: Node.lexemes nodes → stack.length + opened front ≤ spans) →
    ∃ nodes', Node.bareAll nodes' = Node.bareAll nodes ∧
      assemble spans (ts ++ rest) stack done = assemble spans rest stack (nodes'.reverse ++ done)
  | [], _, ts, rest, stack, done, hts, _ => by
    obtain rfl := List.map_eq_nil_iff.mp hts
    exact ⟨[], rfl, rfl⟩
  | n :: nodes, hproper, ts, rest, stack, done, hts, hroom => by
    rw [Node.lexemes_cons] at hts hroom
    obtain ⟨first, others, rfl, hfirst, hothers⟩ := List.map_eq_append_iff.mp hts
    obtain ⟨hn, hnodes⟩ := List.forall_mem_cons.mp hproper
    have hroom' (front : List Lexeme) (hfront : front <+: Node.lexemes nodes) :
        stack.length + opened front ≤ spans := by
      have := hroom (n.pieces.map (·.lexeme) ++ front) ((List.prefix_append_right_inj _).mpr hfront)
      simpa [(Node.balanced_pieces n).opened] using this
    obtain ⟨n', hbare, hstep⟩ := assemble_node hn first (others ++ rest) stack done hfirst
      fun front hfront => hroom front (hfront.trans (List.prefix_append ..))
    obtain ⟨nodes', hbares, hsteps⟩ := assemble_nodes hnodes others rest stack (n' :: done) hothers hroom'
    refine ⟨n' :: nodes', by rw [Node.bareAll, Node.bareAll, hbare, hbares], ?_⟩
    rw [List.append_assoc, hstep, hsteps]
    simp

end

end RuleScript
