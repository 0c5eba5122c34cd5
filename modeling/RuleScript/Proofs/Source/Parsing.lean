/-
# The grammar and the tokens

The grammar finds the nodes that `assemble` makes of the tokens (`parse_of_scansTo`).
Wherever a token is due, a node takes that token, or a bracket with all up to its
closing bracket. Nodes go on until the tokens end, a span is closed, or an opening
bracket has no closing one that fits. There the grammar stops without a word, and
`assemble` finds the brackets at fault later (`Blocked`).

The proof is by induction on the spans that may still be opened: the node of a
bracket needs the nodes inside, with one span less (`node_found_succ`), and the nodes
at a place need the node there and, by induction on the text, the nodes behind it
(`nodes_found`).

Key definitions: `Due`, `Blocked`, `NodeFound`, `NodesFound`.
Key theorems: `node_found`, `nodes_found`, `parse_of_scansTo`, `parse_madeOf`.
-/
import RuleScript.Proofs.Source.Matching

namespace RuleScript

open Text Grammar

/-! ### Where a token is due -/

namespace ScansTo

variable {before cs tail : List Char} {ts : List Token}

/-- The space in front may be skipped. -/
theorem skip (h : ScansTo before cs ts tail) :
    ScansTo (before ++ cs.takeWhile isSpace) (cs.dropWhile isSpace) ts tail := by
  induction h with
  | @stop before tail h =>
    cases tail with
    | nil => simpa using ScansTo.stop before h
    | cons c cs => simpa [(h c rfl).1] using ScansTo.stop before h
  | space hc _ ih => simpa [hc] using ih
  | @token before rest tail x ts hx h _ =>
    obtain ⟨c, t, htext, hspace, -⟩ := hx.lexeme?
    have htoken := ScansTo.token hx h
    rw [htext, List.cons_append] at htoken ⊢
    simpa [hspace] using htoken

end ScansTo

/-- A place in a source text with no space behind it, where the tokens go on that are
scanned up to the tail of the text. -/
structure Due (source tail before cs : List Char) (ts : List Token) : Prop where
  text : source = before ++ cs
  noSpace : ∀ c ∈ cs.head?, isSpace c = false
  scans : ScansTo before cs ts tail

namespace Due

variable {source tail before cs : List Char} {ts : List Token}

/-- Behind the space a token is due. -/
theorem of_scansTo (htext : source = before ++ cs) (h : ScansTo before cs ts tail) :
    Due source tail (before ++ cs.takeWhile isSpace) (cs.dropWhile isSpace) ts where
  text := by rw [htext, List.append_assoc, List.takeWhile_append_dropWhile]
  noSpace := head_dropWhile isSpace cs
  scans := h.skip

/-- The token that is due, or the end of the tokens. -/
theorem token_or_end (h : Due source tail before cs ts) :
    (ts = [] ∧ cs = tail ∧ ∀ c ∈ cs.head?, ¬StartsToken c) ∨
    ∃ x rest ts', cs = x.text ++ rest ∧ ts = ⟨.after before, x⟩ :: ts' ∧ x.Reads rest ∧
      ScansTo (before ++ x.text) rest ts' tail := by
  obtain ⟨-, hspace, hscans⟩ := h
  cases hscans with
  | stop before h => exact .inl ⟨rfl, rfl, fun c hc => (h c hc).2⟩
  | space hc =>
    rw [hspace _ rfl] at hc
    cases hc
  | token hx h => exact .inr ⟨_, _, _, rfl, rfl, hx, h⟩

/-- The tokens end with the text. -/
theorem nil_of_end (h : Due source tail before [] ts) : ts = [] ∧ tail = [] := by
  rcases h.token_or_end with ⟨hts, htail, -⟩ | ⟨x, rest, ts', htext, -, hx, -⟩
  · exact ⟨hts, htail.symm⟩
  · obtain ⟨c, t, hchars, -⟩ := hx.lexeme?
    rw [hchars] at htext
    cases htext

/-- Where the tokens end the tail is left. -/
theorem eq_tail (h : Due source tail before cs []) : cs = tail := by
  rcases h.token_or_end with ⟨-, htail, -⟩ | ⟨x, rest, ts', -, hts, -, -⟩
  · exact htail
  · cases hts

end Due

/-- The bracket that closes a span, if it is due, and otherwise it does not stand
there. -/
theorem Due.closing_or_not {source tail before cs : List Char} {ts : List Token}
    (h : Due source tail before cs ts) {d : Delimiter} (hd : d.IsBracket) :
    (∃ t rest ts', ts = t :: ts' ∧ t.lexeme = .closing d ∧ cs = d.closing.toList ++ rest ∧
      ScansTo (before ++ d.closing.toList) rest ts' tail) ∨
    dropPiece? d.closing.toList cs = none ∧ ∀ t ts', ts = t :: ts' → t.lexeme ≠ .closing d := by
  obtain ⟨b, hb, hstarts, hlexeme⟩ : ∃ b, d.closing.toList = [b] ∧ StartsToken b ∧
      ∀ cs, lexeme? b cs = some (.closing d, [b]) := by
    cases d with
    | other => exact hd.elim
    | paren | bracket | brace =>
      exact ⟨_, rfl, ⟨.closing _, [], [], rfl, .closing hd []⟩, fun _ => rfl⟩
  have hmiss {c : Char} (hc : c ≠ b) (cs : List Char) : dropPiece? [b] (c :: cs) = none :=
    if_neg (Ne.symm hc)
  rcases h.token_or_end with ⟨rfl, rfl, hend⟩ | ⟨x, rest, ts', rfl, rfl, hx, hscans⟩
  · refine .inr ⟨?_, nofun⟩
    rw [hb]
    cases cs with
    | nil => rfl
    | cons c cs =>
      refine hmiss ?_ cs
      rintro rfl
      exact hend c rfl hstarts
  · obtain ⟨c, t, htext, -, hfound⟩ := hx.lexeme?
    by_cases hc : c = b
    · subst hc
      rw [hlexeme] at hfound
      obtain rfl := (Prod.mk.inj (Option.some.inj hfound)).1
      exact .inl ⟨_, rest, ts', rfl, rfl, rfl, hscans⟩
    · refine .inr ⟨?_, ?_⟩
      · rw [hb, htext]
        exact hmiss hc _
      · rintro _ _ ⟨⟩ rfl
        rw [Lexeme.text, hb] at htext
        exact hc (List.cons.inj htext).1.symm

/-! ### What is found -/

section

variable (spans : Nat) (source tail : List Char) (j : Nat)

/-- The brackets of tokens are at fault, whatever spans are open, if there is room for
`j` more. -/
def Blocked (ts : List Token) : Prop :=
  ∀ stack done, stack.length + j = spans → assemble spans ts stack done = .error .malformed

/-- Where nodes end: with the tokens, at a closing bracket, or where the brackets are
at fault. -/
inductive Ended : List Token → Prop
  | tokens : Ended []
  | closing {t : Token} {d : Delimiter} (h : t.lexeme = .closing d) (ts : List Token) : Ended (t :: ts)
  | blocked {ts : List Token} (h : Blocked spans j ts) : Ended ts

variable {spans j} in
/-- Nodes that end without the closing bracket of the span around them leave the
brackets at fault. -/
theorem Ended.unclosed {ts : List Token} (hend : Ended spans j ts) {s : OpenSpan}
    (hother : ∀ t ts', ts = t :: ts' → t.lexeme ≠ .closing s.delimiter) {stack : List OpenSpan}
    (hroom : (s :: stack).length + j = spans) (done : List Node) :
    assemble spans ts (s :: stack) done = .error .malformed := by
  cases hend with
  | tokens => rfl
  | blocked h => exact h _ _ hroom
  | @closing t d h ts' =>
    have hne : s.delimiter ≠ d := fun hs => hother t ts' rfl (hs ▸ h)
    rw [assemble]
    simp [h, hne]

/-- There is no room for the spans of tokens, whatever spans are open. -/
def Crowded (ts : List Token) : Prop :=
  ∀ stack done, stack.length + j = spans → assemble spans ts stack done = .error .tooDeep

/-- What a node is to the tokens where it is due, with room for `j` more spans. -/
inductive NodeFound (cs : List Char) (ts : List Token) : ParseResult → Prop
  | exhausted (h : Crowded spans j ts) : NodeFound cs ts .exhausted
  | failed (h : Ended spans j ts) : NodeFound cs ts .failed
  | found {tree : Outline} {n : Node} {before rest : List Char} {ts' : List Token}
      (htree : tree.nodesAt (0 :: lineStarts 0 source) = .ok [n])
      (htext : source = before ++ rest) (hscans : ScansTo before rest ts' tail)
      (hlength : rest.length < cs.length)
      (hstep : ∀ stack done, stack.length + j = spans →
        assemble spans ts stack done = assemble spans ts' stack (n :: done)) :
      NodeFound cs ts (.found [tree] (.after before) rest)

/-- What nodes one after the other are to the tokens where they are due. -/
inductive NodesFound (cs : List Char) (ts : List Token) : ParseResult → Prop
  | exhausted (h : Crowded spans j ts) : NodesFound cs ts .exhausted
  | found {trees : List Outline} {nodes : List Node} {before rest : List Char} {ts' : List Token}
      (htrees : Outline.nodesOfAll (0 :: lineStarts 0 source) trees = .ok nodes)
      (hdue : Due source tail before rest ts') (hend : Ended spans j ts')
      (hlength : rest.length ≤ cs.length)
      (hstep : ∀ stack done, stack.length + j = spans →
        assemble spans ts stack done = assemble spans ts' stack (nodes.reverse ++ done)) :
      NodesFound cs ts (.found trees (.after before) rest)

end

variable {spans : Nat} {source tail : List Char} {j : Nat}

/-! ### One node -/

theorem outlinePosition_of_text {before rest : List Char} (htext : source = before ++ rest) :
    outlinePosition (0 :: lineStarts 0 source) (Cursor.after before).position.line
      (Cursor.after before).position.column = .ok (Cursor.after before).position := by
  rw [htext]
  exact outlinePosition_after before rest

section

variable {inner : Production → Parser} {before cs rest : List Char} {ts : List Token} {x : Lexeme}

/-- Where the tokens end there is no node. -/
theorem node_found_end (h : ∀ c ∈ cs.head?, ¬StartsToken c) :
    NodeFound spans source tail j cs []
      (Production.node.parse (fun r => r.parse inner) (.after before) cs) := by
  cases cs with
  | nil =>
    rw [Production.node_parse_nil fun _ => rfl]
    exact .failed .tokens
  | cons c cs =>
    have hnone (r : Production) (hr : r ∈ Production.alternatives) : r.admits c = false := by
      by_contra hadmits
      exact h c rfl (Production.startsToken_of_admits hr (Bool.not_eq_false _ ▸ hadmits))
    rw [Production.node_parse_failed (fun _ => rfl) hnone]
    exact .failed .tokens

/-- A token that is no bracket is a node. -/
theorem node_found_leaf (htext : source = before ++ (x.text ++ rest)) (hx : x.Reads rest)
    (hscans : ScansTo (before ++ x.text) rest ts tail) {n : Node}
    (hn : x.leaf? (Cursor.after before).position = some n) :
    NodeFound spans source tail j (x.text ++ rest) (⟨.after before, x⟩ :: ts)
      (Production.node.parse (fun r => r.parse inner) (.after before) (x.text ++ rest)) := by
  obtain ⟨r, hr, ⟨c, t, hchars, hadmits⟩, ⟨p, hbody, hmatch⟩, hast, leaf, htag, hleaf⟩ := hx.takenBy hn
  have hparse : Production.node.parse (fun r => r.parse inner) (.after before) (x.text ++ rest) =
      .found (r.trees (.after before) x.text []) (.after (before ++ x.text)) rest := by
    have htaken : r.parse inner (.after before) (x.text ++ rest) =
        .found (r.trees (.after before) x.text []) ((Cursor.after before).advance x.text) rest :=
      Production.parse_regex hbody hmatch
    rw [← Cursor.advance_after, ← htaken, hchars, List.cons_append,
      Production.node_parse_eq (fun _ => rfl) hr hadmits]
  rw [hparse, Production.trees, hast]
  refine .found (nodesAt_leaf htag (outlinePosition_of_text htext) hleaf _) (by rw [htext, List.append_assoc]) hscans ?_ ?_
  · simp only [hchars, List.length_append, List.length_cons]
    omega
  · exact fun stack done _ => assemble_leaf hn

/-- A closing bracket starts no node. -/
theorem node_found_closing {d : Delimiter} (hd : d.IsBracket) :
    NodeFound spans source tail j (d.closing.toList ++ rest) (⟨.after before, .closing d⟩ :: ts)
      (Production.node.parse (fun r => r.parse inner) (.after before) (d.closing.toList ++ rest)) := by
  obtain ⟨c, hc⟩ : ∃ c, d.closing.toList = [c] := by
    cases d with
    | other => exact hd.elim
    | paren | bracket | brace => exact ⟨_, rfl⟩
  rw [hc, List.singleton_append, Production.node_parse_failed (fun _ => rfl) (Production.not_admits_closing hd hc)]
  exact .failed (.closing rfl ts)

end

/-- Nodes one after the other, with room for `j` more spans. -/
def nodesParser (j fuel : Nat) : Parser :=
  Parser.repeating (Expr.parse (Production.level (2 * j + 2)) (.sequence [.rule .node, .rule .blank])) fuel

section

variable {before cs rest : List Char} {ts : List Token} {d : Delimiter}

theorem dropPiece?_append : ∀ piece cs : List Char, dropPiece? piece (piece ++ cs) = some cs
  | [], _ => rfl
  | _ :: piece, cs => (if_pos rfl).trans (dropPiece?_append piece cs)

/-- An opening bracket finds no room. -/
theorem node_found_noRoom (hd : d.IsBracket) :
    NodeFound spans source tail 0 (d.opening.toList ++ rest) (⟨.after before, .opening d⟩ :: ts)
      (Production.node.parse (Production.level 1) (.after before) (d.opening.toList ++ rest)) := by
  have hopening : Production.node.parse (Production.level 1) (.after before) (d.opening.toList ++ rest) =
      (Production.span d).parse (Production.level 0) (.after before) (d.opening.toList ++ rest) :=
    Production.node_parse_opening (fun _ => rfl) hd
  rw [hopening, Production.parse, Production.body, Expr.parse, Expr.parseAll, Expr.parse, dropPiece?_append]
  refine .exhausted fun stack done hroom => ?_
  rw [assemble]
  simp [← hroom]

/-- A span is an opening bracket, the nodes inside, and the closing bracket. -/
theorem span_parse (hd : d.IsBracket) (before rest : List Char) :
    Production.node.parse (Production.level (2 * (j + 1) + 1)) (.after before) (d.opening.toList ++ rest) =
      match nodesParser j (rest.dropWhile isSpace).length
        (.after (before ++ d.opening.toList ++ rest.takeWhile isSpace)) (rest.dropWhile isSpace) with
      | .found trees place rest' =>
        match dropPiece? d.closing.toList rest' with
        | some rest'' => .found [.record (.named d.tag) none (Cursor.after before).position.line
            (Cursor.after before).position.column (.list trees)] (place.advance d.closing.toList) rest''
        | none => .failed
      | result => result := by
  have hblank (place : Cursor) : Expr.parse (Production.level (2 * j + 2)) (.rule .blank) place rest =
      .found [] (place.advance (rest.takeWhile isSpace)) (rest.dropWhile isSpace) := Production.parse_blank
  have hopening : Production.node.parse (Production.level (2 * (j + 1) + 1)) (.after before) (d.opening.toList ++ rest) =
      (Production.span d).parse (Production.level (2 * j + 2)) (.after before) (d.opening.toList ++ rest) :=
    Production.node_parse_opening (fun _ => rfl) hd
  rw [hopening, Production.parse, Production.body, Expr.parse, Expr.parseAll, Expr.parse, dropPiece?_append]
  dsimp only [Parser.behind]
  rw [Expr.parseAll, hblank, Cursor.advance_after, Cursor.advance_after]
  dsimp only [Parser.behind]
  have hnodes (place : Cursor) (cs : List Char) :
      Production.nodes.parse (Production.level (2 * j + 2)) place cs = nodesParser j cs.length place cs := rfl
  rw [Expr.parseAll, hnodes]
  cases nodesParser j (rest.dropWhile isSpace).length
    (.after (before ++ d.opening.toList ++ rest.takeWhile isSpace)) (rest.dropWhile isSpace) with
  | exhausted => rfl
  | failed => rfl
  | found trees place rest' =>
    have hclosing : Expr.parseAll (Production.level (2 * j + 2)) [.literal d.closing.toList] place rest' =
        match dropPiece? d.closing.toList rest' with
        | some rest'' => .found [] (place.advance d.closing.toList) rest''
        | none => .failed := by
      rw [Expr.parseAll, Expr.parse]
      cases dropPiece? d.closing.toList rest' <;> rfl
    dsimp only [Parser.behind]
    rw [hclosing]
    cases dropPiece? d.closing.toList rest' with
    | none => rfl
    | some rest'' =>
      dsimp only
      rw [List.nil_append, List.append_nil]
      rfl

/-- **An opening bracket is a span if the nodes inside go on up to its closing
bracket**; otherwise the brackets are at fault. -/
theorem node_found_span (hd : d.IsBracket) (htext : source = before ++ (d.opening.toList ++ rest))
    (hscans : ScansTo (before ++ d.opening.toList) rest ts tail)
    (hinside : ∀ {fuel before cs ts}, cs.length ≤ fuel → Due source tail before cs ts →
      NodesFound spans source tail j cs ts (nodesParser j fuel (.after before) cs)) :
    NodeFound spans source tail (j + 1) (d.opening.toList ++ rest)
      (⟨.after before, .opening d⟩ :: ts)
      (Production.node.parse (Production.level (2 * (j + 1) + 1)) (.after before) (d.opening.toList ++ rest)) := by
  have hdue : Due source tail (before ++ d.opening.toList ++ rest.takeWhile isSpace)
      (rest.dropWhile isSpace) ts := .of_scansTo (by rw [htext, List.append_assoc]) hscans
  have hfound := hinside (le_refl _) hdue
  have hopening {stack : List OpenSpan} (done : List Node) (hroom : stack.length + (j + 1) = spans) :
      assemble spans (⟨.after before, .opening d⟩ :: ts) stack done =
        assemble spans ts (⟨(Cursor.after before).position, d, done⟩ :: stack) [] :=
    assemble_opening rfl (by omega)
  have hopen {s : OpenSpan} {stack : List OpenSpan} (hroom : stack.length + (j + 1) = spans) :
      (s :: stack).length + j = spans := by
    rw [List.length_cons]
    omega
  rw [span_parse hd]
  generalize nodesParser j (rest.dropWhile isSpace).length
    (.after (before ++ d.opening.toList ++ rest.takeWhile isSpace)) (rest.dropWhile isSpace) = result
    at hfound
  cases hfound with
  | exhausted h =>
    refine .exhausted fun stack done hroom => ?_
    rw [hopening done hroom]
    exact h _ [] (hopen hroom)
  | @found trees nodes before' rest' ts' htrees hdue' hend hlength hstep =>
    dsimp only
    rcases hdue'.closing_or_not hd with ⟨t, rest'', ts'', rfl, ht, rfl, hscans'⟩ | ⟨hnone, hother⟩
    · rw [dropPiece?_append]
      dsimp only
      rw [Cursor.advance_after]
      have hbody : (Outline.list trees).nodesAt (0 :: lineStarts 0 source) = .ok nodes := by
        rw [Outline.nodesAt]
        exact htrees
      refine .found (nodesAt_span hd (outlinePosition_of_text htext) hbody none) ?_ hscans' ?_ fun stack done hroom => ?_
      · rw [hdue'.text, List.append_assoc]
      · have hskip := (List.dropWhile_suffix (p := isSpace) (l := rest)).length_le
        have hone : 0 < d.opening.toList.length := by
          cases d with
          | other => exact hd.elim
          | paren | bracket | brace => exact Nat.zero_lt_one
        simp only [List.length_append] at hlength ⊢
        omega
      · rw [hopening done hroom, hstep _ [] (hopen hroom), assemble_closing ht]
        simp
    · rw [hnone]
      refine .failed (.blocked fun stack done hroom => ?_)
      rw [hopening done hroom, hstep _ [] (hopen hroom)]
      exact hend.unclosed hother (hopen hroom) _

end

/-! ### Nodes one after the other -/

/-- After a node and the space behind it the nodes go on. -/
theorem nodesParser_succ (fuel : Nat) (place : Cursor) (cs : List Char) :
    nodesParser j (fuel + 1) place cs =
      match Production.node.parse (Production.level (2 * j + 1)) place cs with
      | .found trees place rest => (nodesParser j fuel).behind
          (.found trees (place.advance (rest.takeWhile isSpace)) (rest.dropWhile isSpace))
      | .failed => .found [] place cs
      | .exhausted => .exhausted := by
  have hnode : Expr.parse (Production.level (2 * j + 2)) (.rule .node) place cs =
      Production.node.parse (Production.level (2 * j + 1)) place cs := rfl
  have hblank (place : Cursor) (cs : List Char) :
      Expr.parse (Production.level (2 * j + 2)) (.rule .blank) place cs =
        .found [] (place.advance (cs.takeWhile isSpace)) (cs.dropWhile isSpace) := Production.parse_blank
  rw [nodesParser, Parser.repeating, Expr.parse, Expr.parseAll, hnode]
  cases Production.node.parse (Production.level (2 * j + 1)) place cs with
  | exhausted => rfl
  | failed => rfl
  | found trees place rest =>
    dsimp only [Parser.behind]
    rw [Expr.parseAll, hblank]
    dsimp only [Parser.behind, Expr.parseAll]
    rw [List.append_nil, List.append_nil]
    rfl

/-- **Nodes go on as far as there are nodes**, by induction on the text that is
left. -/
theorem nodes_found (hnode : ∀ {before cs ts}, Due source tail before cs ts →
      NodeFound spans source tail j cs ts
        (Production.node.parse (Production.level (2 * j + 1)) (.after before) cs)) :
    ∀ {fuel : Nat} {before cs : List Char} {ts : List Token}, cs.length ≤ fuel →
      Due source tail before cs ts →
        NodesFound spans source tail j cs ts (nodesParser j fuel (.after before) cs)
  | 0, before, cs, ts, hfuel, hdue => by
    obtain rfl := List.eq_nil_of_length_eq_zero (Nat.le_zero.mp hfuel)
    obtain rfl := hdue.nil_of_end.1
    exact .found rfl hdue .tokens le_rfl fun _ _ _ => rfl
  | fuel + 1, before, cs, ts, hfuel, hdue => by
    have hfirst := hnode hdue
    rw [nodesParser_succ]
    generalize Production.node.parse (Production.level (2 * j + 1)) (.after before) cs = result at hfirst
    cases hfirst with
    | exhausted h => exact .exhausted h
    | failed h => exact .found rfl hdue h le_rfl fun _ _ _ => rfl
    | @found tree n before' rest ts' htree htext hscans hlength hstep =>
      have hdue' := Due.of_scansTo htext hscans
      have hskip := (List.dropWhile_suffix (p := isSpace) (l := rest)).length_le
      have hfuel' : (rest.dropWhile isSpace).length ≤ fuel := by omega
      have hrest := nodes_found hnode hfuel' hdue'
      dsimp only [Parser.behind]
      rw [Cursor.advance_after]
      generalize nodesParser j fuel (.after (before' ++ rest.takeWhile isSpace))
        (rest.dropWhile isSpace) = result at hrest ⊢
      cases hrest with
      | exhausted h =>
        refine .exhausted fun stack done hroom => ?_
        rw [hstep stack done hroom]
        exact h stack _ hroom
      | @found trees nodes before'' rest'' ts'' htrees hdue'' hend hlength' hstep' =>
        have hboth : Outline.nodesOfAll (0 :: lineStarts 0 source) (tree :: trees) = .ok (n :: nodes) := by
          simp [Outline.nodesOfAll, htree, htrees, bind, Except.bind, pure, Except.pure]
        refine .found hboth hdue'' hend (by omega) fun stack done hroom => ?_
        rw [hstep stack done hroom, hstep' stack _ hroom, List.reverse_cons, List.append_assoc]
        rfl

/-- **What a node is to the tokens where it is due**, by induction on the spans that
may still be opened. -/
theorem node_found : ∀ {j : Nat} {before cs : List Char} {ts : List Token},
    Due source tail before cs ts → NodeFound spans source tail j cs ts
      (Production.node.parse (Production.level (2 * j + 1)) (.after before) cs)
  | j, before, cs, ts, hdue => by
    have hlevel : Production.level (2 * j + 1) = fun r => r.parse (Production.level (2 * j)) := rfl
    rw [hlevel]
    rcases hdue.token_or_end with ⟨rfl, -, hend⟩ | ⟨x, rest, ts', rfl, rfl, hx, hscans⟩
    · exact node_found_end hend
    · cases hleaf : x.leaf? (Cursor.after before).position with
      | some n => exact node_found_leaf hdue.text hx hscans hleaf
      | none =>
        cases hx with
        | number | word | quoted | pair | symbol => cases hleaf
        | closing hd => exact node_found_closing hd
        | opening hd =>
          match j with
          | 0 => exact node_found_noRoom hd
          | j + 1 => exact node_found_span hd hdue.text hscans (nodes_found fun hdue => node_found hdue)

/-! ### The grammar -/

/-- A program is the space in front, nodes, and the end of the text. -/
theorem program_parse (spans : Nat) (cs : List Char) :
    Production.level (2 * spans + 3) .program .start cs =
      match nodesParser spans (cs.dropWhile isSpace).length (.after ([] ++ cs.takeWhile isSpace))
        (cs.dropWhile isSpace) with
      | .found trees place rest =>
        if rest = [] then .found [.record (.named "program") none (some 1) (some 1) (.list trees)] place rest
        else .failed
      | result => result := by
  have hblank (place : Cursor) (cs : List Char) :
      Expr.parse (Production.level (2 * spans + 2)) (.rule .blank) place cs =
        .found [] (place.advance (cs.takeWhile isSpace)) (cs.dropWhile isSpace) := Production.parse_blank
  have hnodes (place : Cursor) (cs : List Char) :
      Production.nodes.parse (Production.level (2 * spans + 2)) place cs = nodesParser spans cs.length place cs := rfl
  have hend (place : Cursor) (cs : List Char) :
      Expr.parseAll (Production.level (2 * spans + 2)) [.rule .endOfInput] place cs =
        if cs = [] then .found [] place cs else .failed := by
    cases cs <;> rfl
  have hstart : Cursor.start.advance (cs.takeWhile isSpace) = .after ([] ++ cs.takeWhile isSpace) :=
    Cursor.advance_after (cs.takeWhile isSpace) []
  rw [Production.level, Production.parse, Production.body, Expr.parse, Expr.parseAll, hblank, hstart]
  dsimp only [Parser.behind]
  rw [Expr.parseAll, hnodes]
  cases nodesParser spans (cs.dropWhile isSpace).length (.after ([] ++ cs.takeWhile isSpace))
    (cs.dropWhile isSpace) with
  | exhausted => rfl
  | failed => rfl
  | found trees place rest =>
    dsimp only [Parser.behind]
    rw [hend]
    cases rest with
    | nil =>
      rw [if_pos rfl, if_pos rfl]
      dsimp only
      rw [List.nil_append, List.append_nil]
      rfl
    | cons c rest => rfl

/-- **The grammar finds what `assemble` makes of the tokens**, if there is nothing but
space behind these. A text with a character that starts no token is malformed, but for
want of room in front of it. -/
theorem parse_of_scansTo {source : String} {ts : List Token} {tail : List Char}
    (h : ScansTo [] source.toList ts tail) (spans : Nat) :
    parse spans source = (assemble spans ts [] []).bind fun nodes =>
      if tail = [] then .ok nodes else .error .malformed := by
  have hdue : Due source.toList tail ([] ++ source.toList.takeWhile isSpace)
      (source.toList.dropWhile isSpace) ts := .of_scansTo rfl h
  have hfound : NodesFound spans source.toList tail spans (source.toList.dropWhile isSpace) ts
      (nodesParser spans (source.toList.dropWhile isSpace).length
        (.after ([] ++ source.toList.takeWhile isSpace)) (source.toList.dropWhile isSpace)) :=
    nodes_found (fun hdue => node_found hdue) le_rfl hdue
  rw [parse, program_parse]
  generalize nodesParser spans (source.toList.dropWhile isSpace).length
    (.after ([] ++ source.toList.takeWhile isSpace)) (source.toList.dropWhile isSpace) = result at hfound ⊢
  cases hfound with
  | exhausted h =>
    rw [h [] [] (Nat.zero_add _)]
    rfl
  | @found trees nodes before rest ts' htrees hdue' hend hlength hstep =>
    rw [hstep [] [] (Nat.zero_add _), List.append_nil]
    dsimp only
    cases rest with
    | nil =>
      obtain ⟨rfl, rfl⟩ := hdue'.nil_of_end
      have hnodes : Outline.nodes source
          (.list [.record (.named "program") none (some 1) (some 1) (.list trees)]) = .ok nodes := by
        simp [Outline.nodes, Outline.nodesAt, Outline.nodesOfAll, htrees, bind, Except.bind, pure, Except.pure]
      rw [if_pos rfl]
      dsimp only
      rw [hnodes, assemble, List.reverse_reverse]
      rfl
    | cons c rest =>
      rw [if_neg (List.cons_ne_nil c rest)]
      cases hend with
      | tokens =>
        obtain rfl := hdue'.eq_tail
        rw [assemble]
        rfl
      | @closing t d h ts' =>
        rw [assemble]
        simp only [h]
        rfl
      | blocked h =>
        rw [h [] _ (Nat.zero_add _)]
        rfl

/-- The nodes of a text that scans are those of its tokens. -/
theorem parse_of_scans {source : String} {ts : List Token} (h : Scans [] source.toList ts) (spans : Nat) :
    parse spans source = assemble spans ts [] [] := by
  rw [parse_of_scansTo h.scansTo]
  cases assemble spans ts [] [] <;> rfl

theorem parse_of_tokens {source : String} {ts : List Token} (h : tokens source = some ts) (spans : Nat) :
    parse spans source = assemble spans ts [] [] := parse_of_scans (tokens_eq_some_iff.mp h) spans

/-- A text that has nodes scans to tokens, of which the nodes are assembled. -/
theorem exists_tokens_of_parse {source : String} {spans : Nat} {nodes : List Node}
    (h : parse spans source = .ok nodes) :
    ∃ ts, Scans [] source.toList ts ∧ assemble spans ts [] [] = .ok nodes := by
  obtain ⟨ts, tail, hts⟩ := exists_scansTo [] source.toList
  rw [parse_of_scansTo hts] at h
  cases hassemble : assemble spans ts [] [] with
  | error e =>
    rw [hassemble] at h
    cases h
  | ok nodes' =>
    rw [hassemble] at h
    by_cases htail : tail = []
    · subst htail
      cases h
      exact ⟨ts, hts.scans, hassemble⟩
    · have hnone : (.error .malformed : Except ParseError (List Node)) = .ok nodes :=
        (if_neg htail).symm.trans h
      cases hnone

/-- **The nodes of a source text carry no values**, and its literals come from
number tokens. -/
theorem parse_madeOf {value : Value → Prop} {literal : String → String → Prop}
    (hl : ∀ text : List Char, (∀ x ∈ text, isNumberChar x = true) →
      literal (String.ofList (splitSuffix text).1) (String.ofList (splitSuffix text).2))
    {source : String} {spans : Nat} {nodes : List Node} (h : parse spans source = .ok nodes) :
    ∀ n ∈ nodes, n.MadeOf value literal := by
  obtain ⟨ts, hts, hassemble⟩ := exists_tokens_of_parse h
  have hnumbers := tokens_number (tokens_eq_some_iff.mpr hts)
  exact assemble_madeOf (fun t ht text htext => hl text (hnumbers t ht text htext))
    (by rintro _ ⟨⟩) (by rintro _ ⟨⟩) hassemble

/-- A number token alone is a program. -/
theorem parse_number {c : Char} (hc : '0' ≤ c ∧ c ≤ '9') {cs : List Char}
    (hcs : ∀ x ∈ cs, isNumberChar x = true) (spans : Nat) :
    parse spans (String.ofList (c :: cs)) = .ok [.ofNumber ⟨some 1, some 1, 0⟩ (c :: cs)] := by
  have hascii : c.toNat < 128 := Nat.lt_of_le_of_lt hc.2 (by decide)
  obtain ⟨hspace, hbracket, hquote⟩ := forall_ascii (P := fun c => '0' ≤ c ∧ c ≤ '9' →
    isSpace c = false ∧ bracket? c = none ∧ isQuote c = false) (by decide +kernel) hascii hc
  have hlexeme : lexeme? c cs = some (.number (c :: cs), c :: cs) := by
    unfold lexeme?
    rw [hbracket]
    dsimp only
    rw [hquote, if_neg Bool.false_ne_true, if_pos hc, List.takeWhile_eq_self_iff.mpr hcs]
  have htokens : tokens (String.ofList (c :: cs)) = some [⟨.start, .number (c :: cs)⟩] := by
    unfold tokens
    rw [String.toList_ofList, List.length_cons]
    unfold tokensFrom
    rw [hspace, if_neg Bool.false_ne_true, hlexeme]
    dsimp only
    rw [List.drop_length, tokensFrom]
    rfl
  exact (parse_of_tokens htokens spans).trans rfl

end RuleScript
