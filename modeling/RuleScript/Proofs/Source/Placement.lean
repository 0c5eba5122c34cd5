/-
# Where nodes stand

Every node of a source text, at whatever depth, stands at the place that its
position names, and the tokens of the nodes with the space between them are the
whole text: nothing of it is lost, and nothing but space is left out.

The same positions come out of an outline, in which a record has a line and a
column and no offset. There the offset is recovered from the starts of the
lines, and it is the one the node has (`outlinePosition_after`).

Key definitions: `Node.front`, `Node.outline`.
Key theorems: `parse_occurs`, `Scans.woven`, `outlinePosition_after`,
`nodes_stand_where_they_say`.
-/
import RuleScript.Proofs.Realm.Basic
import RuleScript.Proofs.Source.Language

namespace RuleScript

open Text

/-! ### Tokens in the text -/

/-- A token stands where its cursor says. -/
theorem Scans.placed {before cs : List Char} {ts : List Token} (h : Scans before cs ts) :
    ∀ t ∈ ts, ∃ gone rest, cs = gone ++ (t.lexeme.text ++ rest) ∧ t.cursor = .after (before ++ gone) ∧
      t.lexeme.Reads rest := by
  induction h with
  | done => simp
  | @space before cs c ts hc _ ih =>
    intro t ht
    obtain ⟨gone, rest, rfl, hcursor, hreads⟩ := ih t ht
    exact ⟨c :: gone, rest, rfl, by simpa using hcursor, hreads⟩
  | @token before rest x ts hx _ ih =>
    intro t ht
    rcases List.mem_cons.mp ht with rfl | ht
    · exact ⟨[], rest, rfl, by simp, hx⟩
    · obtain ⟨gone, rest, rfl, hcursor, hreads⟩ := ih t ht
      exact ⟨x.text ++ gone, rest, by simp, by simpa using hcursor, hreads⟩

/-- The text is its tokens with space before each and at the end. -/
theorem Scans.woven {before cs : List Char} {ts : List Token} (h : Scans before cs ts) :
    ∃ (gaps : List (List Char)) (last : List Char), gaps.length = ts.length ∧
      (∀ gap ∈ gaps, ∀ c ∈ gap, isSpace c = true) ∧ (∀ c ∈ last, isSpace c = true) ∧
      cs = (List.zipWith (· ++ ·) gaps (ts.map (·.lexeme.text))).flatten ++ last := by
  induction h with
  | done => exact ⟨[], [], by simp⟩
  | @space before cs c ts hc _ ih =>
    obtain ⟨gaps, last, hlength, hgaps, hlast, rfl⟩ := ih
    -- a space lengthens the first gap, or the end if there is no token
    cases gaps with
    | nil =>
      refine ⟨[], c :: last, hlength, by simp, List.forall_mem_cons.mpr ⟨hc, hlast⟩, by simp⟩
    | cons gap gaps =>
      obtain ⟨hgap, hgaps⟩ := List.forall_mem_cons.mp hgaps
      refine ⟨(c :: gap) :: gaps, last, hlength, ?_, hlast, ?_⟩
      · exact List.forall_mem_cons.mpr ⟨List.forall_mem_cons.mpr ⟨hc, hgap⟩, hgaps⟩
      · obtain ⟨t, ts, rfl⟩ : ∃ t ts', ts = t :: ts' := List.exists_cons_of_length_pos (by simp [← hlength])
        simp
  | @token before rest x ts hx _ ih =>
    obtain ⟨gaps, last, hlength, hgaps, hlast, rfl⟩ := ih
    exact ⟨[] :: gaps, last, by simp [hlength], by simpa using hgaps, hlast, by simp⟩

/-! ### Nodes in the text -/

/-- The characters of the token that a node starts with. -/
def Node.front : Node → List Char
  | .number _ text suffix => text.toList ++ suffix.toList
  | .word _ text => text.toList
  | .quoted _ raw => raw.toList
  | .symbol _ text => text.toList
  | .span _ d _ => d.opening.toList
  | .value .. => []

theorem Node.Proper.pieces_eq {n : Node} (hn : n.Proper) :
    ∃ x more, n.pieces = ⟨some n.pos, x⟩ :: more ∧ x.text = n.front := by
  cases hn <;> exact ⟨_, _, rfl, rfl⟩

theorem Node.Proper.of_occurs {nodes : List Node} (hnodes : ∀ n ∈ nodes, n.Proper) {n : Node}
    (hn : n.Occurs nodes) : n.Proper := by
  induction hn with
  | among h => exact hnodes _ h
  | inside _ h ih =>
    cases ih with
    | span _ _ hbody => exact hbody _ h

theorem Node.mem_piecesAll {nodes : List Node} {n : Node} (h : n ∈ nodes) {x : Piece}
    (hx : x ∈ n.pieces) : x ∈ piecesAll nodes := by
  induction nodes with
  | nil => cases h
  | cons k ks ih =>
    rw [piecesAll, List.mem_append]
    rcases List.mem_cons.mp h with rfl | h
    · exact .inl hx
    · exact .inr (ih h)

/-- The tokens of a node are among those of the nodes it occurs in. -/
theorem Node.Occurs.pieces_subset {nodes : List Node} {n : Node} (hn : n.Occurs nodes) :
    ∀ x ∈ n.pieces, x ∈ piecesAll nodes := by
  induction hn with
  | among h => exact fun x hx => Node.mem_piecesAll h hx
  | inside _ h ih =>
    intro x hx
    refine ih x ?_
    simp [Node.pieces, Node.mem_piecesAll h hx]

theorem assemble_proper {spans : Nat} : ∀ {ts : List Token} {stack : List OpenSpan} {done nodes : List Node},
    (∀ s ∈ stack, ∀ n ∈ s.before, n.Proper) → (∀ n ∈ done, n.Proper) →
    assemble spans ts stack done = .ok nodes → ∀ n ∈ nodes, n.Proper
  | [], [], done, nodes, _, hdone, h => by
    obtain rfl := Except.ok.inj h
    simpa using hdone
  | [], _ :: _, _, _, _, _, h => by cases h
  | t :: rest, stack, done, nodes, hstack, hdone, h => by
    rcases assemble_cons spans t rest stack done with ⟨n, hn, hstep⟩ | ⟨d, hd, -, hstep⟩ |
      ⟨s, below, rfl, hs, hstep⟩ | ⟨d, -, -, hstep⟩ | hstep
    · exact assemble_proper hstack (List.forall_mem_cons.mpr ⟨Lexeme.leaf?_proper hn, hdone⟩)
        (hstep.symm.trans h)
    · exact assemble_proper (List.forall_mem_cons.mpr ⟨hdone, hstack⟩) (by simp) (hstep.symm.trans h)
    · obtain ⟨hbefore, hbelow⟩ := List.forall_mem_cons.mp hstack
      refine assemble_proper hbelow (List.forall_mem_cons.mpr ⟨?_, hbefore⟩) (hstep.symm.trans h)
      exact .span _ _ (by simpa using hdone)
    · rw [hstep] at h
      cases h
    · rw [hstep] at h
      cases h

/-- The nodes of a source text are such as a source text may have. -/
theorem parse_proper {source : String} {spans : Nat} {nodes : List Node}
    (h : parse spans source = .ok nodes) : ∀ n ∈ nodes, n.Proper := by
  obtain ⟨ts, -, hassemble⟩ := exists_tokens_of_parse h
  exact assemble_proper (by simp) (by simp) hassemble

/-- What stands in the text at a node. -/
theorem parse_occurs {source : String} {spans : Nat} {nodes : List Node}
    (h : parse spans source = .ok nodes) {n : Node} (hn : n.Occurs nodes) : n.Proper ∧ ∃ (x : Lexeme) (before rest : List Char) (more : List Piece),
      n.pieces = ⟨some n.pos, x⟩ :: more ∧ x.text = n.front ∧ x.Reads rest ∧
      source.toList = before ++ (n.front ++ rest) ∧ n.pos = (Cursor.after before).position := by
  have hproper := Node.Proper.of_occurs (parse_proper h) hn
  obtain ⟨x, more, hpieces, htext⟩ := hproper.pieces_eq
  obtain ⟨ts, hts, hall, -⟩ := parse_scans h
  have hmem : (⟨some n.pos, x⟩ : Piece) ∈ ts.map Token.piece :=
    hall ▸ hn.pieces_subset _ (by simp [hpieces])
  obtain ⟨t, ht, hpiece⟩ := List.mem_map.mp hmem
  obtain ⟨before, rest, hsource, hcursor, hreads⟩ := hts.placed t ht
  have hlexeme : t.lexeme = x := congrArg Piece.lexeme hpiece
  have hpos : t.cursor.position = n.pos := by
    have := congrArg Piece.pos hpiece
    unfold Token.piece at this
    dsimp only at this
    split at this
    · cases this
    · exact Option.some.inj this
  subst hlexeme
  refine ⟨hproper, t.lexeme, before, rest, more, hpieces, htext, hreads, htext ▸ hsource, ?_⟩
  rw [← hpos, hcursor, List.nil_append]

/-! ### Outlines of nodes -/

namespace Node

mutual

/-- The record of a node: its tag, its text, and its line and column. -/
def outline : Node → Outline
  | .number p text suffix => .record (.named "number") (some (text ++ suffix)) p.line p.column (.list [])
  | .word p text => .record (.named "word") (some text) p.line p.column (.list [])
  | .quoted p raw => .record (.named (stringTag raw)) (some raw) p.line p.column (.list [])
  | .symbol p text => .record (.named "symbol") (some text) p.line p.column (.list [])
  | .span p d body => .record (.named d.tag) none p.line p.column (.list (outlineAll body))
  | .value .. => .scrap

/-- The records of nodes. -/
def outlineAll : List Node → List Outline
  | [] => []
  | n :: ns => outline n :: outlineAll ns

end

/-- What it takes to recover a node from its record. -/
structure Recovered (starts : List Nat) (n : Node) : Prop where
  pos : outlinePosition starts n.pos.line n.pos.column = .ok n.pos
  proper : n.Proper
  front : n.front ≠ []
  bracket : ∀ p d body, n = .span p d body → d.IsBracket

theorem Occurs.of_body {nodes body : List Node} {p : Position} {d : Delimiter}
    (hspan : (span p d body).Occurs nodes) {n : Node} (hn : n.Occurs body) : n.Occurs nodes := by
  induction hn with
  | among h => exact .inside hspan h
  | inside _ h ih => exact .inside ih h

theorem Occurs.mono {nodes nodes' : List Node} (h : nodes ⊆ nodes') {n : Node} (hn : n.Occurs nodes) :
    n.Occurs nodes' := by
  induction hn with
  | among hmem => exact .among (h hmem)
  | inside _ hmem ih => exact .inside ih hmem

end Node

namespace Node

mutual

theorem nodesAt_outline {starts : List Nat} : ∀ n : Node, (∀ k : Node, k.Occurs [n] → k.Recovered starts) →
    n.outline.nodesAt starts = .ok [n]
  | .number p text suffix, h => by
    obtain ⟨hpos, hproper, hfront, -⟩ := h _ (.among (List.mem_singleton_self _))
    have hne : text ++ suffix ≠ "" := by
      intro hempty
      apply hfront
      rw [front, ← String.toList_append, hempty]
      rfl
    cases hproper with
    | number _ hsplit =>
      refine nodesAt_leaf rfl hpos ?_ _
      rw [if_neg hne, String.toList_append, splitSuffix_ofNumber hsplit]
      rfl
  | .word p text, h => nodesAt_leaf rfl (h _ (.among (List.mem_singleton_self _))).pos rfl _
  | .quoted p raw, h =>
    nodesAt_leaf (leafTag?_stringTag raw) (h _ (.among (List.mem_singleton_self _))).pos rfl _
  | .symbol p text, h => nodesAt_leaf rfl (h _ (.among (List.mem_singleton_self _))).pos rfl _
  | .span p d body, h => by
    have hspan := h _ (.among (List.mem_singleton_self _))
    refine nodesAt_span (hspan.bracket p d body rfl) hspan.pos ?_ _
    rw [Outline.nodesAt]
    exact nodesOfAll_outline body fun k hk =>
      h k (Occurs.of_body (.among (List.mem_singleton_self _)) hk)
  | .value p v, h => by cases (h _ (.among (List.mem_singleton_self _))).proper

theorem nodesOfAll_outline {starts : List Nat} : ∀ nodes : List Node,
    (∀ k : Node, k.Occurs nodes → k.Recovered starts) →
    Outline.nodesOfAll starts (outlineAll nodes) = .ok nodes
  | [], _ => rfl
  | n :: ns, h => by
    have hn := nodesAt_outline n fun k hk => h k (hk.mono (by simp))
    have hns := nodesOfAll_outline ns fun k hk => h k (hk.mono (List.subset_cons_self _ _))
    simp [outlineAll, Outline.nodesOfAll, hn, hns, bind, Except.bind, pure, Except.pure]

end

end Node

theorem parse_recovered {source : String} {spans : Nat} {nodes : List Node}
    (h : parse spans source = .ok nodes) {n : Node} (hn : n.Occurs nodes) : n.Recovered (0 :: lineStarts 0 source.toList) := by
  obtain ⟨hproper, x, before, rest, more, hpieces, htext, hreads, hsource, hpos⟩ := parse_occurs h hn
  refine ⟨?_, hproper, ?_, ?_⟩
  · rw [hpos, hsource]
    exact outlinePosition_after before _
  · obtain ⟨c, t, hchars, -⟩ := hreads.lexeme?
    simp [← htext, hchars]
  · rintro p d body rfl
    obtain ⟨hx, -⟩ := List.cons.inj hpieces
    cases congrArg Piece.lexeme hx
    cases hreads with
    | opening hd => exact hd

/-- **Nodes stand where they say, and nothing of the text is lost.** Each node,
at whatever depth, has the place of the characters it starts with: line and
column count from one, and only a line feed ends a line. The tokens of the
nodes, with nothing but space between them, are the text. From the lines and
columns alone the same nodes come back, each with its offset. -/
theorem nodes_stand_where_they_say {source : String} {spans : Nat} {nodes : List Node}
    (h : parse spans source = .ok nodes) :
    (∀ n : Node, n.Occurs nodes → ∃ before rest : List Char,
      source.toList = before ++ (n.front ++ rest) ∧
      n.pos.offset = before.length ∧
      n.pos.line = some (1 + (before.count '\n' : Int)) ∧
      n.pos.column = some (1 + ((before.reverse.takeWhile (· ≠ '\n')).length : Int))) ∧
    (∃ (gaps : List (List Char)) (last : List Char), gaps.length = (Node.lexemes nodes).length ∧
      (∀ gap ∈ gaps, ∀ c ∈ gap, isSpace c = true) ∧ (∀ c ∈ last, isSpace c = true) ∧
      source.toList = (List.zipWith (· ++ ·) gaps ((Node.lexemes nodes).map (·.text))).flatten ++ last) ∧
    Outline.nodes source (.record (.named "program") none none none (.list (Node.outlineAll nodes))) =
      .ok nodes := by
  refine ⟨fun n hn => ?_, ?_, ?_⟩
  · obtain ⟨-, x, before, rest, more, -, -, -, hsource, hpos⟩ := parse_occurs h hn
    refine ⟨before, rest, hsource, ?_, ?_, ?_⟩ <;> simp [hpos, Cursor.position, Cursor.after]
  · obtain ⟨ts, hts, hpieces, -⟩ := parse_scans h
    obtain ⟨gaps, last, hlength, hgaps, hlast, hsource⟩ := hts.woven
    rw [lexemes_of_pieces hpieces]
    exact ⟨gaps, last, by simpa using hlength, hgaps, hlast, by rwa [List.map_map]⟩
  · have hnodes := Node.nodesOfAll_outline nodes fun n hn => parse_recovered h hn
    simpa [Outline.nodes, Outline.nodesAt] using hnodes

/-- A text of three lines, with a string that goes over two of them inside a
span. -/
theorem nodes_stand_where_they_say_string :
    let source := String.ofList ['1', '\n', '(', '\'', '\n', '\'', '2', ')']
    let nodes : List Node := [.ofNumber ⟨some 1, some 1, 0⟩ ['1'],
      .span ⟨some 2, some 1, 2⟩ .paren [.quoted ⟨some 2, some 2, 3⟩ (String.ofList ['\'', '\n', '\'']),
        .ofNumber ⟨some 3, some 2, 6⟩ ['2']]]
    parse Room.usual.spans source = .ok nodes ∧
      Outline.nodes source (.record (.named "program") none none none (.list (Node.outlineAll nodes))) =
        .ok nodes := by
  intro source nodes
  have htokens : tokens source = some [⟨⟨1, 1, 0⟩, .number ['1']⟩, ⟨⟨2, 1, 2⟩, .opening .paren⟩,
      ⟨⟨2, 2, 3⟩, .quoted ['\'', '\n', '\'']⟩, ⟨⟨3, 2, 6⟩, .number ['2']⟩,
      ⟨⟨3, 3, 7⟩, .closing .paren⟩] := by
    rw [tokens, String.toList_ofList]
    decide +kernel
  have hparse : parse Room.usual.spans source = .ok nodes := by
    rw [parse_of_tokens htokens]
    rfl
  exact ⟨hparse, (nodes_stand_where_they_say hparse).2.2⟩

end RuleScript
