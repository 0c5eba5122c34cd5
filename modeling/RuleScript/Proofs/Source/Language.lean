/-
# The language of source texts

A source text has nodes if and only if it scans, its brackets are balanced, and
no more spans are open at one time than there is room for; the nodes are then
the tokens it scans to (`parse_accepts_its_language`). A text that has none is
malformed, unless it opens too many spans, which exhausts the parser whatever
follows (`deep_spans_exhaust_the_stack`).

Key theorems: `parse_scans`, `parse_nodes`, `parse_accepts_its_language`.
-/
import RuleScript.Proofs.Source.Nesting
import RuleScript.Proofs.Source.Parsing
import RuleScript.Runner.Session

namespace RuleScript

open Text

/-! ### From scanning to nodes -/

section

variable {spans : Nat} {source : String}

/-- A text that has nodes scans to their tokens. -/
theorem parse_scans {nodes : List Node} (h : parse spans source = .ok nodes) :
    ∃ ts, Scans [] source.toList ts ∧ Node.piecesAll nodes = ts.map Token.piece ∧
      ∀ front, front <+: ts.map (·.lexeme) → opened front ≤ spans := by
  obtain ⟨ts, hts, hassemble⟩ := exists_tokens_of_parse h
  exact ⟨ts, hts, by simpa [piecesSoFar, Node.piecesAll] using assemble_pieces hassemble,
    by simpa using assemble_within hassemble (Nat.zero_le _)⟩

/-- A text has too many spans only where its tokens open too many, as far as it can be
scanned. -/
theorem parse_tooDeep (h : parse spans source = .error .tooDeep) :
    ∃ ts tail, ScansTo [] source.toList ts tail ∧ NestsBeyond spans (ts.map (·.lexeme)) := by
  obtain ⟨ts, tail, hts⟩ := exists_scansTo [] source.toList
  rw [parse_of_scansTo hts] at h
  refine ⟨ts, tail, hts, ?_⟩
  cases hassemble : assemble spans ts [] [] with
  | error e =>
    rw [hassemble] at h
    obtain rfl := Except.error.inj h
    obtain ⟨front, hfront, hdeep⟩ := assemble_tooDeep hassemble
    exact ⟨front, hfront, by simpa using hdeep⟩
  | ok nodes =>
    rw [hassemble] at h
    by_cases htail : tail = []
    · have hnodes : (.ok nodes : Except ParseError (List Node)) = .error .tooDeep :=
        (if_pos htail).symm.trans h
      cases hnodes
    · have hstuck : (.error .malformed : Except ParseError (List Node)) = .error .tooDeep :=
        (if_neg htail).symm.trans h
      cases hstuck

theorem lexemes_of_pieces {nodes : List Node} {ts : List Token}
    (h : Node.piecesAll nodes = ts.map Token.piece) : Node.lexemes nodes = ts.map (·.lexeme) := by
  rw [Node.lexemes, h, List.map_map]
  rfl

/-- Tokens of nodes are read back as these nodes, if there is room for their
spans. -/
theorem parse_nodes {ts : List Token} {nodes : List Node} (hts : Scans [] source.toList ts)
    (hproper : ∀ n ∈ nodes, n.Proper) (hlexemes : ts.map (·.lexeme) = Node.lexemes nodes)
    (hroom : ¬NestsBeyond spans (Node.lexemes nodes)) :
    ∃ nodes', parse spans source = .ok nodes' ∧ Node.bareAll nodes' = Node.bareAll nodes := by
  have hfits (front : List Lexeme) (hfront : front <+: Node.lexemes nodes) :
      ([] : List OpenSpan).length + opened front ≤ spans := by
    have := not_and.mp (not_exists.mp hroom front) hfront
    simpa using this
  obtain ⟨nodes', hbare, hstep⟩ := assemble_nodes hproper ts [] [] [] hlexemes hfits
  refine ⟨nodes', ?_, hbare⟩
  rw [parse_of_scans hts]
  simpa [assemble] using hstep

/-- There is room for the spans of a text that has nodes. -/
theorem not_nestsBeyond_of_parse {ts : List Token} {nodes : List Node} (h : parse spans source = .ok nodes)
    (hts : Scans [] source.toList ts) : ¬NestsBeyond spans (ts.map (·.lexeme)) := by
  obtain ⟨ts', hts', -, hroom⟩ := parse_scans h
  obtain rfl := hts.unique hts'
  rintro ⟨front, hfront, hdeep⟩
  exact Int.not_lt.mpr (hroom front hfront) hdeep

end

/-! ### The language -/

/-- **The parser accepts exactly its language.** With room for any number of open
spans: a text has nodes if it can be scanned to the end, its brackets fit, and at no
place more spans are open, and not otherwise; to get stuck in scanning is to meet a
character that starts no token. The tokens of the nodes are those of the scan.
Any other text is malformed, which the runner reports as a fault of the syntactic
kind, unless it opens too many spans as far as it can be scanned; the runner reports
that as exhaustion. -/
theorem parse_accepts_its_language (source : String) (spans : Nat) :
    ((∃ nodes, parse spans source = .ok nodes) ↔ ∃ ts, Scans [] source.toList ts ∧
      Balanced (ts.map (·.lexeme)) ∧ ¬NestsBeyond spans (ts.map (·.lexeme))) ∧
    ((∃ ts, Scans [] source.toList ts) ↔ ¬Stuck source.toList) ∧
    (∀ nodes ts, parse spans source = .ok nodes → Scans [] source.toList ts →
      Node.lexemes nodes = ts.map (·.lexeme)) ∧
    (∀ e, parse spans source = .error e → e = .malformed ∨ e = .tooDeep ∧
      ∃ ts tail, ScansTo [] source.toList ts tail ∧ NestsBeyond spans (ts.map (·.lexeme))) ∧
    (∀ r : Runner, parse r.settings.room.spans source = .error .malformed →
      ∃ f, (r.eval source).1 = .error (.fault f) ∧ f.cause.kind = .syntactic) ∧
    (∀ r : Runner, parse r.settings.room.spans source = .error .tooDeep →
      ∃ f, (r.eval source).1 = .error (.fault f) ∧ f.cause = .depthExceeded) := by
  refine ⟨⟨?_, ?_⟩, ⟨?_, ?_⟩, ?_, ?_, ?_, ?_⟩
  · rintro ⟨nodes, h⟩
    obtain ⟨ts, hts, hpieces, -⟩ := parse_scans h
    exact ⟨ts, hts, lexemes_of_pieces hpieces ▸ Node.balanced_lexemes nodes,
      not_nestsBeyond_of_parse h hts⟩
  · rintro ⟨ts, hts, hbalanced, hroom⟩
    obtain ⟨nodes, hproper, hnodes⟩ := hbalanced.exists_nodes
    obtain ⟨nodes', hparse, -⟩ := parse_nodes hts hproper hnodes.symm (hnodes ▸ hroom)
    exact ⟨nodes', hparse⟩
  · rintro ⟨ts, hts⟩ hstuck
    exact hstuck.not_scans hts
  · exact (scans_or_stuck [] source.toList).resolve_right
  · intro nodes ts h hts
    obtain ⟨ts', hts', hpieces, -⟩ := parse_scans h
    rw [hts.unique hts', lexemes_of_pieces hpieces]
  · intro e h
    cases e with
    | malformed => exact .inl rfl
    | tooDeep => exact .inr ⟨rfl, parse_tooDeep h⟩
  · intro r h
    refine ⟨.raisedAt .invalidSource none r.source, ?_, rfl⟩
    rw [Runner.eval]
    simp only [h]
  · intro r h
    refine ⟨.raisedAt .depthExceeded none r.source, ?_, rfl⟩
    rw [Runner.eval]
    simp only [h]
    rfl

/-- Tokens that stand wherever they are put need no space between them. -/
theorem scans_flatMap : ∀ {xs : List Lexeme}, (∀ x ∈ xs, ∀ rest, x.Reads rest) → ∀ before : List Char,
    ∃ ts, Scans before (xs.flatMap Lexeme.text) ts ∧ ts.map (·.lexeme) = xs
  | [], _, before => ⟨[], .done before, rfl⟩
  | x :: xs, h, before => by
    obtain ⟨hx, hxs⟩ := List.forall_mem_cons.mp h
    obtain ⟨ts, hts, hlexemes⟩ := scans_flatMap hxs (before ++ x.text)
    exact ⟨⟨.after before, x⟩ :: ts, .token (hx _) hts, by simp [hlexemes]⟩

/-- Parentheses inside each other. -/
def nestedSpans : Nat → List Node
  | 0 => []
  | n + 1 => [.span .blank .paren (nestedSpans n)]

theorem lexemes_nestedSpans : ∀ n : Nat, Node.lexemes (nestedSpans n) =
    List.replicate n (.opening .paren) ++ List.replicate n (.closing .paren)
  | 0 => rfl
  | n + 1 => by
    rw [nestedSpans, Node.lexemes_cons, Node.lexemes_span, lexemes_nestedSpans n, List.replicate_succ,
      List.replicate_succ' (n := n) (a := Lexeme.closing .paren)]
    simp

/-- A function without parameters whose body is `n` parentheses inside each
other. -/
def deepFunction (n : Nat) : List Node :=
  [.symbol .blank "@", .span .blank .paren [], .span .blank .brace (nestedSpans n)]

theorem lexemes_deepFunction (n : Nat) : Node.lexemes (deepFunction n) =
    ([.symbol ['@'], .opening .paren, .closing .paren, .opening .brace] : List Lexeme) ++
      List.replicate n (.opening .paren) ++ List.replicate n (.closing .paren) ++ [.closing .brace] := by
  simp only [deepFunction, Node.lexemes_cons, Node.lexemes_span, Node.lexemes_nil, lexemes_nestedSpans]
  simp [Node.pieces]

theorem text_deepFunction (n : Nat) : (Node.lexemes (deepFunction n)).flatMap Lexeme.text =
    ['@', '(', ')', '\x7b'] ++ List.replicate n '(' ++ List.replicate n ')' ++ ['\x7d'] := by
  have hopening : Lexeme.text (.opening .paren) = ['('] := rfl
  have hclosing : Lexeme.text (.closing .paren) = [')'] := rfl
  rw [lexemes_deepFunction]
  simp only [List.flatMap_append, List.flatMap_replicate, hopening, hclosing,
    List.flatten_replicate_singleton]
  rfl

theorem isSymbolChar_at : IsSymbolChar '@' := by
  obtain ⟨hword, -, hspace⟩ := ascii_classes (c := '@') (by decide)
  exact ⟨hspace.trans (by decide), hword.trans (by decide), by decide, by decide⟩

/-- Brackets, and the symbol of functions, stand wherever they are put. -/
theorem deepFunction_reads {n : Nat} {x : Lexeme} (hx : x ∈ Node.lexemes (deepFunction n))
    (rest : List Char) : x.Reads rest := by
  rw [lexemes_deepFunction] at hx
  simp only [List.mem_append, List.mem_cons, List.mem_replicate, List.not_mem_nil, or_false] at hx
  rcases hx with (((rfl | rfl | rfl | rfl) | ⟨-, rfl⟩) | ⟨-, rfl⟩) | rfl
  · exact .symbol isSymbolChar_at fun d _ => by simp [isPair]
  · exact .opening (d := .paren) trivial rest
  · exact .closing (d := .paren) trivial rest
  · exact .opening (d := .brace) trivial rest
  · exact .opening (d := .paren) trivial rest
  · exact .closing (d := .paren) trivial rest
  · exact .closing (d := .brace) trivial rest

theorem nestsBeyond_deepFunction {spans n : Nat} (hn : spans ≤ n) :
    NestsBeyond spans (Node.lexemes (deepFunction n)) := by
  rw [lexemes_deepFunction, List.append_assoc _ _ [_]]
  refine ⟨_, List.prefix_append .., ?_⟩
  have hopened : opened (List.replicate n (Lexeme.opening .paren)) = n := by
    simp [opened, Lexeme.turn]
  simp only [opened_append, opened_cons, opened_nil, Lexeme.turn, hopened]
  omega

/-- **Deep spans exhaust the parser**: the brackets of this text fit, and yet it
has no nodes where there is room for 3000 spans or fewer. -/
theorem deep_spans_exhaust_the_stack :
    let source := String.ofList (['@', '(', ')', '\x7b'] ++ List.replicate 3000 '(' ++
      List.replicate 3000 ')' ++ ['\x7d'])
    (∃ ts, Scans [] source.toList ts ∧ Balanced (ts.map (·.lexeme))) ∧
      ∀ spans ≤ 3000, ¬∃ nodes, parse spans source = .ok nodes := by
  intro source
  have htext : source.toList = (Node.lexemes (deepFunction 3000)).flatMap Lexeme.text := by
    rw [text_deepFunction, String.toList_ofList]
  obtain ⟨ts, hts, hlexemes⟩ :=
    scans_flatMap (fun x hx rest => deepFunction_reads (n := 3000) hx rest) []
  rw [← htext] at hts
  refine ⟨⟨ts, hts, hlexemes ▸ Node.balanced_lexemes _⟩, ?_⟩
  rintro spans hspans ⟨nodes, hnodes⟩
  refine not_nestsBeyond_of_parse hnodes hts ?_
  rw [hlexemes]
  exact nestsBeyond_deepFunction hspans

end RuleScript
