/-
# Printing and reading nodes

Nodes whose tokens are whole (`Node.Printable`) can be printed: their tokens are
written one after the other with a space between them (`Node.printed`). The
space keeps neighbours apart, so each token is read as it was written, and the
text has these nodes again, at the positions that they have in it now
(`parse_undoes_printing`). Only where too many spans are inside each other is
the text refused (`deep_spans_are_not_read_back`).

Key definitions: `Lexeme.Whole`, `Node.Printable`, `Node.printed`.
Key theorems: `Lexeme.Whole.reads`, `scans_printed`, `Node.Printable.proper`,
`parse_undoes_printing`.
-/
import RuleScript.Proofs.Source.Language

namespace RuleScript

open Text

/-! ### Whole tokens -/

/-- The text of a token, with nothing said of what follows: a string has its
closing quote. -/
inductive Lexeme.Whole : Lexeme → Prop
  | opening {d : Delimiter} (hd : d.IsBracket) : Whole (.opening d)
  | closing {d : Delimiter} (hd : d.IsBracket) : Whole (.closing d)
  | quoted {q : Char} {tail : List Char} (hq : isQuote q = true) (htail : StringTail q true tail) :
      Whole (.quoted (q :: tail))
  | number {c : Char} {cs : List Char} (hc : '0' ≤ c ∧ c ≤ '9') (hcs : ∀ d ∈ cs, isNumberChar d = true) :
      Whole (.number (c :: cs))
  | word {c : Char} {cs : List Char} (hc : isWordChar c = true) (hd : isWordDigit c = false)
      (hcs : ∀ d ∈ cs, isWordChar d = true) : Whole (.word (c :: cs))
  | pair {c d : Char} (h : isPair c d = true) : Whole (.symbol [c, d])
  | symbol {c : Char} (hc : IsSymbolChar c) : Whole (.symbol [c])

/-- A whole token stands before a space and at the end of a text. -/
theorem Lexeme.Whole.reads {x : Lexeme} (h : x.Whole) {rest : List Char}
    (hrest : ∀ c ∈ rest.head?, c = ' ') : x.Reads rest := by
  have hword : isWordChar ' ' = false := (ascii_classes (c := ' ') (by decide)).1.trans (by decide)
  cases h with
  | opening hd => exact .opening hd rest
  | closing hd => exact .closing hd rest
  | quoted hq htail => exact .quoted hq htail (by simp)
  | number hc hcs => exact .number hc hcs fun d hd => by rw [hrest d hd]; decide
  | word hc hd hcs => exact .word hc hd hcs fun d hd => by rw [hrest d hd, hword]
  | pair h => exact .pair h rest
  | symbol hc => exact .symbol hc fun d hd => by rw [hrest d hd]; simp [isPair]

theorem isSpace_blank : isSpace ' ' = true := (ascii_classes (c := ' ') (by decide)).2.2.trans (by decide)

/-- Whole tokens with a space between neighbours are scanned as they are. -/
theorem scans_printed : ∀ {xs : List Lexeme}, (∀ x ∈ xs, x.Whole) → ∀ before : List Char,
    ∃ ts, Scans before (List.intercalate [' '] (xs.map (·.text))) ts ∧ ts.map (·.lexeme) = xs
  | [], _, before => ⟨[], .done before, rfl⟩
  | [x], h, before => by
    have hx : x.Reads [] := (h x (List.mem_singleton_self x)).reads (by simp)
    have hscan : Scans before (x.text ++ []) [⟨.after before, x⟩] := .token hx (.done _)
    exact ⟨_, by simpa using hscan, rfl⟩
  | x :: y :: xs, h, before => by
    obtain ⟨hx, hxs⟩ := List.forall_mem_cons.mp h
    obtain ⟨ts, hts, hlexemes⟩ := scans_printed hxs (before ++ x.text ++ [' '])
    have hscan : Scans before
        (x.text ++ ' ' :: List.intercalate [' '] ((y :: xs).map (·.text))) (⟨.after before, x⟩ :: ts) :=
      .token (hx.reads (by simp)) (.space isSpace_blank hts)
    exact ⟨_, by simpa [List.intercalate_cons_cons] using hscan, by simp [hlexemes]⟩

/-! ### Printable nodes -/

namespace Node

/-- A node that can be written. The suffix of a number is one letter that names
a radix, or there is none and the text does not end with such a letter. -/
inductive Printable : Node → Prop
  | number (p : Position) {text suffix : String} (h : (Lexeme.number (text.toList ++ suffix.toList)).Whole)
      (hsuffix : suffix.toList = [] ∧ (∀ c ∈ text.toList.getLast?, isRadixSuffix c = false) ∨
        ∃ c, suffix.toList = [c] ∧ isRadixSuffix c = true) : Printable (.number p text suffix)
  | word (p : Position) {text : String} (h : (Lexeme.word text.toList).Whole) : Printable (.word p text)
  | quoted (p : Position) {raw : String} (h : (Lexeme.quoted raw.toList).Whole) : Printable (.quoted p raw)
  | symbol (p : Position) {text : String} (h : (Lexeme.symbol text.toList).Whole) :
      Printable (.symbol p text)
  | span (p : Position) {d : Delimiter} (hd : d.IsBracket) {body : List Node}
      (h : ∀ n ∈ body, Printable n) : Printable (.span p d body)

/-- The tokens of nodes with a space between neighbours. -/
def printed (nodes : List Node) : String :=
  String.ofList (List.intercalate [' '] ((lexemes nodes).map (·.text)))

/-- To split off the suffix undoes writing it behind the text. -/
theorem splitSuffix_suffix {text suffix : List Char}
    (h : suffix = [] ∧ (∀ c ∈ text.getLast?, isRadixSuffix c = false) ∨
      ∃ c, suffix = [c] ∧ isRadixSuffix c = true) :
    splitSuffix (text ++ suffix) = (text, suffix) := by
  unfold splitSuffix
  rcases h with ⟨rfl, hlast⟩ | ⟨c, rfl, hc⟩
  · rw [List.append_nil]
    cases htext : text.getLast? with
    | none => rfl
    | some c => simp [hlast c htext]
  · simp [hc]

theorem Printable.proper : ∀ {n : Node}, n.Printable → n.Proper
  | .number .., .number p _ hsuffix => .number p (splitSuffix_suffix hsuffix)
  | .word .., .word p _ => .word p _
  | .quoted .., .quoted p _ => .quoted p _
  | .symbol .., .symbol p _ => .symbol p _
  | .span .., .span p _ h => .span p _ fun n hn => (h n hn).proper

mutual

theorem Printable.whole : ∀ {n : Node}, n.Printable → ∀ x ∈ n.pieces.map (·.lexeme), x.Whole
  | .number .., .number _ h _ => by simpa [pieces] using h
  | .word .., .word _ h => by simpa [pieces] using h
  | .quoted .., .quoted _ h => by simpa [pieces] using h
  | .symbol .., .symbol _ h => by simpa [pieces] using h
  | .span _ d body, .span _ hd h => by
    rw [lexemes_span]
    have hbody := whole_lexemes h
    simp only [List.mem_cons, List.mem_append, List.not_mem_nil, or_false]
    rintro x (rfl | hx | rfl)
    · exact .opening hd
    · exact hbody x hx
    · exact .closing hd

theorem whole_lexemes : ∀ {nodes : List Node}, (∀ n ∈ nodes, n.Printable) →
    ∀ x ∈ lexemes nodes, x.Whole
  | [], _ => by simp
  | n :: ns, h => by
    obtain ⟨hn, hns⟩ := List.forall_mem_cons.mp h
    rw [lexemes_cons]
    intro x hx
    rcases List.mem_append.mp hx with hx | hx
    · exact hn.whole x hx
    · exact whole_lexemes hns x hx

end

end Node

/-- **Parsing undoes printing.** Printable nodes, printed and read again, are
the same up to their positions, as long as there is room for the spans that are
inside each other. -/
theorem parse_undoes_printing {spans : Nat} {nodes : List Node} (h : ∀ n ∈ nodes, n.Printable)
    (hroom : ¬NestsBeyond spans (Node.lexemes nodes)) :
    ∃ nodes', parse spans (Node.printed nodes) = .ok nodes' ∧ Node.bareAll nodes' = Node.bareAll nodes := by
  obtain ⟨ts, hts, hlexemes⟩ := scans_printed (Node.whole_lexemes h) []
  have hsource : Scans [] (Node.printed nodes).toList ts := by
    rwa [Node.printed, String.toList_ofList]
  exact parse_nodes hsource (fun n hn => (h n hn).proper) hlexemes hroom

/-- Few tokens do not nest deep. -/
theorem not_nestsBeyond_of_length {n : Nat} {xs : List Lexeme} (h : xs.length ≤ n) : ¬NestsBeyond n xs := by
  rintro ⟨front, hfront, hdeep⟩
  have hopened : ∀ ys : List Lexeme, opened ys ≤ ys.length := by
    intro ys
    induction ys with
    | nil => simp
    | cons y ys ih =>
      have : y.turn ≤ 1 := by cases y <;> simp [Lexeme.turn]
      simp only [opened_cons, List.length_cons]
      omega
  have := hopened front
  have := hfront.length_le
  omega

/-- A number with a suffix, a symbol of two characters, and a string that holds
its own quote inside a span. -/
theorem parse_undoes_printing_string :
    let nodes : List Node := [.number .blank (String.ofList ['1']) (String.ofList ['B']),
      .symbol .blank (String.ofList ['=', '=']),
      .span .blank .bracket [.quoted .blank (String.ofList ['\'', '\\', '\'', '\''])]]
    ∃ nodes', parse Room.usual.spans (Node.printed nodes) = .ok nodes' ∧
      Node.bareAll nodes' = Node.bareAll nodes := by
  intro nodes
  have hnumber : (Lexeme.number ['1', 'B']).Whole :=
    .number (by decide) (List.forall_mem_singleton.mpr (by decide))
  have hpair : (Lexeme.symbol ['=', '=']).Whole := .pair (by decide)
  have hstring : (Lexeme.quoted ['\'', '\\', '\'', '\'']).Whole :=
    .quoted (by decide) (.escaped '\'' .closing)
  have hprintable : ∀ n ∈ nodes, n.Printable := by
    refine List.forall_mem_cons.mpr ⟨.number _ ?_ (.inr ⟨'B', by simp, by decide⟩),
      List.forall_mem_cons.mpr ⟨.symbol _ (by simpa using hpair), List.forall_mem_singleton.mpr ?_⟩⟩
    · simpa using hnumber
    · exact .span _ (d := .bracket) trivial (List.forall_mem_singleton.mpr (.quoted _ (by simpa using hstring)))
  exact parse_undoes_printing hprintable (not_nestsBeyond_of_length (by decide))

theorem nestedSpans_printable : ∀ n : Nat, ∀ k ∈ nestedSpans n, k.Printable
  | 0 => by simp [nestedSpans]
  | n + 1 => List.forall_mem_singleton.mpr (.span _ (d := .paren) trivial (nestedSpans_printable n))

theorem deepFunction_printable (n : Nat) : ∀ k ∈ deepFunction n, k.Printable := by
  have hat : (Lexeme.symbol ['@']).Whole := .symbol isSymbolChar_at
  have hbody := nestedSpans_printable n
  exact List.forall_mem_cons.mpr ⟨.symbol _ hat, List.forall_mem_cons.mpr
    ⟨.span _ (d := .paren) trivial (by simp),
      List.forall_mem_singleton.mpr (.span _ (d := .brace) trivial hbody)⟩⟩

/-- **Deep spans are not read back**: these nodes can be printed, and the text
has no nodes where there is room for 3000 spans or fewer. -/
theorem deep_spans_are_not_read_back :
    (∀ k ∈ deepFunction 3000, k.Printable) ∧
      ∀ spans ≤ 3000, ¬∃ nodes, parse spans (Node.printed (deepFunction 3000)) = .ok nodes := by
  refine ⟨deepFunction_printable 3000, ?_⟩
  rintro spans hspans ⟨nodes, hnodes⟩
  obtain ⟨ts, hts, hlexemes⟩ := scans_printed (Node.whole_lexemes (deepFunction_printable 3000)) []
  have hsource : Scans [] (Node.printed (deepFunction 3000)).toList ts := by
    rwa [Node.printed, String.toList_ofList]
  refine not_nestsBeyond_of_parse hnodes hsource ?_
  rw [hlexemes]
  exact nestsBeyond_deepFunction hspans

end RuleScript
