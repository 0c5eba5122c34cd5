/-
# What is between the quotes

A string token is an opening quote, characters of which a backslash keeps the
next one, and, unless the text ends first, the closing quote. The value of the
token is found again from its characters alone: the first is left out, and the
last too if it is the same quote (`unquote`).

For a closed string that is its text. For a string that ran to the end of the
text it is the text as well, with one exception: where the last character is a
quote that a backslash keeps, it is left out as if it closed the string
(`StringTail.kept_quote`). So `'abc\'` and `'abc\` have the same value.

The display of a string rests on this. It escapes nothing and only chooses the
quote; where the string ends with a backslash, its closing quote is kept, the
token runs to the end of the text, and the quote is cut off all the same
(`displayed_strings_read_back`).

Key theorems: `StringTail.getLast_of_closed`, `StringTail.kept_quote`,
`unquote_toList`, `quotes_are_cut`, `parse_quoted`,
`displayed_strings_read_back`.
-/
import Mathlib.Data.List.Basic
import RuleScript.Display
import RuleScript.Proofs.Source.Placement

namespace RuleScript

/-- A closed string ends with its quote. -/
theorem StringTail.getLast_of_closed {q : Char} {closed : Bool} {tail : List Char}
    (h : StringTail q closed tail) (hclosed : closed = true) : tail.getLast? = some q := by
  induction h with
  | closing => rfl
  | nothing => cases hclosed
  | backslash => cases hclosed
  | escaped c _ ih => simp [List.getLast?_cons, ih hclosed]
  | plain _ _ _ ih => simp [List.getLast?_cons, ih hclosed]

/-- A string that is not closed and yet ends with its quote has a backslash
before it. -/
theorem StringTail.kept_quote {q : Char} (hq : q ≠ '\\') {closed : Bool} {tail : List Char}
    (h : StringTail q closed tail) (hclosed : closed = false) (hlast : tail.getLast? = some q) :
    ∃ text, tail = text ++ ['\\', q] := by
  induction h with
  | closing => cases hclosed
  | nothing => cases hlast
  | backslash => exact absurd (Option.some.inj hlast).symm hq
  | @escaped closed c cs _ ih =>
    cases cs with
    | nil =>
      obtain rfl : c = q := by simpa using hlast
      exact ⟨[], rfl⟩
    | cons d cs =>
      obtain ⟨text, htext⟩ := ih hclosed (by simpa [List.getLast?_cons_cons] using hlast)
      exact ⟨'\\' :: c :: text, by simp [htext]⟩
  | @plain closed c cs hc _ _ ih =>
    cases cs with
    | nil => exact absurd (by simpa using hlast) hc
    | cons d cs =>
      obtain ⟨text, htext⟩ := ih hclosed (by simpa [List.getLast?_cons_cons] using hlast)
      exact ⟨c :: text, by simp [htext]⟩

/-- Whether a string is closed is settled by its characters. -/
theorem StringTail.closed_unique {q : Char} (hq : q ≠ '\\') {closed closed' : Bool} {tail : List Char}
    (h : StringTail q closed tail) (h' : StringTail q closed' tail) : closed = closed' := by
  induction h with
  | closing =>
    cases h' with
    | closing => rfl
    | backslash => exact absurd rfl hq
    | plain hc => exact absurd rfl hc
  | nothing =>
    cases h' with
    | nothing => rfl
  | backslash =>
    cases h' with
    | closing => exact absurd rfl hq
    | backslash => rfl
    | plain _ hb => exact absurd rfl hb
  | escaped c _ ih =>
    cases h' with
    | escaped _ h' => exact ih h'
    | plain _ hb => exact absurd rfl hb
  | plain hc hb htail ih =>
    cases h' with
    | closing => exact absurd rfl hc
    | backslash => exact absurd rfl hb
    | escaped => exact absurd rfl hb
    | plain _ _ h' => exact ih h'

/-- The value of a string, from its characters. -/
theorem unquote_toList {raw : String} {q : Char} {tail : List Char} (hraw : raw.toList = q :: tail) :
    (unquote raw).toList = if tail.getLast? = some q then tail.dropLast else tail := by
  rw [unquote, hraw]
  dsimp only
  split <;> simp

/-- **The value of a string is what its quotes enclose, but for a kept quote at
the end of the text.** Each string of a source text is an opening quote with a
tail, and either the tail is closed, or it runs to the end of the text; never
both. A closed string is its value between the quotes. One that is not closed
is its value behind the quote, unless its last character is a quote that a
backslash keeps: that quote is cut off too. -/
theorem quotes_are_cut {source : String} {spans : Nat} {nodes : List Node}
    (h : parse spans source = .ok nodes)
    {pos : Position} {raw : String} (hn : (Node.quoted pos raw).Occurs nodes) :
    ∃ (q : Char) (closed : Bool) (tail before rest : List Char),
      isQuote q = true ∧ raw.toList = q :: tail ∧ source.toList = before ++ (raw.toList ++ rest) ∧
      pos = (Cursor.after before).position ∧
      StringTail q closed tail ∧ ¬StringTail q (!closed) tail ∧ (closed = false → rest = []) ∧
      (closed = true → raw.toList = q :: ((unquote raw).toList ++ [q])) ∧
      (closed = false → tail.getLast? ≠ some q → raw.toList = q :: (unquote raw).toList) ∧
      (closed = false → tail.getLast? = some q →
        raw.toList = q :: ((unquote raw).toList ++ [q]) ∧ (unquote raw).toList.getLast? = some '\\') := by
  obtain ⟨-, x, before, rest, more, hpieces, -, hreads, hsource, hpos⟩ := parse_occurs h hn
  obtain rfl : x = .quoted raw.toList := by
    rw [Node.pieces] at hpieces
    exact (congrArg Piece.lexeme (List.cons.inj hpieces).1).symm
  generalize hraw : raw.toList = chars at hreads
  cases hreads with
  | @quoted q closed tail _ hq htail hrest =>
    obtain ⟨-, -, hback⟩ := quote_classes hq
    have hvalue := unquote_toList hraw
    have hcut (hlast : tail.getLast? = some q) : tail = (unquote raw).toList ++ [q] := by
      rw [hvalue, if_pos hlast]
      exact (List.dropLast_append_getLast? q hlast).symm
    refine ⟨q, closed, tail, before, rest, hq, rfl, ?_, hpos, htail, ?_, hrest, ?_, ?_, ?_⟩
    · rw [← hraw]
      exact hsource
    · intro hother
      cases closed <;> cases htail.closed_unique hback hother
    · intro hclosed
      rw [← hcut (htail.getLast_of_closed hclosed)]
    · intro _ hlast
      rw [hvalue, if_neg hlast]
    · intro hclosed hlast
      obtain ⟨text, rfl⟩ := htail.kept_quote hback hclosed hlast
      rw [← hcut hlast, hvalue, if_pos hlast]
      exact ⟨rfl, by simp⟩

/-- The text `'a\'`: the quote at its end is kept by the backslash, so the
string runs to the end of the text, and its value is `a\` all the same. -/
theorem quotes_are_cut_kept :
    let source := String.ofList ['\'', 'a', '\\', '\'']
    let nodes : List Node := [.quoted ⟨some 1, some 1, 0⟩ source]
    parse Room.usual.spans source = .ok nodes ∧ StringTail '\'' false ['a', '\\', '\''] ∧
      unquote source = String.ofList ['a', '\\'] ∧
      ∃ (q : Char) (closed : Bool) (tail before rest : List Char),
        isQuote q = true ∧ source.toList = q :: tail ∧ source.toList = before ++ (source.toList ++ rest) ∧
        StringTail q closed tail ∧
        (closed = false → tail.getLast? = some q →
          source.toList = q :: ((unquote source).toList ++ [q])) := by
  intro source nodes
  have htokens : tokens source = some [⟨⟨1, 1, 0⟩, .quoted ['\'', 'a', '\\', '\'']⟩] := by
    rw [tokens, String.toList_ofList]
    decide +kernel
  have hparse : parse Room.usual.spans source = .ok nodes := by
    rw [parse_of_tokens htokens]
    rfl
  have htail : StringTail '\'' false ['a', '\\', '\''] :=
    .plain (by decide) (by decide) (.escaped '\'' .nothing)
  have hvalue : unquote source = String.ofList ['a', '\\'] := by
    rw [← String.toList_inj, unquote_toList (String.toList_ofList ..)]
    simp
  obtain ⟨q, closed, tail, before, rest, hq, hraw, hsource, -, hend, -, -, -, -, hkept⟩ :=
    quotes_are_cut hparse (.among (List.mem_singleton_self _))
  exact ⟨hparse, htail, hvalue, q, closed, tail, before, rest, hq, hraw, hsource, hend,
    fun hclosed hlast => (hkept hclosed hlast).1⟩

/-! ### Displayed strings -/

/-- Characters without a quote make the tail of a string with the quote behind
them, whether it closes the string or a backslash keeps it. -/
theorem StringTail.exists_append {q : Char} : ∀ {cs : List Char}, q ∉ cs →
    ∃ closed, StringTail q closed (cs ++ [q])
  | [], _ => ⟨true, .closing⟩
  | [c], h => by
    by_cases hc : c = '\\'
    · rw [hc]
      exact ⟨false, .escaped q .nothing⟩
    · have hcq : c ≠ q := fun heq => h (heq ▸ List.mem_singleton_self c)
      exact ⟨true, .plain hcq hc .closing⟩
  | c :: d :: cs, h => by
    simp only [List.mem_cons, not_or] at h
    obtain ⟨hqc, hqd, hqcs⟩ := h
    by_cases hc : c = '\\'
    · obtain ⟨closed, htail⟩ := exists_append hqcs
      rw [hc]
      exact ⟨closed, .escaped d htail⟩
    · have hrest : q ∉ d :: cs := by simp [hqd, hqcs]
      obtain ⟨closed, htail⟩ := exists_append hrest
      exact ⟨closed, .plain (Ne.symm hqc) hc htail⟩

/-- **A text between two quotes that it does not hold is one string.** -/
theorem parse_quoted {q : Char} (hq : isQuote q = true) {text s : String} (hs : q ∉ s.toList)
    (htext : text.toList = q :: (s.toList ++ [q])) (spans : Nat) :
    parse spans text = .ok [.quoted Cursor.start.position text] ∧ unquote text = s := by
  constructor
  · obtain ⟨closed, htail⟩ := StringTail.exists_append hs
    have hreads : (Lexeme.quoted text.toList).Reads [] := htext ▸ .quoted hq htail fun _ => rfl
    have hscan : Scans [] (text.toList ++ []) [⟨.after [], .quoted text.toList⟩] :=
      .token hreads (.done _)
    rw [List.append_nil] at hscan
    rw [parse_of_scans hscan]
    simp [assemble, Cursor.start, Cursor.position, Cursor.after]
  · rw [← String.toList_inj, unquote_toList htext]
    simp

/-- **Displayed strings read back.** The display of a string that does not hold
both a single and a double quote is a source text with one node, a string whose
value is the string again. -/
theorem displayed_strings_read_back (h : Heap) (s : String)
    (hs : ¬('\'' ∈ s.toList ∧ '"' ∈ s.toList)) (spans : Nat) :
    let text := (Value.string s).shown h
    parse spans text = .ok [.quoted Cursor.start.position text] ∧ unquote text = s := by
  have hshown : (Value.string s).shown h = quoteText s := rfl
  rw [hshown]
  by_cases hsingle : '\'' ∈ s.toList
  · -- The string holds single quotes, so it is put into double ones.
    have hdouble : '"' ∉ s.toList := fun hmem => hs ⟨hsingle, hmem⟩
    have hquote : quoteText s = "\"" ++ s ++ "\"" := by simp [quoteText, hsingle, hdouble]
    exact parse_quoted (q := '"') rfl hdouble (by simp [hquote]) spans
  · have hquote : quoteText s = "'" ++ s ++ "'" := by simp [quoteText, hsingle]
    exact parse_quoted (q := '\'') rfl hsingle (by simp [hquote]) spans

/-- The string `it's [\`: it is put into double quotes, and the backslash at its
end keeps the quote that should close it. -/
theorem displayed_strings_read_back_backslash :
    let s := String.ofList ['i', 't', '\'', 's', ' ', '[', '\\']
    let text := String.ofList ['"', 'i', 't', '\'', 's', ' ', '[', '\\', '"']
    ¬('\'' ∈ s.toList ∧ '"' ∈ s.toList) ∧ (Value.string s).shown .empty = text ∧
      parse Room.usual.spans text = .ok [.quoted Cursor.start.position text] ∧ unquote text = s := by
  intro s text
  have hs : ¬('\'' ∈ s.toList ∧ '"' ∈ s.toList) := by
    rw [String.toList_ofList]
    decide
  have hshown : (Value.string s).shown .empty = text := by
    rw [← String.toList_inj]
    simp [Value.shown, Value.showInside, quoteText, s, text]
  have hback := displayed_strings_read_back .empty s hs Room.usual.spans
  rw [hshown] at hback
  exact ⟨hs, hshown, hback⟩

end RuleScript
