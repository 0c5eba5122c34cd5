/-
# Scanning a source text

What a token is, said of the characters it has and of the text behind it
(`Lexeme.Reads`), without a word on how it is found; and what it is to scan a
text from left to right (`Scans`): space is skipped, each token starts where
the one before it and the space end, and no character is left over. A place in
a text is what stands before it (`Cursor.after`).

The tokens of a text are the ones it scans to (`tokens_eq_some_iff`), so there
is at most one way to scan it. A text that does not scan holds a character, met
where a token is due, that starts none (`Stuck`), which is a digit of a script
other than ASCII (`startsToken_iff`).

Key definitions: `Lexeme.text`, `StringTail`, `Lexeme.Reads`, `Cursor.after`,
`Scans`, `ScansTo`, `Stuck`.
Key theorems: `lexeme?_reads`, `startsToken_iff`, `tokens_eq_some_iff`,
`exists_scansTo`, `scans_or_stuck`.
-/
import RuleScript.Proofs.Source.Literal

namespace RuleScript

open Text

/-! ### What a token is -/

/-- One of the three brackets of the language. -/
def Delimiter.IsBracket : Delimiter → Prop
  | .other _ => False
  | _ => True

/-- The characters of a token. -/
def Lexeme.text : Lexeme → List Char
  | .number text => text
  | .word text => text
  | .quoted raw => raw
  | .symbol text => text
  | .opening d => d.opening.toList
  | .closing d => d.closing.toList

/-- The characters of a string behind its opening quote `q`. A backslash keeps
the next character; only an unclosed string may end with one that keeps
nothing. -/
inductive StringTail (q : Char) : (closed : Bool) → List Char → Prop
  | closing : StringTail q true [q]
  | nothing : StringTail q false []
  | backslash : StringTail q false ['\\']
  | escaped {closed : Bool} (c : Char) {cs : List Char} (h : StringTail q closed cs) :
      StringTail q closed ('\\' :: c :: cs)
  | plain {closed : Bool} {c : Char} {cs : List Char} (hq : c ≠ q) (hb : c ≠ '\\')
      (h : StringTail q closed cs) : StringTail q closed (c :: cs)

/-- A character that is a symbol of its own, unless it makes one with the
next. -/
structure IsSymbolChar (c : Char) : Prop where
  not_space : isSpace c = false
  not_word : isWordChar c = false
  not_quote : isQuote c = false
  not_bracket : bracket? c = none

/-- The token `x` stands where its characters are followed by `rest`. Numbers
and words are as long as they can be, and a string ends with its quote or with
the text. -/
inductive Lexeme.Reads : Lexeme → (rest : List Char) → Prop
  | opening {d : Delimiter} (hd : d.IsBracket) (rest : List Char) : Reads (.opening d) rest
  | closing {d : Delimiter} (hd : d.IsBracket) (rest : List Char) : Reads (.closing d) rest
  | quoted {q : Char} {closed : Bool} {tail rest : List Char} (hq : isQuote q = true)
      (htail : StringTail q closed tail) (hrest : closed = false → rest = []) :
      Reads (.quoted (q :: tail)) rest
  | number {c : Char} {cs rest : List Char} (hc : '0' ≤ c ∧ c ≤ '9')
      (hcs : ∀ d ∈ cs, isNumberChar d = true) (hrest : ∀ d ∈ rest.head?, isNumberChar d = false) :
      Reads (.number (c :: cs)) rest
  | word {c : Char} {cs rest : List Char} (hc : isWordChar c = true) (hd : isWordDigit c = false)
      (hcs : ∀ d ∈ cs, isWordChar d = true) (hrest : ∀ d ∈ rest.head?, isWordChar d = false) :
      Reads (.word (c :: cs)) rest
  | pair {c d : Char} (h : isPair c d = true) (rest : List Char) : Reads (.symbol [c, d]) rest
  | symbol {c : Char} {rest : List Char} (hc : IsSymbolChar c)
      (hrest : ∀ d ∈ rest.head?, isPair c d = false) : Reads (.symbol [c]) rest

/-! ### Classes of characters -/

/-- A space is no character of a word: the two tables have no code point in
common. -/
theorem not_isWordChar_of_isSpace {c : Char} (hc : isSpace c = true) : isWordChar c = false := by
  have hapart : ∀ r ∈ spaceRanges.toList, ∀ s ∈ wordRanges.toList, r.2 < s.1 ∨ s.2 < r.1 := by
    decide +kernel
  unfold isSpace inRanges at hc
  rw [← Array.any_toList, List.any_eq_true] at hc
  obtain ⟨r, hr, hc⟩ := hc
  simp only [Bool.and_eq_true, decide_eq_true_eq] at hc
  unfold isWordChar inRanges
  rw [← Array.any_toList, List.any_eq_false]
  intro s hs
  have := hapart r hr s hs
  simp only [Bool.and_eq_true, decide_eq_true_eq]
  omega

/-- The digits among the characters of words are characters of words. -/
theorem isWordChar_of_isWordDigit {c : Char} (hc : isWordDigit c = true) : isWordChar c = true := by
  have hwithin : (wordDigitRanges.toList.all fun r =>
      wordRanges.toList.any fun s => Nat.ble s.1 r.1 && Nat.ble r.2 s.2) = true := by
    decide +kernel
  unfold isWordDigit inRanges at hc
  rw [← Array.any_toList, List.any_eq_true] at hc
  obtain ⟨r, hr, hc⟩ := hc
  obtain ⟨s, hs, hrs⟩ := List.any_eq_true.mp (List.all_eq_true.mp hwithin r hr)
  simp only [Bool.and_eq_true, decide_eq_true_eq, Nat.ble_eq] at hc hrs
  unfold isWordChar inRanges
  rw [← Array.any_toList, List.any_eq_true]
  refine ⟨s, hs, ?_⟩
  simp only [Bool.and_eq_true, decide_eq_true_eq]
  omega

/-- What an ASCII digit is to the other classes. -/
theorem asciiDigit_classes {c : Char} (hc : '0' ≤ c ∧ c ≤ '9') :
    isSpace c = false ∧ bracket? c = none ∧ isQuote c = false ∧ isWordDigit c = true := by
  have hascii : c.toNat < 128 := Nat.lt_of_le_of_lt hc.2 (by decide)
  exact forall_ascii (P := fun c => '0' ≤ c ∧ c ≤ '9' → isSpace c = false ∧ bracket? c = none ∧
    isQuote c = false ∧ isWordDigit c = true) (by decide +kernel) hascii hc

theorem quote_cases {q : Char} (hq : isQuote q = true) : q = '\'' ∨ q = '"' ∨ q = '\x60' := by
  simpa [isQuote, or_assoc] using hq

/-- Quotes and brackets are no spaces. -/
theorem isSpace_mark : ∀ c ∈ ['\'', '"', '\x60', '(', ')', '[', ']', '{', '}'], isSpace c = false := by
  -- as one truth value: a decision of the statement itself may run over all characters
  have hmarks : (['\'', '"', '\x60', '(', ')', '[', ']', '{', '}'].all fun c => !isSpace c) = true := by
    decide +kernel
  intro c hc
  have hmark : (!isSpace c) = true := List.all_eq_true.mp hmarks c hc
  simpa using hmark

theorem quote_classes {q : Char} (hq : isQuote q = true) :
    isSpace q = false ∧ bracket? q = none ∧ q ≠ '\\' := by
  rcases quote_cases hq with rfl | rfl | rfl <;> exact ⟨isSpace_mark _ (by decide), rfl, by decide⟩

/-- A pair of characters that make one symbol consists of symbols. -/
theorem isSymbolChar_of_isPair {c d : Char} (h : isPair c d = true) : IsSymbolChar c := by
  have hc : c = '*' ∨ c = '=' ∨ c = '!' ∨ c = '<' ∨ c = '>' ∨ c = '&' ∨ c = '|' := by
    unfold isPair at h
    split at h <;> simp_all
  have hascii : c.toNat < 128 := by rcases hc with rfl | rfl | rfl | rfl | rfl | rfl | rfl <;> decide
  obtain ⟨hword, -, hspace⟩ := ascii_classes hascii
  rcases hc with rfl | rfl | rfl | rfl | rfl | rfl | rfl <;>
    exact ⟨hspace.trans (by decide), hword.trans (by decide), by decide, by decide⟩

/-- A character of a word is neither a space nor a quote nor a bracket. -/
theorem wordChar_classes {c : Char} (hc : isWordChar c = true) :
    isSpace c = false ∧ bracket? c = none ∧ isQuote c = false := by
  have hascii {d : Char} (hd : d.toNat < 128) := (ascii_classes hd).1
  refine ⟨?_, ?_, ?_⟩
  · cases hs : isSpace c with
    | false => rfl
    | true => simp [not_isWordChar_of_isSpace hs] at hc
  · unfold bracket?
    split <;> first | rfl | (rw [hascii (by decide)] at hc; exact absurd hc (by decide))
  · cases hq : isQuote c with
    | false => rfl
    | true =>
      rcases quote_cases hq with rfl | rfl | rfl <;>
        (rw [hascii (by decide)] at hc; exact absurd hc (by decide))

theorem bracket?_eq_some_iff {c : Char} {x : Lexeme} :
    bracket? c = some x ↔ ∃ d : Delimiter, d.IsBracket ∧
      (x = .opening d ∧ d.opening.toList = [c] ∨ x = .closing d ∧ d.closing.toList = [c]) := by
  constructor
  · intro h
    unfold bracket? at h
    split at h <;> cases h
    · exact ⟨.paren, trivial, .inl ⟨rfl, rfl⟩⟩
    · exact ⟨.bracket, trivial, .inl ⟨rfl, rfl⟩⟩
    · exact ⟨.brace, trivial, .inl ⟨rfl, rfl⟩⟩
    · exact ⟨.paren, trivial, .inr ⟨rfl, rfl⟩⟩
    · exact ⟨.bracket, trivial, .inr ⟨rfl, rfl⟩⟩
    · exact ⟨.brace, trivial, .inr ⟨rfl, rfl⟩⟩
  · rintro ⟨d, hd, ⟨rfl, h⟩ | ⟨rfl, h⟩⟩ <;> cases d <;> first
      | exact hd.elim
      | (obtain rfl := (List.cons.inj h).1; rfl)

/-! ### Finding a token -/

/-- What `stringTail` takes of a text is the tail of a string. -/
theorem stringTail_spec (q : Char) (cs : List Char) : ∃ closed rest,
    StringTail q closed (stringTail q cs) ∧ cs = stringTail q cs ++ rest ∧
      (closed = false → rest = []) := by
  fun_induction stringTail q cs with
  | case1 => exact ⟨false, [], .nothing, rfl, fun _ => rfl⟩
  | case2 => exact ⟨false, [], .backslash, rfl, fun _ => rfl⟩
  | case3 c cs ih =>
    obtain ⟨closed, rest, htail, hcs, hrest⟩ := ih
    exact ⟨closed, rest, .escaped c htail, by simp [← hcs], hrest⟩
  | case4 cs => exact ⟨true, cs, .closing, rfl, by simp⟩
  | case5 c cs hempty hmore hq ih =>
    have hb : c ≠ '\\' := by
      rintro rfl
      cases cs with
      | nil => exact hempty rfl rfl
      | cons d cs => exact hmore d cs rfl rfl
    obtain ⟨closed, rest, htail, hcs, hrest⟩ := ih
    exact ⟨closed, rest, .plain hq hb htail, by simp [← hcs], hrest⟩

/-- Where a string ends, `stringTail` stops. -/
theorem StringTail.take {q : Char} (hq : q ≠ '\\') {closed : Bool} {tail rest : List Char}
    (h : StringTail q closed tail) (hrest : closed = false → rest = []) :
    stringTail q (tail ++ rest) = tail := by
  induction h with
  | closing => simp [stringTail, hq]
  | nothing => simp [hrest rfl, stringTail]
  | backslash => simp [hrest rfl, stringTail]
  | escaped c _ ih => simp [stringTail, ih hrest]
  | plain hc hb _ ih => simp [stringTail, hc, hb, ih hrest]

/-- The end of a stretch of characters of one class. -/
theorem takeWhile_append_of_head {p : Char → Bool} {cs rest : List Char} (hcs : ∀ c ∈ cs, p c = true)
    (hrest : ∀ c ∈ rest.head?, p c = false) : (cs ++ rest).takeWhile p = cs := by
  rw [List.takeWhile_append_of_pos hcs]
  cases rest with
  | nil => simp
  | cons c rest => simp [hrest c rfl]

theorem head_dropWhile (p : Char → Bool) (cs : List Char) :
    ∀ c ∈ (cs.dropWhile p).head?, p c = false := by
  intro c hc
  have := List.head?_dropWhile_not p cs
  rw [Option.mem_def.mp hc] at this
  simpa using this

/-- The token that is found stands at the front of the text. -/
theorem lexeme?_reads {c : Char} {cs text : List Char} {x : Lexeme}
    (h : lexeme? c cs = some (x, text)) :
    text = x.text ∧ ∃ rest, c :: cs = x.text ++ rest ∧ x.Reads rest := by
  unfold lexeme? at h
  split at h
  · rename_i b hb
    cases h
    obtain ⟨d, hd, ⟨rfl, htext⟩ | ⟨rfl, htext⟩⟩ := bracket?_eq_some_iff.mp hb
    · exact ⟨htext.symm, cs, by rw [Lexeme.text, htext]; rfl, .opening hd cs⟩
    · exact ⟨htext.symm, cs, by rw [Lexeme.text, htext]; rfl, .closing hd cs⟩
  · rename_i hb
    split at h
    · rename_i hq
      cases h
      obtain ⟨closed, rest, htail, hcs, hrest⟩ := stringTail_spec c cs
      exact ⟨rfl, rest, by rw [Lexeme.text, List.cons_append, ← hcs], .quoted hq htail hrest⟩
    · rename_i hq
      split at h
      · rename_i hdigit
        cases h
        refine ⟨rfl, cs.dropWhile isNumberChar, by simp [Lexeme.text], ?_⟩
        exact .number hdigit (fun d hd => List.mem_takeWhile_imp hd) (head_dropWhile _ _)
      · split at h
        · rename_i hstart
          cases h
          simp only [isWordStart, Bool.and_eq_true, Bool.not_eq_true'] at hstart
          refine ⟨rfl, cs.dropWhile isWordChar, by simp [Lexeme.text], ?_⟩
          exact .word hstart.1 hstart.2 (fun d hd => List.mem_takeWhile_imp hd) (head_dropWhile _ _)
        · split at h
          · cases h
          · rename_i hclass
            simp only [Bool.or_eq_true, not_or, Bool.not_eq_true] at hclass hq
            have hc : IsSymbolChar c := ⟨hclass.2, hclass.1, hq, hb⟩
            split at h
            · rename_i d rest
              split at h
              · rename_i hpair
                cases h
                exact ⟨rfl, rest, rfl, .pair hpair rest⟩
              · rename_i hpair
                cases h
                refine ⟨rfl, d :: rest, rfl, .symbol hc ?_⟩
                simpa using hpair
            · cases h
              exact ⟨rfl, [], rfl, .symbol hc (by simp)⟩

/-- A token that stands at the front of a text is found, and no space starts
it. -/
theorem Lexeme.Reads.lexeme? {x : Lexeme} {rest : List Char} (h : x.Reads rest) :
    ∃ c t, x.text = c :: t ∧ isSpace c = false ∧ lexeme? c (t ++ rest) = some (x, x.text) := by
  cases h with
  | opening hd =>
    rename_i d
    cases d <;> first | exact hd.elim | exact ⟨_, [], rfl, isSpace_mark _ (by decide), rfl⟩
  | closing hd =>
    rename_i d
    cases d <;> first | exact hd.elim | exact ⟨_, [], rfl, isSpace_mark _ (by decide), rfl⟩
  | @quoted q closed tail _ hq htail hrest =>
    obtain ⟨hspace, hbracket, hback⟩ := quote_classes hq
    refine ⟨q, tail, rfl, hspace, ?_⟩
    simp only [RuleScript.lexeme?, hbracket, hq, if_true, htail.take hback hrest, Lexeme.text]
  | @number c cs _ hc hcs hrest =>
    obtain ⟨hspace, hbracket, hquote, -⟩ := asciiDigit_classes hc
    refine ⟨c, cs, rfl, hspace, ?_⟩
    simp [RuleScript.lexeme?, hbracket, hquote, hc, takeWhile_append_of_head hcs hrest, Lexeme.text]
  | @word c cs _ hc hd hcs hrest =>
    obtain ⟨hspace, hbracket, hquote⟩ := wordChar_classes hc
    have hdigit : ¬('0' ≤ c ∧ c ≤ '9') := fun h => by simp [(asciiDigit_classes h).2.2.2] at hd
    refine ⟨c, cs, rfl, hspace, ?_⟩
    simp [RuleScript.lexeme?, hbracket, hquote, hdigit, isWordStart, hc, hd,
      takeWhile_append_of_head hcs hrest, Lexeme.text]
  | @pair c d h =>
    obtain ⟨hspace, hword, hquote, hbracket⟩ := isSymbolChar_of_isPair h
    have hdigit : ¬('0' ≤ c ∧ c ≤ '9') := fun h => by
      simp [isWordChar_of_isWordDigit (asciiDigit_classes h).2.2.2] at hword
    refine ⟨c, [d], rfl, hspace, ?_⟩
    simp [RuleScript.lexeme?, hbracket, hquote, hdigit, isWordStart, hword, hspace, h, Lexeme.text]
  | @symbol c _ hc hrest =>
    obtain ⟨hspace, hword, hquote, hbracket⟩ := hc
    have hdigit : ¬('0' ≤ c ∧ c ≤ '9') := fun h => by
      simp [isWordChar_of_isWordDigit (asciiDigit_classes h).2.2.2] at hword
    refine ⟨c, [], rfl, hspace, ?_⟩
    cases rest with
    | nil => simp [RuleScript.lexeme?, hbracket, hquote, hdigit, isWordStart, hword, hspace, Lexeme.text]
    | cons d rest =>
      have hpair := hrest d rfl
      simp [RuleScript.lexeme?, hbracket, hquote, hdigit, isWordStart, hword, hspace, hpair, Lexeme.text]

/-- A character that some token starts with. -/
def StartsToken (c : Char) : Prop := ∃ (x : Lexeme) (t rest : List Char), x.text = c :: t ∧ x.Reads rest

theorem startsToken_of_lexeme? {c : Char} {cs : List Char} {p : Lexeme × List Char}
    (h : lexeme? c cs = some p) : StartsToken c := by
  obtain ⟨-, rest, hcs, hx⟩ := lexeme?_reads h
  obtain ⟨d, t, htext, -⟩ := hx.lexeme?
  obtain rfl : c = d := by simpa [htext] using congrArg List.head? hcs
  exact ⟨p.1, t, rest, htext, hx⟩

theorem space_classes {c : Char} (hc : isSpace c = true) : bracket? c = none ∧ isQuote c = false := by
  constructor
  · unfold bracket?
    split <;> first | rfl | exact absurd hc (Bool.eq_false_iff.mp (isSpace_mark _ (by decide)))
  · cases hq : isQuote c with
    | false => rfl
    | true => simp [(quote_classes hq).1] at hc

theorem lexeme?_eq_none_iff {c : Char} {cs : List Char} : lexeme? c cs = none ↔
    isSpace c = true ∨ isWordDigit c = true ∧ ¬('0' ≤ c ∧ c ≤ '9') := by
  constructor
  · intro h
    unfold lexeme? at h
    split at h
    · cases h
    split at h
    · cases h
    split at h
    · cases h
    rename_i hdigit
    split at h
    · cases h
    rename_i hstart
    split at h
    · rename_i hclass
      rcases Bool.or_eq_true .. ▸ hclass with hword | hspace
      · simp only [isWordStart, hword, Bool.true_and, Bool.not_eq_true', Bool.not_eq_false] at hstart
        exact .inr ⟨hstart, hdigit⟩
      · exact .inl hspace
    split at h
    · split at h <;> cases h
    · cases h
  · rintro (hspace | ⟨hword, hdigit⟩)
    · obtain ⟨hbracket, hquote⟩ := space_classes hspace
      have hword := not_isWordChar_of_isSpace hspace
      have hdigit : ¬('0' ≤ c ∧ c ≤ '9') := fun h => by simp [(asciiDigit_classes h).1] at hspace
      simp [lexeme?, hbracket, hquote, hdigit, isWordStart, hword, hspace]
    · have hchar := isWordChar_of_isWordDigit hword
      obtain ⟨-, hbracket, hquote⟩ := wordChar_classes hchar
      simp [lexeme?, hbracket, hquote, hdigit, isWordStart, hword, hchar]

/-- **A character starts a token unless it is a space or a digit that is not
ASCII.** -/
theorem startsToken_iff (c : Char) :
    StartsToken c ↔ isSpace c = false ∧ (isWordDigit c = true → '0' ≤ c ∧ c ≤ '9') := by
  constructor
  · rintro ⟨x, t, rest, htext, hx⟩
    obtain ⟨c', t', htext', hspace, hfound⟩ := hx.lexeme?
    obtain ⟨rfl, rfl⟩ := List.cons.inj (htext.symm.trans htext')
    refine ⟨hspace, fun hword => ?_⟩
    by_contra hdigit
    rw [lexeme?_eq_none_iff.mpr (.inr ⟨hword, hdigit⟩)] at hfound
    cases hfound
  · rintro ⟨hspace, hdigit⟩
    cases hfound : lexeme? c [] with
    | none =>
      rcases lexeme?_eq_none_iff.mp hfound with h | ⟨hword, hnot⟩
      · simp [h] at hspace
      · exact absurd (hdigit hword) hnot
    | some p => exact startsToken_of_lexeme? hfound

/-! ### Scanning -/

/-- The place in a text behind the characters `before`. -/
def Cursor.after (before : List Char) : Cursor where
  line := 1 + before.count '\n'
  column := 1 + (before.reverse.takeWhile (· ≠ '\n')).length
  offset := before.length

theorem Cursor.next_after (before : List Char) (c : Char) :
    (after before).next c = after (before ++ [c]) := by
  unfold next after
  by_cases hc : c = '\n'
  · simp [hc, Nat.add_assoc]
  · simp [hc, List.count_append, Nat.add_comm]

theorem Cursor.advance_after : ∀ cs before : List Char,
    (after before).advance cs = after (before ++ cs)
  | [], before => by simp [advance]
  | c :: cs, before => by
    have h := advance_after cs (before ++ [c])
    rw [advance, List.foldl_cons, next_after]
    simpa [advance] using h

/-- The text behind `before`, scanned from left to right. -/
inductive Scans : (before : List Char) → List Char → List Token → Prop
  | done (before : List Char) : Scans before [] []
  | space {before cs : List Char} {c : Char} {ts : List Token} (hc : isSpace c = true)
      (h : Scans (before ++ [c]) cs ts) : Scans before (c :: cs) ts
  | token {before rest : List Char} {x : Lexeme} {ts : List Token} (hx : x.Reads rest)
      (h : Scans (before ++ x.text) rest ts) :
      Scans before (x.text ++ rest) (⟨.after before, x⟩ :: ts)

/-- Scanning meets a character that starts no token. -/
inductive Stuck : List Char → Prop
  | here {c : Char} (hspace : isSpace c = false) (hc : ¬StartsToken c) (cs : List Char) : Stuck (c :: cs)
  | space {cs : List Char} {c : Char} (hc : isSpace c = true) (h : Stuck cs) : Stuck (c :: cs)
  | token {rest : List Char} {x : Lexeme} (hx : x.Reads rest) (h : Stuck rest) :
      Stuck (x.text ++ rest)

theorem scans_of_tokensFrom : ∀ {fuel : Nat} {before cs : List Char} {ts : List Token},
    tokensFrom fuel (.after before) cs = some ts → Scans before cs ts
  | _, before, [], ts, h => by
    rw [tokensFrom] at h
    cases h
    exact .done before
  | 0, _, _ :: _, _, h => by cases h
  | fuel + 1, before, c :: cs, ts, h => by
    unfold tokensFrom at h
    split at h
    · rename_i hspace
      rw [Cursor.next_after] at h
      exact .space hspace (scans_of_tokensFrom h)
    · split at h
      · cases h
      · rename_i x text hfound
        obtain ⟨ts, hts, rfl⟩ := Option.map_eq_some_iff.mp h
        obtain ⟨rfl, rest, hcs, hx⟩ := lexeme?_reads hfound
        rw [hcs, List.drop_left, Cursor.advance_after] at hts
        rw [hcs]
        exact .token hx (scans_of_tokensFrom hts)

theorem Scans.tokensFrom {before cs : List Char} {ts : List Token} (h : Scans before cs ts) :
    ∀ {fuel : Nat}, cs.length ≤ fuel → RuleScript.tokensFrom fuel (.after before) cs = some ts := by
  induction h with
  | done before =>
    intro fuel _
    rw [RuleScript.tokensFrom]
  | @space before cs c ts hc _ ih =>
    intro fuel hfuel
    obtain ⟨fuel, rfl⟩ : ∃ k, fuel = k + 1 := ⟨fuel - 1, by simp at hfuel; omega⟩
    rw [RuleScript.tokensFrom, if_pos hc, Cursor.next_after]
    exact ih (by simpa using hfuel)
  | @token before rest x ts hx _ ih =>
    intro fuel hfuel
    obtain ⟨c, t, htext, hspace, hfound⟩ := hx.lexeme?
    obtain ⟨fuel, rfl⟩ : ∃ k, fuel = k + 1 := ⟨fuel - 1, by simp [htext] at hfuel; omega⟩
    have hrest : RuleScript.tokensFrom fuel (.after (before ++ x.text)) rest = some ts :=
      ih (by simp [htext] at hfuel; omega)
    rw [htext, List.cons_append, RuleScript.tokensFrom, hspace, hfound]
    simp only [Bool.false_eq_true, if_false]
    rw [Cursor.advance_after, ← List.cons_append, ← htext, List.drop_left, hrest]
    rfl

/-- **The tokens of a text are those it scans to.** -/
theorem tokens_eq_some_iff {source : String} {ts : List Token} :
    tokens source = some ts ↔ Scans [] source.toList ts :=
  ⟨fun h => scans_of_tokensFrom h, fun h => h.tokensFrom le_rfl⟩

/-- There is one way to scan a text. -/
theorem Scans.unique {before cs : List Char} {ts ts' : List Token} (h : Scans before cs ts)
    (h' : Scans before cs ts') : ts = ts' :=
  Option.some.inj ((h.tokensFrom le_rfl).symm.trans (h'.tokensFrom le_rfl))

/-- The text behind `before`, scanned as far as it goes: up to its end, or to a
character that starts no token. -/
inductive ScansTo : (before : List Char) → List Char → List Token → (tail : List Char) → Prop
  | stop (before : List Char) {tail : List Char}
      (h : ∀ c ∈ tail.head?, isSpace c = false ∧ ¬StartsToken c) : ScansTo before tail [] tail
  | space {before cs tail : List Char} {c : Char} {ts : List Token} (hc : isSpace c = true)
      (h : ScansTo (before ++ [c]) cs ts tail) : ScansTo before (c :: cs) ts tail
  | token {before rest tail : List Char} {x : Lexeme} {ts : List Token} (hx : x.Reads rest)
      (h : ScansTo (before ++ x.text) rest ts tail) :
      ScansTo before (x.text ++ rest) (⟨.after before, x⟩ :: ts) tail

theorem exists_scansTo_of_length : ∀ (n : Nat) {cs : List Char}, cs.length ≤ n →
    ∀ before : List Char, ∃ ts tail, ScansTo before cs ts tail
  | _, [], _, before => ⟨[], [], .stop before (by simp)⟩
  | 0, _ :: _, h, _ => by cases h
  | n + 1, c :: cs, h, before => by
    cases hspace : isSpace c with
    | true =>
      obtain ⟨ts, tail, hts⟩ :=
        exists_scansTo_of_length n (Nat.le_of_succ_le_succ h) (before ++ [c])
      exact ⟨ts, tail, .space hspace hts⟩
    | false =>
      cases hfound : lexeme? c cs with
      | none =>
        refine ⟨[], c :: cs, .stop before ?_⟩
        rintro _ ⟨⟩
        refine ⟨hspace, ?_⟩
        rw [startsToken_iff]
        rcases lexeme?_eq_none_iff.mp hfound with h | ⟨hword, hdigit⟩
        · simp [h] at hspace
        · exact fun hstarts => hdigit (hstarts.2 hword)
      | some p =>
        obtain ⟨-, rest, hcs, hx⟩ := lexeme?_reads hfound
        obtain ⟨d, t, htext, -⟩ := hx.lexeme?
        have hlength : rest.length ≤ n := by
          have := congrArg List.length hcs
          simp [htext] at this h
          omega
        obtain ⟨ts, tail, hts⟩ := exists_scansTo_of_length n hlength (before ++ p.1.text)
        rw [hcs]
        exact ⟨_, tail, .token hx hts⟩

/-- Every text is scanned as far as it goes. -/
theorem exists_scansTo (before cs : List Char) : ∃ ts tail, ScansTo before cs ts tail :=
  exists_scansTo_of_length cs.length le_rfl before

/-- A text that is scanned to its end. -/
theorem Scans.scansTo {before cs : List Char} {ts : List Token} (h : Scans before cs ts) :
    ScansTo before cs ts [] := by
  induction h with
  | done before => exact .stop before (by simp)
  | space hc _ ih => exact .space hc ih
  | token hx _ ih => exact .token hx ih

namespace ScansTo

variable {before cs tail : List Char} {ts : List Token}

theorem scans (h : ScansTo before cs ts []) : Scans before cs ts := by
  generalize htail : ([] : List Char) = tail at h
  induction h with
  | stop before =>
    subst htail
    exact .done before
  | space hc _ ih => exact .space hc (ih htail)
  | token hx _ ih => exact .token hx (ih htail)

/-- What is left behind the tokens starts with a character that starts none. -/
theorem stuck (h : ScansTo before cs ts tail) (htail : tail ≠ []) : Stuck cs := by
  induction h with
  | @stop before tail h =>
    obtain ⟨c, cs, rfl⟩ := List.exists_cons_of_ne_nil htail
    obtain ⟨hspace, hc⟩ := h c rfl
    exact .here hspace hc cs
  | space hc _ ih => exact .space hc (ih htail)
  | token hx _ ih => exact .token hx (ih htail)

end ScansTo

/-- A text scans, or scanning it gets stuck. -/
theorem scans_or_stuck (before cs : List Char) : (∃ ts, Scans before cs ts) ∨ Stuck cs := by
  obtain ⟨ts, tail, h⟩ := exists_scansTo before cs
  by_cases htail : tail = []
  · subst htail
    exact .inl ⟨ts, h.scans⟩
  · exact .inr (h.stuck htail)

theorem Stuck.not_scans {cs : List Char} (h : Stuck cs) : ∀ {before : List Char} {ts : List Token},
    ¬Scans before cs ts := by
  induction h with
  | @here c hspace hc cs =>
    intro before ts hts
    have hfound : lexeme? c cs = none := by
      cases hfound : lexeme? c cs with
      | none => rfl
      | some p => exact absurd (startsToken_of_lexeme? hfound) hc
    have htokens := hts.tokensFrom (le_refl (c :: cs).length)
    simp [tokensFrom, hspace, hfound] at htokens
  | @space cs c hc _ ih =>
    intro before ts hts
    have htokens := hts.tokensFrom (le_refl (c :: cs).length)
    rw [List.length_cons, tokensFrom, if_pos hc, Cursor.next_after] at htokens
    exact ih (scans_of_tokensFrom htokens)
  | @token rest x hx _ ih =>
    intro before ts hts
    obtain ⟨c, t, htext, hspace, hfound⟩ := hx.lexeme?
    have htokens := hts.tokensFrom (le_refl (x.text ++ rest).length)
    rw [htext, List.cons_append, List.length_cons, tokensFrom, hspace, hfound] at htokens
    simp only [Bool.false_eq_true, if_false] at htokens
    rw [Cursor.advance_after, ← List.cons_append, ← htext, List.drop_left] at htokens
    obtain ⟨ts, hts, -⟩ := Option.map_eq_some_iff.mp htokens
    exact ih (scans_of_tokensFrom hts)

end RuleScript
