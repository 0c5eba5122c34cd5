/-
# The number literals of a source text

The nodes of tokens carry no values, and the text and the suffix of each of
their number literals come from a token of ASCII letters, digits and points
(`assemble_madeOf`). A property of the nodes of every program is so one of such
literals.

A literal in base two, eight or sixteen whose characters pass the check of the
digits is an integer: reading it never fails (`readInteger_of_digits`). So the
conversion of a literal of a source text goes wrong in one way only, where the
integer is too large to have a double near it (`literalNumber_internal`).

Key theorems: `tokens_number`, `assemble_madeOf`, `readInteger_of_digits`,
`literalNumber_internal`.
-/
import Mathlib.Data.List.TakeWhile
import RuleScript.Proofs.Policy.Basic
import RuleScript.Proofs.Source.Tokens

namespace RuleScript

open Text Number

/-! ### Number tokens -/

theorem lexeme?_number {c : Char} {cs text chars : List Char}
    (h : lexeme? c cs = some (.number text, chars)) : ∀ x ∈ text, isNumberChar x = true := by
  unfold lexeme? at h
  split at h
  · rename_i b hb
    obtain ⟨rfl, -⟩ := Prod.mk.inj (Option.some.inj h)
    unfold bracket? at hb
    split at hb <;> cases hb
  · split at h
    · cases h
    · split at h
      · rename_i hdigit
        obtain ⟨htext, -⟩ := Prod.mk.inj (Option.some.inj h)
        obtain rfl := Lexeme.number.inj htext
        refine List.forall_mem_cons.mpr ⟨?_, fun x hx => List.mem_takeWhile_imp hx⟩
        simp [isNumberChar, hdigit]
      · split at h
        · cases h
        · split at h
          · cases h
          · split at h
            · split at h <;> cases h
            · cases h

theorem tokensFrom_number : ∀ {fuel : Nat} {k : Cursor} {cs : List Char} {ts : List Token},
    tokensFrom fuel k cs = some ts → ∀ t ∈ ts, ∀ text, t.lexeme = .number text →
      ∀ x ∈ text, isNumberChar x = true
  | _, _, [], _, h => by
    rw [tokensFrom] at h
    obtain rfl := Option.some.inj h
    rintro _ ⟨⟩
  | 0, _, _ :: _, _, h => by cases h
  | fuel + 1, k, c :: cs, ts, h => by
    unfold tokensFrom at h
    split at h
    · exact tokensFrom_number h
    · split at h
      · cases h
      · rename_i x chars hx
        obtain ⟨rest, hrest, rfl⟩ := Option.map_eq_some_iff.mp h
        refine List.forall_mem_cons.mpr ⟨?_, tokensFrom_number hrest⟩
        rintro text rfl
        exact lexeme?_number hx

/-- A number token is of ASCII letters, digits and points. -/
theorem tokens_number {source : String} {ts : List Token} (h : tokens source = some ts) :
    ∀ t ∈ ts, ∀ text, t.lexeme = .number text → ∀ x ∈ text, isNumberChar x = true :=
  tokensFrom_number h

/-! ### The nodes of a source text -/

section Nodes

variable {value : Value → Prop} {literal : String → String → Prop} {spans : Nat}

theorem assemble_madeOf : ∀ {ts : List Token} {stack : List OpenSpan} {done nodes : List Node},
    (∀ t ∈ ts, ∀ text, t.lexeme = .number text →
      literal (String.ofList (splitSuffix text).1) (String.ofList (splitSuffix text).2)) →
    (∀ s ∈ stack, ∀ n ∈ s.before, n.MadeOf value literal) → (∀ n ∈ done, n.MadeOf value literal) →
    assemble spans ts stack done = .ok nodes → ∀ n ∈ nodes, n.MadeOf value literal
  | [], [], done, nodes, _, _, hdone, h => by
    obtain rfl := Except.ok.inj h
    exact fun n hn => hdone n (List.mem_reverse.mp hn)
  | [], _ :: _, _, _, _, _, _, h => by cases h
  | t :: rest, stack, done, nodes, hts, hstack, hdone, h => by
    obtain ⟨ht, hrest⟩ := List.forall_mem_cons.mp hts
    have hmore {n : Node} (hn : n.MadeOf value literal) : ∀ k ∈ n :: done, k.MadeOf value literal :=
      List.forall_mem_cons.mpr ⟨hn, hdone⟩
    unfold assemble at h
    dsimp only at h
    split at h
    · split at h
      · cases h
      · exact assemble_madeOf hrest (List.forall_mem_cons.mpr ⟨hdone, hstack⟩) (by rintro _ ⟨⟩) h
    · split at h
      · cases h
      · rename_i d _ _ s stack
        obtain ⟨hs, hstack'⟩ := List.forall_mem_cons.mp hstack
        split at h
        · have hspan : (Node.span s.pos d done.reverse).MadeOf value literal :=
            .span _ _ fun n hn => hdone n (List.mem_reverse.mp hn)
          exact assemble_madeOf hrest hstack' (List.forall_mem_cons.mpr ⟨hspan, hs⟩) h
        · cases h
    · rename_i text htext
      exact assemble_madeOf hrest hstack (hmore (.number _ (ht text htext))) h
    · exact assemble_madeOf hrest hstack (hmore (.word _ _)) h
    · exact assemble_madeOf hrest hstack (hmore (.quoted _ _)) h
    · exact assemble_madeOf hrest hstack (hmore (.symbol _ _)) h

end Nodes

/-! ### Digits -/

theorem toNat_of_numberChar {c : Char} (hc : isNumberChar c = true) : c.toNat < 128 := by
  simp only [isNumberChar, Bool.or_eq_true, Bool.and_eq_true, decide_eq_true_eq] at hc
  rcases hc with ((hc | hc) | hc) | rfl
  · exact Nat.lt_of_le_of_lt hc.2 (by decide)
  · exact Nat.lt_of_le_of_lt hc.2 (by decide)
  · exact Nat.lt_of_le_of_lt hc.2 (by decide)
  · decide

/-- What holds of ASCII characters can be checked one by one. -/
theorem forall_ascii {P : Char → Prop} (h : ∀ n < 128, P (Char.ofNat n)) {c : Char}
    (hc : c.toNat < 128) : P c := by
  have hofNat := h c.toNat hc
  rwa [Char.ofNat_toNat] at hofNat

/-- Of the ranges of a table, those above ASCII do not matter for it. -/
theorem inRanges_ascii (table : Array (Nat × Nat)) (low : List (Nat × Nat)) {k : Nat}
    (hlow : table.toList.take k = low) (hhigh : (table.toList.drop k).all (128 ≤ ·.1) = true) {n : Nat}
    (hn : n < 128) : inRanges table n = low.any fun r => r.1 ≤ n && n ≤ r.2 := by
  have hnone : (table.toList.drop k).any (fun r => r.1 ≤ n && n ≤ r.2) = false := by
    rw [List.any_eq_false]
    intro r hr
    have habove : 128 ≤ r.1 := of_decide_eq_true (List.all_eq_true.mp hhigh r hr)
    simp only [Bool.and_eq_true, decide_eq_true_eq]
    omega
  rw [inRanges, ← Array.any_toList, ← List.take_append_drop k table.toList, List.any_append, hnone, hlow,
    Bool.or_false]

/-- The characters of ASCII that may stand in a word, those that may not start
one, and those that separate tokens. -/
theorem ascii_classes {c : Char} (hc : c.toNat < 128) :
    isWordChar c = decide (48 ≤ c.toNat ∧ c.toNat ≤ 57 ∨ 65 ≤ c.toNat ∧ c.toNat ≤ 90 ∨ c.toNat = 95 ∨
        97 ≤ c.toNat ∧ c.toNat ≤ 122) ∧
      isWordDigit c = decide (48 ≤ c.toNat ∧ c.toNat ≤ 57) ∧
      isSpace c = decide (c.toNat = 32 ∨ 9 ≤ c.toNat ∧ c.toNat ≤ 13) := by
  have hword := inRanges_ascii wordRanges [(48, 57), (65, 90), (95, 95), (97, 122)] (k := 4) rfl
    (by decide +kernel) hc
  have hdigit := inRanges_ascii wordDigitRanges [(48, 57)] (k := 1) rfl (by decide +kernel) hc
  have hspace := inRanges_ascii spaceRanges [(9, 13), (32, 32)] (k := 2) rfl rfl hc
  rw [isWordChar, isWordDigit, isSpace, hword, hdigit, hspace]
  simp only [List.any_cons, List.any_nil, Bool.or_false]
  refine ⟨?_, (Bool.decide_and ..).symm, ?_⟩
  all_goals
    rw [Bool.eq_iff_iff]
    simp only [Bool.or_eq_true, Bool.and_eq_true, decide_eq_true_eq]
    omega

/-- No ASCII character has an upper case of several characters. -/
theorem upperExpansions_above : ∀ e ∈ upperExpansions.toList, 128 ≤ e.1 := by decide +kernel

/-- The lower case letters are one run of the table, and the others are above
ASCII. -/
theorem upperRuns_above : ∀ r ∈ upperRuns.toList, r = ⟨97, 122, 1, -32⟩ ∨ 128 ≤ r.first := by
  decide +kernel

theorem upperRuns_letters : ⟨97, 122, 1, -32⟩ ∈ upperRuns.toList := List.Mem.head _

theorem caseRun_above {r : CaseRun} {n : Nat} (hr : n < r.first) : CaseRun.apply? r n = none :=
  if_neg fun h => Nat.not_le_of_lt hr h.1

theorem findSome?_upperRuns {n : Nat} (hn : n < 128) :
    upperRuns.findSome? (fun r => r.apply? n) = CaseRun.apply? ⟨97, 122, 1, -32⟩ n := by
  cases hrun : upperRuns.findSome? fun r => r.apply? n with
  | none =>
    rw [Array.findSome?_eq_none_iff] at hrun
    exact (hrun _ (Array.mem_toList_iff.mp upperRuns_letters)).symm
  | some k =>
    obtain ⟨r, hr, hk⟩ := Array.exists_of_findSome?_eq_some hrun
    rcases upperRuns_above r (Array.mem_toList_iff.mpr hr) with rfl | hfirst
    · exact hk.symm
    · rw [caseRun_above (Nat.lt_of_lt_of_le hn hfirst)] at hk
      cases hk

/-- The upper case of an ASCII character. -/
theorem upperChar_ascii {c : Char} (hc : c.toNat < 128) : upperChar c = [c.toUpper] := by
  have hexpansions : upperExpansions.find? (fun e => e.1 == c.toNat) = none := by
    rw [Array.find?_eq_none]
    intro e he
    have := upperExpansions_above e (Array.mem_toList_iff.mpr he)
    simp only [beq_iff_eq]
    omega
  unfold upperChar mapCase
  rw [hexpansions, findSome?_upperRuns hc]
  apply forall_ascii _ hc
  decide +kernel

/-- The bases of the radix suffixes. -/
def IsRadix (base : Nat) : Prop := base = 2 ∨ base = 8 ∨ base = 16

theorem isRadix_of_suffix {suffix : String} {base : Nat} (h : suffixBase? suffix = some base) :
    IsRadix base := by
  unfold suffixBase? at h
  split at h
  · exact .inl (Option.some.inj h).symm
  · split at h
    · exact .inr (.inl (Option.some.inj h).symm)
    · split at h
      · exact .inr (.inr (Option.some.inj h).symm)
      · cases h

/-- A character that is a digit of a base wherever a literal is looked at: in
its token, in the check of its digits and in the integer that is read. -/
structure PlainDigit (base : Nat) (c : Char) : Prop where
  number : isNumberChar c = true
  not_point : c ≠ '.'
  check : isBaseDigit base c.toUpper = true
  digit : (baseDigit? base c).isSome = true
  plain : plainDigit c = c
  not_space : isSpace c = false
  not_sign : c ≠ '-' ∧ c ≠ '+'
  not_underscore : c ≠ '_'
  not_mark : isBaseMark base c = false

instance (base : Nat) (c : Char) : Decidable (PlainDigit base c) :=
  decidable_of_iff (isNumberChar c = true ∧ c ≠ '.' ∧ isBaseDigit base c.toUpper = true ∧
      (baseDigit? base c).isSome = true ∧ plainDigit c = c ∧ isSpace c = false ∧
      (c ≠ '-' ∧ c ≠ '+') ∧ c ≠ '_' ∧ isBaseMark base c = false)
    ⟨fun ⟨h₁, h₂, h₃, h₄, h₅, h₆, h₇, h₈, h₉⟩ => ⟨h₁, h₂, h₃, h₄, h₅, h₆, h₇, h₈, h₉⟩,
      fun h => ⟨h.1, h.2, h.3, h.4, h.5, h.6, h.7, h.8, h.9⟩⟩

/-- Each of the three places takes the same characters for digits. -/
theorem plainDigit_ascii {base : Nat} (hbase : IsRadix base) {c : Char} (hc : c.toNat < 128)
    (hdigit : isNumberChar c = true ∧ isBaseDigit base c.toUpper = true ∨
      (baseDigit? base c).isSome = true) : PlainDigit base c := by
  have hall : ∀ base ∈ [2, 8, 16], ∀ n < 128,
      (isNumberChar (Char.ofNat n) = true ∧ isBaseDigit base (Char.ofNat n).toUpper = true ∨
        (baseDigit? base (Char.ofNat n)).isSome = true) → PlainDigit base (Char.ofNat n) := by
    decide +kernel
  have hmem : base ∈ [2, 8, 16] := by
    rcases hbase with rfl | rfl | rfl <;> decide
  exact forall_ascii (P := fun c => (isNumberChar c = true ∧ isBaseDigit base c.toUpper = true ∨
    (baseDigit? base c).isSome = true) → PlainDigit base c) (hall base hmem) hc hdigit

theorem plainDigit_of_check {base : Nat} (hbase : IsRadix base) {c : Char}
    (hc : isNumberChar c = true) (hcheck : (upperChar c).all (isBaseDigit base) = true) :
    PlainDigit base c := by
  have hascii := toNat_of_numberChar hc
  rw [upperChar_ascii hascii, List.all_cons, List.all_nil, Bool.and_true] at hcheck
  exact plainDigit_ascii hbase hascii (.inl ⟨hc, hcheck⟩)

theorem plainDigit_of_digit {base : Nat} (hbase : IsRadix base) {c : Char}
    (hc : (baseDigit? base c).isSome = true) : PlainDigit base c := by
  have hascii : c.toNat < 128 := by
    unfold baseDigit? radixDigit? at hc
    split at hc
    · rename_i h
      exact Nat.lt_of_le_of_lt h.2 (by decide)
    · split at hc
      · rename_i h
        exact Nat.lt_of_le_of_lt h.2 (by decide)
      · split at hc
        · rename_i h
          exact Nat.lt_of_le_of_lt h.2 (by decide)
        · cases hc
  exact plainDigit_ascii hbase hascii (.inr hc)

theorem PlainDigit.upper {base : Nat} {c : Char} (hc : PlainDigit base c) :
    (upperChar c).all (isBaseDigit base) = true := by
  rw [upperChar_ascii (toNat_of_numberChar hc.number), List.all_cons, hc.check]
  rfl

/-! ### Texts that a reader leaves as they are -/

/-- Nothing is stripped from a text without the characters that are stripped. -/
theorem stripEnds_of_none {p : Char → Bool} {s : String} (h : ∀ c ∈ s.toList, p c = false) :
    stripEnds p s = s := by
  have hkeep {cs : List Char} (hcs : ∀ c ∈ cs, p c = false) : cs.dropWhile p = cs := by
    rw [List.dropWhile_eq_self_iff]
    intro hl
    simp [hcs _ (List.getElem_mem hl)]
  unfold stripEnds dropRight dropLeft
  rw [hkeep h, hkeep (fun c hc => h c (List.mem_reverse.mp hc)), List.reverse_reverse, String.ofList_toList]

theorem dropUnderscores?_of_none {p : Char → Bool} : ∀ {cs : List Char} {before : Char},
    before ≠ '_' → (∀ c ∈ cs, c ≠ '_') → dropUnderscores? p before cs = some cs
  | [], _, hbefore, _ => if_neg hbefore
  | c :: cs, before, hbefore, hcs => by
    obtain ⟨hc, hrest⟩ := List.forall_mem_cons.mp hcs
    unfold dropUnderscores?
    rw [if_neg hc, if_neg (by simp [hbefore]), dropUnderscores?_of_none hc hrest]
    rfl

theorem map_plainDigit_of_fixed {cs : List Char} (h : ∀ c ∈ cs, plainDigit c = c) :
    cs.map plainDigit = cs := by
  conv => rhs; rw [← List.map_id cs]
  exact List.map_congr_left h

/-! ### Integers -/

section Digits

variable {base : Nat} {cs : List Char}

theorem takeSign_of_digits (hcs : ∀ c ∈ cs, PlainDigit base c) : takeSign cs = (false, cs) := by
  unfold takeSign
  split
  · exact absurd rfl (hcs '-' (List.mem_cons_self ..)).not_sign.1
  · exact absurd rfl (hcs '+' (List.mem_cons_self ..)).not_sign.2
  · rfl

theorem skipBaseMark_of_digits (hcs : ∀ c ∈ cs, PlainDigit base c) : skipBaseMark base cs = cs := by
  unfold skipBaseMark
  split
  · rename_i m rest
    have hm := (hcs m (List.mem_cons_of_mem _ (List.mem_cons_self ..))).not_mark
    rw [hm]
    rfl
  · rfl

theorem leadingDigits?_of_digits (hcs : ∀ c ∈ cs, PlainDigit base c) :
    leadingDigits? base cs = some (cs.filterMap (baseDigit? base)) := by
  have hrun : cs.takeWhile (fun c => c = '_' || (baseDigit? base c).isSome) = cs :=
    List.takeWhile_eq_self_iff.mpr fun c hc => by simp [(hcs c hc).digit]
  unfold leadingDigits?
  dsimp only
  rw [hrun, dropUnderscores?_of_none (by decide) fun c hc => (hcs c hc).not_underscore]
  rfl

theorem afterDigits_of_digits (hcs : ∀ c ∈ cs, PlainDigit base c) : afterDigits base cs = [] :=
  List.dropWhile_eq_nil_iff.mpr fun c hc => by simp [(hcs c hc).digit]

/-- **Digits of a radix write an integer.** -/
theorem readInteger_of_digits (hbase : IsRadix base) (hne : cs ≠ [])
    (hcs : ∀ c ∈ cs, PlainDigit base c) :
    readInteger base (String.ofList cs) =
      .ok (digitsValue base (cs.filterMap (baseDigit? base)) : Nat) := by
  have hplain := map_plainDigit_of_fixed fun c hc => (hcs c hc).plain
  have hstrip : stripEnds isSpace (String.ofList cs) = String.ofList cs := by
    refine stripEnds_of_none fun c hc => ?_
    rw [String.toList_ofList] at hc
    exact (hcs c hc).not_space
  have hten : base ≠ 10 := by rcases hbase with rfl | rfl | rfl <;> decide
  have hdigits : (cs.filterMap (baseDigit? base)).isEmpty = false := by
    obtain ⟨c, rest, rfl⟩ := List.exists_cons_of_ne_nil hne
    obtain ⟨d, hd⟩ := Option.isSome_iff_exists.mp (hcs c (List.mem_cons_self ..)).digit
    rw [List.filterMap_cons_some hd]
    rfl
  unfold readInteger
  rw [hstrip, String.toList_ofList, hplain]
  dsimp only
  rw [takeSign_of_digits hcs]
  dsimp only
  rw [skipBaseMark_of_digits hcs, leadingDigits?_of_digits hcs]
  dsimp only
  rw [if_neg (fun h => hten h.1), if_neg]
  · rfl
  · simp [hdigits, afterDigits_of_digits hcs]

end Digits

/-! ### Literals -/

/-- What a literal in a radix is whose integer is `n`. -/
def numberOfInteger (n : Nat) : Except LiteralError Float :=
  match Number.ofInt? n with
  | some x => .ok x
  | none => .error (.internal .tooLarge)

/-- A literal in a radix is malformed, or it is the number of its integer. -/
theorem radixNumber_cases {base : Nat} (hbase : IsRadix base) {cs : List Char}
    (hcs : ∀ c ∈ cs, isNumberChar c = true) :
    radixNumber base (String.ofList cs) = .error .malformed ∨
      ∃ n, radixNumber base (String.ofList cs) = numberOfInteger n := by
  unfold radixNumber
  rw [String.toList_ofList]
  dsimp only
  split
  · exact .inl rfl
  · rename_i hcheck
    rw [Bool.not_eq_true, Bool.or_eq_false_iff, List.isEmpty_eq_false_iff, Bool.not_eq_false',
      List.all_flatMap, List.all_append, Bool.and_eq_true] at hcheck
    obtain ⟨hne, hwhole, -⟩ := hcheck
    have hdigits : ∀ c ∈ cs.takeWhile (· ≠ '.'), PlainDigit base c := by
      intro c hc
      exact plainDigit_of_check hbase (hcs c (List.takeWhile_subset _ hc))
        (List.all_eq_true.mp hwhole c hc)
    rw [readInteger_of_digits hbase hne hdigits]
    exact .inr ⟨_, rfl⟩

theorem radixNumber_of_digits {base : Nat} (hbase : IsRadix base) {cs : List Char} (hne : cs ≠ [])
    (hcs : ∀ c ∈ cs, PlainDigit base c) :
    radixNumber base (String.ofList cs) =
      numberOfInteger (digitsValue base (cs.filterMap (baseDigit? base))) := by
  have hwhole : cs.takeWhile (· ≠ '.') = cs :=
    List.takeWhile_eq_self_iff.mpr fun c hc => by simp [(hcs c hc).not_point]
  have hfraction : cs.dropWhile (· ≠ '.') = [] :=
    List.dropWhile_eq_nil_iff.mpr fun c hc => by simp [(hcs c hc).not_point]
  have hcheck : (cs.flatMap upperChar).all (isBaseDigit base) = true := by
    rw [List.all_flatMap, List.all_eq_true]
    exact fun c hc => (hcs c hc).upper
  unfold radixNumber
  rw [String.toList_ofList]
  dsimp only
  rw [hwhole, hfraction, List.drop_nil, List.append_nil, hcheck, List.isEmpty_eq_false_iff.mpr hne,
    readInteger_of_digits hbase hne hcs]
  rfl

/-- **The conversion of a literal of a source text goes wrong only where the
integer has no double.** -/
theorem literalNumber_internal {text : List Char} (htext : ∀ c ∈ text, isNumberChar c = true)
    {e : InternalError} (h : literalNumber (String.ofList (splitSuffix text).1)
      (String.ofList (splitSuffix text).2) = .error (.internal e)) : e = .tooLarge := by
  have hsplit : ∀ c ∈ (splitSuffix text).1, isNumberChar c = true := by
    intro c hc
    refine htext c ?_
    unfold splitSuffix at hc
    split at hc
    · split at hc
      · exact List.dropLast_subset _ hc
      · exact hc
    · exact hc
  unfold literalNumber at h
  split at h
  · split at h
    · split at h <;> cases h
    · cases h
  · split at h
    · rename_i base hbase
      rcases radixNumber_cases (isRadix_of_suffix hbase) hsplit with hr | ⟨n, hr⟩
      · rw [hr] at h
        cases h
      · rw [hr, numberOfInteger] at h
        split at h
        · cases h
        · exact (LiteralError.internal.inj (Except.error.inj h)).symm
    · cases h

end RuleScript
