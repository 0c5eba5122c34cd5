/-
# Which texts count as numbers

A text without the blanks at its ends is a numeral if it is a decimal numeral,
the word for infinity with an optional sign, or digits of base sixteen, eight or
two behind the mark of the base (`Denotes`). A numeral counts as the number
nearest to what it denotes, and an integer that is too large has no number.

The conversion takes two kinds of texts beyond the numerals (`Strays`): it takes
off any number of signs before it looks for infinity, and what stands behind the
mark of a base is read as an integer of the base, which may have blanks before it,
a sign, the mark once more, underscores and digits of any script. Every other
text but a blank one is no number (`Value.number_of_text`).

Key definitions: `Denotation`, `Denotes`, `Strays`, `Counts`.
Key theorems: `announcedBase?_eq_some_iff`, `ofText_infinity`, `ofText_integer`,
`Value.number_of_text`.
-/
import RuleScript.Library.Core
import RuleScript.Proofs.Number.Integer
import RuleScript.Proofs.Source.Literal

namespace RuleScript.Number

open RuleScript.Text

/-! ### The mark of a base -/

/-- The characters that a mark is of in lower case. -/
def markTargets : List Nat := [0x30, 0x78, 0x6F, 0x62]

/-- Only a capital letter of ASCII has one of these for its lower case. -/
theorem lowerRuns_target : ∀ r ∈ lowerRuns.toList, ∀ t ∈ markTargets,
    (r.first : Int) ≤ t - r.shift → t - r.shift ≤ r.last → r.shift = 32 ∧ t ≠ 0x30 := by
  decide +kernel

/-- No lower case of several characters starts with one of these, and none is
empty. -/
theorem lowerExpansions_target : ∀ e ∈ lowerExpansions.toList, e.2 ≠ [] ∧
    ∀ n ∈ e.2.head?, (Char.ofNat n).toNat ∉ markTargets := by
  decide +kernel

/-- The lower case of one character in a text. -/
def lowerHere (before : List Char) (c : Char) (rest : List Char) : List Char :=
  if c = 'Σ' then [if startsCased before && !startsCased rest then 'ς' else 'σ'] else lowerChar c

theorem lowerAfter_cons (before : List Char) (c : Char) (rest : List Char) :
    lowerAfter before (c :: rest) = lowerHere before c rest ++ lowerAfter (c :: before) rest := rfl

theorem lowerHere_ne_nil (before : List Char) (c : Char) (rest : List Char) :
    lowerHere before c rest ≠ [] := by
  unfold lowerHere lowerChar mapCase
  split
  · exact List.cons_ne_nil _ _
  · split
    · rename_i e he
      have hmem := Array.mem_toList_iff.mpr (Array.mem_of_find?_eq_some he)
      exact fun h => (lowerExpansions_target e hmem).1 (List.map_eq_nil_iff.mp h)
    · split <;> exact List.cons_ne_nil _ _

/-- A character whose lower case starts with a character of a mark is that
character, or its capital letter. -/
theorem lowerHere_eq_cons {before rest cs : List Char} {c t : Char} (ht : t.toNat ∈ markTargets)
    (h : lowerHere before c rest = t :: cs) :
    cs = [] ∧ (c = t ∨ c.toNat + 32 = t.toNat ∧ t ≠ '0') := by
  unfold lowerHere lowerChar mapCase at h
  split at h
  · obtain ⟨rfl, -⟩ := List.cons.inj h
    have hsigma : 'ς'.toNat ∉ markTargets ∧ 'σ'.toNat ∉ markTargets := by decide
    split at ht
    · exact absurd ht hsigma.1
    · exact absurd ht hsigma.2
  · split at h
    · rename_i e he
      have hmem := Array.mem_toList_iff.mpr (Array.mem_of_find?_eq_some he)
      obtain ⟨n, ns, hns⟩ := List.exists_cons_of_ne_nil (lowerExpansions_target e hmem).1
      rw [hns] at h
      obtain ⟨rfl, -⟩ := List.cons.inj h
      exact absurd ht ((lowerExpansions_target e hmem).2 n (by rw [hns]; rfl))
    · split at h
      · rename_i n hn
        obtain ⟨rfl, rfl⟩ := List.cons.inj h
        obtain ⟨r, hr, happly⟩ := Array.exists_of_findSome?_eq_some hn
        have hvalue : (Char.ofNat n).toNat = n := by
          by_cases hvalid : n.isValidChar
          · exact congrArg Char.toNat (dif_pos hvalid : Char.ofNat n = Char.ofNatAux n hvalid)
          · have hnull : (Char.ofNat n).toNat = 0 := congrArg Char.toNat (dif_neg hvalid)
            rw [hnull] at ht
            exact absurd ht (by decide)
        unfold CaseRun.apply? at happly
        split at happly
        · rename_i hrun
          have hshifted := Option.some.inj happly
          rw [hvalue] at ht
          have hn0 : n ≠ 0 := fun hzero => absurd (hzero ▸ ht) (by decide)
          rw [Int.ofNat_eq_natCast] at hshifted
          obtain ⟨hshift, hne⟩ := lowerRuns_target r (Array.mem_toList_iff.mpr hr) n ht (by omega) (by omega)
          refine ⟨rfl, .inr ⟨by rw [hvalue]; omega, fun hzero => hne ?_⟩⟩
          rw [← hvalue, hzero]
          rfl
        · cases happly
      · obtain ⟨rfl, rfl⟩ := List.cons.inj h
        exact ⟨rfl, .inl rfl⟩

/-- What is a mark in lower case is a zero and a character that is a mark in
either case. -/
theorem lowerAfter_mark {mark : List Char} {t : Char} (ht : t.toNat ∈ markTargets)
    (h : lowerAfter [] mark = ['0', t]) : ∃ m, mark = ['0', m] ∧ (m = t ∨ m.toNat + 32 = t.toNat) := by
  cases mark with
  | nil => cases h
  | cons z rest =>
    rw [lowerAfter_cons] at h
    obtain ⟨c, cs, hhere⟩ := List.exists_cons_of_ne_nil (lowerHere_ne_nil [] z rest)
    rw [hhere] at h
    obtain ⟨rfl, hrest⟩ := List.cons.inj h
    obtain ⟨rfl, hz⟩ := lowerHere_eq_cons (by decide) hhere
    obtain rfl : z = '0' := hz.resolve_right fun h => h.2 rfl
    cases rest with
    | nil => cases hrest
    | cons m rest =>
      change lowerAfter ['0'] (m :: rest) = [t] at hrest
      rw [lowerAfter_cons] at hrest
      obtain ⟨c, cs, hhere⟩ := List.exists_cons_of_ne_nil (lowerHere_ne_nil ['0'] m rest)
      rw [hhere] at hrest
      obtain ⟨rfl, hend⟩ := List.cons.inj hrest
      obtain ⟨rfl, hm⟩ := lowerHere_eq_cons ht hhere
      cases rest with
      | nil => exact ⟨m, rfl, hm.imp_right And.left⟩
      | cons c rest =>
        change lowerAfter [m, '0'] (c :: rest) = [] at hend
        rw [lowerAfter_cons] at hend
        exact absurd (List.append_eq_nil_iff.mp hend).1 (lowerHere_ne_nil _ _ _)

theorem mapCase_eq (expansions : Array (Nat × List Nat)) (runs : Array CaseRun) (c : Char) :
    mapCase expansions runs c = match expansions.toList.find? fun e => e.1 == c.toNat with
      | some e => e.2.map Char.ofNat
      | none =>
        match runs.toList.findSome? fun r => r.apply? c.toNat with
        | some n => [Char.ofNat n]
        | none => [c] := by
  rw [Array.find?_toList, Array.findSome?_toList]
  rfl

/-- The lower case of the characters of a mark. -/
theorem lowerChar_marks : lowerChar '0' = ['0'] ∧ lowerChar 'x' = ['x'] ∧ lowerChar 'X' = ['x'] ∧
    lowerChar 'o' = ['o'] ∧ lowerChar 'O' = ['o'] ∧ lowerChar 'b' = ['b'] ∧ lowerChar 'B' = ['b'] := by
  -- over lists: the kernel is slow to search an array
  simp only [lowerChar, mapCase_eq]
  decide +kernel

theorem toLower_mark {m t : Char} (hm : m ≠ 'Σ') (ht : lowerChar m = [t]) :
    toLower (String.ofList ['0', m]) = String.ofList ['0', t] := by
  unfold toLower
  rw [String.toList_ofList, lowerAfter_cons, lowerAfter_cons, lowerHere, lowerHere, if_neg (by decide),
    if_neg hm, ht, lowerChar_marks.1]
  rfl

/-- **Two characters announce a base if they are a zero and its mark**, in either
case. -/
theorem announcedBase?_eq_some_iff {mark : List Char} {base : Nat} :
    announcedBase? mark = some base ↔ ∃ m, mark = ['0', m] ∧ isBaseMark base m = true := by
  constructor
  · intro h
    have hmark {t : Char} (ht : t.toNat ∈ markTargets) {s : String} (hs : s.toList = ['0', t])
        (h : toLower (String.ofList mark) = s) :
        ∃ m, mark = ['0', m] ∧ (m = t ∨ m = Char.ofNat (t.toNat - 32)) := by
      have hlower := congrArg String.toList h
      rw [hs] at hlower
      unfold toLower at hlower
      rw [String.toList_ofList, String.toList_ofList] at hlower
      obtain ⟨m, rfl, hm⟩ := lowerAfter_mark ht hlower
      refine ⟨m, rfl, hm.imp_right fun hcapital => ?_⟩
      rw [← hcapital, Nat.add_sub_cancel, Char.ofNat_toNat]
    unfold announcedBase? at h
    dsimp only at h
    split at h
    · rename_i hs
      cases h
      obtain ⟨m, rfl, rfl | rfl⟩ := hmark (t := 'x') (by decide) rfl hs <;> exact ⟨_, rfl, by decide⟩
    · split at h
      · rename_i hs
        cases h
        obtain ⟨m, rfl, rfl | rfl⟩ := hmark (t := 'o') (by decide) rfl hs <;> exact ⟨_, rfl, by decide⟩
      · split at h
        · rename_i hs
          cases h
          obtain ⟨m, rfl, rfl | rfl⟩ := hmark (t := 'b') (by decide) rfl hs <;> exact ⟨_, rfl, by decide⟩
        · cases h
  · rintro ⟨m, rfl, hm⟩
    simp only [isBaseMark, Bool.or_eq_true, Bool.and_eq_true, decide_eq_true_eq] at hm
    obtain ⟨-, hx, hX, ho, hO, hb, hB⟩ := lowerChar_marks
    unfold announcedBase?
    rcases hm with (⟨rfl, rfl | rfl⟩ | ⟨rfl, rfl | rfl⟩) | ⟨rfl, rfl | rfl⟩
    · rw [toLower_mark (by decide) hx]
      rfl
    · rw [toLower_mark (by decide) hX]
      rfl
    · rw [toLower_mark (by decide) ho]
      rfl
    · rw [toLower_mark (by decide) hO]
      rfl
    · rw [toLower_mark (by decide) hb]
      rfl
    · rw [toLower_mark (by decide) hB]
      rfl

/-! ### What a text denotes -/

/-- What a numeral denotes: a rational with a sign, an infinity, or an integer. -/
inductive Denotation where
  | decimal (negative : Bool) (q : ℚ)
  | infinite (negative : Bool)
  | integer (n : Int)

/-- The numerals, and what each denotes. -/
inductive Denotes : List Char → Denotation → Prop
  | decimal {cs : List Char} {n : Numeral} (h : NumeralText cs n) : Denotes cs (.decimal n.negative n.value)
  | infinity {sign : List Char} {negative : Bool} (hsign : SignText sign negative) :
    Denotes (sign ++ "Infinity".toList) (.infinite negative)
  | integer {base : Nat} {mark : Char} {cs : List Char} {ds : List Nat}
    (hmark : isBaseMark base mark = true) (hdigits : Writes (baseDigit? base) cs ds) (hne : ds ≠ []) :
    Denotes ('0' :: mark :: cs) (.integer (Nat.ofDigits base ds.reverse : Nat))

/-- The texts beyond the numerals that are read like them: infinity with several
signs, and behind the mark of a base an integer that is not of digits only. -/
inductive Strays : List Char → Denotation → Prop
  | signs {signs : List Char} (hsigns : ∀ c ∈ signs, c = '+' ∨ c = '-') (hmany : 2 ≤ signs.length) :
    Strays (signs ++ "Infinity".toList) (.infinite (signs.head? = some '-'))
  | integer {base : Nat} {mark : Char} {cs : List Char} {n : Int} (hmark : isBaseMark base mark = true)
    (hinteger : IntegerText base (integerChars (String.ofList cs)) n)
    (hstray : ∃ c ∈ cs, baseDigit? base c = none) : Strays ('0' :: mark :: cs) (.integer n)

/-- What a text with a denotation counts as: the nearest number, and nothing if
it is an integer beyond all numbers. -/
def Counts : Denotation → Option Float → Prop
  | .decimal negative q, r => ∃ x, r = some x ∧ Nearest negative q (decode x)
  | .infinite negative, r => ∃ x, r = some x ∧ decode x = .infinite negative
  | .integer n, r =>
    ((n.natAbs : ℚ) < overflow → ∃ x, r = some x ∧ Nearest (n < 0) n.natAbs (decode x)) ∧
      (overflow ≤ (n.natAbs : ℚ) → r = none)

/-- What counts as something is a number. -/
theorem Counts.isNaN {d : Denotation} {r : Option Float} (h : Counts d r) {x : Float}
    (hx : r = some x) : isNaN x = false := by
  subst hx
  cases d with
  | decimal negative q =>
    obtain ⟨y, hy, hnearest⟩ := h
    cases hy
    exact hnearest.isNaN
  | infinite negative =>
    obtain ⟨y, hy, hdecode⟩ := h
    cases hy
    unfold Number.isNaN
    rw [hdecode]
  | integer n =>
    rcases lt_or_ge (n.natAbs : ℚ) overflow with hlt | hge
    · obtain ⟨y, hy, hnearest⟩ := h.1 hlt
      cases hy
      exact hnearest.isNaN
    · cases h.2 hge

/-! ### The three kinds of numerals -/

variable {s : String}

/-- A text of blanks is empty without those at its ends, and no other is. -/
theorem trim_eq_nil_iff : (trim s).toList = [] ↔ ∀ c ∈ s.toList, isBlank c = true := by
  unfold trim stripEnds dropRight dropLeft
  rw [String.toList_ofList, List.reverse_eq_nil_iff, List.dropWhile_eq_nil_iff]
  constructor
  · intro h c hc
    rw [← List.takeWhile_append_dropWhile (p := isBlank) (l := s.toList), List.mem_append] at hc
    rcases hc with hc | hc
    · exact List.mem_takeWhile_imp hc
    · exact h c (List.mem_reverse.mpr hc)
  · exact fun h c hc => h c ((List.dropWhile_sublist _).subset (List.mem_reverse.mp hc))

theorem ofText_blank (h : (trim s).toList = []) : ofText s = some 0.0 := by
  unfold ofText
  dsimp only
  rw [h]
  rfl

/-- A decimal numeral counts as its number. -/
theorem ofText_decimal {n : Numeral} (h : NumeralText (trim s).toList n) : ofText s = some n.toNumber := by
  have hread := read?_eq_some_iff.mpr h
  have hne : (trim s).toList.isEmpty = false := by
    rw [List.isEmpty_eq_false_iff]
    intro hnil
    rw [hnil] at hread
    cases hread
  unfold ofText
  dsimp only
  rw [hne, if_neg Bool.false_ne_true, hread]

/-- What starts neither with a digit nor with a point, behind a sign, is no
numeral. -/
theorem read?_eq_none {cs : List Char} (hdigit : NoDigit (takeSign cs).2)
    (hpoint : (takeSign cs).2.head? ≠ some '.') : Numeral.read? cs = none := by
  rw [read?_eq]
  generalize takeSign cs = taken at hdigit hpoint
  obtain ⟨negative, rest⟩ := taken
  have htake := takeDigits_append hdigit .nil
  rw [List.nil_append] at htake
  unfold unsignedNumeral?
  rw [htake]
  split
  · rename_i heq
    cases heq
    exact absurd rfl hpoint
  · rfl
  · rename_i hne heq
    cases heq
    exact absurd rfl hne
  · rename_i _ hne _ heq
    cases heq
    exact absurd rfl hne

/-- Signs and the word for infinity are no decimal numeral. -/
theorem read?_infinity {signs : List Char} (hsigns : ∀ c ∈ signs, c = '+' ∨ c = '-') :
    Numeral.read? (signs ++ "Infinity".toList) = none := by
  -- Behind the first sign stands another one, or the word.
  have hhead : ∀ c, (takeSign (signs ++ "Infinity".toList)).2.head? = some c →
      c = '+' ∨ c = '-' ∨ c = 'I' := by
    have hword {signs : List Char} (hsigns : ∀ c ∈ signs, c = '+' ∨ c = '-') :
        ∀ c, (signs ++ "Infinity".toList).head? = some c → c = '+' ∨ c = '-' ∨ c = 'I' := by
      intro c hc
      cases signs with
      | nil => exact .inr (.inr (Option.some.inj hc).symm)
      | cons d signs =>
        obtain rfl := Option.some.inj hc
        exact (hsigns d List.mem_cons_self).imp_right .inl
    cases signs with
    | nil => exact hword hsigns
    | cons c signs =>
      obtain ⟨hc, hrest⟩ := List.forall_mem_cons.mp hsigns
      rcases hc with rfl | rfl <;> exact hword hrest
  refine read?_eq_none (fun c hc => ?_) (fun hc => ?_)
  · rcases hhead c hc with rfl | rfl | rfl <;> decide
  · exact absurd (hhead _ hc) (by decide)

/-- The mark of a base does not go on with a decimal numeral. -/
theorem read?_mark {base : Nat} {mark : Char} (hmark : isBaseMark base mark = true) (cs : List Char) :
    Numeral.read? ('0' :: mark :: cs) = none := by
  have hother : digitValue? mark = none ∧ mark ≠ '.' ∧ ¬(mark = 'e' ∨ mark = 'E') := by
    simp only [isBaseMark, Bool.or_eq_true, Bool.and_eq_true, decide_eq_true_eq] at hmark
    rcases hmark with (⟨rfl, rfl | rfl⟩ | ⟨rfl, rfl | rfl⟩) | ⟨rfl, rfl | rfl⟩ <;> decide
  have hzero : Writes digitValue? ['0'] [0] := Writes.cons_iff.mpr ⟨by decide, .nil⟩
  have hnext : NoDigit (mark :: cs) := noDigit_cons hother.1
  have htake := takeDigits_append hnext hzero
  have hexponent : readExponent? (mark :: cs) = none := if_neg hother.2.2
  rw [read?_eq]
  show unsignedNumeral? false (['0'] ++ mark :: cs) = none
  unfold unsignedNumeral?
  rw [htake]
  split
  · rename_i heq; cases heq
  · rename_i heq; cases heq
  · rename_i heq
    obtain ⟨-, heq⟩ := Prod.mk.inj heq
    exact absurd (List.cons.inj heq).1 hother.2.1
  · rename_i heq
    obtain ⟨-, rfl⟩ := Prod.mk.inj heq
    rw [hexponent]
    rfl

/-- Infinity with any number of signs counts as the infinity of the first one. -/
theorem ofText_infinity {signs : List Char} (hsigns : ∀ c ∈ signs, c = '+' ∨ c = '-')
    (h : (trim s).toList = signs ++ "Infinity".toList) :
    ofText s = some (if signs.head? = some '-' then -infinity else infinity) := by
  have hword : (signs ++ "Infinity".toList).dropWhile (fun c => c = '+' || c = '-') = "Infinity".toList := by
    rw [List.dropWhile_append_of_pos (fun c hc => by simpa using hsigns c hc)]
    rfl
  have hhead : (signs ++ "Infinity".toList).head? = some '-' ↔ signs.head? = some '-' := by
    cases signs with
    | nil => decide
    | cons => exact Iff.rfl
  have hne : (signs ++ "Infinity".toList).isEmpty = false := by
    rw [List.isEmpty_eq_false_iff]
    exact fun h => absurd (List.append_eq_nil_iff.mp h).2 (by decide)
  unfold ofText
  dsimp only
  rw [h, hne, if_neg Bool.false_ne_true, read?_infinity hsigns]
  dsimp only
  rw [if_pos hword]
  exact congrArg some (if_congr hhead rfl rfl)

/-- What stands behind the mark of a base is read as an integer. -/
theorem ofText_integer {base : Nat} {mark : Char} {cs : List Char} (hmark : isBaseMark base mark = true)
    (h : (trim s).toList = '0' :: mark :: cs) :
    ofText s = (readInteger base (String.ofList cs)).toOption.elim (some nan) ofInt? := by
  have hword : ('0' :: mark :: cs).dropWhile (fun c => c = '+' || c = '-') ≠ "Infinity".toList := by
    rw [List.dropWhile_cons_of_neg (by decide)]
    exact fun h => absurd (List.cons.inj h).1 (by decide)
  have hannounced : announcedBase? (('0' :: mark :: cs).take 2) = some base :=
    announcedBase?_eq_some_iff.mpr ⟨mark, rfl, hmark⟩
  unfold ofText
  dsimp only
  rw [h, List.isEmpty_cons, if_neg Bool.false_ne_true, read?_mark hmark]
  dsimp only
  rw [if_neg hword, hannounced]
  dsimp only
  have hdrop : ('0' :: mark :: cs).drop 2 = cs := rfl
  rw [hdrop]
  cases readInteger base (String.ofList cs) with
  | error e => exact Eq.refl (some nan)
  | ok n => exact Eq.refl (ofInt? n)

/-- Any other text is not a number. -/
theorem ofText_other {cs : List Char} (h : (trim s).toList = cs) (hne : cs ≠ [])
    (hread : Numeral.read? cs = none)
    (hword : cs.dropWhile (fun c => c = '+' || c = '-') ≠ "Infinity".toList)
    (hannounced : announcedBase? (cs.take 2) = none) : ofText s = some nan := by
  unfold ofText
  dsimp only
  rw [h, List.isEmpty_eq_false_iff.mpr hne, if_neg Bool.false_ne_true, hread]
  dsimp only
  rw [if_neg hword, hannounced]

/-! ### Every text -/

theorem decode_nan : decode nan = .nan := by decide +kernel

theorem decode_neg_infinity : decode (-infinity) = .infinite true := by decide +kernel

theorem signText_iff {signs : List Char} : (∃ negative, SignText signs negative) ↔
    (∀ c ∈ signs, c = '+' ∨ c = '-') ∧ signs.length < 2 := by
  constructor
  · rintro ⟨negative, h⟩
    cases h <;> simp
  · rintro ⟨hsigns, hlength⟩
    match signs with
    | [] => exact ⟨false, .none⟩
    | [c] =>
      rcases hsigns c List.mem_cons_self with rfl | rfl
      · exact ⟨false, .plus⟩
      · exact ⟨true, .minus⟩
    | _ :: _ :: _ =>
      rw [List.length_cons, List.length_cons] at hlength
      omega

theorem SignText.head? {sign : List Char} {negative : Bool} (h : SignText sign negative) :
    decide (sign.head? = some '-') = negative := by
  cases h <;> rfl

/-- Infinity with any number of signs counts as an infinity. -/
theorem counts_infinity {signs : List Char} (hsigns : ∀ c ∈ signs, c = '+' ∨ c = '-')
    (h : (trim s).toList = signs ++ "Infinity".toList) :
    Counts (.infinite (signs.head? = some '-')) (ofText s) := by
  rw [ofText_infinity hsigns h]
  refine ⟨_, rfl, ?_⟩
  by_cases hhead : signs.head? = some '-'
  · rw [if_pos hhead, decide_eq_true hhead]
    exact decode_neg_infinity
  · rw [if_neg hhead, decide_eq_false hhead]
    exact decode_infinity

/-- An integer behind the mark of its base counts as that integer. -/
theorem counts_integer {base : Nat} {mark : Char} {cs : List Char} {n : Int}
    (hmark : isBaseMark base mark = true) (h : (trim s).toList = '0' :: mark :: cs)
    (hread : readInteger base (String.ofList cs) = .ok n) : Counts (.integer n) (ofText s) := by
  rw [ofText_integer hmark h, hread]
  exact ofInt?_nearest n

theorem isRadix_of_mark {base : Nat} {mark : Char} (hmark : isBaseMark base mark = true) : IsRadix base := by
  simp only [isBaseMark, Bool.or_eq_true, Bool.and_eq_true, decide_eq_true_eq] at hmark
  rcases hmark with (⟨rfl, -⟩ | ⟨rfl, -⟩) | ⟨rfl, -⟩
  · exact .inr (.inr rfl)
  · exact .inr (.inl rfl)
  · exact .inl rfl

theorem ne_ten_of_isRadix {base : Nat} (h : IsRadix base) : base ≠ 10 := by
  rcases h with rfl | rfl | rfl <;> decide

/-- Digits of a base are read as the number that they write. -/
theorem readInteger_writes {base : Nat} (hbase : IsRadix base) {cs : List Char} {ds : List Nat}
    (hdigits : Writes (baseDigit? base) cs ds) (hne : ds ≠ []) :
    readInteger base (String.ofList cs) = .ok (Nat.ofDigits base ds.reverse : Nat) := by
  rw [readInteger_of_digits hbase (hdigits.ne_nil_iff.mpr hne)
    fun c hc => plainDigit_of_digit hbase (hdigits.isSome c hc), hdigits.filterMap_eq, digitsValue_eq]

/-- What a text denotes, as a numeral or beyond, it counts as. -/
theorem counts_of_denotes {d : Denotation}
    (h : Denotes (trim s).toList d ∨ Strays (trim s).toList d) : Counts d (ofText s) := by
  generalize hcs : (trim s).toList = cs at h
  rcases h with h | h
  · cases h with
    | decimal h =>
      rw [ofText_decimal (hcs ▸ h)]
      exact ⟨_, rfl, Numeral.toNumber_nearest _⟩
    | infinity hsign =>
      obtain ⟨hsigns, -⟩ := signText_iff.mp ⟨_, hsign⟩
      have hcounts := counts_infinity hsigns hcs
      rwa [hsign.head?] at hcounts
    | integer hmark hdigits hne =>
      exact counts_integer hmark hcs (readInteger_writes (isRadix_of_mark hmark) hdigits hne)
  · cases h with
    | signs hsigns => exact counts_infinity hsigns hcs
    | integer hmark hinteger =>
      have hten := ne_ten_of_isRadix (isRadix_of_mark hmark)
      exact counts_integer hmark hcs ((readInteger_eq_ok_iff hten).mpr hinteger)

/-- **A text that denotes nothing is not a number.** -/
theorem ofText_nan (hne : (trim s).toList ≠ [])
    (h : ¬∃ d, Denotes (trim s).toList d ∨ Strays (trim s).toList d) : ofText s = some nan := by
  generalize hcs : (trim s).toList = cs at h hne
  have hread : Numeral.read? cs = none := by
    rw [Option.eq_none_iff_forall_ne_some]
    exact fun n hn => h ⟨_, .inl (.decimal (read?_eq_some_iff.mp hn))⟩
  have hword : cs.dropWhile (fun c => c = '+' || c = '-') ≠ "Infinity".toList := by
    intro hword
    have hsplit := List.takeWhile_append_dropWhile (p := fun c => c = '+' || c = '-') (l := cs)
    rw [hword] at hsplit
    have hsigns : ∀ c ∈ cs.takeWhile (fun c => c = '+' || c = '-'), c = '+' ∨ c = '-' :=
      fun c hc => by simpa using List.mem_takeWhile_imp hc
    generalize cs.takeWhile _ = signs at hsplit hsigns
    subst hsplit
    rcases Nat.lt_or_ge signs.length 2 with hfew | hmany
    · obtain ⟨negative, hsign⟩ := signText_iff.mpr ⟨hsigns, hfew⟩
      exact h ⟨_, .inl (.infinity hsign)⟩
    · exact h ⟨_, .inr (.signs hsigns hmany)⟩
  cases hannounced : announcedBase? (cs.take 2) with
  | none => exact ofText_other hcs hne hread hword hannounced
  | some base =>
    obtain ⟨mark, htake, hmark⟩ := announcedBase?_eq_some_iff.mp hannounced
    obtain ⟨rest, rfl⟩ : ∃ rest, cs = '0' :: mark :: rest := by
      refine ⟨cs.drop 2, ?_⟩
      conv => lhs; rw [← List.take_append_drop 2 cs, htake]
      rfl
    rw [ofText_integer hmark hcs]
    cases hinteger : readInteger base (String.ofList rest) with
    | error e => rfl
    | ok n =>
      have htext := (readInteger_eq_ok_iff (ne_ten_of_isRadix (isRadix_of_mark hmark))).mp hinteger
      refine absurd ?_ h
      by_cases hdigits : ∀ c ∈ rest, (baseDigit? base c).isSome = true
      · have hwrites : Writes (baseDigit? base) rest (rest.filterMap (baseDigit? base)) :=
          .of_isSome hdigits
        refine ⟨_, .inl (.integer hmark hwrites (hwrites.ne_nil_iff.mp ?_))⟩
        rintro rfl
        exact htext.ne_nil rfl
      · simp only [not_forall] at hdigits
        obtain ⟨c, hc, hnone⟩ := hdigits
        exact ⟨_, .inr (.integer hmark htext ⟨c, hc, Option.not_isSome_iff_eq_none.mp hnone⟩)⟩

end RuleScript.Number

namespace RuleScript

open Text Number

theorem Value.toNumber?_string (s : String) : Value.toNumber? (.string s) = ofText s := rfl

/-- **Which texts count as numbers.** A blank text counts as zero. Any other is
not a number unless it is a numeral, or one of the strays, without the blanks at
its ends; and then it counts as the number nearest to what it denotes. -/
theorem Value.number_of_text (s : String) :
    ((∀ c ∈ s.toList, isBlank c = true) → Value.toNumber? (.string s) = some 0.0) ∧
      ((∃ c ∈ s.toList, isBlank c = false) →
        ((∃ x, Value.toNumber? (.string s) = some x ∧ Number.isNaN x = true) ↔
          ¬∃ d, Denotes (trim s).toList d ∨ Strays (trim s).toList d) ∧
        ∀ d, Denotes (trim s).toList d ∨ Strays (trim s).toList d →
          Counts d (Value.toNumber? (.string s))) := by
  rw [Value.toNumber?_string]
  refine ⟨fun hblank => ofText_blank (trim_eq_nil_iff.mpr hblank), fun ⟨c, hc, hother⟩ => ⟨⟨?_, ?_⟩, ?_⟩⟩
  · rintro ⟨x, hx, hnan⟩ ⟨d, hd⟩
    rw [(counts_of_denotes hd).isNaN hx] at hnan
    cases hnan
  · intro h
    refine ⟨nan, ofText_nan (fun hnil => ?_) h, ?_⟩
    · rw [trim_eq_nil_iff.mp hnil c hc] at hother
      cases hother
    · unfold Number.isNaN
      rw [decode_nan]
  · exact fun d => counts_of_denotes

end RuleScript
