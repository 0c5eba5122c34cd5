/-
# Displayed numbers read back

A number is displayed as a word, as an integer without a fraction, or as the
shortest digits that read back. Each of these is a text that counts as a number:
integers and literals are decimal numerals without blanks (`chars_numeral`), and
the words are those of the conversion. So every displayed number counts as that
number, negative zero as zero (`Value.number_of_display`).

Key theorems: `chars_numeral`, `ofText_chars`, `ofDecimal_integer`,
`beq_plainZero`, `Value.number_of_display`.
-/
import RuleScript.Proofs.Json.Numeral
import RuleScript.Proofs.Values.Conversion

namespace RuleScript.Json

open Text Number

/-! ### A number's text is a numeral -/

/-- An ASCII digit is a decimal digit of the same value, and no blank. -/
theorem digitValue?_plain {c : Char} (hc : isPlainDigit c = true) :
    digitValue? c = some (charDigit c) ∧ Text.isBlank c = false := by
  have hdigits : ∀ n < 10, digitValue? (Char.ofNat (48 + n)) = some (charDigit (Char.ofNat (48 + n))) ∧
      Text.isBlank (Char.ofNat (48 + n)) = false := by decide +kernel
  unfold isPlainDigit at hc
  rw [Bool.and_eq_true, decide_eq_true_iff, decide_eq_true_iff] at hc
  have hlow : 48 ≤ c.toNat := hc.1
  have hhigh : c.toNat ≤ 57 := hc.2
  have h := hdigits (c.toNat - 48) (by omega)
  rwa [Nat.add_sub_cancel' hlow, Char.ofNat_toNat] at h

theorem AllDigits.writes {cs : List Char} (hcs : AllDigits cs) :
    Writes digitValue? cs (cs.map charDigit) := by
  unfold Writes
  rw [List.map_map]
  exact List.map_congr_left fun c hc => (digitValue?_plain (hcs c hc)).1

theorem map_charDigit_ne_nil {cs : List Char} (h : cs ≠ []) : cs.map charDigit ≠ [] :=
  fun hnil => h (List.map_eq_nil_iff.mp hnil)

namespace NumberText

variable {t : NumberText}

/-- The numeral that a number's text is. -/
def numeral (t : NumberText) : Numeral where
  negative := t.negative
  whole := t.whole.map charDigit
  fraction := (t.fraction.getD []).map charDigit
  exponent := (t.exponent.map fun p => signed p.1 (decimalValue p.2)).getD 0

theorem exponentText (ht : t.Proper) : ExponentText t.exponentChars t.numeral.exponent := by
  unfold exponentChars numeral
  cases hexponent : t.exponent with
  | none => exact .none
  | some p =>
    obtain ⟨hdigits, hne⟩ := ht.exponent p hexponent
    have hsign : SignText [if p.1 then '-' else '+'] p.1 := by
      cases p.1
      · exact .plus
      · exact .minus
    exact .some (.inl rfl) hsign hdigits.writes (map_charDigit_ne_nil hne)

/-- **A number's text is a decimal numeral.** -/
theorem chars_numeral (ht : t.Proper) : NumeralText t.chars t.numeral := by
  have hwhole := ht.whole.writes
  have hne := map_charDigit_ne_nil ht.nonempty
  have hmantissa : MantissaText (t.whole ++ t.fractionChars) t.numeral.whole t.numeral.fraction := by
    unfold fractionChars numeral
    cases hfraction : t.fraction with
    | none =>
      show MantissaText (t.whole ++ []) _ _
      rw [List.append_nil]
      exact .whole hwhole hne
    | some fs => exact .point hwhole hne (ht.fraction fs hfraction).1.writes
  have hsign : SignText (if t.negative then ['-'] else []) t.negative := by
    cases t.negative
    · exact .none
    · exact .minus
  have hchars : t.chars =
      (if t.negative then ['-'] else []) ++ ((t.whole ++ t.fractionChars) ++ t.exponentChars) := by
    rw [List.append_assoc]
    unfold chars withSign
    cases t.negative <;> rfl
  rw [hchars]
  exact .intro hsign hmantissa (exponentText ht)

/-- No blank stands in a number's text. -/
theorem chars_not_blank (ht : t.Proper) : ∀ c ∈ t.chars, Text.isBlank c = false := by
  have hdigits {cs : List Char} (hcs : AllDigits cs) : ∀ c ∈ cs, Text.isBlank c = false :=
    fun c hc => (digitValue?_plain (hcs c hc)).2
  have hmarks : Text.isBlank '-' = false ∧ Text.isBlank '+' = false ∧ Text.isBlank '.' = false ∧ Text.isBlank 'e' = false := by
    decide +kernel
  have hfraction : ∀ c ∈ t.fractionChars, Text.isBlank c = false := by
    unfold fractionChars
    cases hfraction : t.fraction with
    | none => exact nofun
    | some fs => exact List.forall_mem_cons.mpr ⟨hmarks.2.2.1, hdigits (ht.fraction fs hfraction).1⟩
  have hexponent : ∀ c ∈ t.exponentChars, Text.isBlank c = false := by
    unfold exponentChars
    cases hexponent : t.exponent with
    | none => exact nofun
    | some p =>
      refine List.forall_mem_cons.mpr ⟨hmarks.2.2.2, List.forall_mem_cons.mpr
        ⟨?_, hdigits (ht.exponent p hexponent).1⟩⟩
      cases p.1
      · exact hmarks.2.1
      · exact hmarks.1
  have hunsigned : ∀ c ∈ t.whole ++ (t.fractionChars ++ t.exponentChars), Text.isBlank c = false := by
    intro c hc
    rcases List.mem_append.mp hc with hc | hc
    · exact hdigits ht.whole c hc
    · exact (List.mem_append.mp hc).elim (hfraction c) (hexponent c)
  unfold chars withSign
  split
  · exact List.forall_mem_cons.mpr ⟨hmarks.1, hunsigned⟩
  · exact hunsigned

/-- The numeral is read as the decimal that the text denotes. -/
theorem toNumber_numeral (t : NumberText) :
    t.numeral.toNumber = ofDecimal t.negative t.coefficient t.power := by
  unfold Numeral.toNumber numeral coefficient power decimalValue
  dsimp only
  rw [List.map_append, List.length_map]
  rfl

end NumberText

end RuleScript.Json

namespace RuleScript.Number

open Text Json Float.Model

variable {s : String} {x : Float}

/-- **A number's text counts as the decimal that it denotes.** -/
theorem ofText_chars {t : NumberText} (ht : t.Proper) (hs : s.toList = t.chars) :
    ofText s = some (ofDecimal t.negative t.coefficient t.power) := by
  have htrim : trim s = s := stripEnds_of_none (hs ▸ NumberText.chars_not_blank ht)
  rw [← NumberText.toNumber_numeral]
  exact ofText_decimal (by rw [htrim, hs]; exact NumberText.chars_numeral ht)

/-! ### Integers -/

/-- A decimal that is an integer of few digits is taken as that integer. -/
theorem ofDecimal_integer {n : Int} (hn : n.natAbs < 10 ^ 21) :
    ofDecimal (decide (n < 0)) n.natAbs 0 = ofInt n := by
  have hunsigned {k : Nat} (hk : k < 10 ^ 21) : ofDecimal false k 0 = Float.ofNat k := by
    have hlog : k.log2 < 70 := by
      rcases Nat.eq_zero_or_pos k with rfl | hpos
      · decide
      · exact (Nat.log2_lt (Nat.ne_of_gt hpos)).mpr (hk.trans (by decide))
    unfold ofDecimal
    dsimp only
    rw [if_neg Bool.false_ne_true, Int.ofNat_eq_natCast, Int.ofNat_eq_natCast]
    by_cases hzero : k = 0
    · rw [if_pos (.inl hzero), hzero]
      exact eq_of_decode decode_zero (decode_zero : decode (Float.ofNat 0) = _)
    · rw [if_neg (by omega), if_neg (by omega)]
      rfl
  cases n with
  | ofNat k =>
    rw [decide_eq_false (not_lt.mpr (Int.natCast_nonneg k) : ¬Int.ofNat k < 0)]
    exact hunsigned hn
  | negSucc k =>
    rw [decide_eq_true (Int.negSucc_lt_zero k)]
    show -(ofDecimal false (k + 1) 0) = _
    rw [hunsigned (show k + 1 < 10 ^ 21 from hn)]
    rfl

/-- The text of an integer of few digits counts as that integer. -/
theorem ofText_integerText {n : Int} (hn : n.natAbs < 10 ^ 21) :
    ofText (integerText n) = some (ofInt n) := by
  rw [ofText_chars (NumberText.ofInt_proper n) (integerText_eq n), ← ofDecimal_integer hn]
  congr 2
  show decimalValue (digitsOf n.natAbs ++ []) = _
  rw [List.append_nil, decimalValue_digitsOf]

/-! ### Every number -/

/-- The zeros are integers. -/
theorem integer?_of_zero {negative : Bool} {e : Int} (h : decode x = .finite negative 0 e) :
    integer? x = some 0 := by
  unfold integer? Exact.integer?
  rw [h]
  dsimp only
  rw [hasFraction_zero, wholePart_zero]
  cases negative <;> rfl

theorem plainZero_of_pos {negative : Bool} {m : Nat} {e : Int} (h : decode x = .finite negative m e)
    (hm : 0 < m) : plainZero x = x := by
  refine if_neg fun hx => ?_
  rw [h] at hx
  cases hx
  cases hm

/-- **A displayed number counts as that number**, or as zero. -/
theorem ofText_display (hx : isNaN x = false) : ofText (display x) = some (plainZero x) := by
  have hliteral {negative : Bool} {m : Nat} {e : Int} (hdecode : decode x = .finite negative m e)
      (hm : 0 < m) : ofText (literal x) = some (plainZero x) := by
    obtain ⟨t, ht, rfl, hdenotes⟩ := literal_written hdecode hm
    rw [ofText_chars hdenotes.proper ht, ofDecimal_shortest hdecode hm hdenotes.value,
      plainZero_of_pos hdecode hm]
  unfold display
  cases hdecode : decode x with
  | nan =>
    unfold isNaN at hx
    rw [hdecode] at hx
    cases hx
  | infinite negative =>
    have hplain : plainZero x = x := by
      refine if_neg fun hx => ?_
      rw [hdecode] at hx
      cases hx
    rw [hplain]
    cases negative with
    | false =>
      have hword : (trim "Infinity").toList = [] ++ "Infinity".toList := by decide +kernel
      rw [eq_of_infinite hdecode decode_infinity]
      exact ofText_infinity (by rintro _ ⟨⟩) hword
    | true =>
      have hword : (trim "-Infinity").toList = ['-'] ++ "Infinity".toList := by decide +kernel
      rw [eq_of_infinite hdecode decode_neg_infinity]
      exact ofText_infinity (by simp) hword
  | finite negative m e =>
    dsimp only
    cases hinteger : integer? x with
    | none =>
      refine hliteral hdecode (Nat.pos_of_ne_zero ?_)
      rintro rfl
      rw [integer?_of_zero hdecode] at hinteger
      cases hinteger
    | some n =>
      dsimp only
      split
      · rename_i hn
        have hsmall : n.natAbs < 10 ^ 21 := by
          have hlimit : displayLimit = 10 ^ 21 := rfl
          rw [hlimit] at hn
          omega
        have hvalue := ofInt?_integer? hinteger
        unfold ofInt? at hvalue
        dsimp only at hvalue
        split at hvalue
        · cases hvalue
        · rw [ofText_integerText hsmall, hvalue]
      · rename_i hn
        refine hliteral hdecode (Nat.pos_of_ne_zero ?_)
        rintro rfl
        rw [integer?_of_zero hdecode] at hinteger
        cases hinteger
        exact hn (by decide)

/-- A number is equal to itself. -/
theorem beq_self_of_not_nan (hx : isNaN x = false) : (x == x) = true := by
  have hbeq : (x == x) = (x.toModel.unpack.beq x.toModel.unpack) := rfl
  unfold isNaN at hx
  rw [decode_eq] at hx
  rw [hbeq]
  cases hu : x.toModel.unpack with
  | notANumber => rw [hu] at hx; cases hx
  | infinity s => cases s <;> rfl
  | zero s => rfl
  | finite s m e hm =>
    have hcompare : (compare e e).then (compare m m) = .eq := by
      rw [compare_eq_iff_eq.mpr rfl, compare_eq_iff_eq.mpr rfl]
      rfl
    have hsigned : (UnpackedFloat.finite s m e hm).compare (.finite s m e hm) = some .eq := by
      cases s with
      | negative =>
        show some ((compare e e).then (compare m m)).swap = _
        rw [hcompare]
        rfl
      | positive =>
        show some ((compare e e).then (compare m m)) = _
        rw [hcompare]
    show ((UnpackedFloat.finite s m e hm).compare (.finite s m e hm) == some .eq) = true
    rw [hsigned]
    rfl

/-- A number is equal to itself, and negative zero to zero. -/
theorem beq_plainZero (hx : isNaN x = false) : (plainZero x == x) = true := by
  unfold plainZero
  split
  · rename_i hdecode
    have hzero : decode (-0.0 : Float) = .finite true 0 (-1074) := by decide +kernel
    rw [eq_of_decode hdecode hzero]
    decide +kernel
  · exact beq_self_of_not_nan hx

end RuleScript.Number

namespace RuleScript

open Number Text

/-- **Displayed numbers read back.** The text of a number counts as a number
equal to it, and as that very number but for negative zero; where it is not a
number, the text is not one either. -/
theorem Value.number_of_display (x : Float) :
    (isNaN x = true → ∃ y, Value.toNumber? (.string (display x)) = some y ∧ isNaN y = true) ∧
      (isNaN x = false → ∃ y, Value.toNumber? (.string (display x)) = some y ∧ (y == x) = true ∧
        (decode x ≠ .finite true 0 (-1074) → y = x)) := by
  rw [Value.toNumber?_string]
  constructor
  · intro hx
    have hword : display x = "NaN" := by
      unfold display
      unfold isNaN at hx
      split at hx
      · rename_i hdecode
        rw [hdecode]
      · cases hx
    have htrim : (trim "NaN").toList = ['N', 'a', 'N'] := by decide +kernel
    have hnan : ofText "NaN" = some nan :=
      ofText_other htrim (by decide) (by decide +kernel) (by decide) (by decide +kernel)
    rw [hword, hnan]
    exact ⟨nan, rfl, by unfold isNaN; rw [decode_nan]⟩
  · exact fun hx => ⟨plainZero x, ofText_display hx, beq_plainZero hx, fun hne => if_neg hne⟩

end RuleScript
