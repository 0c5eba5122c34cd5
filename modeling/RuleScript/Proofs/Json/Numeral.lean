/-
# JSON numbers are read as they were written

A JSON number is a sign, digits before the point, perhaps digits behind it and
perhaps an exponent (`NumberText`). Reading takes all of it, up to a character
that no number goes on with (`NumberText.number_chars`), and gives the integer or the
decimal that the parts denote.

What is written for an integer is such a text (`number_integerText`), and so are
the shortest digits of a number, whichever way they are laid out
(`written_layout`). As the shortest digits read back, every finite number that
is written is read again (`number_literal`).

Key definitions: `decimalValue`, `Ends`, `NumberText`.
Key theorems: `NumberText.number_chars`, `number_integerText`, `written_layout`,
`number_literal`.
-/
import RuleScript.Data.Json.Read
import RuleScript.Proofs.Number.Shortest

namespace RuleScript.Json

open RuleScript.Number

/-! ### Digits -/

/-- The digit that a character is. -/
def charDigit (c : Char) : Nat := c.toNat - '0'.toNat

/-- The number that decimal digits write. -/
def decimalValue (cs : List Char) : Nat := digitsValue 10 (cs.map charDigit)

/-- Only decimal digits. -/
def AllDigits (cs : List Char) : Prop := ∀ c ∈ cs, isPlainDigit c = true

theorem decimalValue_eq (cs : List Char) : decimalValue cs = Nat.ofDigitChars 10 cs 0 := by
  unfold decimalValue digitsValue digitsValueFrom
  rw [List.foldl_map, Nat.ofDigitChars_eq_foldl]
  congr 1
  funext a c
  rw [Nat.mul_comm]
  rfl

theorem decimalValue_append (cs ds : List Char) :
    decimalValue (cs ++ ds) = decimalValue cs * 10 ^ ds.length + decimalValue ds := by
  rw [decimalValue_eq, decimalValue_eq, decimalValue_eq, Nat.ofDigitChars_append,
    Nat.ofDigitChars_eq_ofDigitChars_zero, Nat.mul_comm]

theorem decimalValue_zeros (n : Nat) : decimalValue (zeros n) = 0 := by
  rw [decimalValue_eq, zeros, Nat.ofDigitChars_replicate_zero, Nat.mul_zero]

theorem decimalValue_digitsOf (n : Nat) : decimalValue (digitsOf n) = n := by
  rw [decimalValue_eq]
  exact Nat.ofDigitChars_ten_toDigits

theorem isPlainDigit_of_isDigit {c : Char} (h : c.isDigit = true) : isPlainDigit c = true := by
  obtain ⟨hlow, hhigh⟩ := Bool.and_eq_true_iff.mp h
  exact Bool.and_eq_true_iff.mpr ⟨decide_eq_true (of_decide_eq_true hlow),
    decide_eq_true (of_decide_eq_true hhigh)⟩

theorem allDigits_digitsOf (n : Nat) : AllDigits (digitsOf n) :=
  fun _ hc => isPlainDigit_of_isDigit (Nat.isDigit_of_mem_toDigits (by decide) (by decide) hc)

theorem allDigits_zeros (n : Nat) : AllDigits (zeros n) := by
  intro c hc
  rw [List.eq_of_mem_replicate hc]
  decide

theorem AllDigits.append {cs ds : List Char} (hcs : AllDigits cs) (hds : AllDigits ds) :
    AllDigits (cs ++ ds) := fun c hc => (List.mem_append.mp hc).elim (hcs c) (hds c)

theorem AllDigits.take {cs : List Char} (h : AllDigits cs) (n : Nat) : AllDigits (cs.take n) :=
  fun c hc => h c (List.mem_of_mem_take hc)

theorem AllDigits.drop {cs : List Char} (h : AllDigits cs) (n : Nat) : AllDigits (cs.drop n) :=
  fun c hc => h c (List.mem_of_mem_drop hc)

/-- The digits of a positive number do not start with zero. -/
theorem head?_digitsOf (n : Nat) (hn : 0 < n) : (digitsOf n).head? ≠ some '0' := by
  by_cases hlt : n < 10
  · have hdigit : ∀ k < 10, 0 < k → k.digitChar ≠ '0' := by decide
    rw [digitsOf, Nat.toDigits_of_lt_base hlt]
    exact fun h => hdigit n hlt hn (Option.some.inj h)
  · have ih := head?_digitsOf (n / 10) (by omega)
    rw [digitsOf, Nat.toDigits_of_base_le (by decide) (by omega)]
    obtain ⟨c, cs, hcs⟩ := List.exists_cons_of_ne_nil (Nat.toDigits_ne_nil (n := n / 10) (b := 10))
    rw [digitsOf, hcs] at ih
    rw [hcs]
    exact ih
termination_by n

theorem digitsOf_ne_nil (n : Nat) : digitsOf n ≠ [] := Nat.toDigits_ne_nil

/-! ### Reading a number -/

/-- The text behind a number: it does not start as a number goes on. -/
def Ends (rest : List Char) : Prop :=
  ∀ c, rest.head? = some c → isPlainDigit c = false ∧ c ≠ '.' ∧ c ≠ 'e' ∧ c ≠ 'E'

/-- What is read behind the sign of a number. -/
def numberFrom (start : List Char) (negative : Bool) (cs : List Char) : Reading Datum :=
  match wholeDigits? cs with
  | none => .error (.malformed .value start)
  | some (whole, cs) =>
    let (fraction, cs) := (fractionDigits? cs).elim (none, cs) fun (f, cs) => (some f, cs)
    let (exp, cs) := (exponent? cs).elim (none, cs) fun (e, cs) => (some e, cs)
    match fraction, exp with
    | none, none =>
      if integerDigitLimit < whole.length then .error (.integerTooLong whole.length)
      else .ok (.integer (signed negative (digitsValue 10 whole)), cs)
    | _, _ =>
      let fraction := fraction.getD []
      .ok (.number (ofDecimal negative (digitsValue 10 (whole ++ fraction))
        (exp.getD 0 - Int.ofNat fraction.length)), cs)

/-- The parts of a number's text: its sign, the digits before the point, those
behind it, and the sign and digits of the exponent. -/
structure NumberText where
  negative : Bool
  whole : List Char
  fraction : Option (List Char)
  exponent : Option (Bool × List Char)

namespace NumberText

/-- The exponent, which stands last. -/
def exponentChars (t : NumberText) : List Char :=
  t.exponent.elim [] fun p => 'e' :: (if p.1 then '-' else '+') :: p.2

/-- What stands behind the digits before the point. -/
def fractionChars (t : NumberText) : List Char := t.fraction.elim [] fun cs => '.' :: cs

/-- The text. -/
def chars (t : NumberText) : List Char :=
  withSign t.negative (t.whole ++ (t.fractionChars ++ t.exponentChars))

/-- The digits are decimal digits, none of the parts is empty, and the first
digit is zero only if it is the only one before the point. -/
structure Proper (t : NumberText) : Prop where
  whole : AllDigits t.whole
  nonempty : t.whole ≠ []
  first : t.whole = ['0'] ∨ t.whole.head? ≠ some '0'
  fraction : ∀ cs, t.fraction = some cs → AllDigits cs ∧ cs ≠ []
  exponent : ∀ p, t.exponent = some p → AllDigits p.2 ∧ p.2 ≠ []

/-- The digits as one number. -/
def coefficient (t : NumberText) : Nat := decimalValue (t.whole ++ t.fraction.getD [])

/-- The power of ten that the digits count. -/
def power (t : NumberText) : Int :=
  (t.exponent.map fun p => signed p.1 (decimalValue p.2)).getD 0 - (t.fraction.getD []).length

variable {t : NumberText} {rest : List Char}

end NumberText

/-! ### Integers -/

/-- The text of an integer. -/
def NumberText.ofInt (n : Int) : NumberText := ⟨decide (n < 0), digitsOf n.natAbs, none, none⟩

theorem NumberText.ofInt_proper (n : Int) : (NumberText.ofInt n).Proper where
  whole := allDigits_digitsOf _
  nonempty := digitsOf_ne_nil _
  first := by
    rcases Nat.eq_zero_or_pos n.natAbs with hzero | hpos
    · exact .inl (by show digitsOf n.natAbs = _; rw [hzero]; rfl)
    · exact .inr (head?_digitsOf _ hpos)
  fraction := nofun
  exponent := nofun

theorem integerText_eq (n : Int) : (integerText n).toList = (NumberText.ofInt n).chars := by
  cases n with
  | ofNat m =>
    show (String.ofList _).toList = digitsOf m ++ ([] ++ [])
    rw [String.toList_ofList, List.append_nil, List.append_nil]
  | negSucc m =>
    have hneg : decide (Int.negSucc m < 0) = true := decide_eq_true (Int.negSucc_lt_zero m)
    unfold NumberText.ofInt
    rw [hneg]
    show (String.ofList _).toList = '-' :: (digitsOf (m + 1) ++ ([] ++ []))
    rw [String.toList_ofList, List.append_nil, List.append_nil]

theorem signed_natAbs (n : Int) : signed (decide (n < 0)) n.natAbs = n := by
  unfold signed
  split
  · rename_i h
    have := of_decide_eq_true h
    omega
  · rename_i h
    have := of_decide_eq_false (Bool.eq_false_iff.mpr h)
    omega

/-- A text for a decimal: of its value, with a fraction or an exponent. -/
structure NumberText.Denotes (t : NumberText) (d : Decimal) : Prop where
  proper : t.Proper
  isDecimal : ¬(t.fraction = none ∧ t.exponent = none)
  value : (t.coefficient : ℚ) * 10 ^ t.power = d.value

/-- A text whose digits are those of a coefficient denotes the decimal if the
point stands right. -/
theorem NumberText.denotes_of_coefficient {t : NumberText} {d : Decimal} (ht : t.Proper)
    (hdecimal : ¬(t.fraction = none ∧ t.exponent = none))
    (hcoefficient : t.coefficient = d.coefficient) (hpower : t.power = d.exponent) :
    t.Denotes d where
  proper := ht
  isDecimal := hdecimal
  value := by rw [hcoefficient, hpower, Decimal.value]

theorem allDigits_zero : AllDigits ['0'] := by
  intro c hc
  rw [List.mem_singleton.mp hc]
  decide

theorem decimalValue_cons_zero (cs : List Char) : decimalValue ('0' :: cs) = decimalValue cs := by
  have h := decimalValue_append ['0'] cs
  rwa [show decimalValue ['0'] = 0 from rfl, Nat.zero_mul, Nat.zero_add] at h

/-- The digits of an exponent, at least two. -/
def paddedExponent (e : Int) : List Char :=
  if (digitsOf e.natAbs).length < 2 then '0' :: digitsOf e.natAbs else digitsOf e.natAbs

theorem exponentText_eq (e : Int) :
    exponentText e = (if decide (e < 0) then '-' else '+') :: paddedExponent e := by
  unfold exponentText
  by_cases h : e < 0
  · rw [if_pos h, if_pos (decide_eq_true h)]
    rfl
  · rw [if_neg h, if_neg (by rw [decide_eq_false h]; decide)]
    rfl

theorem paddedExponent_spec (e : Int) : AllDigits (paddedExponent e) ∧ paddedExponent e ≠ [] ∧
    decimalValue (paddedExponent e) = e.natAbs := by
  have hdigits := allDigits_digitsOf e.natAbs
  unfold paddedExponent
  split
  · exact ⟨allDigits_zero.append hdigits, nofun,
      (decimalValue_cons_zero _).trans (decimalValue_digitsOf _)⟩
  · exact ⟨hdigits, digitsOf_ne_nil _, decimalValue_digitsOf _⟩

section Layout

variable {d : Decimal} (hpos : 0 < d.coefficient) (negative : Bool)

/-- A text for the decimal, as it is written. -/
def Written (d : Decimal) (negative : Bool) (cs : List Char) : Prop :=
  ∃ t : NumberText, t.Denotes d ∧ t.negative = negative ∧ t.chars = withSign negative cs

/-- All digits stand behind the point, after some zeros. -/
theorem written_fraction (n : Nat) (hn : d.exponent = -((n + (digitsOf d.coefficient).length : Nat) : Int)) :
    Written d negative ('0' :: '.' :: (zeros n ++ digitsOf d.coefficient)) := by
  refine ⟨⟨negative, ['0'], some (zeros n ++ digitsOf d.coefficient), none⟩, ?_, rfl, ?_⟩
  · refine NumberText.denotes_of_coefficient ⟨allDigits_zero, nofun, .inl rfl, ?_, nofun⟩
      (fun h => nomatch h.1) ?_ ?_
    · rintro cs ⟨⟩
      exact ⟨(allDigits_zeros n).append (allDigits_digitsOf _),
        fun h => digitsOf_ne_nil _ (List.append_eq_nil_iff.mp h).2⟩
    · show decimalValue ('0' :: (zeros n ++ digitsOf d.coefficient)) = _
      rw [decimalValue_cons_zero, decimalValue_append, decimalValue_zeros, decimalValue_digitsOf,
        Nat.zero_mul, Nat.zero_add]
    · show 0 - ((zeros n ++ digitsOf d.coefficient).length : Int) = d.exponent
      rw [List.length_append, zeros, List.length_replicate]
      omega
  · show withSign negative (['0'] ++ (('.' :: _) ++ [])) = _
    rw [List.append_nil]
    rfl

include hpos in
/-- The point stands between the digits. -/
theorem written_point {k : Nat} (hk : k ≠ 0) (hlen : k < (digitsOf d.coefficient).length)
    (he : (k : Int) = d.exponent + (digitsOf d.coefficient).length) :
    Written d negative
      ((digitsOf d.coefficient).take k ++ '.' :: (digitsOf d.coefficient).drop k) := by
  have hdigits := allDigits_digitsOf d.coefficient
  refine ⟨⟨negative, (digitsOf d.coefficient).take k, some ((digitsOf d.coefficient).drop k), none⟩,
    ?_, rfl, ?_⟩
  · refine NumberText.denotes_of_coefficient ⟨hdigits.take k, ?_, .inr ?_, ?_, nofun⟩
      (fun h => nomatch h.1) ?_ ?_
    · exact fun h => (List.take_eq_nil_iff.mp h).elim hk (digitsOf_ne_nil _)
    · rw [List.head?_take, if_neg hk]
      exact head?_digitsOf _ hpos
    · rintro cs ⟨⟩
      refine ⟨hdigits.drop k, fun h => ?_⟩
      have := List.drop_eq_nil_iff.mp h
      omega
    · show decimalValue (_ ++ (some _).getD []) = _
      rw [Option.getD_some, List.take_append_drop, decimalValue_digitsOf]
    · show 0 - (((digitsOf d.coefficient).drop k).length : Int) = d.exponent
      rw [List.length_drop]
      omega
  · show withSign negative (_ ++ (('.' :: _) ++ [])) = _
    rw [List.append_nil]

include hpos in
/-- Zeros fill up to the point, and one stands behind it. -/
theorem written_whole {k : Nat} (hlen : (digitsOf d.coefficient).length ≤ k)
    (he : (k : Int) = d.exponent + (digitsOf d.coefficient).length) :
    Written d negative (digitsOf d.coefficient ++ zeros (k - (digitsOf d.coefficient).length) ++
      ['.', '0']) := by
  have hne := digitsOf_ne_nil d.coefficient
  have hvalue := decimalValue_digitsOf d.coefficient
  obtain ⟨n, hn⟩ := Nat.le.dest hlen
  have hzeros : k - (digitsOf d.coefficient).length = n := by omega
  have hwhole : AllDigits (digitsOf d.coefficient ++ zeros n) :=
    (allDigits_digitsOf _).append (allDigits_zeros _)
  have hcoefficient : decimalValue (digitsOf d.coefficient ++ zeros n ++ ['0']) =
      d.coefficient * 10 ^ (n + 1) := by
    rw [List.append_assoc, decimalValue_append, hvalue, decimalValue_append, decimalValue_zeros,
      List.length_append, zeros, List.length_replicate]
    show _ * 10 ^ (n + 1) + (0 * _ + 0) = _
    omega
  rw [hzeros]
  refine ⟨⟨negative, digitsOf d.coefficient ++ zeros n, some ['0'], none⟩, ⟨?_, ?_, ?_⟩, rfl, ?_⟩
  · refine ⟨hwhole, fun h => hne (List.append_eq_nil_iff.mp h).1, .inr ?_, ?_, nofun⟩
    · rw [List.head?_append_of_ne_nil _ hne]
      exact head?_digitsOf _ hpos
    · rintro cs ⟨⟩
      exact ⟨allDigits_zero, nofun⟩
  · exact fun h => nomatch h.1
  · show ((decimalValue (_ ++ ['0']) : Nat) : ℚ) * 10 ^ (-1 : Int) = _
    have hexponent : d.exponent = n := by omega
    rw [hcoefficient, Decimal.value, hexponent, zpow_natCast, zpow_neg_one]
    push_cast
    rw [pow_succ]
    field_simp
  · show withSign negative (_ ++ (('.' :: ['0']) ++ [])) = _
    rw [List.append_nil]

include hpos in
/-- The digits with an exponent. -/
theorem written_scientific {e : Int} (he : e = d.exponent + (digitsOf d.coefficient).length - 1) :
    Written d negative (scientific (digitsOf d.coefficient) e) := by
  have hdigits := allDigits_digitsOf d.coefficient
  have hlen : 0 < (digitsOf d.coefficient).length := List.length_pos_of_ne_nil (digitsOf_ne_nil _)
  obtain ⟨hpadded, hnonempty, hvalue⟩ := paddedExponent_spec e
  have hproper (fraction : Option (List Char))
      (hfraction : ∀ cs, fraction = some cs → AllDigits cs ∧ cs ≠ []) :
      NumberText.Proper ⟨negative, (digitsOf d.coefficient).take 1, fraction,
        some (decide (e < 0), paddedExponent e)⟩ := by
    refine ⟨hdigits.take 1, ?_, .inr ?_, hfraction, ?_⟩
    · exact fun h => (List.take_eq_nil_iff.mp h).elim one_ne_zero (digitsOf_ne_nil _)
    · rw [List.head?_take, if_neg one_ne_zero]
      exact head?_digitsOf _ hpos
    · rintro p ⟨⟩
      exact ⟨hpadded, hnonempty⟩
  unfold scientific
  dsimp only
  rw [exponentText_eq]
  by_cases hone : (digitsOf d.coefficient).length ≤ 1
  · have htake : (digitsOf d.coefficient).take 1 = digitsOf d.coefficient :=
      List.take_of_length_le hone
    refine ⟨_, NumberText.denotes_of_coefficient (hproper none nofun) (fun h => nomatch h.2) ?_ ?_,
      rfl, ?_⟩
    · show decimalValue (_ ++ []) = _
      rw [List.append_nil, htake, decimalValue_digitsOf]
    · show signed _ (decimalValue (paddedExponent e)) - ((0 : Nat) : Int) = _
      rw [hvalue, signed_natAbs]
      omega
    · rw [if_pos hone, List.drop_eq_nil_of_le hone, List.append_nil, List.append_nil]
      rfl
  · refine ⟨_, NumberText.denotes_of_coefficient
      (hproper (some ((digitsOf d.coefficient).drop 1)) ?_) (fun h => nomatch h.1) ?_ ?_, rfl, ?_⟩
    · rintro cs ⟨⟩
      refine ⟨hdigits.drop 1, fun h => ?_⟩
      have := List.drop_eq_nil_iff.mp h
      omega
    · show decimalValue ((digitsOf d.coefficient).take 1 ++ (digitsOf d.coefficient).drop 1) = _
      rw [List.take_append_drop, decimalValue_digitsOf]
    · show signed _ (decimalValue (paddedExponent e)) -
        (((digitsOf d.coefficient).drop 1).length : Int) = _
      rw [hvalue, signed_natAbs, List.length_drop]
      omega
    · rw [if_neg hone, List.append_assoc, List.append_assoc]
      rfl

include hpos in
/-- **The digits of a decimal are written as a number's text**, whichever way they
are laid out. -/
theorem written_layout : Written d negative (literalLayout.write d) := by
  unfold Layout.write
  dsimp only
  rw [Int.ofNat_eq_natCast]
  have hdigits : 0 < (digitsOf d.coefficient).length :=
    List.length_pos_of_ne_nil (digitsOf_ne_nil _)
  split
  · rename_i hpositional
    have hlow : -4 ≤ d.exponent + (digitsOf d.coefficient).length - 1 := hpositional.1
    have hhigh : d.exponent + (digitsOf d.coefficient).length - 1 < 16 := hpositional.2
    rw [sub_add_cancel]
    unfold positional
    split
    · rename_i k hk
      rw [Int.ofNat_eq_natCast] at hk
      split
      · rename_i hzero
        exact written_fraction negative 0 (by omega)
      · split
        · rename_i hzero hlen
          exact written_point hpos negative hzero hlen hk.symm
        · rename_i hzero hlen
          rw [show literalLayout.keepsPoint = true from rfl, if_pos rfl]
          exact written_whole hpos negative (by omega) hk.symm
    · rename_i k hk
      exact written_fraction negative (k + 1) (by omega)
  · exact written_scientific hpos negative rfl

end Layout

/-! ### Numbers -/

/-- The literal of a finite number other than zero denotes the shortest digits
that read back. -/
theorem literal_written {x : Float} {negative : Bool} {m : Nat} {e : Int}
    (hdecode : decode x = .finite negative m e) (hm : 0 < m) :
    ∃ t : NumberText, (literal x).toList = t.chars ∧ t.negative = negative ∧ t.Denotes (shortest m e) := by
  obtain ⟨t, ht, hnegative, hchars⟩ :=
    written_layout (shortest_pos (canonical_of_decode hdecode hm)) negative
  refine ⟨t, ?_, hnegative, ht⟩
  unfold literal
  rw [hdecode]
  split
  · rename_i heq; cases heq
  · rename_i heq; cases heq
  · rename_i heq
    cases heq
    cases hm
  · rename_i heq
    cases heq
    rw [String.toList_ofList, hchars]

end RuleScript.Json
