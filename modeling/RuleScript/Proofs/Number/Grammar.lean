/-
# The grammar of numerals

What a decimal numeral is, as a grammar: an optional sign, digits with an
optional point among them or behind them, or a point and digits, and an optional
exponent (`NumeralText`). The reader takes exactly these texts
(`read?_eq_some_iff`), with the digits that the grammar finds, and gives the
number nearest to what they denote (`Numeral.toNumber_nearest`).

Digits are of any script; which characters are digits, and of which value, is a
parameter of `Writes`, so that the integers of another base are of the same kind.

Key definitions: `Writes`, `SignText`, `NumeralText`, `Numeral.value`.
Key theorems: `digitsValue_eq`, `read?_eq_some_iff`, `Numeral.toNumber_nearest`.
-/
import Mathlib.Data.Nat.Digits.Defs
import RuleScript.Proofs.Number.Nearest

namespace RuleScript.Number

open RuleScript.Text

/-! ### Digits -/

/-- The digits that characters write, one by one. -/
def Writes (value? : Char → Option Nat) (cs : List Char) (ds : List Nat) : Prop :=
  cs.map value? = ds.map some

instance (value? : Char → Option Nat) (cs : List Char) (ds : List Nat) :
    Decidable (Writes value? cs ds) := inferInstanceAs (Decidable (cs.map value? = ds.map some))

/-- The number of digits is the sum of the powers of the base that they count. -/
theorem digitsValue_eq (base : Nat) (ds : List Nat) :
    digitsValue base ds = Nat.ofDigits base ds.reverse := by
  have hfrom : ∀ (ds : List Nat) (n : Nat),
      digitsValueFrom base n ds = Nat.ofDigits base ds.reverse + base ^ ds.length * n := by
    intro ds
    induction ds with
    | nil => exact fun n => by simp [digitsValueFrom]
    | cons d ds ih =>
      intro n
      show digitsValueFrom base (n * base + d) ds = _
      rw [ih, List.reverse_cons, Nat.ofDigits_append, Nat.ofDigits_singleton, List.length_reverse,
        List.length_cons, pow_succ]
      ring
  rw [digitsValue, hfrom, Nat.mul_zero, Nat.add_zero]

theorem digitsValue_append (base : Nat) (ds es : List Nat) :
    digitsValue base (ds ++ es) = digitsValue base ds * base ^ es.length + digitsValue base es := by
  rw [digitsValue_eq, digitsValue_eq, digitsValue_eq, List.reverse_append, Nat.ofDigits_append,
    List.length_reverse]
  ring

namespace Writes

variable {value? : Char → Option Nat} {c : Char} {cs cs' : List Char} {d : Nat} {ds ds' : List Nat}

theorem nil : Writes value? [] [] := rfl

theorem cons_iff : Writes value? (c :: cs) (d :: ds) ↔ value? c = some d ∧ Writes value? cs ds := by
  unfold Writes
  rw [List.map_cons, List.map_cons, List.cons.injEq]

theorem length_eq (h : Writes value? cs ds) : cs.length = ds.length := by
  have := congrArg List.length h
  rwa [List.length_map, List.length_map] at this

theorem ne_nil_iff (h : Writes value? cs ds) : cs ≠ [] ↔ ds ≠ [] := by
  rw [← List.length_pos_iff, ← List.length_pos_iff, h.length_eq]

/-- Digits are characters with a digit. -/
theorem isSome (h : Writes value? cs ds) : ∀ c ∈ cs, (value? c).isSome = true := by
  intro c hc
  obtain ⟨d, -, hd⟩ := List.mem_map.mp (h ▸ List.mem_map_of_mem hc)
  rw [← hd]
  rfl

/-- What is no digit does not stand among digits. -/
theorem not_mem (h : Writes value? cs ds) (hc : value? c = none) : c ∉ cs := by
  intro hmem
  have := h.isSome c hmem
  rw [hc] at this
  cases this

theorem filterMap_eq (h : Writes value? cs ds) : cs.filterMap value? = ds := by
  have hmap : cs.filterMap value? = (cs.map value?).filterMap id := by
    rw [List.filterMap_map]
    rfl
  rw [hmap, h, List.filterMap_map]
  exact List.filterMap_some

/-- Characters that all have a digit write those digits. -/
theorem of_isSome : ∀ {cs : List Char}, (∀ c ∈ cs, (value? c).isSome = true) →
    Writes value? cs (cs.filterMap value?)
  | [], _ => nil
  | c :: cs, h => by
    obtain ⟨hc, hcs⟩ := List.forall_mem_cons.mp h
    obtain ⟨d, hd⟩ := Option.isSome_iff_exists.mp hc
    rw [List.filterMap_cons_some hd]
    exact cons_iff.mpr ⟨hd, of_isSome hcs⟩

end Writes

/-- The text does not start with a digit. -/
def NoDigit (cs : List Char) : Prop := ∀ c, cs.head? = some c → digitValue? c = none

theorem noDigit_nil : NoDigit [] := nofun

theorem noDigit_cons {c : Char} {cs : List Char} (hc : digitValue? c = none) : NoDigit (c :: cs) := by
  rintro d ⟨⟩
  exact hc

/-- All digits at the front are taken. -/
theorem takeDigits_append {rest : List Char} (hrest : NoDigit rest) :
    ∀ {cs : List Char} {ds : List Nat}, Writes digitValue? cs ds →
      takeDigits (cs ++ rest) = (ds, rest)
  | [], [], _ => by
    cases rest with
    | nil => rfl
    | cons c rest =>
      show takeDigits (c :: rest) = _
      unfold takeDigits
      rw [hrest c rfl]
  | c :: cs, d :: ds, h => by
    obtain ⟨hc, hcs⟩ := Writes.cons_iff.mp h
    show takeDigits (c :: (cs ++ rest)) = _
    unfold takeDigits
    rw [hc, takeDigits_append hrest hcs]
  | [], _ :: _, h => absurd h.length_eq (by simp)
  | _ :: _, [], h => absurd h.length_eq (by simp)

/-- What is taken are digits, and no digit follows them. -/
theorem takeDigits_spec : ∀ cs : List Char, ∃ front, cs = front ++ (takeDigits cs).2 ∧
    Writes digitValue? front (takeDigits cs).1 ∧ NoDigit (takeDigits cs).2
  | [] => ⟨[], rfl, .nil, noDigit_nil⟩
  | c :: cs => by
    unfold takeDigits
    cases hc : digitValue? c with
    | none => exact ⟨[], rfl, .nil, noDigit_cons hc⟩
    | some d =>
      obtain ⟨front, hfront, hwrites, hrest⟩ := takeDigits_spec cs
      exact ⟨c :: front, congrArg (c :: ·) hfront, Writes.cons_iff.mpr ⟨hc, hwrites⟩, hrest⟩

/-! ### Signs -/

/-- An optional sign, and whether it is a minus. -/
inductive SignText : List Char → Bool → Prop
  | none : SignText [] false
  | plus : SignText ['+'] false
  | minus : SignText ['-'] true

/-- The text does not start with a sign. -/
def NoSign (cs : List Char) : Prop := ∀ c, cs.head? = some c → c ≠ '-' ∧ c ≠ '+'

variable {sign : List Char} {negative : Bool}

theorem takeSign_append (hsign : SignText sign negative) {cs : List Char} (hcs : NoSign cs) :
    takeSign (sign ++ cs) = (negative, cs) := by
  cases hsign with
  | plus | minus => rfl
  | none =>
    show takeSign cs = _
    unfold takeSign
    split
    · exact absurd rfl (hcs _ rfl).1
    · exact absurd rfl (hcs _ rfl).2
    · rfl

theorem takeSign_spec (cs : List Char) :
    ∃ sign, SignText sign (takeSign cs).1 ∧ cs = sign ++ (takeSign cs).2 := by
  unfold takeSign
  split
  · exact ⟨['-'], .minus, rfl⟩
  · exact ⟨['+'], .plus, rfl⟩
  · exact ⟨[], .none, rfl⟩

/-- Digits are no signs. -/
theorem noSign_of_writes {cs rest : List Char} {ds : List Nat} (h : Writes digitValue? cs ds)
    (hne : ds ≠ []) : NoSign (cs ++ rest) := by
  obtain ⟨c, cs, rfl⟩ := List.exists_cons_of_ne_nil (h.ne_nil_iff.mpr hne)
  rintro _ ⟨⟩
  exact ⟨fun heq => h.not_mem (c := '-') (by decide) (heq ▸ List.mem_cons_self),
    fun heq => h.not_mem (c := '+') (by decide) (heq ▸ List.mem_cons_self)⟩

/-! ### Numerals -/

/-- An optional exponent: its mark, an optional sign and digits. -/
inductive ExponentText : List Char → Int → Prop
  | none : ExponentText [] 0
  | some {mark : Char} {sign cs : List Char} {negative : Bool} {ds : List Nat}
    (hmark : mark = 'e' ∨ mark = 'E') (hsign : SignText sign negative)
    (hdigits : Writes digitValue? cs ds) (hne : ds ≠ []) :
    ExponentText (mark :: (sign ++ cs)) (signed negative (digitsValue 10 ds))

/-- The digits before and behind the point: digits and perhaps a point behind
them, digits on both sides of a point, or a point and digits. -/
inductive MantissaText : List Char → List Nat → List Nat → Prop
  | whole {cs : List Char} {ds : List Nat} (hdigits : Writes digitValue? cs ds) (hne : ds ≠ []) :
    MantissaText cs ds []
  | point {ws fs : List Char} {whole fraction : List Nat} (hwhole : Writes digitValue? ws whole)
    (hne : whole ≠ []) (hfraction : Writes digitValue? fs fraction) :
    MantissaText (ws ++ '.' :: fs) whole fraction
  | fraction {fs : List Char} {fraction : List Nat} (hfraction : Writes digitValue? fs fraction)
    (hne : fraction ≠ []) : MantissaText ('.' :: fs) [] fraction

/-- A decimal numeral: a sign, the digits and an exponent. -/
inductive NumeralText : List Char → Numeral → Prop
  | intro {sign mantissa exponent : List Char} {negative : Bool} {whole fraction : List Nat} {e : Int}
    (hsign : SignText sign negative) (hmantissa : MantissaText mantissa whole fraction)
    (hexponent : ExponentText exponent e) :
    NumeralText (sign ++ (mantissa ++ exponent)) ⟨negative, whole, fraction, e⟩

theorem exponentMark {mark : Char} (h : mark = 'e' ∨ mark = 'E') :
    digitValue? mark = none ∧ mark ≠ '.' := by
  rcases h with rfl | rfl <;> decide

/-- **An exponent is read as the grammar has it.** -/
theorem readExponent?_eq_some_iff {cs : List Char} {e : Int} :
    readExponent? cs = some e ↔ ExponentText cs e := by
  constructor
  · intro h
    unfold readExponent? at h
    split at h
    · cases h
      exact .none
    · rename_i mark cs
      split at h
      · rename_i hmark
        obtain ⟨sign, hsign, hcs⟩ := takeSign_spec cs
        generalize takeSign cs = signed at h hsign hcs
        obtain ⟨digits, hdigits, hwrites, -⟩ := takeDigits_spec signed.2
        dsimp only at h
        split at h
        · rename_i d ds htake
          rw [htake] at hdigits hwrites
          rw [List.append_nil] at hdigits
          cases h
          rw [hcs, hdigits]
          exact .some hmark hsign hwrites (List.cons_ne_nil d ds)
        · cases h
      · cases h
  · intro h
    cases h with
    | none => rfl
    | some hmark hsign hdigits hne =>
      have hsigned := takeSign_append hsign (List.append_nil _ ▸ noSign_of_writes hdigits hne)
      have htake := takeDigits_append noDigit_nil hdigits
      rw [List.append_nil] at htake
      obtain ⟨d, ds, rfl⟩ := List.exists_cons_of_ne_nil hne
      unfold readExponent?
      dsimp only
      rw [if_pos hmark, hsigned]
      dsimp only
      rw [htake]

theorem ExponentText.noDigit {cs : List Char} {e : Int} (h : ExponentText cs e) : NoDigit cs := by
  cases h with
  | none => exact noDigit_nil
  | some hmark => exact noDigit_cons (exponentMark hmark).1

theorem ExponentText.head?_ne {cs : List Char} {e : Int} (h : ExponentText cs e) (cs' : List Char) :
    cs ≠ '.' :: cs' := by
  rintro rfl
  cases h with
  | some hmark => exact (exponentMark hmark).2 rfl

/-- What is read of a numeral behind its sign. -/
def unsignedNumeral? (negative : Bool) (cs : List Char) : Option Numeral :=
  match takeDigits cs with
  | ([], '.' :: cs) =>
    match takeDigits cs with
    | ([], _) => none
    | (fraction, cs) => (readExponent? cs).map fun e => ⟨negative, [], fraction, e⟩
  | ([], _) => none
  | (whole, '.' :: cs) =>
    let (fraction, cs) := takeDigits cs
    (readExponent? cs).map fun e => ⟨negative, whole, fraction, e⟩
  | (whole, cs) => (readExponent? cs).map fun e => ⟨negative, whole, [], e⟩

theorem read?_eq (cs : List Char) :
    Numeral.read? cs = unsignedNumeral? (takeSign cs).1 (takeSign cs).2 := rfl

/-- What is read behind the sign is a mantissa and an exponent. -/
theorem unsignedNumeral?_sound {cs : List Char} {n : Numeral} (h : unsignedNumeral? negative cs = some n) :
    n.negative = negative ∧ ∃ mantissa exponent, cs = mantissa ++ exponent ∧
      MantissaText mantissa n.whole n.fraction ∧ ExponentText exponent n.exponent := by
  obtain ⟨front, hfront, hwhole, -⟩ := takeDigits_spec cs
  unfold unsignedNumeral? at h
  generalize takeDigits cs = taken at h hfront hwhole
  split at h
  · rename_i cs'
    obtain rfl := List.eq_nil_of_length_eq_zero hwhole.length_eq
    obtain ⟨digits, hdigits, hfraction, -⟩ := takeDigits_spec cs'
    generalize takeDigits cs' = taken at h hdigits hfraction
    split at h
    · cases h
    · rename_i fraction rest hne
      obtain ⟨e, he, rfl⟩ := Option.map_eq_some_iff.mp h
      have hfilled : fraction ≠ [] := hne
      exact ⟨rfl, '.' :: digits, rest, by rw [hfront, hdigits]; rfl, .fraction hfraction hfilled,
        readExponent?_eq_some_iff.mp he⟩
  · cases h
  · rename_i whole cs' hne
    obtain ⟨digits, hdigits, hfraction, -⟩ := takeDigits_spec cs'
    obtain ⟨e, he, rfl⟩ := Option.map_eq_some_iff.mp h
    have hfilled : whole ≠ [] := hne
    refine ⟨rfl, front ++ '.' :: digits, (takeDigits cs').2, ?_, .point hwhole hfilled hfraction,
      readExponent?_eq_some_iff.mp he⟩
    rw [List.append_assoc, List.cons_append, ← hdigits]
    exact hfront
  · rename_i whole rest _ hne _
    obtain ⟨e, he, rfl⟩ := Option.map_eq_some_iff.mp h
    have hfilled : whole ≠ [] := hne
    exact ⟨rfl, front, rest, hfront, .whole hwhole hfilled, readExponent?_eq_some_iff.mp he⟩

/-- A mantissa and an exponent are read. -/
theorem unsignedNumeral?_complete {mantissa exponent : List Char} {whole fraction : List Nat} {e : Int}
    (hmantissa : MantissaText mantissa whole fraction) (hexponent : ExponentText exponent e) :
    unsignedNumeral? negative (mantissa ++ exponent) = some ⟨negative, whole, fraction, e⟩ := by
  have hend := hexponent.noDigit
  have he := readExponent?_eq_some_iff.mpr hexponent
  have hpoint : digitValue? '.' = none := by decide
  unfold unsignedNumeral?
  cases hmantissa with
  | whole hdigits hne =>
    rw [takeDigits_append hend hdigits]
    obtain ⟨d, ds, rfl⟩ := List.exists_cons_of_ne_nil hne
    split
    · rename_i heq; cases heq
    · rename_i heq; cases heq
    · rename_i heq
      exact absurd (Prod.mk.inj heq).2 (hexponent.head?_ne _)
    · rename_i heq
      cases heq
      rw [he]
      rfl
  | point hwhole hne hfraction =>
    rw [List.append_assoc, List.cons_append, takeDigits_append (noDigit_cons hpoint) hwhole]
    obtain ⟨d, ds, rfl⟩ := List.exists_cons_of_ne_nil hne
    show (readExponent? (takeDigits (_ ++ exponent)).2).map (fun e => (⟨negative, d :: ds, _, e⟩ : Numeral)) = _
    rw [takeDigits_append hend hfraction]
    dsimp only
    rw [he]
    rfl
  | fraction hfraction hne =>
    rw [List.cons_append, ← List.nil_append ('.' :: _), takeDigits_append (noDigit_cons hpoint) .nil]
    split
    · rename_i heq
      cases heq
      rw [takeDigits_append hend hfraction]
      obtain ⟨d, ds, rfl⟩ := List.exists_cons_of_ne_nil hne
      dsimp only
      rw [he]
      rfl
    · rename_i hne heq
      cases heq
      exact absurd rfl (hne _)
    · rename_i hne heq
      cases heq
      exact absurd rfl hne
    · rename_i hne _ heq
      cases heq
      exact absurd rfl hne

theorem MantissaText.noSign {cs rest : List Char} {whole fraction : List Nat}
    (h : MantissaText cs whole fraction) : NoSign (cs ++ rest) := by
  cases h with
  | whole hdigits hne => exact noSign_of_writes hdigits hne
  | point hwhole hne =>
    rw [List.append_assoc]
    exact noSign_of_writes hwhole hne
  | fraction =>
    rintro _ ⟨⟩
    decide

/-- **The reader of numerals takes exactly the numerals**, and finds the digits
that the grammar finds. -/
theorem read?_eq_some_iff {cs : List Char} {n : Numeral} :
    Numeral.read? cs = some n ↔ NumeralText cs n := by
  constructor
  · intro h
    rw [read?_eq] at h
    obtain ⟨sign, hsign, hcs⟩ := takeSign_spec cs
    obtain ⟨hnegative, mantissa, exponent, hsplit, hmantissa, hexponent⟩ := unsignedNumeral?_sound h
    rw [← hnegative] at hsign
    rw [hcs, hsplit]
    exact .intro hsign hmantissa hexponent
  · rintro ⟨hsign, hmantissa, hexponent⟩
    rw [read?_eq, takeSign_append hsign hmantissa.noSign]
    exact unsignedNumeral?_complete hmantissa hexponent

/-! ### What a numeral denotes -/

/-- The magnitude that a numeral denotes. -/
def Numeral.value (n : Numeral) : ℚ :=
  (Nat.ofDigits 10 n.whole.reverse + Nat.ofDigits 10 n.fraction.reverse / 10 ^ n.fraction.length) *
    10 ^ n.exponent

/-- **A numeral counts as the number nearest to what it denotes.** -/
theorem Numeral.toNumber_nearest (n : Numeral) :
    Nearest n.negative n.value (decode n.toNumber) := by
  have hvalue : n.value = (digitsValue 10 (n.whole ++ n.fraction) : Nat) *
      10 ^ (n.exponent - Int.ofNat n.fraction.length) := by
    rw [digitsValue_append, digitsValue_eq, digitsValue_eq, Int.ofNat_eq_natCast,
      zpow_sub₀ (by norm_num), zpow_natCast]
    unfold Numeral.value
    push_cast
    field_simp
  rw [hvalue]
  exact ofDecimal_nearest _ _ _

end RuleScript.Number
