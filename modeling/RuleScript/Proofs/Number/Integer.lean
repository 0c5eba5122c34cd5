/-
# The grammar of integers

An integer of a base is wider than its digits: an optional sign, perhaps the
announcement of the base once more with an underscore behind it, and digits with
single underscores between them (`IntegerText`). `readInteger` takes exactly
these texts, with the blanks at the ends taken off and every decimal digit written
in ASCII (`readInteger_eq_ok_iff`). Base ten is left out, where the number of
digits is limited.

Key definitions: `DigitRun`, `IntegerText`.
Key theorems: `dropUnderscores?_iff`, `readInteger_eq_ok_iff`.
-/
import Mathlib.Data.List.TakeWhile
import RuleScript.Proofs.Number.Grammar

namespace RuleScript.Number

open RuleScript.Text

variable {base : Nat}

/-- Digits of a base with single underscores between them, and their values. An
underscore may only stand behind a digit (`after`), and so may the end. -/
inductive DigitRun (base : Nat) : (after : Bool) → List Char → List Nat → Prop
  | done : DigitRun base true [] []
  | digit {after : Bool} {c : Char} {cs : List Char} {d : Nat} {ds : List Nat}
    (hc : baseDigit? base c = some d) (h : DigitRun base true cs ds) :
    DigitRun base after (c :: cs) (d :: ds)
  | underscore {cs : List Char} {ds : List Nat} (h : DigitRun base false cs ds) :
    DigitRun base true ('_' :: cs) ds

/-- The announcement of a base, perhaps with an underscore behind it, or
nothing. -/
inductive MarkText (base : Nat) : List Char → Prop
  | none : MarkText base []
  | mark {m : Char} (hm : isBaseMark base m = true) : MarkText base ['0', m]
  | underscore {m : Char} (hm : isBaseMark base m = true) : MarkText base ['0', m, '_']

/-- An integer of a base: a sign, an announcement and a run of digits. -/
inductive IntegerText (base : Nat) : List Char → Int → Prop
  | intro {sign mark cs : List Char} {negative : Bool} {ds : List Nat} (hsign : SignText sign negative)
    (hmark : MarkText base mark) (hdigits : DigitRun base false cs ds) :
    IntegerText base (sign ++ (mark ++ cs)) (signed negative (digitsValue base ds))

/-! ### Runs of digits -/

/-- What may stand in a run of digits. -/
def isRunChar (base : Nat) (c : Char) : Bool := c = '_' || (baseDigit? base c).isSome

theorem baseDigit?_other {c : Char} (hc : c = '_' ∨ c = '-' ∨ c = '+' ∨ c = ' ') :
    baseDigit? base c = none := by
  have hradix : radixDigit? c = none := by
    rcases hc with rfl | rfl | rfl | rfl <;> decide
  rw [baseDigit?, hradix]
  rfl

/-- The announcement of a base is no digit of it. -/
theorem baseDigit?_mark {m : Char} (hm : isBaseMark base m = true) : baseDigit? base m = none := by
  simp only [isBaseMark, Bool.or_eq_true, Bool.and_eq_true, decide_eq_true_eq] at hm
  rcases hm with (⟨rfl, rfl | rfl⟩ | ⟨rfl, rfl | rfl⟩) | ⟨rfl, rfl | rfl⟩ <;> decide

namespace DigitRun

variable {after : Bool} {cs : List Char} {ds : List Nat}

theorem isRunChar (h : DigitRun base after cs ds) : ∀ c ∈ cs, isRunChar base c = true := by
  induction h with
  | done => exact nofun
  | digit hc _ ih =>
    refine List.forall_mem_cons.mpr ⟨?_, ih⟩
    unfold Number.isRunChar
    rw [hc]
    exact Bool.or_true _
  | underscore _ ih => exact List.forall_mem_cons.mpr ⟨rfl, ih⟩

/-- A run that starts starts with a digit. -/
theorem head (h : DigitRun base false cs ds) : ∃ c cs' d ds', cs = c :: cs' ∧ ds = d :: ds' ∧
    baseDigit? base c = some d := by
  cases h with
  | digit hc => exact ⟨_, _, _, _, rfl, rfl, hc⟩

end DigitRun

/-- **Underscores are taken out of a run of digits**, and of nothing else. The
character before decides whether a digit must come. -/
theorem dropUnderscores?_iff : ∀ {cs : List Char} {before : Char} {ds : List Nat},
    (∀ c ∈ cs, isRunChar base c = true) → ((baseDigit? base before).isSome = true ∨ before = '_') →
    ((dropUnderscores? (fun c => (baseDigit? base c).isSome) before cs).map
        (List.filterMap (baseDigit? base)) = some ds ↔
      DigitRun base (baseDigit? base before).isSome cs ds)
  | [], before, ds, _, hbefore => by
    unfold dropUnderscores?
    split
    · rename_i heq
      rw [heq, baseDigit?_other (.inl rfl)]
      exact iff_of_false nofun nofun
    · rename_i hne
      rw [hbefore.resolve_right hne]
      constructor
      · rintro ⟨⟩
        exact .done
      · rintro ⟨⟩
        rfl
  | c :: cs, before, ds, hcs, hbefore => by
    obtain ⟨hc, hrest⟩ := List.forall_mem_cons.mp hcs
    unfold dropUnderscores?
    by_cases hunderscore : c = '_'
    · subst hunderscore
      have hnone : baseDigit? base '_' = none := baseDigit?_other (.inl rfl)
      rw [if_pos rfl]
      cases hdigit : (baseDigit? base before).isSome with
      | true =>
        rw [if_pos rfl, dropUnderscores?_iff hrest (.inr rfl), hnone]
        constructor
        · exact .underscore
        · intro h
          cases h with
          | digit hc => rw [hnone] at hc; cases hc
          | underscore h => exact h
      | false =>
        rw [if_neg Bool.false_ne_true]
        refine iff_of_false nofun ?_
        rintro (_ | hc | _)
        rw [hnone] at hc
        cases hc
    · obtain ⟨d, hd⟩ : ∃ d, baseDigit? base c = some d := by
        unfold isRunChar at hc
        rw [decide_eq_false hunderscore, Bool.false_or] at hc
        exact Option.isSome_iff_exists.mp hc
      have ih (ds : List Nat) := @dropUnderscores?_iff cs c ds hrest (.inl (by rw [hd]; rfl))
      rw [hd] at ih
      rw [if_neg hunderscore, if_neg (by rw [hd]; simp), Option.map_map]
      generalize (baseDigit? base before).isSome = after
      constructor
      · intro h
        obtain ⟨es, hes, rfl⟩ := Option.map_eq_some_iff.mp h
        show DigitRun base _ (c :: cs) (List.filterMap (baseDigit? base) (c :: es))
        rw [List.filterMap_cons_some hd]
        exact .digit hd ((ih _).mp (by rw [hes]; rfl))
      · intro h
        cases h with
        | digit hc h =>
          obtain ⟨es, hes, hds⟩ := Option.map_eq_some_iff.mp ((ih _).mpr h)
          rw [hes]
          show some (List.filterMap (baseDigit? base) (c :: es)) = _
          rw [List.filterMap_cons_some hc, hds]
        | underscore => exact absurd rfl hunderscore

theorem IntegerText.ne_nil {cs : List Char} {n : Int} (h : IntegerText base cs n) : cs ≠ [] := by
  obtain ⟨hsign, hmark, hdigits⟩ := h
  obtain ⟨c, rest, d, ds, rfl, rfl, -⟩ := hdigits.head
  exact fun h => List.cons_ne_nil _ _ (List.append_eq_nil_iff.mp (List.append_eq_nil_iff.mp h).2).2

/-! ### Reading an integer -/

variable {cs : List Char}

/-- The start of a text is like the place behind an underscore: a digit must
come. -/
theorem dropUnderscores?_start {c : Char} (hc : isRunChar base c = true) :
    dropUnderscores? (fun c => (baseDigit? base c).isSome) ' ' (c :: cs) =
      dropUnderscores? (fun c => (baseDigit? base c).isSome) '_' (c :: cs) := by
  unfold dropUnderscores?
  rw [baseDigit?_other (c := ' ') (by decide), baseDigit?_other (c := '_') (by decide)]
  split
  · rfl
  · rename_i hne
    unfold isRunChar at hc
    rw [decide_eq_false hne, Bool.false_or] at hc
    rw [hc]
    rfl

/-- **The digits of an integer are a run that takes the whole text.** -/
theorem leadingDigits?_iff {ds : List Nat} :
    leadingDigits? base cs = some ds ∧ ds ≠ [] ∧ afterDigits base cs = [] ↔ DigitRun base false cs ds := by
  have hafter : afterDigits base cs = [] ↔ ∀ c ∈ cs, isRunChar base c = true :=
    List.dropWhile_eq_nil_iff
  have hleading (hcs : ∀ c ∈ cs, isRunChar base c = true) (hne : cs ≠ []) :
      leadingDigits? base cs = (dropUnderscores? (fun c => (baseDigit? base c).isSome) '_' cs).map
        (List.filterMap (baseDigit? base)) := by
    have hrun : cs.takeWhile (fun c => c = '_' || (baseDigit? base c).isSome) = cs :=
      List.takeWhile_eq_self_iff.mpr hcs
    obtain ⟨c, rest, rfl⟩ := List.exists_cons_of_ne_nil hne
    unfold leadingDigits?
    dsimp only
    rw [hrun, dropUnderscores?_start (hcs c List.mem_cons_self)]
    cases dropUnderscores? (fun c => (baseDigit? base c).isSome) '_' (c :: rest) <;> rfl
  have hnone : baseDigit? base '_' = none := baseDigit?_other (.inl rfl)
  have hiff {ds : List Nat} (hcs : ∀ c ∈ cs, isRunChar base c = true) :=
    @dropUnderscores?_iff base cs '_' ds hcs (.inr rfl)
  rw [hnone] at hiff
  constructor
  · rintro ⟨hds, hne, hrest⟩
    have hcs := hafter.mp hrest
    have hnonempty : cs ≠ [] := by
      rintro rfl
      exact hne (Option.some.inj hds).symm
    exact (hiff hcs).mp ((hleading hcs hnonempty).symm.trans hds)
  · intro h
    have hcs := h.isRunChar
    obtain ⟨c, cs', d, ds', rfl, rfl, -⟩ := h.head
    exact ⟨(hleading hcs nofun).trans ((hiff hcs).mpr h), nofun, hafter.mpr hcs⟩

theorem skipBaseMark_spec (cs : List Char) :
    ∃ mark, MarkText base mark ∧ cs = mark ++ skipBaseMark base cs := by
  unfold skipBaseMark
  split
  · rename_i m rest
    split
    · rename_i hm
      split
      · exact ⟨_, .underscore hm, rfl⟩
      · exact ⟨_, .mark hm, rfl⟩
    · exact ⟨[], .none, rfl⟩
  · exact ⟨[], .none, rfl⟩

/-- What starts with a digit of a base does not start with an underscore. -/
theorem skipBaseMark_append {mark : List Char} {ds : List Nat} (hmark : MarkText base mark)
    (hdigits : DigitRun base false cs ds) : skipBaseMark base (mark ++ cs) = cs := by
  obtain ⟨c, rest, d, ds, rfl, rfl, hd⟩ := hdigits.head
  have hne : c ≠ '_' := by
    rintro rfl
    rw [baseDigit?_other (.inl rfl)] at hd
    cases hd
  cases hmark with
  | none =>
    show skipBaseMark base (c :: rest) = _
    unfold skipBaseMark
    split
    · rename_i m cs heq
      obtain ⟨rfl, rfl⟩ := List.cons.inj heq
      have hm : isBaseMark base m = false := by
        have hrun := hdigits.isRunChar m (by simp)
        by_contra hm
        have hm := Bool.eq_true_of_not_eq_false hm
        unfold isRunChar at hrun
        rw [baseDigit?_mark hm, Option.isSome_none, Bool.or_false, decide_eq_true_iff] at hrun
        rw [hrun] at hm
        simp [isBaseMark] at hm
      rw [hm]
      rfl
    · rfl
  | @mark m hm =>
    show skipBaseMark base ('0' :: m :: c :: rest) = _
    rw [skipBaseMark, if_pos hm]
    rintro _ heq
    exact hne (List.cons.inj heq).1
  | @underscore m hm =>
    show (if isBaseMark base m = true then c :: rest else '0' :: m :: '_' :: c :: rest) = _
    exact if_pos hm

theorem noSign_of_run {mark : List Char} {ds : List Nat} (hmark : MarkText base mark)
    (hdigits : DigitRun base false cs ds) : NoSign (mark ++ cs) := by
  cases hmark with
  | mark | underscore =>
    rintro _ ⟨⟩
    decide
  | none =>
    obtain ⟨c, rest, d, ds, rfl, rfl, hd⟩ := hdigits.head
    rintro _ ⟨⟩
    constructor
    · rintro rfl
      rw [baseDigit?_other (.inr (.inl rfl))] at hd
      cases hd
    · rintro rfl
      rw [baseDigit?_other (.inr (.inr (.inl rfl)))] at hd
      cases hd

/-- The text that an integer is read from: without the blanks at the ends, and
with every decimal digit written in ASCII. -/
def integerChars (s : String) : List Char := (stripEnds isSpace s).toList.map plainDigit

/-- What is read behind the sign and the announcement of an integer. -/
def unsignedInteger (base : Nat) (negative : Bool) (cs : List Char) : Except IntegerError Int := do
  let some digits := leadingDigits? base cs
    | throw .malformed
  if base = 10 ∧ integerDigitLimit < digits.length then throw (.tooLong digits.length)
  if digits.isEmpty ∨ afterDigits base cs ≠ [] then throw .malformed
  return signed negative (digitsValue base digits)

theorem readInteger_eq (s : String) : readInteger base s =
    unsignedInteger base (takeSign (integerChars s)).1
      (skipBaseMark base (takeSign (integerChars s)).2) := by
  unfold readInteger unsignedInteger integerChars
  cases hleading : leadingDigits? base
      (skipBaseMark base (takeSign ((stripEnds isSpace s).toList.map plainDigit)).2) with
  | none => simp only [hleading]
  | some digits => simp only [hleading]

/-- A run of digits is read, and nothing else. -/
theorem unsignedInteger_eq_ok_iff (hbase : base ≠ 10) {negative : Bool} {n : Int} :
    unsignedInteger base negative cs = .ok n ↔
      ∃ ds, DigitRun base false cs ds ∧ n = signed negative (digitsValue base ds) := by
  unfold unsignedInteger
  cases hleading : leadingDigits? base cs with
  | none =>
    refine iff_of_false nofun ?_
    rintro ⟨ds, hds, -⟩
    rw [(leadingDigits?_iff.mpr hds).1] at hleading
    cases hleading
  | some digits =>
    have hiff (ds : List Nat) := @leadingDigits?_iff base cs ds
    rw [hleading] at hiff
    dsimp only
    rw [if_neg (fun h => hbase h.1)]
    by_cases hrefused : digits.isEmpty = true ∨ afterDigits base cs ≠ []
    · rw [if_pos hrefused]
      refine iff_of_false nofun ?_
      rintro ⟨ds, hds, -⟩
      obtain ⟨hdigits, hne, hafter⟩ := (hiff ds).mpr hds
      rw [Option.some.inj hdigits, List.isEmpty_iff] at hrefused
      exact hrefused.elim hne (fun h => h hafter)
    · rw [if_neg hrefused]
      rw [not_or, List.isEmpty_iff, not_not] at hrefused
      constructor
      · intro h
        exact ⟨digits, (hiff digits).mp ⟨rfl, hrefused⟩, (Except.ok.inj h).symm⟩
      · rintro ⟨ds, hds, rfl⟩
        rw [Option.some.inj ((hiff ds).mpr hds).1]
        rfl

/-- **An integer of a base is read as the grammar has it.** -/
theorem readInteger_eq_ok_iff (hbase : base ≠ 10) {s : String} {n : Int} :
    readInteger base s = .ok n ↔ IntegerText base (integerChars s) n := by
  rw [readInteger_eq, unsignedInteger_eq_ok_iff hbase]
  generalize integerChars s = cs
  constructor
  · rintro ⟨ds, hdigits, rfl⟩
    obtain ⟨sign, hsign, hcs⟩ := takeSign_spec cs
    obtain ⟨mark, hmark, hrest⟩ := @skipBaseMark_spec base (takeSign cs).2
    rw [hrest] at hcs
    generalize takeSign cs = taken at hdigits hsign hcs
    rw [hcs]
    exact .intro hsign hmark hdigits
  · rintro ⟨hsign, hmark, hdigits⟩
    rw [takeSign_append hsign (noSign_of_run hmark hdigits)]
    dsimp only
    rw [skipBaseMark_append hmark hdigits]
    exact ⟨_, hdigits, rfl⟩

end RuleScript.Number
