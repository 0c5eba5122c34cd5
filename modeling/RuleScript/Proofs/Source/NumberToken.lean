/-
# What number literals are accepted

A number token is any run of ASCII letters, digits and points that starts with a
digit. Its suffix decides what it must be. Without one, or with `D`, it must be
digits, perhaps a point and digits (or none) behind it, and perhaps `e` or `E` and
digits (`DecimalLiteral`). With `B`, `O` or `H` it must be digits of base two,
eight or sixteen, perhaps with a point and digits (or none) behind it, which do
not count (`RadixLiteral`). Every other number token is a fault of syntax, and
those that are accepted give the nearest number (`literals_by_suffix`). What a
literal of a base gives that is beyond all numbers is left out.

Key definitions: `DecimalLiteral`, `RadixLiteral`, `IsInvalid`, `Gives`.
Key theorems: `numeralText_iff`, `readNumber?_token`, `radixNumber_of_literal`,
`radixNumber_of_none`, `literals_by_suffix`.
-/
import RuleScript.Proofs.Number.Grammar
import RuleScript.Proofs.Source.Literal
import RuleScript.Proofs.Source.Placement
import RuleScript.Reduction.Evaluate

namespace RuleScript

open Text Number

/-! ### The grammar of literals -/

/-- A point and digits behind it, perhaps none, or nothing. -/
inductive PointText : List Char → List Nat → Prop
  | none : PointText [] []
  | some {fs : List Char} {fraction : List Nat} (hfraction : Writes (baseDigit? 10) fs fraction) :
    PointText ('.' :: fs) fraction

/-- The mark of an exponent and digits, or nothing. -/
inductive PowerText : List Char → Int → Prop
  | none : PowerText [] 0
  | some {mark : Char} {es : List Char} {ds : List Nat} (hmark : mark = 'e' ∨ mark = 'E')
    (hdigits : Writes (baseDigit? 10) es ds) (hne : ds ≠ []) :
    PowerText (mark :: es) (Nat.ofDigits 10 ds.reverse : Nat)

/-- A decimal literal and the numeral that it is. -/
inductive DecimalLiteral : List Char → Numeral → Prop
  | intro {ws fs es : List Char} {whole fraction : List Nat} {e : Int}
    (hwhole : Writes (baseDigit? 10) ws whole) (hne : whole ≠ []) (hpoint : PointText fs fraction)
    (hpower : PowerText es e) : DecimalLiteral (ws ++ (fs ++ es)) ⟨false, whole, fraction, e⟩

theorem DecimalLiteral.not_negative {cs : List Char} {n : Numeral} (h : DecimalLiteral cs n) :
    n.negative = false := by
  cases h
  rfl

/-- A literal in a base and its integer: digits, perhaps with a point and more
digits, or none, behind it. -/
inductive RadixLiteral (base : Nat) : List Char → Nat → Prop
  | whole {cs : List Char} {ds : List Nat} (hdigits : Writes (baseDigit? base) cs ds) (hne : ds ≠ []) :
    RadixLiteral base cs (Nat.ofDigits base ds.reverse)
  | point {cs fs : List Char} {ds es : List Nat} (hdigits : Writes (baseDigit? base) cs ds)
    (hne : ds ≠ []) (hfraction : Writes (baseDigit? base) fs es) :
    RadixLiteral base (cs ++ '.' :: fs) (Nat.ofDigits base ds.reverse)

/-! ### The characters of a number token -/

/-- A text of ASCII letters, digits and points that starts with a digit. -/
structure TokenText (cs : List Char) : Prop where
  number : ∀ c ∈ cs, isNumberChar c = true
  first : ∃ c rest, cs = c :: rest ∧ '0' ≤ c ∧ c ≤ '9'

/-- How the readers of numbers take a character of a number token: its digits are
ASCII digits, and it stays as it is. -/
structure PlainChar (c : Char) : Prop where
  digit : digitValue? c = baseDigit? 10 c
  plain : plainDigit c = c
  not_space : isSpace c = false
  not_underscore : c ≠ '_'
  not_sign : c ≠ '-' ∧ c ≠ '+'

theorem plainChar_of_number {c : Char} (hc : isNumberChar c = true) : PlainChar c := by
  have hall : ∀ n < 128, isNumberChar (Char.ofNat n) = true →
      digitValue? (Char.ofNat n) = baseDigit? 10 (Char.ofNat n) ∧
        plainDigit (Char.ofNat n) = Char.ofNat n ∧ isSpace (Char.ofNat n) = false ∧
        Char.ofNat n ≠ '_' ∧ Char.ofNat n ≠ '-' ∧ Char.ofNat n ≠ '+' := by
    decide +kernel
  obtain ⟨hdigit, hplain, hspace, hunderscore, hsign⟩ := forall_ascii
    (P := fun c => isNumberChar c = true → digitValue? c = baseDigit? 10 c ∧ plainDigit c = c ∧
      isSpace c = false ∧ c ≠ '_' ∧ c ≠ '-' ∧ c ≠ '+') hall (toNat_of_numberChar hc) hc
  exact ⟨hdigit, hplain, hspace, hunderscore, hsign⟩

/-- The digits of a number token are ASCII digits. -/
theorem writes_ascii_iff {cs : List Char} {ds : List Nat} (hcs : ∀ c ∈ cs, isNumberChar c = true) :
    Writes digitValue? cs ds ↔ Writes (baseDigit? 10) cs ds := by
  unfold Writes
  rw [List.map_congr_left fun c hc => (plainChar_of_number (hcs c hc)).digit]

/-- A number token has no sign. -/
theorem signText_of_number {sign rest : List Char} {negative : Bool} (h : SignText sign negative)
    (hcs : ∀ c ∈ sign ++ rest, isNumberChar c = true) : sign = [] ∧ negative = false := by
  cases h with
  | none => exact ⟨rfl, rfl⟩
  | plus => exact absurd (hcs '+' List.mem_cons_self) (by decide)
  | minus => exact absurd (hcs '-' List.mem_cons_self) (by decide)

theorem exponentText_iff {es : List Char} {e : Int} (hes : ∀ c ∈ es, isNumberChar c = true) :
    ExponentText es e ↔ PowerText es e := by
  constructor
  · intro h
    cases h with
    | none => exact .none
    | some hmark hsign hdigits hne =>
      have hrest := (List.forall_mem_cons.mp hes).2
      obtain ⟨rfl, rfl⟩ := signText_of_number hsign hrest
      rw [digitsValue_eq]
      exact .some hmark ((writes_ascii_iff hrest).mp hdigits) hne
  · intro h
    cases h with
    | none => exact .none
    | some hmark hdigits hne =>
      have hrest := (List.forall_mem_cons.mp hes).2
      rw [← digitsValue_eq]
      exact .some hmark .none ((writes_ascii_iff hrest).mpr hdigits) hne

theorem mantissaText_iff {ms : List Char} {whole fraction : List Nat}
    (hms : ∀ c ∈ ms, isNumberChar c = true) (hfirst : ms.head? ≠ some '.') :
    MantissaText ms whole fraction ↔ ∃ ws fs, ms = ws ++ fs ∧ Writes (baseDigit? 10) ws whole ∧
      whole ≠ [] ∧ PointText fs fraction := by
  constructor
  · intro h
    cases h with
    | whole hdigits hne =>
      exact ⟨ms, [], (List.append_nil ms).symm, (writes_ascii_iff hms).mp hdigits, hne, .none⟩
    | point hwhole hne hfraction =>
      obtain ⟨hws, hfs⟩ := List.forall_mem_append.mp hms
      exact ⟨_, _, rfl, (writes_ascii_iff hws).mp hwhole, hne,
        .some ((writes_ascii_iff (List.forall_mem_cons.mp hfs).2).mp hfraction)⟩
    | fraction => exact absurd rfl hfirst
  · rintro ⟨ws, fs, rfl, hwhole, hne, hpoint⟩
    obtain ⟨hws, hfs⟩ := List.forall_mem_append.mp hms
    cases hpoint with
    | none =>
      rw [List.append_nil]
      exact .whole ((writes_ascii_iff hws).mpr hwhole) hne
    | some hfraction =>
      exact .point ((writes_ascii_iff hws).mpr hwhole) hne
        ((writes_ascii_iff (List.forall_mem_cons.mp hfs).2).mpr hfraction)

/-- **The numerals among the number tokens are the decimal literals.** -/
theorem numeralText_iff {cs : List Char} (hcs : TokenText cs) {n : Numeral} :
    NumeralText cs n ↔ DecimalLiteral cs n := by
  obtain ⟨hnumber, c, rest, hfirst, hc⟩ := hcs
  have hpoint {ms es : List Char} (heq : ms ++ es = c :: rest) : ms.head? ≠ some '.' := by
    intro hdot
    obtain ⟨ms, rfl⟩ := List.head?_eq_some_iff.mp hdot
    obtain rfl := (List.cons.inj heq).1
    exact absurd hc (by decide)
  constructor
  · rintro ⟨hsign, hmantissa, hexponent⟩
    obtain ⟨rfl, rfl⟩ := signText_of_number hsign hnumber
    rw [List.nil_append] at hnumber hfirst ⊢
    obtain ⟨hms, hes⟩ := List.forall_mem_append.mp hnumber
    obtain ⟨ws, fs, rfl, hwhole, hne, hfraction⟩ := (mantissaText_iff hms (hpoint hfirst)).mp hmantissa
    rw [List.append_assoc]
    exact .intro hwhole hne hfraction ((exponentText_iff hes).mp hexponent)
  · rintro ⟨hwhole, hne, hfraction, hpower⟩
    rw [← List.append_assoc] at hnumber hfirst ⊢
    obtain ⟨hms, hes⟩ := List.forall_mem_append.mp hnumber
    exact .intro .none ((mantissaText_iff hms (hpoint hfirst)).mpr ⟨_, _, rfl, hwhole, hne, hfraction⟩)
      ((exponentText_iff hes).mpr hpower)

/-! ### Reading a decimal literal -/

/-- A number token is read as a numeral, or not at all. -/
theorem readNumber?_token {cs : List Char} (hcs : TokenText cs) :
    readNumber? (String.ofList cs) = (Numeral.read? cs).map Numeral.toNumber := by
  obtain ⟨hnumber, c, rest, rfl, hc⟩ := hcs
  have hplain (x : Char) (hx : x ∈ c :: rest) : PlainChar x := plainChar_of_number (hnumber x hx)
  have hstrip : stripEnds isSpace (String.ofList (c :: rest)) = String.ofList (c :: rest) := by
    refine stripEnds_of_none fun x hx => ?_
    rw [String.toList_ofList] at hx
    exact (hplain x hx).not_space
  have hsign : takeSign (c :: rest) = (false, c :: rest) := by
    refine takeSign_append .none ?_
    rintro _ ⟨⟩
    exact (hplain c List.mem_cons_self).not_sign
  have hword {w : String} (hw : w.toList.head? = some 'i' ∨ w.toList.head? = some 'n') :
      String.ofList (lowerAscii (c :: rest)) ≠ w := by
    rintro rfl
    rw [String.toList_ofList] at hw
    have hletter : c.toLower = 'i' ∨ c.toLower = 'n' := hw.imp Option.some.inj Option.some.inj
    have hdigit : ∀ n < 128, '0' ≤ Char.ofNat n ∧ Char.ofNat n ≤ '9' →
        (Char.ofNat n).toLower ≠ 'i' ∧ (Char.ofNat n).toLower ≠ 'n' := by decide +kernel
    obtain ⟨hi, hn⟩ := forall_ascii (P := fun c => '0' ≤ c ∧ c ≤ '9' → c.toLower ≠ 'i' ∧ c.toLower ≠ 'n')
      hdigit (Nat.lt_of_le_of_lt hc.2 (by decide)) hc
    exact hletter.elim hi hn
  unfold readNumber?
  rw [hstrip, String.toList_ofList, map_plainDigit_of_fixed fun x hx => (hplain x hx).plain]
  dsimp only
  rw [dropUnderscores?_of_none (by decide) fun x hx => (hplain x hx).not_underscore,
    Option.bind_eq_bind, Option.bind_some, hsign]
  dsimp only
  rw [if_neg (not_or.mpr ⟨hword (.inl rfl), hword (.inl rfl)⟩), if_neg (hword (.inr rfl))]
  cases Numeral.read? (c :: rest) <;> rfl

/-- Without a suffix, or with `D`, a literal is what its text is read as. -/
theorem literalNumber_decimal (text : String) {suffix : String} (h : suffix ∈ ["", "D"]) :
    literalNumber text suffix = (readNumber? text).elim (.error .malformed)
      fun x => if Number.isNaN x then .error .malformed else .ok x := by
  have hsuffix : suffix = "" ∨ suffix = "D" := by simpa using h
  unfold literalNumber
  rw [if_pos hsuffix]
  cases readNumber? text <;> rfl

/-- A decimal literal gives the number nearest to what it denotes. -/
theorem readNumber?_literal {cs : List Char} (hcs : TokenText cs) {n : Numeral} (h : DecimalLiteral cs n) :
    readNumber? (String.ofList cs) = some n.toNumber := by
  rw [readNumber?_token hcs, read?_eq_some_iff.mpr ((numeralText_iff hcs).mpr h)]
  rfl

/-- Any other number token is not read. -/
theorem readNumber?_none {cs : List Char} (hcs : TokenText cs) (h : ¬∃ n, DecimalLiteral cs n) :
    readNumber? (String.ofList cs) = none := by
  have hread : Numeral.read? cs = none := by
    rw [Option.eq_none_iff_forall_ne_some]
    exact fun n hn => h ⟨n, (numeralText_iff hcs).mp (read?_eq_some_iff.mp hn)⟩
  rw [readNumber?_token hcs, hread]
  rfl

/-! ### Reading a literal in a base -/

section Radix

variable {base : Nat} (hbase : IsRadix base)

/-- A text is cut at its first point. -/
theorem split_at_point {ws rest : List Char} (hws : ∀ c ∈ ws, c ≠ '.')
    (hrest : rest = [] ∨ ∃ fs, rest = '.' :: fs) :
    (ws ++ rest).takeWhile (· ≠ '.') = ws ∧ (ws ++ rest).dropWhile (· ≠ '.') = rest := by
  have hws' : ∀ c ∈ ws, decide (c ≠ '.') = true := fun c hc => decide_eq_true (hws c hc)
  rw [List.takeWhile_append_of_pos hws', List.dropWhile_append_of_pos hws']
  rcases hrest with rfl | ⟨fs, rfl⟩
  · exact ⟨List.append_nil ws, rfl⟩
  · exact ⟨List.append_nil ws, rfl⟩

include hbase in
/-- Digits with perhaps a point and more digits behind it are the number of the
integer before the point. -/
theorem radixNumber_append {ws rest : List Char} {ds : List Nat} (hdigits : Writes (baseDigit? base) ws ds)
    (hne : ds ≠ []) (hrest : rest = [] ∨ ∃ fs, rest = '.' :: fs)
    (hfraction : ∀ c ∈ rest.drop 1, (baseDigit? base c).isSome = true) :
    radixNumber base (String.ofList (ws ++ rest)) = numberOfInteger (Nat.ofDigits base ds.reverse) := by
  have hplain : ∀ c ∈ ws, PlainDigit base c := fun c hc => plainDigit_of_digit hbase (hdigits.isSome c hc)
  obtain ⟨hwhole, hdrop⟩ := split_at_point (fun c hc => (hplain c hc).not_point) hrest
  have hcheck : ((ws ++ rest.drop 1).flatMap upperChar).all (isBaseDigit base) = true := by
    rw [List.all_flatMap, List.all_append, Bool.and_eq_true, List.all_eq_true, List.all_eq_true]
    exact ⟨fun c hc => (hplain c hc).upper, fun c hc => (plainDigit_of_digit hbase (hfraction c hc)).upper⟩
  have hws := hdigits.ne_nil_iff.mpr hne
  unfold radixNumber
  rw [String.toList_ofList]
  dsimp only
  rw [hwhole, hdrop, hcheck, List.isEmpty_eq_false_iff.mpr hws, readInteger_of_digits hbase hws hplain,
    hdigits.filterMap_eq, digitsValue_eq]
  rfl

include hbase in
/-- **A literal in a base is the number of its integer.** -/
theorem radixNumber_of_literal {cs : List Char} {n : Nat} (h : RadixLiteral base cs n) :
    radixNumber base (String.ofList cs) = numberOfInteger n := by
  cases h with
  | whole hdigits hne =>
    rw [← List.append_nil cs]
    exact radixNumber_append hbase hdigits hne (.inl rfl) nofun
  | point hdigits hne hfraction =>
    exact radixNumber_append hbase hdigits hne (.inr ⟨_, rfl⟩) hfraction.isSome

include hbase in
/-- **Any other number token in a base is malformed.** -/
theorem radixNumber_of_none {cs : List Char} (hcs : ∀ c ∈ cs, isNumberChar c = true)
    (h : ¬∃ n, RadixLiteral base cs n) : radixNumber base (String.ofList cs) = .error .malformed := by
  unfold radixNumber
  rw [String.toList_ofList]
  dsimp only
  split
  · rfl
  · rename_i hcheck
    rw [Bool.not_eq_true, Bool.or_eq_false_iff, List.isEmpty_eq_false_iff, Bool.not_eq_false',
      List.all_flatMap, List.all_append, Bool.and_eq_true, List.all_eq_true, List.all_eq_true] at hcheck
    obtain ⟨hne, hwhole, hfraction⟩ := hcheck
    have hsplit := List.takeWhile_append_dropWhile (p := fun c => decide (c ≠ '.')) (l := cs)
    have hdrop : cs.dropWhile (· ≠ '.') = [] ∨ ∃ fs, cs.dropWhile (· ≠ '.') = '.' :: fs := by
      cases hrest : cs.dropWhile (· ≠ '.') with
      | nil => exact .inl rfl
      | cons c fs =>
        have hc : decide (c ≠ '.') = false := by
          have := List.head?_dropWhile_not (fun c => decide (c ≠ '.')) cs
          rw [hrest] at this
          simpa using this
        obtain rfl : c = '.' := not_not.mp (of_decide_eq_false hc)
        exact .inr ⟨fs, rfl⟩
    have hdigits {ds : List Char} (hds : ∀ c ∈ ds, c ∈ cs)
        (hcheck : ∀ c ∈ ds, (upperChar c).all (isBaseDigit base) = true) :
        Writes (baseDigit? base) ds (ds.filterMap (baseDigit? base)) :=
      .of_isSome fun c hc => (plainDigit_of_check hbase (hcs c (hds c hc)) (hcheck c hc)).digit
    have hwhole := hdigits (fun c hc => List.takeWhile_subset _ hc) hwhole
    refine absurd ?_ h
    rcases hdrop with hdrop | ⟨fs, hdrop⟩
    · rw [hdrop, List.append_nil] at hsplit
      rw [← hsplit]
      exact ⟨_, .whole hwhole (hwhole.ne_nil_iff.mp hne)⟩
    · rw [hdrop] at hsplit hfraction
      have hfraction := hdigits
        (fun c hc => hsplit ▸ List.mem_append_right _ (List.mem_cons_of_mem _ hc)) hfraction
      rw [← hsplit]
      exact ⟨_, .point hwhole (hwhole.ne_nil_iff.mp hne) hfraction⟩

end Radix

/-! ### The nodes of a source text -/

/-- A literal gives the number nearest to a rational, and changes nothing. -/
def Gives (ctx : Context) (pos : Position) (text suffix : String) (q : ℚ) : Prop :=
  ∃ x, Nearest false q (decode x) ∧ ∀ m, evaluateLiteral ctx pos text suffix m = (.ok (.number x), m)

/-- A literal is a fault of syntax at its place, and changes nothing. -/
def IsInvalid (ctx : Context) (pos : Position) (text suffix : String) : Prop :=
  ∃ f : Fault, f.cause.kind = .syntactic ∧ f.cause.message = "invalid number" ∧ f.line = pos.line ∧
    f.column = pos.column ∧ ∀ m, evaluateLiteral ctx pos text suffix m = (.error (.fault f), m)

theorem isInvalid_of_malformed {ctx : Context} {pos : Position} {text suffix : String}
    (h : literalNumber text suffix = .error .malformed) : IsInvalid ctx pos text suffix := by
  refine ⟨.raisedAt .invalidNumber (some pos) ctx.source, rfl, rfl, rfl, rfl, fun m => ?_⟩
  unfold evaluateLiteral
  rw [h]
  rfl

theorem gives_of_ok {ctx : Context} {pos : Position} {text suffix : String} {x : Float} {q : ℚ}
    (h : literalNumber text suffix = .ok x) (hx : Nearest false q (decode x)) : Gives ctx pos text suffix q := by
  refine ⟨x, hx, fun m => ?_⟩
  unfold evaluateLiteral
  rw [h]
  rfl

/-- The suffix of a number token is a letter that names a radix, or empty. -/
theorem splitSuffix_cases {token text suffix : List Char} (h : splitSuffix token = (text, suffix)) :
    suffix = [] ∨ ∃ d, suffix = [d] ∧ isRadixSuffix d = true := by
  unfold splitSuffix at h
  split at h
  · split at h
    · rename_i d _ hd
      obtain ⟨-, rfl⟩ := Prod.mk.inj h
      exact .inr ⟨d, rfl, hd⟩
    · exact .inl (Prod.mk.inj h).2.symm
  · exact .inl (Prod.mk.inj h).2.symm

/-- **A number of a source text is a number token without its suffix.** -/
theorem parse_number_token {source : String} {spans : Nat} {nodes : List Node}
    (h : parse spans source = .ok nodes)
    {pos : Position} {text suffix : String} (hn : (Node.number pos text suffix).Occurs nodes) :
    TokenText text.toList ∧ suffix ∈ ["", "D", "B", "O", "H"] := by
  obtain ⟨hproper, x, before, rest, more, hpieces, -, hreads, -, -⟩ := parse_occurs h hn
  obtain rfl : x = .number (text.toList ++ suffix.toList) := by
    rw [Node.pieces] at hpieces
    exact (congrArg Piece.lexeme (List.cons.inj hpieces).1).symm
  obtain hsuffix : suffix.toList = [] ∨ ∃ d, suffix.toList = [d] ∧ isRadixSuffix d = true := by
    cases hproper with
    | number _ hsplit => exact splitSuffix_cases hsplit
  have hmember : suffix ∈ ["", "D", "B", "O", "H"] := by
    rcases hsuffix with hnil | ⟨d, hd, hradix⟩
    · rw [String.toList_eq_nil_iff.mp hnil]
      decide
    · have hofList : suffix = String.ofList [d] := by rw [← hd, String.ofList_toList]
      rw [hofList]
      simp only [isRadixSuffix, Bool.or_eq_true, decide_eq_true_eq] at hradix
      rcases hradix with ((rfl | rfl) | rfl) | rfl <;> decide
  refine ⟨?_, hmember⟩
  generalize htoken : text.toList ++ suffix.toList = token at hreads
  cases hreads with
  | @number c cs _ hc hcs _ =>
    have hnumber : ∀ x ∈ text.toList ++ suffix.toList, isNumberChar x = true := by
      rw [htoken]
      refine List.forall_mem_cons.mpr ⟨?_, hcs⟩
      simp [isNumberChar, hc]
    refine ⟨(List.forall_mem_append.mp hnumber).1, ?_⟩
    cases htext : text.toList with
    | nil =>
      -- The suffix alone would be a digit.
      rw [htext, List.nil_append] at htoken
      rcases hsuffix with hnil | ⟨d, hd, hradix⟩
      · rw [hnil] at htoken
        cases htoken
      · rw [hd] at htoken
        obtain rfl := (List.cons.inj htoken).1
        have hdigit : ∀ n < 128, '0' ≤ Char.ofNat n ∧ Char.ofNat n ≤ '9' →
            isRadixSuffix (Char.ofNat n) = false := by decide +kernel
        have hnone := forall_ascii (P := fun c => '0' ≤ c ∧ c ≤ '9' → isRadixSuffix c = false) hdigit
          (Nat.lt_of_le_of_lt hc.2 (by decide)) hc
        rw [hnone] at hradix
        cases hradix
    | cons c' cs' =>
      rw [htext, List.cons_append] at htoken
      obtain rfl := (List.cons.inj htoken).1
      exact ⟨_, _, rfl, hc⟩

section Literals

variable {ctx : Context} {pos : Position} {text suffix : String} (htoken : TokenText text.toList)

include htoken in
theorem gives_decimal (hsuffix : suffix ∈ ["", "D"]) {n : Numeral} (h : DecimalLiteral text.toList n) :
    Gives ctx pos text suffix n.value := by
  have hread := readNumber?_literal htoken h
  have hnearest := n.toNumber_nearest
  rw [h.not_negative] at hnearest
  rw [String.ofList_toList] at hread
  refine gives_of_ok ?_ hnearest
  rw [literalNumber_decimal text hsuffix, hread, Option.elim_some, hnearest.isNaN,
    if_neg Bool.false_ne_true]

include htoken in
theorem isInvalid_decimal (hsuffix : suffix ∈ ["", "D"]) (h : ¬∃ n, DecimalLiteral text.toList n) :
    IsInvalid ctx pos text suffix := by
  have hread := readNumber?_none htoken h
  rw [String.ofList_toList] at hread
  refine isInvalid_of_malformed ?_
  rw [literalNumber_decimal text hsuffix, hread, Option.elim_none]

variable {base : Nat} (hsuffix : (suffix, base) ∈ [("B", 2), ("O", 8), ("H", 16)])

include hsuffix in
/-- A radix suffix names a base, and the literal is read in it. -/
theorem literalNumber_radix : IsRadix base ∧ ∀ text, literalNumber text suffix = radixNumber base text := by
  simp only [List.mem_cons, Prod.mk.injEq, List.not_mem_nil, or_false] at hsuffix
  rcases hsuffix with ⟨rfl, rfl⟩ | ⟨rfl, rfl⟩ | ⟨rfl, rfl⟩
  · exact ⟨.inl rfl, fun _ => rfl⟩
  · exact ⟨.inr (.inl rfl), fun _ => rfl⟩
  · exact ⟨.inr (.inr rfl), fun _ => rfl⟩

include hsuffix in
theorem gives_radix {n : Nat} (h : RadixLiteral base text.toList n) (hfits : (n : ℚ) < overflow) :
    Gives ctx pos text suffix n := by
  obtain ⟨hbase, hliteral⟩ := literalNumber_radix hsuffix
  have hnumber := radixNumber_of_literal hbase h
  obtain ⟨x, hx, hnearest⟩ := (ofInt?_nearest n).1 hfits
  rw [String.ofList_toList, numberOfInteger, hx] at hnumber
  exact gives_of_ok ((hliteral text).trans hnumber) hnearest

include htoken hsuffix in
theorem isInvalid_radix (h : ¬∃ n, RadixLiteral base text.toList n) : IsInvalid ctx pos text suffix := by
  obtain ⟨hbase, hliteral⟩ := literalNumber_radix hsuffix
  have hnumber := radixNumber_of_none hbase htoken.number h
  rw [String.ofList_toList] at hnumber
  exact isInvalid_of_malformed ((hliteral text).trans hnumber)

end Literals

/-- **Number literals are accepted by the grammar of their suffix.** Every number
of a source text, without a suffix or with `D`, gives the number nearest to what
it denotes if it is a decimal literal, and is a fault of syntax otherwise; with
`B`, `O` or `H` it gives the number nearest to its integer in base two, eight or
sixteen, if the integer has one, and is a fault of syntax if it is no literal of
the base. -/
theorem literals_by_suffix {source : String} {spans : Nat} {nodes : List Node}
    (h : parse spans source = .ok nodes)
    {pos : Position} {text suffix : String} (hn : (Node.number pos text suffix).Occurs nodes)
    (ctx : Context) :
    suffix ∈ ["", "D", "B", "O", "H"] ∧
      (suffix ∈ ["", "D"] →
        (∀ n, DecimalLiteral text.toList n → Gives ctx pos text suffix n.value) ∧
        ((¬∃ n, DecimalLiteral text.toList n) → IsInvalid ctx pos text suffix)) ∧
      ∀ base, (suffix, base) ∈ [("B", 2), ("O", 8), ("H", 16)] →
        (∀ n, RadixLiteral base text.toList n → (n : ℚ) < overflow → Gives ctx pos text suffix n) ∧
        ((¬∃ n, RadixLiteral base text.toList n) → IsInvalid ctx pos text suffix) := by
  obtain ⟨htoken, hsuffix⟩ := parse_number_token h hn
  refine ⟨hsuffix, fun hdecimal => ⟨fun n => gives_decimal htoken hdecimal, isInvalid_decimal htoken hdecimal⟩,
    fun base hradix => ⟨fun n => gives_radix hradix, isInvalid_radix htoken hradix⟩⟩

/-- The digits behind the point of `0AB.ABH` are checked and dropped: it gives
171. -/
theorem literals_by_suffix_hexadecimal :
    let source := String.ofList ['0', 'A', 'B', '.', 'A', 'B', 'H']
    let text := String.ofList ['0', 'A', 'B', '.', 'A', 'B']
    let ctx : Context := ⟨⟨0⟩, "main", ⟨none, "", false, .usual⟩⟩
    let number : Node := .number ⟨some 1, some 1, 0⟩ text "H"
    parse Room.usual.spans source = .ok [number] ∧ number.Occurs [number] ∧ RadixLiteral 16 text.toList 171 ∧
      ((171 : Nat) : ℚ) < overflow ∧ Gives ctx ⟨some 1, some 1, 0⟩ text "H" (171 : Nat) := by
  intro source text ctx number
  have hnumbers : ['A', 'B', '.', 'A', 'B', 'H'].all isNumberChar = true := by decide
  have hparse : parse Room.usual.spans source = .ok [number] :=
    parse_number (by decide) (List.all_eq_true.mp hnumbers) _
  have hoccurs : number.Occurs [number] := .among (List.mem_singleton_self _)
  have hliteral : RadixLiteral 16 text.toList 171 := by
    have hwhole : Writes (baseDigit? 16) ['0', 'A', 'B'] [0, 10, 11] := by decide
    have hfraction : Writes (baseDigit? 16) ['A', 'B'] [10, 11] := by decide
    rw [String.toList_ofList]
    exact .point hwhole (by decide) hfraction
  have hfits : ((171 : Nat) : ℚ) < overflow := by
    have hpower : (1 : ℚ) ≤ 2 ^ (971 : Int) := one_le_zpow₀ one_le_two (by decide)
    exact lt_of_lt_of_le (by norm_num) (le_mul_of_one_le_right (by norm_num) hpower)
  obtain ⟨-, -, hradix⟩ := literals_by_suffix hparse hoccurs ctx
  exact ⟨hparse, hoccurs, hliteral, hfits, (hradix 16 (by decide)).1 171 hliteral hfits⟩

/-- No digit needs to stand behind the point of a decimal literal: `1.` gives a
number. -/
theorem point_needs_no_digit :
    ¬∀ (source : String) (nodes : List Node) (pos : Position) (text : String) (ctx : Context) (q : ℚ),
      parse Room.usual.spans source = .ok nodes → (Node.number pos text "").Occurs nodes → Gives ctx pos text "" q →
        ∃ n, DecimalLiteral text.toList n ∧ ('.' ∈ text.toList → n.fraction ≠ []) := by
  intro h
  let text := String.ofList ['1', '.']
  let number : Node := .number ⟨some 1, some 1, 0⟩ text ""
  have hpoint : ['.'].all isNumberChar = true := by decide
  have hparse : parse Room.usual.spans text = .ok [number] :=
    parse_number (by decide) (List.all_eq_true.mp hpoint) _
  have hoccurs : number.Occurs [number] := .among (List.mem_singleton_self _)
  obtain ⟨htoken, -⟩ := parse_number_token hparse hoccurs
  have hliteral : DecimalLiteral text.toList ⟨false, [1], [], 0⟩ := by
    have hwhole : Writes (baseDigit? 10) ['1'] [1] := by decide
    rw [String.toList_ofList]
    exact .intro hwhole (by decide) (.some .nil) .none
  let ctx : Context := ⟨⟨0⟩, "main", ⟨none, "", false, .usual⟩⟩
  have hgives : Gives ctx ⟨some 1, some 1, 0⟩ text "" _ := gives_decimal htoken (by decide) hliteral
  obtain ⟨n, hn, hfraction⟩ := h _ _ _ _ _ _ hparse hoccurs hgives
  have hread := read?_eq_some_iff.mpr ((numeralText_iff htoken).mpr hliteral)
  rw [read?_eq_some_iff.mpr ((numeralText_iff htoken).mpr hn)] at hread
  obtain rfl := Option.some.inj hread
  exact hfraction (by rw [String.toList_ofList]; decide) rfl

end RuleScript
