/-
# How runs fail

Where no host is bound, a run that fails ends with a fault of one of the four
kinds, with one exception (`failures_stay_in_the_taxonomy`). Natives turn what
goes wrong inside them into faults, exhaustion becomes a fault when it leaves
the program, and there is nothing left to go wrong but the conversion of a
number literal: the double nearest to an integer need not exist. So an internal
error comes out only if a literal in base two, eight or sixteen is too large,
in the text that is run or in one that was run before on the same runner.

It does come out then. A literal in such a base that is a whole program gives
its number if it has one, and an internal error if it has none
(`eval_literal`).

This is a policy on the stops and the literals of a program, with any value
anywhere and no natives from outside.

Key definitions: `Fits`, `Runner.Request.RunsText`, `Policy.confined`.
Key theorems: `Policy.confined_eval`, `eval_literal`, `failures_stay_in_the_taxonomy`.
-/
import RuleScript.Proofs.Policy.Session
import RuleScript.Proofs.Reduction.Operand

namespace RuleScript

open Number

/-! ### The policy -/

/-- A literal whose conversion goes wrong in no other way than these. -/
def LiteralWithin (allowed : InternalError → Prop) (text suffix : String) : Prop :=
  ∀ e, literalNumber text suffix = .error (.internal e) → allowed e

/-- The literals of a source text have a number, or are malformed: none is too
large. -/
def Fits (text : String) : Prop :=
  ∀ spans nodes, parse spans text = .ok nodes → ∀ n ∈ nodes,
    n.MadeOf (fun _ => True) (LiteralWithin fun _ => False)

/-- Whether a token is a number. -/
def Lexeme.isNumber : Lexeme → Bool
  | .number _ => true
  | _ => false

theorem fits_of_no_number {text : String}
    (h : ((tokens text).getD []).all (!·.lexeme.isNumber) = true) : Fits text := by
  intro spans nodes hnodes
  obtain ⟨ts, hts, hassemble⟩ := exists_tokens_of_parse hnodes
  rw [tokens_eq_some_iff.mpr hts, Option.getD_some, List.all_eq_true] at h
  refine assemble_madeOf (fun t ht digits hdigits => ?_) (by rintro _ ⟨⟩) (by rintro _ ⟨⟩) hassemble
  have hnot := h t ht
  rw [hdigits] at hnot
  cases hnot

/-- A request to run a text with some property. -/
inductive Runner.Request.RunsText (p : String → Prop) : Runner.Request → Prop
  | eval {text : String} (h : p text) : RunsText p (.eval text)
  | handle {text : String} (h : p text) : RunsText p (.handle text)

namespace Policy

/-- Without natives from outside, these are the only internal errors that come
out. -/
def confined (allowed : InternalError → Prop) : Policy where
  value _ _ := True
  scope _ _ := True
  link _ _ := True
  closed _ := False
  emptying := True
  literal := LiteralWithin allowed
  foreign := False
  stop s := ∀ e trace, s = .internal e trace → allowed e

variable {allowed : InternalError → Prop}

instance : (confined allowed).Nests where
  value_mono _ _ := trivial
  scope_mono _ _ := trivial
  scalar _ := trivial
  newArray _ _ := trivial
  newDict _ _ := trivial
  newFunction _ _ := trivial
  link _ := trivial
  not_closed _ := id
  fault _ _ _ h := by cases h
  exhausted _ _ h := by cases h
  traced {s} calls hs e trace h := by
    cases s with
    | fault f => cases h
    | exhausted t => cases h
    | internal e' t =>
      obtain ⟨rfl, -⟩ := Stop.internal.inj h
      exact hs e' t rfl
  literal {text suffix e} hl he := by
    rintro _ _ ⟨⟩
    exact hl e he
  foreign := False.elim
  newScope _ _ _ _ := trivial
  nest _ := trivial

instance : (confined allowed).Empties := ⟨trivial⟩

theorem confined_text {text : String} (h : Fits text) : (confined fun _ => False).text text :=
  fun _ spans nodes hnodes => h spans nodes hnodes

/-- Whatever the text, a literal can only be too large. -/
theorem confined_text_tooLarge (text : String) : (confined (· = .tooLarge)).text text :=
  fun _ _ _ hnodes => parse_madeOf (fun _ htext _ he => literalNumber_internal htext he) hnodes

theorem confined_session {p : String → Prop} (hp : ∀ text, p text → (confined allowed).text text)
    (settings : Settings) (source : String) (keep : Bool) (hosts : Array Host)
    {requests : List Runner.Request} (hrequests : ∀ q ∈ requests, q.RunsText p) :
    (confined allowed).Session
      ((Runner.create settings source keep hosts none).serveAll requests) := by
  refine Session.serveAll (session_create settings source keep (fun _ _ => False.elim) (.inl rfl)
    fun _ => False.elim) fun q hq h => ?_
  cases hrequests q hq with
  | eval htext => exact hp _ htext
  | handle htext => exact hp _ htext

/-- **A run that fails ends with a fault, or with an internal error that is
allowed.** -/
theorem confined_eval {r : Runner} (hr : (confined allowed).Session r) {text : String}
    (htext : (confined allowed).text text) {s : Stop} (hs : (r.eval text).1 = .error s) :
    (∃ f, s = .fault f) ∨ ∃ e trace, s = .internal e trace ∧ allowed e := by
  obtain ⟨s', hstop, rfl⟩ := (hr.eval htext).stop s hs
  cases s' with
  | fault f => exact .inl ⟨f, rfl⟩
  | exhausted t => exact .inl ⟨_, rfl⟩
  | internal e t => exact .inr ⟨e, t, rfl, hstop e t rfl⟩

end Policy

/-! ### Messages -/

/-- The message of a fault starts with its kind and its text. -/
theorem report_fault (runner source : String) (focus : Option Position) (f : Fault) :
    ∃ rest, (report runner source focus (.fault f)).1 =
      f.cause.kind.label ++ ": " ++ f.text ++ rest := by
  let context := f.line.bind fun l => sourceContext? source l f.column
  refine ⟨andLine context ++ andLine (callTrace? (f.trace.getD [])), ?_⟩
  rw [← String.append_assoc]
  rfl

theorem concluded_failure {text : String} {p : Except Stop Value × Runner} {s : Stop}
    {message : String} {token : Option FaultToken}
    (h : (Runner.concluded text p).1 = .failure s message token) :
    p.1 = .error s ∧ message = (report p.2.source text p.2.machine.focus s).1 :=
  (Runner.concluded_report h).imp_right fun hreport => (congrArg Prod.fst hreport).symm

/-! ### Literals -/

/-- What a literal whose integer is `n` gives: its number, or an internal error
if it has none. -/
def integerOutcome (n : Nat) : Except Stop Value :=
  match Number.ofInt? n with
  | some x => .ok (.number x)
  | none => .error (.internal .tooLarge none)

/-- A run of one literal. -/
theorem runNodes_number (r : Runner) (pos : Position) {text suffix : String} {n : Nat}
    (h : literalNumber text suffix = numberOfInteger n) :
    (r.runNodes [.number pos text suffix]).1 = integerOutcome n := by
  rcases hscope : r.programScope with ⟨scope, r'⟩
  let ctx : Context := ⟨scope, r'.source, r'.settings⟩
  obtain ⟨m, hm, -⟩ := Eval.fire_run ctx "RULE" "number" pos r'.machine
  have hrun : (Engine.level maxLevels).evaluate ctx [.number pos text suffix] r'.machine =
      evaluateLiteral ctx pos text suffix m := by
    show evaluateList _ ctx [Primary.node (.number pos text suffix)] r'.machine = _
    rw [evaluateList_primary _ ctx rfl]
    exact Eval.bind_run_ok hm _
  unfold Runner.runNodes
  rw [hscope]
  dsimp only
  rw [hrun, evaluateLiteral, h, numberOfInteger, integerOutcome]
  cases Number.ofInt? n <;> rfl

/-- The radix suffixes and their bases. -/
def radixSuffixes : List (Char × Nat) := [('B', 2), ('O', 8), ('H', 16)]

section Literal

variable {suffix : Char} {base : Nat} (hsuffix : (suffix, base) ∈ radixSuffixes)

include hsuffix

theorem isRadix_of_mem : IsRadix base := by
  simp only [radixSuffixes, List.mem_cons, Prod.mk.injEq, List.not_mem_nil, or_false] at hsuffix
  rcases hsuffix with ⟨-, rfl⟩ | ⟨-, rfl⟩ | ⟨-, rfl⟩
  · exact .inl rfl
  · exact .inr (.inl rfl)
  · exact .inr (.inr rfl)

theorem suffix_of_mem : isNumberChar suffix = true ∧ isRadixSuffix suffix = true := by
  simp only [radixSuffixes, List.mem_cons, Prod.mk.injEq, List.not_mem_nil, or_false] at hsuffix
  rcases hsuffix with ⟨rfl, -⟩ | ⟨rfl, -⟩ | ⟨rfl, -⟩ <;> decide

theorem literalNumber_of_mem (text : String) :
    literalNumber text (String.ofList [suffix]) = radixNumber base text := by
  simp only [radixSuffixes, List.mem_cons, Prod.mk.injEq, List.not_mem_nil, or_false] at hsuffix
  rcases hsuffix with ⟨rfl, rfl⟩ | ⟨rfl, rfl⟩ | ⟨rfl, rfl⟩ <;> rfl

theorem literalNumber_of_digits {digits : List Char} (hne : digits ≠ [])
    (hdigits : ∀ x ∈ digits, (baseDigit? base x).isSome = true) :
    literalNumber (String.ofList digits) (String.ofList [suffix]) =
      numberOfInteger (digitsValue base (digits.filterMap (baseDigit? base))) := by
  have hbase := isRadix_of_mem hsuffix
  rw [literalNumber_of_mem hsuffix]
  exact radixNumber_of_digits hbase hne fun x hx => plainDigit_of_digit hbase (hdigits x hx)

/-- **A literal that is the whole program gives its number, if it has one.** -/
theorem eval_literal (r : Runner) {c : Char} (hc : '0' ≤ c ∧ c ≤ '9') {cs : List Char}
    (hdigits : ∀ x ∈ c :: cs, (baseDigit? base x).isSome = true) :
    (r.eval (String.ofList (c :: (cs ++ [suffix])))).1 =
      integerOutcome (digitsValue base ((c :: cs).filterMap (baseDigit? base))) := by
  have hbase := isRadix_of_mem hsuffix
  obtain ⟨hnumber, hradix⟩ := suffix_of_mem hsuffix
  have hnumbers : ∀ x ∈ cs ++ [suffix], isNumberChar x = true := by
    refine List.forall_mem_append.mpr ⟨fun x hx => ?_, List.forall_mem_singleton.mpr hnumber⟩
    exact (plainDigit_of_digit hbase (hdigits x (List.mem_cons_of_mem c hx))).number
  have hsplit : splitSuffix (c :: (cs ++ [suffix])) = (c :: cs, [suffix]) := by
    unfold splitSuffix
    rw [← List.cons_append, List.getLast?_concat, List.dropLast_concat]
    dsimp only
    rw [if_pos hradix]
  have hliteral := literalNumber_of_digits hsuffix (List.cons_ne_nil c cs) hdigits
  unfold Runner.eval
  dsimp only
  rw [parse_number hc hnumbers, Node.ofNumber, hsplit]
  exact runNodes_number _ _ hliteral

end Literal

/-- **Failures stay in the taxonomy, except for literals that are too large.**
On a runner without a host that has run any texts, a run of any text that fails
ends with a fault or with the one internal error of a literal without a
number. If no literal is too large, in this text or in those before, it ends
with a fault, and the message that a host gets names one of the four kinds. A
program that is one literal in base two, eight or sixteen gives its number, and
an internal error if there is none. -/
theorem failures_stay_in_the_taxonomy (settings : Settings) (source : String) (keep : Bool)
    (hosts : Array Host) (requests : List Runner.Request) :
    let r := (Runner.create settings source keep hosts none).serveAll requests
    ((∀ q ∈ requests, q.RunsText fun _ => True) → ∀ text s, (r.eval text).1 = .error s →
      (∃ f, s = .fault f) ∨ ∃ trace, s = .internal .tooLarge trace) ∧
    ((∀ q ∈ requests, q.RunsText Fits) → ∀ text, Fits text →
      (∀ s, (r.eval text).1 = .error s → ∃ f, s = .fault f) ∧
      ∀ s message token, (r.handle text).1 = .failure s message token →
        ∃ f rest, s = .fault f ∧ message = f.cause.kind.label ++ ": " ++ f.text ++ rest) ∧
    ∀ suffix base, (suffix, base) ∈ radixSuffixes → ∀ c cs, '0' ≤ c ∧ c ≤ '9' →
      (∀ x ∈ c :: cs, (baseDigit? base x).isSome = true) →
        (r.eval (String.ofList (c :: (cs ++ [suffix])))).1 =
          integerOutcome (digitsValue base ((c :: cs).filterMap (baseDigit? base))) := by
  intro r
  refine ⟨fun hrequests text s hs => ?_, fun hrequests text htext => ?_, ?_⟩
  · have hr : (Policy.confined (· = .tooLarge)).Session r :=
      Policy.confined_session (fun text _ => Policy.confined_text_tooLarge text) settings source keep
        hosts hrequests
    refine (Policy.confined_eval hr (Policy.confined_text_tooLarge text) hs).imp_right ?_
    rintro ⟨_, trace, rfl, rfl⟩
    exact ⟨trace, rfl⟩
  · have hr : (Policy.confined fun _ => False).Session r :=
      Policy.confined_session (fun _ => Policy.confined_text) settings source keep hosts hrequests
    have hfault {r : Runner} (hr : (Policy.confined fun _ => False).Session r) {s : Stop}
        (hs : (r.eval text).1 = .error s) : ∃ f, s = .fault f :=
      (Policy.confined_eval hr (Policy.confined_text htext) hs).resolve_right (by rintro ⟨_, _, _, ⟨⟩⟩)
    refine ⟨fun s => hfault hr, fun s message token h => ?_⟩
    rw [Runner.handle_eq] at h
    obtain ⟨hs, rfl⟩ := concluded_failure h
    obtain ⟨f, rfl⟩ := hfault hr.prepared hs
    obtain ⟨rest, hrest⟩ := report_fault _ text _ f
    exact ⟨f, rest, rfl, hrest⟩
  · intro suffix base hsuffix c cs hc hdigits
    exact eval_literal hsuffix r hc hdigits

/-- A call of a string, after an index that is no number, and a hexadecimal
literal. -/
theorem failures_stay_in_the_taxonomy_call :
    let r := (Runner.create ⟨none, "", false, .usual⟩ "" true #[] none).serveAll [.handle "['a']['b']"]
    Fits "'a'()" ∧ (∀ s, (r.eval "'a'()").1 = .error s → ∃ f, s = .fault f) ∧
      (r.eval "1FH").1 = integerOutcome 31 := by
  intro r
  have hrequests : ∀ q ∈ [Runner.Request.handle "['a']['b']"], q.RunsText Fits :=
    List.forall_mem_singleton.mpr (.handle (fits_of_no_number (by decide +kernel)))
  have htext : Fits "'a'()" := fits_of_no_number (by decide +kernel)
  obtain ⟨-, hfits, hliteral⟩ :=
    failures_stay_in_the_taxonomy ⟨none, "", false, .usual⟩ "" true #[] [.handle "['a']['b']"]
  have hdigits : ∀ x ∈ ['1', 'F'], (baseDigit? 16 x).isSome = true :=
    List.forall_mem_cons.mpr ⟨rfl, List.forall_mem_singleton.mpr rfl⟩
  exact ⟨htext, (hfits hrequests "'a'()" htext).1,
    hliteral 'H' 16 (by decide) '1' ['F'] (by decide) hdigits⟩

end RuleScript
