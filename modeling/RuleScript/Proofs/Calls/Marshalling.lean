/-
# Values are handed over as they are

A function that is called with values gets them as nodes: value nodes with
commas between. The call cuts them at the commas and evaluates them like the
arguments in a source text. What comes out is the list of the values, in order
and with the same arrays, dicts and functions in it, and nothing is looked up
or changed on the way. A node that carries a value is no comma, whatever the
value, so no value is taken for syntax; only the mark of a missing value is
refused (`evaluateArguments_valueNodes`).

A callback is handed the longest part at the front of the values that it takes
(`Heap.longest_handed`): as many as it has parameters, or as its arity admits.
Its call is entered with them (`callBody_of_takes`), and what is done there no
longer asks whether the values are too many (`Function.enter`). With one more of
the values the call would be refused (`callBody_of_not_takes`).

Key definitions: `Function.Takes`, `Function.excess`, `Function.enter`,
`Function.Longest`, `Function.calling`.
Key theorems: `Heap.longest_handed`, `callBody_of_takes`,
`callBody_of_not_takes`, `values_are_handed_over`.
-/
import RuleScript.Proofs.Calls.Scoping
import RuleScript.Proofs.Library.Iteration

namespace RuleScript

/-! ### How many values a function takes -/

namespace Function

/-- A function takes this many values: they are not more than its parameters,
or than the most that its arity admits. -/
def Takes : Function → Nat → Prop
  | .script f, n => n ≤ f.params.length
  | .native f, n => ∀ most, f.arity.most = some most → n ≤ most

/-- The longest part at the front of some values that a function takes: any
other that it takes is a part of it. -/
structure Longest (f : Function) (vs given : List Value) : Prop where
  front : given <+: vs
  takes : f.Takes given.length
  longest : ∀ p, p <+: vs → f.Takes p.length → p <+: given

variable {f : Function} {vs given : List Value}

theorem Longest.not_takes (h : f.Longest vs given) {p : List Value} (hp : p <+: vs)
    (hlength : given.length < p.length) : ¬f.Takes p.length := by
  intro htakes
  have hle := (h.longest p hp htakes).length_le
  omega

theorem longest_take {n : Nat} (htakes : ∀ k, f.Takes k ↔ k ≤ n) (vs : List Value) :
    f.Longest vs (vs.take n) where
  front := List.take_prefix n vs
  takes := by
    rw [htakes, List.length_take]
    omega
  longest p hp hn := List.prefix_take_iff.mpr ⟨hp, (htakes _).mp hn⟩

theorem longest_all (htakes : ∀ k, f.Takes k) (vs : List Value) : f.Longest vs vs :=
  ⟨List.prefix_refl vs, htakes _, fun _ hp _ => hp⟩

end Function

/-- **A callback is handed as many values as it takes.** -/
theorem Heap.longest_handed {h : Heap} {ref : FunctionRef} {f : Function}
    (href : h.function? ref = some f) (vs : List Value) : f.Longest vs (h.handed ref vs) := by
  unfold handed
  rw [href]
  cases f with
  | script g => exact Function.longest_take (fun _ => Iff.rfl) vs
  | native g =>
    cases hmost : g.arity.most with
    | none =>
      have htakes (k : Nat) : (Function.native g).Takes k := by
        intro most hsome
        rw [hmost] at hsome
        cases hsome
      simpa [Function.mostArguments?, hmost] using Function.longest_all htakes vs
    | some n =>
      have htakes (k : Nat) : (Function.native g).Takes k ↔ k ≤ n := by
        simp [Function.Takes, hmost]
      simpa [Function.mostArguments?, hmost] using Function.longest_take htakes vs

/-! ### What a call does with values -/

namespace Function

/-- Why a call with too many values is refused. -/
def excess (f : Function) (n : Nat) : Cause :=
  match f with
  | .script g => .tooManyArguments (f.name?.getD "function") g.params.length n
  | .native g => .wrongArity (f.name?.getD "function") g.arity n

/-- What a call does with values that are not too many. A function of the
language binds them and evaluates its body; a native operation is carried out
on them, unless they are too few. -/
def enter (s : Site) (values : List Value) : Function → Eval Value
  | .script f => do
    let scope ←
      if f.isBlock then pure f.scope
      else Eval.allocate (·.newScope (some f.scope) (bindParameters f.params values []))
    orNull (s.engine.evaluate (s.ctx.within scope f.source) f.body)
  | .native f =>
    if values.length < f.arity.fewest then
      s.fail (.wrongArity ((Function.native f).name?.getD "function") f.arity values.length)
    else do
      let product ← Eval.guarded s.ctx s.pos (f.operation.run s values)
      s.receive (f.operation.host? (← get)) product

/-- A call of a function that is refused if it would go too deep, and otherwise
is active while something is done. -/
def calling (f : Function) (ctx : Context) (pos : Position) (act : Eval Value) : Eval Value := fun m =>
  if ctx.settings.admitsCall m.calls.length then Eval.withFrame (callFrame ctx f pos) act m
  else (.error (refusal ctx pos), m)

end Function

theorem Arity.admits_iff (a : Arity) (n : Nat) :
    a.admits n = true ↔ a.fewest ≤ n ∧ ∀ most, a.most = some most → n ≤ most := by
  unfold admits
  cases a.most <;> simp

section Calls

variable (n : Nat) (ctx : Context) (pos : Position) {f : Function} {vs : List Value}
  (hvs : ∀ v ∈ vs, v ≠ .absent)

include hvs

/-- A native operation gets the values themselves. -/
theorem callBody_native (g : NativeFunction) :
    callBody (Engine.level (n + 1)) ctx (.native g) (valueNodes pos vs) pos =
      callNative ⟨Engine.level (n + 1), ctx, pos⟩ g vs := by
  show (evaluateArguments _ ctx (valueNodes pos vs) pos >>= callNative _ g) = _
  rw [evaluateArguments_present n ctx pos hvs, pure_bind]

/-- **A call with values that are not too many is entered.** -/
theorem callBody_of_takes (htakes : f.Takes vs.length) :
    callBody (Engine.level (n + 1)) ctx f (valueNodes pos vs) pos =
      f.enter ⟨Engine.level (n + 1), ctx, pos⟩ vs := by
  cases f with
  | script g =>
    show callScript _ ctx g (valueNodes pos vs) pos = _
    unfold callScript
    rw [evaluateArguments_present n ctx pos hvs, pure_bind, if_neg (Nat.not_lt.mpr htakes)]
    rfl
  | native g =>
    rw [callBody_native n ctx pos hvs, callNative, Function.enter]
    by_cases hfew : vs.length < g.arity.fewest
    · have hrefused : ¬g.arity.admits vs.length = true := fun h =>
        Nat.not_le.mpr hfew ((g.arity.admits_iff _).mp h).1
      rw [if_pos hfew, if_neg hrefused]
    · have hadmits : g.arity.admits vs.length = true :=
        (g.arity.admits_iff _).mpr ⟨Nat.not_lt.mp hfew, htakes⟩
      rw [if_neg hfew, if_pos hadmits]

/-- **A call with too many values is refused.** -/
theorem callBody_of_not_takes (htakes : ¬f.Takes vs.length) :
    callBody (Engine.level (n + 1)) ctx f (valueNodes pos vs) pos =
      Eval.fail ctx pos (f.excess vs.length) := by
  cases f with
  | script g =>
    show callScript _ ctx g (valueNodes pos vs) pos = _
    unfold callScript
    rw [evaluateArguments_present n ctx pos hvs, pure_bind, if_pos (Nat.not_le.mp htakes)]
    rfl
  | native g =>
    have hrefused : ¬g.arity.admits vs.length = true := fun h =>
      htakes ((g.arity.admits_iff _).mp h).2
    rw [callBody_native n ctx pos hvs, callNative, if_neg hrefused]
    rfl

end Calls

/-- **Values are handed over as they are, and callbacks get as many as they
take.** The nodes that are made of values for a call are evaluated to these
values, in any context, without reading or changing anything; only the mark of
a missing value is refused. A callback is called with the longest part at the
front of the values that it takes. Its call is refused if it would go too
deep, and otherwise is entered with these values, and nothing there asks
whether they are too many. A longer part of the values is refused. -/
theorem values_are_handed_over (n : Nat) (ctx : Context) (pos : Position) (vs : List Value) :
    (evaluateArguments (Engine.level (n + 1)) ctx (valueNodes pos vs) pos =
      if vs.any (·.isAbsent) then Eval.fail ctx pos .noValue else pure vs) ∧
    ∀ (ref : FunctionRef) (f : Function) (m : Machine), m.heap.function? ref = some f →
      ∃ given, f.Longest vs given ∧
        (∀ e : Engine, e.invoke ctx pos ref vs m = e.callWithValues ctx ref given pos m) ∧
        ((∀ v ∈ vs, v ≠ .absent) →
          (Engine.level (n + 2)).invoke ctx pos ref vs m =
            f.calling ctx pos (f.enter ⟨Engine.level (n + 1), ctx, pos⟩ given) m ∧
          ∀ p, p <+: vs → given.length < p.length →
            (Engine.level (n + 2)).callWithValues ctx ref p pos m =
              f.calling ctx pos (Eval.fail ctx pos (f.excess p.length)) m) := by
  refine ⟨evaluateArguments_valueNodes n ctx pos vs, fun ref f m href => ?_⟩
  have hlongest := Heap.longest_handed href vs
  have hinvoke (e : Engine) : e.invoke ctx pos ref vs m =
      e.callWithValues ctx ref (m.heap.handed ref vs) pos m := rfl
  refine ⟨_, hlongest, hinvoke, fun hvs => ⟨?_, fun p hp hlength => ?_⟩⟩
  · have hgiven : ∀ v ∈ m.heap.handed ref vs, v ≠ .absent := fun v hv =>
      hvs v (hlongest.front.subset hv)
    rw [hinvoke, callWithValues_entered href, callBody_of_takes n ctx pos hgiven hlongest.takes]
    rfl
  · have hp' : ∀ v ∈ p, v ≠ .absent := fun v hv => hvs v (hp.subset hv)
    rw [callWithValues_entered href, callBody_of_not_takes n ctx pos hp' (hlongest.not_takes hp hlength)]
    rfl

/-- A callback with one parameter, called with an array, null and a truth
value: it gets the array itself and no more, while a call with two of the values
is refused. -/
theorem values_are_handed_over_one_parameter :
    let pos : Position := ⟨some 1, some 1, 0⟩
    let g : ScriptFunction := ⟨["x"], [.word pos "x"], ⟨0⟩, "", none, false, none⟩
    let heap : Heap := ⟨#[⟨[], none⟩], #[⟨[.null], 0⟩], #[], #[.script g]⟩
    let m : Machine := { Machine.initial with heap }
    let ctx : Context := ⟨⟨0⟩, "", ⟨none, "", false, .usual⟩⟩
    let vs : List Value := [.array ⟨0⟩, .null, .bool true]
    m.heap.function? ⟨0⟩ = some (.script g) ∧ (∀ v ∈ vs, v ≠ .absent) ∧
      evaluateArguments (Engine.level 2) ctx (valueNodes pos vs) pos = pure vs ∧
      ((Engine.level 3).invoke ctx pos ⟨0⟩ vs m).1 = .ok (.array ⟨0⟩) ∧
      ∃ given, given = [.array ⟨0⟩] ∧ (Function.script g).Longest vs given ∧
        (Engine.level 3).invoke ctx pos ⟨0⟩ vs m =
          (Function.script g).calling ctx pos
            ((Function.script g).enter ⟨Engine.level 2, ctx, pos⟩ given) m ∧
        (Engine.level 3).callWithValues ctx ⟨0⟩ [.array ⟨0⟩, .null] pos m =
          (Function.script g).calling ctx pos
            (Eval.fail ctx pos (.tooManyArguments "function" 1 2)) m := by
  intro pos g heap m ctx vs
  have hvs : ∀ v ∈ vs, v ≠ .absent := by simp [vs]
  obtain ⟨hargs, hcallbacks⟩ := values_are_handed_over 1 ctx pos vs
  obtain ⟨given, hlongest, -, hcalls⟩ := hcallbacks ⟨0⟩ (.script g) m rfl
  obtain ⟨hinvoke, hrefused⟩ := hcalls hvs
  have hone : given = [.array ⟨0⟩] := by
    have hfront : [.array ⟨0⟩] <+: given := hlongest.longest _ ⟨_, rfl⟩ (Nat.le_refl 1)
    exact (hfront.eq_of_length_le hlongest.takes).symm
  refine ⟨rfl, hvs, hargs, rfl, given, hone, hlongest, hinvoke, hrefused _ ⟨_, rfl⟩ ?_⟩
  rw [hone]
  exact Nat.lt_succ_self 1

end RuleScript
