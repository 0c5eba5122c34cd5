/-
# Two runs side by side

Two engines may carry out the same program in ways that differ only in what
they do around a call: one may be limited in depth and the other not, one may
keep a record that the other does not keep. A coupling says how their stops
may differ; apart from that they are in step: from one machine they reach the
same machine, with the same value or with stops that are coupled
(`Coupling.Agree`). A stop of the first run may also put the second run out of
step; then it must be the end of the first run.

If two engines agree on nested evaluation and on calls (`Alike`), then every
native operation agrees on them. The only operations that see a stop are
the ones that sort: they hold it back until the array is restored.

Key definitions: `Coupling`, `Coupling.Agree`, `Alike`.
Key theorems: `Coupling.Agree.bind`, `sortArray_agree`, `Operation.run_agree`,
`callNative_agree`.
-/
import RuleScript.Proofs.Calls.Local
import RuleScript.Proofs.Sorting.Dialogue

namespace RuleScript

/-- The internal error that stopped a computation, if it was one. -/
def Stop.internal? : Stop → Option InternalError
  | .internal e _ => some e
  | _ => none

/-- How the stops of two runs may differ while some calls are active. A stop
of the first run that is `lost` puts the second one out of step. -/
structure Coupling where
  /-- The active calls, innermost first. -/
  calls : List Frame
  stops : Stop → Stop → Prop
  lost : Stop → Prop
  /-- The limits on the depth of the two runs. -/
  limits : Option Int → Option Int → Prop
  /-- Before a stop has left a call, it is the same in both runs. -/
  fresh : ∀ {s}, s.trace? = none → stops s s
  internal : ∀ {s s'}, stops s s' → s.internal? = s'.internal?
  lost_internal : ∀ {s}, lost s → s.internal? = none

/-- Before it has left a call, a stop is equal to itself. -/
theorem Stop.eq_of_fresh {s : Stop} (_ : s.trace? = none) : s = s := rfl

/-- Equal stops have the same internal error. -/
theorem Stop.internal?_congr {s s' : Stop} (h : s = s') : s.internal? = s'.internal? := by rw [h]

namespace Coupling

variable {α β : Type} (C : Coupling)

/-- How two runs end side by side. -/
inductive Ends : Except Stop α × Machine → Except Stop α × Machine → Prop
  | value (a : α) {m : Machine} (h : m.calls = C.calls) : Ends (.ok a, m) (.ok a, m)
  | stop {s s' : Stop} {m : Machine} (h : m.calls = C.calls) (hs : C.stops s s') :
    Ends (.error s, m) (.error s', m)
  | lost {s : Stop} (m : Machine) (r : Except Stop α × Machine) (h : C.lost s) : Ends (.error s, m) r

/-- Two computations are in step on every machine with the given calls. -/
def Agree (x y : Eval α) : Prop := ∀ m, m.calls = C.calls → C.Ends (x m) (y m)

namespace Agree

variable {C}

/-- What calls nothing agrees with itself. -/
theorem of_local (x : Eval α) [h : Eval.Local x] : C.Agree x x := by
  intro m hm
  obtain ⟨hcalls, hstop⟩ := h.run m
  rcases hr : x m with ⟨s | a, m'⟩
  · rw [hr] at hcalls hstop
    exact .stop (hcalls.trans hm) (C.fresh (hstop s rfl))
  · rw [hr] at hcalls
    exact .value a (hcalls.trans hm)

theorem of_eq {x y : Eval α} [Eval.Local x] (h : x = y) : C.Agree x y := h ▸ of_local x

theorem bind {x y : Eval α} {f g : α → Eval β} (hx : C.Agree x y) (hf : ∀ a, C.Agree (f a) (g a)) :
    C.Agree (x >>= f) (y >>= g) := by
  intro m hm
  have h := hx m hm
  rw [Eval.bind_run, Eval.bind_run]
  generalize x m = r, y m = r' at h
  cases h with
  | value a h => exact hf a _ h
  | stop h hs => exact .stop h hs
  | lost m _ h => exact .lost m _ h

theorem then_return {x y : Eval α} (hx : C.Agree x y) (f : α → β) :
    C.Agree (do return f (← x)) (do return f (← y)) :=
  hx.bind fun a => of_local (pure (f a))

theorem ite {c : Prop} [Decidable c] {x y x' y' : Eval α} (hx : C.Agree x x') (hy : C.Agree y y') :
    C.Agree (if c then x else y) (if c then x' else y') := by
  split
  · exact hx
  · exact hy

/-- An internal error becomes the same fault in both runs; every other stop
passes. -/
theorem guarded {x y : Eval α} (hx : C.Agree x y) {ctx ctx' : Context} (hsource : ctx'.source = ctx.source)
    (pos : Position) : C.Agree (Eval.guarded ctx pos x) (Eval.guarded ctx' pos y) := by
  intro m hm
  have h := hx m hm
  unfold Eval.guarded
  generalize x m = r, y m = r' at h
  cases h with
  | value a h => exact .value a h
  | @stop s s' m h hs =>
    have hi := C.internal hs
    cases s <;> cases s' <;> first
      | cases hi; rw [hsource]; exact .stop h (C.fresh rfl)
      | exact .stop h hs
      | cases hi
  | @lost s m r h =>
    have hi := C.lost_internal h
    cases s <;> first | exact .lost m _ h | cases hi

/-- A call in both runs: the calls that are active in it are noted in the stops
that leave it. -/
theorem withFrame {C' : Coupling} {frame : Frame} {x y : Eval α} (h : C.Agree x y)
    (hcalls : C.calls = frame :: C'.calls)
    (hstops : ∀ {s s'}, C.stops s s' → C'.stops (s.traced C.calls.reverse) (s'.traced C.calls.reverse))
    (hlost : ∀ {s} calls, C.lost s → C'.lost (s.traced calls)) :
    C'.Agree (Eval.withFrame frame x) (Eval.withFrame frame y) := by
  intro m hm
  have hxy := h { m with calls := frame :: m.calls } (by rw [hm, hcalls])
  have hpop {m : Machine} (hm : m.calls = C.calls) : (Eval.popFrame m).calls = C'.calls := by
    rw [Eval.popFrame, hm, hcalls]
    rfl
  unfold Eval.withFrame
  generalize x _ = r, y _ = r' at hxy
  cases hxy with
  | value a hm => exact .value a (hpop hm)
  | stop hm hs => exact .stop (hpop hm) (hm ▸ hstops hs)
  | lost m r hl => exact .lost _ _ (hlost _ hl)

end Agree
end Coupling

/-! ### Sorting -/

/-- A dialogue agrees on two comparisons that agree, if what comes after it
does, and if what comes after it throws a stop that is lost. -/
theorem Dialogue.agree {α β γ : Type} {C : Coupling} {P : Value → Prop} {done : α → Prop}
    {halt : γ → Stop → α} {F : Comparison → Eval α} (hF : Dialogue P done halt F) {lt lt' : Comparison}
    (hlt : ∀ x y, C.Agree (lt x y) (lt' x y)) {k k' : α → Eval β}
    (hdone : ∀ a, done a → C.Agree (k a) (k' a))
    (hhalt : ∀ c s s', C.stops s s' → C.Agree (k (halt c s)) (k' (halt c s')))
    (hlost : ∀ c s m, C.lost s → ∃ m', k (halt c s) m = (.error s, m')) :
    C.Agree (F lt >>= k) (F lt' >>= k') := by
  induction hF with
  | answer ha => simpa only [pure_bind] using hdone _ ha
  | @ask x y _ _ next c _ ih =>
    intro m hm
    have h := hlt x y m hm
    rw [Eval.bind_run, Eval.bind_run]
    dsimp only [Eval.elseHalt]
    generalize lt x y m = r, lt' x y m = r' at h
    cases h with
    | value b h =>
      have hb := ih b _ h
      rw [Eval.bind_run, Eval.bind_run] at hb
      exact hb
    | stop h hs => exact hhalt c _ _ hs _ h
    | @lost s m' r h =>
      obtain ⟨m'', hk⟩ := hlost c s m' h
      show C.Ends (k (halt c s) m') _
      rw [hk]
      exact .lost m'' _ h

/-! ### Engines -/

/-- The context with another limit on the depth. -/
def Context.withLimit (ctx : Context) (limit : Option Int) : Context :=
  { ctx with settings := { ctx.settings with maxDepth := limit } }

/-- Two engines agree on nested evaluation and on calls. -/
structure Alike (C : Coupling) (e e' : Engine) : Prop where
  evaluate : ∀ (ctx : Context) {limit : Option Int}, C.limits ctx.settings.maxDepth limit →
    ∀ nodes, C.Agree (e.evaluate ctx nodes) (e'.evaluate (ctx.withLimit limit) nodes)
  call : ∀ (ctx : Context) {limit : Option Int}, C.limits ctx.settings.maxDepth limit →
    ∀ f args pos, C.Agree (e.call ctx f args pos) (e'.call (ctx.withLimit limit) f args pos)

open Coupling Coupling.Agree

section Library

variable {C : Coupling} {e e' : Engine} (he : Alike C e e') {ctx : Context} {limit : Option Int}
  (hl : C.limits ctx.settings.maxDepth limit) (pos : Position)

include he hl in
theorem Site.invoke_agree (f : FunctionRef) (values : List Value) :
    C.Agree (Site.invoke ⟨e, ctx, pos⟩ f values)
      (Site.invoke ⟨e', ctx.withLimit limit, pos⟩ f values) :=
  (of_local _).bind fun _ => he.call ctx hl f _ pos

/-! ### Results -/

namespace Site

variable (e e' ctx limit)

/-- What an operation hands back is received alike wherever the fault would be
the same. -/
theorem copyValue_withLimit : ∀ frames : Nat,
    copyValue ⟨e, ctx, pos⟩ frames = copyValue ⟨e', ctx.withLimit limit, pos⟩ frames
  | 0 => rfl
  | frames + 1 => by
    funext v
    cases v
    case array =>
      match frames with
      | 0 => rfl
      | frames + 1 => simp only [copyValue, copyValue_withLimit frames]
    case dict => simp only [copyValue, copyValue_withLimit frames]
    all_goals rfl

mutual

theorem receiveInside_withLimit (host : Option (Nat × Host)) : ∀ (frames : Nat) (p : Product),
    receiveInside ⟨e, ctx, pos⟩ host frames p =
      receiveInside ⟨e', ctx.withLimit limit, pos⟩ host frames p
  | frames, .value v => by simp only [receiveInside, copyValue_withLimit e e' ctx limit pos]
  | 0, .integer _ | 0, .sequence _ | 0, .mapping _ | 0, .foreign _ | 0, .method _
  | 1, .sequence _ | _ + 1, .integer _ | _ + 1, .foreign _ | _ + 1, .method _ => rfl
  | frames + 2, .sequence ps => by simp only [receiveInside, receiveAll_withLimit host frames ps]
  | frames + 1, .mapping es => by simp only [receiveInside, receiveEntries_withLimit host frames es]

theorem receiveAll_withLimit (host : Option (Nat × Host)) (frames : Nat) : ∀ ps : List Product,
    receiveAll ⟨e, ctx, pos⟩ host frames ps = receiveAll ⟨e', ctx.withLimit limit, pos⟩ host frames ps
  | [] => by simp only [receiveAll]
  | p :: ps => by
    simp only [receiveAll, receiveInside_withLimit host frames p, receiveAll_withLimit host frames ps]

theorem receiveEntries_withLimit (host : Option (Nat × Host)) (frames : Nat) :
    ∀ es : List (ProductKey × Product),
    receiveEntries ⟨e, ctx, pos⟩ host frames es =
      receiveEntries ⟨e', ctx.withLimit limit, pos⟩ host frames es
  | [] => by simp only [receiveEntries]
  | (.other, p) :: es => by
    simp only [receiveEntries]
    rfl
  | (.text k, p) :: es => by
    simp only [receiveEntries, receiveInside_withLimit host frames p,
      receiveEntries_withLimit host frames es]

end

theorem receive_withLimit (host : Option (Nat × Host)) (p : Product) :
    receive ⟨e, ctx, pos⟩ host p = receive ⟨e', ctx.withLimit limit, pos⟩ host p := by
  unfold receive
  split
  · rfl
  · exact receiveInside_withLimit e e' ctx limit pos host _ _

/-- A template is filled alike wherever the fault would be the same. -/
theorem renderTemplate_withLimit (D : Disguise) (args : List Value) :
    renderTemplate D ⟨e, ctx, pos⟩ args = renderTemplate D ⟨e', ctx.withLimit limit, pos⟩ args := by
  have hfail {α : Type} (c : Cause) :
      (Site.fail ⟨e, ctx, pos⟩ c : Eval α) = Site.fail ⟨e', ctx.withLimit limit, pos⟩ c := rfl
  have hrender (template : String) (view : View) :
      render D ⟨e, ctx, pos⟩ template view = render D ⟨e', ctx.withLimit limit, pos⟩ template view :=
    render_congr hfail rfl template view
  unfold renderTemplate
  simp only [hrender]
  rfl

end Site

/-! ### Operations -/

section Operations

variable (args : List Value)

theorem StringOp.run_withLimit (e e' : Engine) (ctx : Context) (limit : Option Int) (pos : Position)
    (args : List Value) (op : StringOp) :
    op.run ⟨e, ctx, pos⟩ args = op.run ⟨e', ctx.withLimit limit, pos⟩ args := by
  cases op
  case render => exact Site.renderTemplate_withLimit e e' ctx limit pos .plain args
  all_goals rfl

theorem StringOp.run_agree (op : StringOp) :
    C.Agree (op.run ⟨e, ctx, pos⟩ args) (op.run ⟨e', ctx.withLimit limit, pos⟩ args) :=
  of_eq (op.run_withLimit e e' ctx limit pos args)

theorem DictOp.run_agree (op : DictOp) :
    C.Agree (op.run ⟨e, ctx, pos⟩ args) (op.run ⟨e', ctx.withLimit limit, pos⟩ args) :=
  of_eq (by cases op <;> rfl)

theorem MathOp.run_agree (op : MathOp) :
    C.Agree (op.run ⟨e, ctx, pos⟩ args) (op.run ⟨e', ctx.withLimit limit, pos⟩ args) :=
  of_eq (by cases op <;> rfl)

theorem DataOp.run_agree (format : DataFormat) (op : DataOp) :
    C.Agree (op.run ⟨e, ctx, pos⟩ format args) (op.run ⟨e', ctx.withLimit limit, pos⟩ format args) :=
  of_eq (by cases op <;> rfl)

/-- A sort agrees: a stop of its comparison comes out as it was, after the
array has been restored. -/
theorem sortArray_agree (r : ArrayRef) {lt lt' : Comparison}
    (hlt : ∀ x y, C.Agree (lt x y) (lt' x y)) :
    C.Agree (sortArray ⟨e, ctx, pos⟩ r lt) (sortArray ⟨e', ctx.withLimit limit, pos⟩ r lt') := by
  refine (of_local _).bind fun cell => (of_local _).bind fun _ => ?_
  refine (sortItems_dialogue (P := fun _ => True) trivial fun _ _ => trivial).agree hlt ?_ ?_ ?_
  · rintro ⟨sorted, _⟩ ⟨rfl, -⟩
    refine (of_local _).bind fun after => (of_local _).bind fun _ => ?_
    exact ite (of_local _) (of_local _)
  · intro sorted s s' hs
    refine (of_local _).bind fun after => (of_local _).bind fun _ => ?_
    exact fun m hm => .stop hm hs
  · intro sorted s m _
    exact ⟨_, rfl⟩

theorem loopLimit_withLimit (e e' : Engine) (ctx : Context) (limit : Option Int) (pos : Position) :
    loopLimit ⟨e, ctx, pos⟩ = loopLimit ⟨e', ctx.withLimit limit, pos⟩ := by
  unfold loopLimit
  by_cases h : ctx.settings.loopLimit = ""
  · exact (if_pos h).trans (if_pos h).symm
  · refine (if_neg h).trans (Eq.trans ?_ (if_neg h).symm)
    dsimp only [Context.withLimit]
    cases Number.readInteger 10 ctx.settings.loopLimit <;> rfl

theorem plainLess_local (a b : Value) : Eval.Local (plainLess a b) := by
  unfold plainLess
  split <;> infer_instance

include he hl

theorem callbackLess_agree (f : FunctionRef) (a b : Value) :
    C.Agree (callbackLess ⟨e, ctx, pos⟩ f a b) (callbackLess ⟨e', ctx.withLimit limit, pos⟩ f a b) := by
  refine (Site.invoke_agree he hl pos f [a, b]).bind fun v => ?_
  cases v <;> exact of_local _

theorem iterate_agree (r : ArrayRef) (f : FunctionRef) : ∀ (xs : List Value) (i : Nat),
    C.Agree (iterate ⟨e, ctx, pos⟩ r f i xs) (iterate ⟨e', ctx.withLimit limit, pos⟩ r f i xs)
  | [], _ => of_local (pure [])
  | x :: xs, i => by
    refine (Site.invoke_agree he hl pos f _).bind fun v => ?_
    exact (iterate_agree r f xs (i + 1)).then_return _

theorem keepWhere_agree (r : ArrayRef) (f : FunctionRef) : ∀ (xs : List Value) (i : Nat),
    C.Agree (keepWhere ⟨e, ctx, pos⟩ r f i xs) (keepWhere ⟨e', ctx.withLimit limit, pos⟩ r f i xs)
  | [], _ => of_local (pure [])
  | x :: xs, i => by
    refine (Site.invoke_agree he hl pos f _).bind fun v => ?_
    cases v
    case bool keep => exact (keepWhere_agree r f xs (i + 1)).then_return _
    all_goals exact of_local _

theorem ArrayOp.run_agree (op : ArrayOp) :
    C.Agree (op.run ⟨e, ctx, pos⟩ args) (op.run ⟨e', ctx.withLimit limit, pos⟩ args) := by
  cases hop : op.callsBack with
  | false =>
    have := op.run_local ⟨e, ctx, pos⟩ args hop
    refine of_eq ?_
    cases op
    case sort | forEach | map | filter => cases hop
    all_goals rfl
  | true =>
    cases op
    case sort =>
      refine (of_local _).bind fun r => ?_
      split
      · exact (of_local _).bind fun f => sortArray_agree pos r (callbackLess_agree he hl pos f)
      · have := plainLess_local
        refine (of_local _).bind fun xs => ite ?_ (of_local _)
        exact sortArray_agree pos r fun a b => of_local _
    case forEach | map =>
      refine (of_local _).bind fun r => (of_local _).bind fun f => (of_local _).bind fun xs => ?_
      exact (iterate_agree he hl pos r f xs 0).then_return _
    case filter =>
      refine (of_local _).bind fun r => (of_local _).bind fun f => (of_local _).bind fun xs => ?_
      exact (keepWhere_agree he hl pos r f xs 0).then_return _
    all_goals cases hop

theorem CoreOp.run_agree (op : CoreOp) :
    C.Agree (op.run ⟨e, ctx, pos⟩ args) (op.run ⟨e', ctx.withLimit limit, pos⟩ args) := by
  cases hop : op.callsBack with
  | false =>
    have := op.run_local ⟨e, ctx, pos⟩ args hop
    refine of_eq ?_
    cases op
    case choose => cases hop
    case repeating =>
      simp only [CoreOp.run, loopLimit_withLimit e e' ctx limit pos]
      rfl
    all_goals rfl
  | true =>
    cases op
    case choose =>
      refine (of_local _).bind fun c => (of_local _).bind fun yes => (of_local _).bind fun no => ?_
      exact (Site.invoke_agree he hl pos _ []).then_return _
    all_goals cases hop

theorem ProbeOp.run_agree (op : ProbeOp) :
    C.Agree (op.run ⟨e, ctx, pos⟩ args) (op.run ⟨e', ctx.withLimit limit, pos⟩ args) := by
  cases hop : op.callsBack with
  | false =>
    have := op.run_local ⟨e, ctx, pos⟩ args hop
    refine of_eq ?_
    cases op
    case apply => cases hop
    all_goals rfl
  | true =>
    cases op
    case apply => exact (of_local _).bind fun f => (he.call ctx hl f _ pos).then_return _
    all_goals cases hop

theorem runBranch_agree (condition : Bool) :
    C.Agree (runBranch ⟨e, ctx, pos⟩ condition args)
      (runBranch ⟨e', ctx.withLimit limit, pos⟩ condition args) := by
  refine (of_local _).bind fun body => ite ?_ (of_local _)
  exact (Site.invoke_agree he hl pos body []).then_return _

/-- A loop agrees round by round. -/
theorem runRounds_agree (condition body : FunctionRef) (bound : Option Int) :
    ∀ (fuel : Nat) (count : Int),
    C.Agree (runRounds ⟨e, ctx, pos⟩ condition body bound fuel count)
      (runRounds ⟨e', ctx.withLimit limit, pos⟩ condition body bound fuel count)
  | 0, _ => of_local (throw (.exhausted none))
  | fuel + 1, count => by
    have hround : C.Agree
        (do let _ ← Site.invoke ⟨e, ctx, pos⟩ body []
            runRounds ⟨e, ctx, pos⟩ condition body bound fuel (count + 1))
        (do let _ ← Site.invoke ⟨e', ctx.withLimit limit, pos⟩ body []
            runRounds ⟨e', ctx.withLimit limit, pos⟩ condition body bound fuel (count + 1)) :=
      (Site.invoke_agree he hl pos body []).bind fun _ =>
        runRounds_agree condition body bound fuel (count + 1)
    refine (Site.invoke_agree he hl pos condition []).bind fun v => ?_
    cases v
    case bool go =>
      refine ite (of_local _) ?_
      cases bound with
      | some most => exact ite (of_local _) hround
      | none => exact hround
    all_goals exact of_local _

theorem runLoop_agree (condition : FunctionRef) (bound : Option Int) :
    C.Agree (runLoop ⟨e, ctx, pos⟩ condition bound args)
      (runLoop ⟨e', ctx.withLimit limit, pos⟩ condition bound args) :=
  (of_local _).bind fun body => runRounds_agree he hl pos condition body bound maxRounds 0

theorem Operation.run_agree : ∀ op : Operation,
    C.Agree (op.run ⟨e, ctx, pos⟩ args) (op.run ⟨e', ctx.withLimit limit, pos⟩ args)
  | .core op => CoreOp.run_agree he hl pos args op
  | .array op => ArrayOp.run_agree he hl pos args op
  | .string op => StringOp.run_agree pos args op
  | .dict op => DictOp.run_agree pos args op
  | .math op => MathOp.run_agree pos args op
  | .data format op => DataOp.run_agree pos args format op
  | .probe op => ProbeOp.run_agree he hl pos args op
  | .branch condition => runBranch_agree he hl pos args condition
  | .loop condition bound => runLoop_agree he hl pos args condition bound
  | .method host k => of_local (runMethod _ host k args)
  | .idle => of_local (pure _)

/-- **Native calls agree.** -/
theorem callNative_agree (f : NativeFunction) :
    C.Agree (callNative ⟨e, ctx, pos⟩ f args) (callNative ⟨e', ctx.withLimit limit, pos⟩ f args) := by
  refine ite ?_ (of_local _)
  refine ((Operation.run_agree he hl pos args f.operation).guarded rfl pos).bind fun product => ?_
  refine (of_local _).bind fun m => ?_
  exact of_eq (Site.receive_withLimit e e' ctx limit pos _ product)

end Operations

end Library

end RuleScript
