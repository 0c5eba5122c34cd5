/-
# The limit on the rounds of a loop

A loop asks its condition, runs its body if the answer is true, and asks
again. A limit on the rounds is looked at in one place only, between an
answer that is true and the run of the body. So a loop under a limit takes
the steps that it takes without one, as long as the body is not started more
often than the limit allows; and when it would be, the loop stops with a
fault there instead, on the machine that the condition has left.

This is said with the states that a loop goes through (`LoopState`), which
count how often the condition was asked and how often the body was run, and
with its steps from one to the next (`LoopStep`). What is left to run does not
change from one state to the next (`LoopStep.rest_eq`), so that the call of a
loop ends as its steps do. Every loop has an end, and only one.

The condition and the body may do anything, also make and call loops of their
own. Those read the limit in force when they are made, and the two loops that
are compared differ in their own limit only.

Key definitions: `LoopState`, `LoopStep`, `LoopEnds`, `LoopStarts`,
`limitedLoop`, `Settings.LimitsLoops`.
Key theorems: `LoopStep.under_limit`, `LoopGoes.refused`, `LoopStep.rest_eq`,
`LoopEnds.callNative_eq`, `LoopEnds.unique`, `loop_limit_only_bounds`.
-/
import Mathlib.Logic.Relation
import RuleScript.Proofs.Blocks.Meaning

namespace RuleScript

/-! ### The steps of a loop -/

/-- Where a loop stands: about to ask its condition, about to run its body, or
over, with no stop or with one. The condition has been asked `asked` times
and the body run `ran` times, a run that stops included. -/
inductive LoopState where
  | asking (asked ran : Nat) (m : Machine)
  | running (asked ran : Nat) (m : Machine)
  | over (asked ran : Nat) (stop : Option Stop) (m : Machine)

namespace LoopState

/-- How often the body has been started. A loop that is about to run it starts
it next. -/
def started : LoopState → Nat
  | .asking _ ran _ | .over _ ran _ _ => ran
  | .running _ ran _ => ran + 1

/-- The condition has been asked once for each run of the body, and once more
if the loop has got that far. -/
def Balanced : LoopState → Prop
  | .asking asked ran _ => asked = ran
  | .running asked ran _ => asked = ran + 1
  | .over asked ran _ _ => asked = ran ∨ asked = ran + 1

end LoopState

/-- A fault at the call. -/
def Site.fault (s : Site) (cause : Cause) : Stop := .fault (.raisedAt cause (some s.pos) s.ctx.source)

/-- What the end of the condition's call means for a loop: it goes on, or it is
over, with no stop or with one. -/
inductive LoopAnswer (s : Site) : Except Stop Value → Option (Option Stop) → Prop
  | goOn : LoopAnswer s (.ok (.bool true)) none
  | done : LoopAnswer s (.ok (.bool false)) (some none)
  | odd {v : Value} (hv : ∀ b, v ≠ .bool b) :
    LoopAnswer s (.ok v) (some (some (s.fault (.expected "a boolean from the loop condition"))))
  | stopped (e : Stop) : LoopAnswer s (.error e) (some (some e))

section Steps

variable (s : Site) (condition body : FunctionRef) (limit : Option Int)

/-- One step of a loop under a limit, if there is one: it asks its condition or
runs its body. -/
inductive LoopStep : LoopState → LoopState → Prop
  | goOn {asked ran : Nat} {m m' : Machine} {answer : Except Stop Value} (hran : ran < maxRounds)
      (hask : s.invoke condition [] m = (answer, m')) (hanswer : LoopAnswer s answer none)
      (hlimit : ∀ l, limit = some l → (ran : Int) + 1 ≤ l) :
    LoopStep (.asking asked ran m) (.running (asked + 1) ran m')
  | refuse {asked ran : Nat} {m m' : Machine} {answer : Except Stop Value} {l : Int}
      (hran : ran < maxRounds) (hask : s.invoke condition [] m = (answer, m'))
      (hanswer : LoopAnswer s answer none) (hlimit : limit = some l) (hmany : l < (ran : Int) + 1) :
    LoopStep (.asking asked ran m) (.over (asked + 1) ran (some (s.fault (.loopExceeded l))) m')
  | finish {asked ran : Nat} {m m' : Machine} {answer : Except Stop Value} {stop : Option Stop}
      (hran : ran < maxRounds) (hask : s.invoke condition [] m = (answer, m'))
      (hanswer : LoopAnswer s answer (some stop)) :
    LoopStep (.asking asked ran m) (.over (asked + 1) ran stop m')
  | again {asked ran : Nat} {m m' : Machine} {v : Value} (hrun : s.invoke body [] m = (.ok v, m')) :
    LoopStep (.running asked ran m) (.asking asked (ran + 1) m')
  | fail {asked ran : Nat} {m m' : Machine} {e : Stop} (hrun : s.invoke body [] m = (.error e, m')) :
    LoopStep (.running asked ran m) (.over asked (ran + 1) (some e) m')
  /-- An endless loop is cut off after a number of rounds that no run reaches. -/
  | cut {asked : Nat} {m : Machine} :
    LoopStep (.asking asked maxRounds m) (.over asked maxRounds (some (.exhausted none)) m)

/-- A loop goes from one state to another in some steps. -/
abbrev LoopGoes : LoopState → LoopState → Prop := Relation.ReflTransGen (LoopStep s condition body limit)

end Steps

/-! ### What steps keep -/

section Runs

variable {s : Site} {condition body : FunctionRef} {limit : Option Int} {st st' : LoopState}

theorem LoopStep.balanced (h : LoopStep s condition body limit st st') (hst : st.Balanced) : st'.Balanced := by
  cases h with
  | goOn | refuse | finish =>
    have hasked : _ = _ := hst
    simp [LoopState.Balanced, hasked]
  | again | fail =>
    have hasked : _ = _ := hst
    simp [LoopState.Balanced, hasked]
  | cut => exact .inl hst

theorem LoopGoes.balanced (h : LoopGoes s condition body limit st st') (hst : st.Balanced) : st'.Balanced := by
  induction h with
  | refl => exact hst
  | tail _ hstep ih => exact hstep.balanced ih

/-- A step starts the body at most once more. -/
theorem LoopStep.started_le (h : LoopStep s condition body limit st st') :
    st.started ≤ st'.started ∧ st'.started ≤ st.started + 1 := by
  cases h <;> simp [LoopState.started]

/-- **A step without a limit is one under a limit** that the body has not been
started too often for. -/
theorem LoopStep.under_limit {cap : Nat} (h : LoopStep s condition body none st st')
    (hcap : st'.started ≤ cap) : LoopStep s condition body (some cap) st st' := by
  cases h with
  | @goOn asked ran m m' answer hran hask hanswer hlimit =>
    refine .goOn hran hask hanswer ?_
    rintro l ⟨⟩
    have hstarted : ran + 1 ≤ cap := hcap
    omega
  | refuse _ _ _ hlimit => cases hlimit
  | finish hran hask hanswer => exact .finish hran hask hanswer
  | again hrun => exact .again hrun
  | fail hrun => exact .fail hrun
  | cut => exact .cut

/-- **So is a run of a loop**, by induction on its steps: what is started later
is not started before. -/
theorem LoopGoes.under_limit {cap : Nat} (h : LoopGoes s condition body none st st')
    (hcap : st'.started ≤ cap) : LoopGoes s condition body (some cap) st st' := by
  induction h with
  | refl => exact .refl
  | @tail st₁ st₂ _ hstep ih =>
    have hle : st₁.started ≤ cap := Nat.le_trans hstep.started_le.1 hcap
    exact (ih hle).tail (hstep.under_limit hcap)

/-- **A loop that would start its body once too often is refused**, on the
machine that it would start it on. -/
theorem LoopGoes.refused {asked cap : Nat} {m m' : Machine}
    (h : LoopGoes s condition body none (.asking 0 0 m) (.running asked cap m')) :
    asked = cap + 1 ∧ LoopGoes s condition body (some cap) (.asking 0 0 m)
      (.over (cap + 1) cap (some (s.fault (.loopExceeded cap))) m') := by
  obtain rfl : asked = cap + 1 := h.balanced rfl
  refine ⟨rfl, ?_⟩
  rcases h.cases_tail with heq | ⟨st, hbefore, hstep⟩
  · cases heq
  · cases hstep with
    | goOn hran hask hanswer _ =>
      have hasking := LoopGoes.under_limit hbefore (Nat.le_refl cap)
      exact hasking.tail (.refuse hran hask hanswer rfl (by omega))

/-- A loop that has started its body more than a number of times has been about
to start it once more than that number. -/
theorem LoopGoes.exists_running {cap : Nat} {m : Machine}
    (h : LoopGoes s condition body limit (.asking 0 0 m) st) (hcap : cap < st.started) :
    ∃ asked m', LoopGoes s condition body limit (.asking 0 0 m) (.running asked cap m') := by
  induction h with
  | refl => simp [LoopState.started] at hcap
  | @tail st₁ st₂ hbefore hstep ih =>
    by_cases hearlier : cap < st₁.started
    · exact ih hearlier
    · cases hstep with
      | @goOn asked ran m₁ m₂ answer hran hask hanswer hlimit =>
        simp only [LoopState.started] at hcap hearlier
        obtain rfl : ran = cap := by omega
        exact ⟨asked + 1, m₂, hbefore.tail (.goOn hran hask hanswer hlimit)⟩
      | refuse | finish | again | fail | cut => exact absurd hcap hearlier

/-- No step leads on from the end. -/
theorem LoopGoes.eq_of_over {asked ran : Nat} {stop : Option Stop} {m : Machine}
    (h : LoopGoes s condition body limit (.over asked ran stop m) st) : st = .over asked ran stop m := by
  rcases h.cases_head with heq | ⟨st₁, hstep, -⟩
  · exact heq.symm
  · cases hstep

theorem LoopAnswer.unique {answer : Except Stop Value} {o o' : Option (Option Stop)}
    (h : LoopAnswer s answer o) (h' : LoopAnswer s answer o') : o = o' := by
  cases h with
  | goOn =>
    cases h' with
    | goOn => rfl
    | odd hv => exact absurd rfl (hv true)
  | done =>
    cases h' with
    | done => rfl
    | odd hv => exact absurd rfl (hv false)
  | odd hv =>
    cases h' with
    | goOn => exact absurd rfl (hv true)
    | done => exact absurd rfl (hv false)
    | odd => rfl
  | stopped e => cases h'; rfl

/-- **A loop has no choice.** -/
theorem LoopStep.unique {st₁ st₂ : LoopState} (h : LoopStep s condition body limit st st₁)
    (h' : LoopStep s condition body limit st st₂) : st₁ = st₂ := by
  cases h with
  | goOn hran hask hanswer hlimit =>
    cases h' with
    | goOn _ hask' _ _ =>
      obtain ⟨-, rfl⟩ := Prod.mk.inj (hask.symm.trans hask')
      rfl
    | refuse _ _ _ hsome hmany =>
      have hfew := hlimit _ hsome
      omega
    | finish _ hask' hanswer' =>
      obtain ⟨rfl, -⟩ := Prod.mk.inj (hask.symm.trans hask')
      cases hanswer.unique hanswer'
    | cut => exact absurd hran (Nat.lt_irrefl _)
  | refuse hran hask hanswer hsome hmany =>
    cases h' with
    | goOn _ _ _ hlimit =>
      have hfew := hlimit _ hsome
      omega
    | refuse _ hask' _ hsome' _ =>
      obtain ⟨-, rfl⟩ := Prod.mk.inj (hask.symm.trans hask')
      obtain rfl := Option.some.inj (hsome.symm.trans hsome')
      rfl
    | finish _ hask' hanswer' =>
      obtain ⟨rfl, -⟩ := Prod.mk.inj (hask.symm.trans hask')
      cases hanswer.unique hanswer'
    | cut => exact absurd hran (Nat.lt_irrefl _)
  | finish hran hask hanswer =>
    cases h' with
    | goOn _ hask' hanswer' _ | refuse _ hask' hanswer' _ _ =>
      obtain ⟨rfl, -⟩ := Prod.mk.inj (hask.symm.trans hask')
      cases hanswer.unique hanswer'
    | finish _ hask' hanswer' =>
      obtain ⟨rfl, rfl⟩ := Prod.mk.inj (hask.symm.trans hask')
      obtain rfl := Option.some.inj (hanswer.unique hanswer')
      rfl
    | cut => exact absurd hran (Nat.lt_irrefl _)
  | again hrun =>
    cases h' with
    | again hrun' =>
      obtain ⟨-, rfl⟩ := Prod.mk.inj (hrun.symm.trans hrun')
      rfl
    | fail hrun' => cases (Prod.mk.inj (hrun.symm.trans hrun')).1
  | fail hrun =>
    cases h' with
    | again hrun' => cases (Prod.mk.inj (hrun.symm.trans hrun')).1
    | fail hrun' =>
      obtain ⟨hstop, rfl⟩ := Prod.mk.inj (hrun.symm.trans hrun')
      cases hstop
      rfl
  | cut =>
    cases h' with
    | goOn hran _ _ _ | refuse hran _ _ _ _ | finish hran _ _ => exact absurd hran (Nat.lt_irrefl _)
    | cut => rfl

end Runs

/-! ### Where a loop ends -/

section Ends

variable (s : Site) (condition body : FunctionRef) (limit : Option Int)

/-- A loop that starts on a machine ends so: it has asked its condition and run
its body that often, and leaves that stop, if any, and that machine. -/
def LoopEnds (m : Machine) (asked ran : Nat) (stop : Option Stop) (m' : Machine) : Prop :=
  LoopGoes s condition body limit (.asking 0 0 m) (.over asked ran stop m')

/-- A loop that starts on a machine comes to start its body once more on
another one, after it has asked its condition and run its body that often. -/
def LoopStarts (m : Machine) (asked ran : Nat) (m' : Machine) : Prop :=
  LoopGoes s condition body limit (.asking 0 0 m) (.running asked ran m')

variable {s condition body limit}

/-- Whatever the condition's call ends with has a meaning for the loop. -/
theorem LoopAnswer.exists (answer : Except Stop Value) : ∃ o, LoopAnswer s answer o := by
  rcases answer with e | v
  · exact ⟨_, .stopped e⟩
  · by_cases hbool : ∃ b, v = .bool b
    · obtain ⟨_ | _, rfl⟩ := hbool
      · exact ⟨_, .done⟩
      · exact ⟨_, .goOn⟩
    · exact ⟨_, .odd fun b hb => hbool ⟨b, hb⟩⟩

/-- **From every state a loop comes to an end**, by induction on the rounds that
are left before it is cut off. -/
theorem LoopGoes.exists_over : ∀ (left asked ran : Nat) (m : Machine), ran + left = maxRounds →
    ∃ asked' ran' stop m', LoopGoes s condition body limit (.asking asked ran m) (.over asked' ran' stop m')
  | 0, asked, ran, m, hleft => by
    obtain rfl : ran = maxRounds := hleft
    exact ⟨asked, maxRounds, _, m, .single .cut⟩
  | left + 1, asked, ran, m, hleft => by
    have hran : ran < maxRounds := by omega
    rcases hask : s.invoke condition [] m with ⟨answer, m₁⟩
    obtain ⟨_ | stop, hanswer⟩ := LoopAnswer.exists (s := s) answer
    · by_cases hlimit : ∀ l, limit = some l → (ran : Int) + 1 ≤ l
      · -- one more round
        have hstart : LoopStep s condition body limit (.asking asked ran m) (.running (asked + 1) ran m₁) :=
          .goOn hran hask hanswer hlimit
        rcases hrun : s.invoke body [] m₁ with ⟨e | v, m₂⟩
        · exact ⟨asked + 1, ran + 1, some e, m₂, .head hstart (.single (.fail hrun))⟩
        · obtain ⟨asked', ran', stop, m', hrest⟩ :=
            LoopGoes.exists_over left (asked + 1) (ran + 1) m₂ (by omega)
          exact ⟨asked', ran', stop, m', .head hstart (.head (.again hrun) hrest)⟩
      · obtain ⟨l, hnot⟩ := not_forall.mp hlimit
        obtain ⟨hsome, hmany⟩ := Classical.not_imp.mp hnot
        exact ⟨asked + 1, ran, _, m₁, .single (.refuse hran hask hanswer hsome (Int.not_le.mp hmany))⟩
    · exact ⟨asked + 1, ran, stop, m₁, .single (.finish hran hask hanswer)⟩

theorem LoopEnds.exists (m : Machine) : ∃ asked ran stop m', LoopEnds s condition body limit m asked ran stop m' :=
  LoopGoes.exists_over maxRounds 0 0 m (Nat.zero_add _)

/-- **A loop has one end.** -/
theorem LoopEnds.unique {m m₁ m₂ : Machine} {asked₁ asked₂ ran₁ ran₂ : Nat} {stop₁ stop₂ : Option Stop}
    (h₁ : LoopEnds s condition body limit m asked₁ ran₁ stop₁ m₁)
    (h₂ : LoopEnds s condition body limit m asked₂ ran₂ stop₂ m₂) :
    asked₂ = asked₁ ∧ ran₂ = ran₁ ∧ stop₂ = stop₁ ∧ m₂ = m₁ := by
  have hchoice : Relator.RightUnique (LoopStep s condition body limit) := fun _ _ _ h h' => h.unique h'
  rcases Relation.ReflTransGen.total_of_right_unique hchoice h₁ h₂ with h | h
  · cases LoopGoes.eq_of_over h
    exact ⟨rfl, rfl, rfl, rfl⟩
  · cases LoopGoes.eq_of_over h
    exact ⟨rfl, rfl, rfl, rfl⟩

end Ends

/-! ### What is left to run -/

/-- What the rounds of a loop give that is over. -/
def loopProduct : Option Stop → Except Stop Product
  | none => .ok (.value .null)
  | some e => .error e

/-- What the call of a loop gives that is over: null, or the stop as it leaves a
native. -/
def loopResult (s : Site) : Option Stop → Except Stop Value
  | none => .ok .null
  | some e => .error (e.guardedAt s.ctx s.pos)

/-- A loop as `while` makes it, with a limit on its rounds or without one. -/
def limitedLoop (condition : FunctionRef) (limit : Option Int) : NativeFunction :=
  ⟨.loop condition limit, "loop", .exactly 1, "loop(callback)", none⟩

/-- The rounds that are left to run in a state. -/
def LoopState.rest (s : Site) (condition body : FunctionRef) (limit : Option Int) :
    LoopState → Except Stop Product × Machine
  | .asking _ ran m => runRounds s condition body limit (maxRounds - ran) ran m
  | .running _ ran m =>
    (s.invoke body [] >>= fun _ =>
      runRounds s condition body limit (maxRounds - (ran + 1)) (ran + 1 : Nat)) m
  | .over _ _ stop m => (loopProduct stop, m)

section Rest

variable {s : Site} {condition body : FunctionRef} {limit : Option Int} {st st' : LoopState}
  {answer : Except Stop Value} {m m' : Machine}

theorem exists_rounds_left {ran : Nat} (hran : ran < maxRounds) : ∃ left, maxRounds - ran = left + 1 :=
  ⟨maxRounds - ran - 1, by omega⟩

/-- A round whose condition does not let the loop go on is the last one. -/
theorem runRounds_over {stop : Option Stop} (hask : s.invoke condition [] m = (answer, m'))
    (hanswer : LoopAnswer s answer (some stop)) (fuel : Nat) (count : Int) :
    runRounds s condition body limit (fuel + 1) count m = (loopProduct stop, m') := by
  unfold runRounds
  cases hanswer with
  | done => exact Eval.bind_run_ok hask _
  | odd hv =>
    rw [Eval.bind_run_ok hask]
    split
    · exact absurd rfl (hv _)
    · rfl
  | stopped e => exact Eval.bind_run_error hask _

/-- A round whose condition lets the loop go on is held against the limit. -/
theorem runRounds_true (hask : s.invoke condition [] m = (answer, m'))
    (hanswer : LoopAnswer s answer none) (fuel : Nat) (count : Int) :
    runRounds s condition body limit (fuel + 1) count m =
      (match limit with
        | some l =>
          if l < count + 1 then s.fail (.loopExceeded l)
          else s.invoke body [] >>= fun _ => runRounds s condition body limit fuel (count + 1)
        | none => s.invoke body [] >>= fun _ => runRounds s condition body limit fuel (count + 1)) m' := by
  cases hanswer
  conv_lhs => unfold runRounds
  rw [Eval.bind_run_ok hask]
  cases limit <;> rfl

/-- **A step leaves as much to run as there was before it.** -/
theorem LoopStep.rest_eq (h : LoopStep s condition body limit st st') :
    st.rest s condition body limit = st'.rest s condition body limit := by
  cases h with
  | @goOn asked ran m m' answer hran hask hanswer hlimit =>
    obtain ⟨left, hleft⟩ := exists_rounds_left hran
    have hnext : maxRounds - (ran + 1) = left := by omega
    simp only [LoopState.rest, hleft, hnext]
    rw [runRounds_true hask hanswer]
    cases limit with
    | none => rfl
    | some l =>
      have hfew : ¬ l < (ran : Int) + 1 := by
        have hle := hlimit l rfl
        omega
      simp only [if_neg hfew]
      rfl
  | @refuse asked ran m m' answer l hran hask hanswer hsome hmany =>
    obtain ⟨left, hleft⟩ := exists_rounds_left hran
    subst hsome
    simp only [LoopState.rest, hleft]
    rw [runRounds_true hask hanswer]
    simp only [if_pos hmany]
    rfl
  | @finish asked ran m m' answer stop hran hask hanswer =>
    obtain ⟨left, hleft⟩ := exists_rounds_left hran
    simp only [LoopState.rest, hleft]
    exact runRounds_over hask hanswer left ran
  | again hrun => exact Eval.bind_run_ok hrun _
  | fail hrun => exact Eval.bind_run_error hrun _
  | cut =>
    simp only [LoopState.rest, Nat.sub_self]
    rfl

theorem LoopGoes.rest_eq (h : LoopGoes s condition body limit st st') :
    st.rest s condition body limit = st'.rest s condition body limit := by
  induction h with
  | refl => rfl
  | tail _ hstep ih => exact ih.trans hstep.rest_eq

/-- **The call of a loop ends as its steps do.** -/
theorem LoopEnds.callNative_eq {asked ran : Nat} {stop : Option Stop}
    (h : LoopEnds s condition body limit m asked ran stop m') :
    callNative s (limitedLoop condition limit) [.function body] m = (loopResult s stop, m') := by
  have hrounds : runRounds s condition body limit maxRounds 0 m = (loopProduct stop, m') := LoopGoes.rest_eq h
  have hcall : callNative s (limitedLoop condition limit) [.function body] = (do
      let product ← Eval.guarded s.ctx s.pos (runRounds s condition body limit maxRounds 0)
      s.receive none product) := rfl
  rw [hcall]
  rcases stop with _ | e
  · have hguarded : Eval.guarded s.ctx s.pos (runRounds s condition body limit maxRounds 0) m =
        (.ok (.value .null), m') := guarded_ok hrounds
    rw [Eval.bind_run_ok hguarded]
    rfl
  · have hguarded : Eval.guarded s.ctx s.pos (runRounds s condition body limit maxRounds 0) m =
        (.error (e.guardedAt s.ctx s.pos), m') := by
      unfold Eval.guarded
      rw [hrounds]
      cases e <;> rfl
    exact Eval.bind_run_error hguarded _

end Rest

/-! ### The limit when `while` is called -/

/-- The settings limit the rounds of the loops that are made, or do not. -/
def Settings.LimitsLoops (set : Settings) : Option Int → Prop
  | none => set.loopLimit = ""
  | some l => set.loopLimit ≠ "" ∧ Number.readInteger 10 set.loopLimit = .ok l

theorem loopLimit_eq {s : Site} {limit : Option Int} (h : s.ctx.settings.LimitsLoops limit) :
    loopLimit s = pure limit := by
  unfold loopLimit
  cases limit with
  | none =>
    have hnone : s.ctx.settings.loopLimit = "" := h
    exact if_pos hnone
  | some l =>
    obtain ⟨hsome, hread⟩ := h
    simp only [if_neg hsome, hread]

/-- **`while` hands back the loop under the limit in force.** -/
theorem callNative_while_limited {s : Site} {g : NativeFunction} {limit : Option Int}
    (hg : g.operation = .core .repeating) (harity : g.arity = CoreOp.repeating.signature.arity)
    (hlimit : s.ctx.settings.LimitsLoops limit) (condition : FunctionRef) (m : Machine) :
    callNative s g [.function condition] m = (.ok (.function ⟨m.heap.functions.size⟩),
      { m with heap := (m.heap.newFunction (.native (limitedLoop condition limit))).2 }) := by
  obtain ⟨op, name, arity, usage, note⟩ := g
  obtain rfl : op = .core .repeating := hg
  obtain rfl : arity = .exactly 1 := harity
  simp only [callNative, Operation.run, CoreOp.run, loopLimit_eq hlimit, pure_bind]
  rfl

/-! ### The limit bounds, and does nothing else -/

/-- **A limit on the rounds bounds a loop and does not disturb it otherwise.**
`while` hands back a loop under the limit that is in force then, and the call
of a loop, under whatever limit, ends as its steps do, in one way only. Take
the loop of a condition and a body on a machine, without a limit and with the
limit `cap`.

If the one without a limit ends after its body was run `cap` times at most, the
other one goes to the same end: it asks and runs as often, and gives the same
on the same machine. If it comes to start its body once more after `cap` runs,
the other one has run it `cap` times and asked `cap + 1` times when it stops
there with a range fault, on the machine that the body would be run on. And one
of the two is the case. -/
theorem loop_limit_only_bounds (s : Site) (condition body : FunctionRef) (cap : Nat) (m : Machine) :
    (∀ (s₀ : Site) (g : NativeFunction) (limit : Option Int) (m₀ : Machine),
      g.operation = .core .repeating → g.arity = CoreOp.repeating.signature.arity →
      s₀.ctx.settings.LimitsLoops limit →
      callNative s₀ g [.function condition] m₀ = (.ok (.function ⟨m₀.heap.functions.size⟩),
        { m₀ with heap := (m₀.heap.newFunction (.native (limitedLoop condition limit))).2 })) ∧
    (∀ limit, ∃ asked ran stop m', LoopEnds s condition body limit m asked ran stop m' ∧
      callNative s (limitedLoop condition limit) [.function body] m = (loopResult s stop, m') ∧
      ∀ asked₁ ran₁ stop₁ m₁, LoopEnds s condition body limit m asked₁ ran₁ stop₁ m₁ →
        asked₁ = asked ∧ ran₁ = ran ∧ stop₁ = stop ∧ m₁ = m') ∧
    (∀ asked ran stop m', LoopEnds s condition body none m asked ran stop m' → ran ≤ cap →
      LoopEnds s condition body (some cap) m asked ran stop m' ∧
      callNative s (limitedLoop condition (some cap)) [.function body] m =
        callNative s (limitedLoop condition none) [.function body] m) ∧
    (∀ asked m', LoopStarts s condition body none m asked cap m' → asked = cap + 1 ∧
      LoopEnds s condition body (some cap) m (cap + 1) cap (some (s.fault (.loopExceeded cap))) m' ∧
      callNative s (limitedLoop condition (some cap)) [.function body] m =
        (.error (s.fault (.loopExceeded cap)), m') ∧
      (Cause.loopExceeded cap).kind = .range) ∧
    ((∃ asked ran stop m', ran ≤ cap ∧ LoopEnds s condition body none m asked ran stop m') ∨
      ∃ asked m', LoopStarts s condition body none m asked cap m') := by
  refine ⟨?_, ?_, ?_, ?_, ?_⟩
  · intro s₀ g limit m₀ hg harity hlimit
    exact callNative_while_limited hg harity hlimit condition m₀
  · intro limit
    obtain ⟨asked, ran, stop, m', hends⟩ :
        ∃ asked ran stop m', LoopEnds s condition body limit m asked ran stop m' := LoopEnds.exists m
    exact ⟨asked, ran, stop, m', hends, hends.callNative_eq, fun _ _ _ _ hends' => hends.unique hends'⟩
  · intro asked ran stop m' hends hcap
    have hcapped : LoopEnds s condition body (some cap) m asked ran stop m' := LoopGoes.under_limit hends hcap
    exact ⟨hcapped, hcapped.callNative_eq.trans hends.callNative_eq.symm⟩
  · intro asked m' hstarts
    obtain ⟨hasked, hrefused⟩ := LoopGoes.refused hstarts
    have hcapped : LoopEnds s condition body (some cap) m (cap + 1) cap
        (some (s.fault (.loopExceeded cap))) m' := hrefused
    exact ⟨hasked, hcapped, hcapped.callNative_eq, rfl⟩
  · obtain ⟨asked, ran, stop, m', hends⟩ :
        ∃ asked ran stop m', LoopEnds s condition body none m asked ran stop m' := LoopEnds.exists m
    by_cases hcap : ran ≤ cap
    · exact .inl ⟨asked, ran, stop, m', hcap, hends⟩
    · exact .inr (LoopGoes.exists_running hends (Nat.lt_of_not_le hcap))

/-- A loop whose body makes its condition false. It runs the body once, also
under the limit one; under the limit zero it is refused. -/
theorem loop_limit_only_bounds_once :
    let pos : Position := ⟨some 1, some 1, 0⟩
    let block (body : List Node) : Function := .script ⟨[], body, ⟨0⟩, "", none, true, none⟩
    let heap (x : Bool) : Heap := ⟨#[⟨[("x", .bool x)], none⟩], #[], #[],
      #[block [.word pos "x"], block [.value pos (.bool false), .symbol pos "$", .word pos "x"]]⟩
    let m (x : Bool) : Machine := { Machine.initial with heap := heap x, focus := some pos }
    let s : Site := ⟨Engine.level 3, ⟨⟨0⟩, "", ⟨none, "1", false, .usual⟩⟩, pos⟩
    let g : NativeFunction := ⟨.core .repeating, "while", .exactly 1, none, none⟩
    s.ctx.settings.LimitsLoops (some 1) ∧
      (callNative s g [.function ⟨0⟩] (m true)).1 = .ok (.function ⟨2⟩) ∧
      (LoopEnds s ⟨0⟩ ⟨1⟩ none (m true) 2 1 none (m false) ∧
        callNative s (limitedLoop ⟨0⟩ (some 1)) [.function ⟨1⟩] (m true) = (.ok .null, m false)) ∧
      LoopStarts s ⟨0⟩ ⟨1⟩ none (m true) 1 0 (m true) ∧
        callNative s (limitedLoop ⟨0⟩ (some 0)) [.function ⟨1⟩] (m true) =
          (.error (s.fault (.loopExceeded 0)), m true) := by
  intro pos block heap m s g
  have hask₁ : s.invoke ⟨0⟩ [] (m true) = (.ok (.bool true), m true) := rfl
  have hrun₁ : s.invoke ⟨1⟩ [] (m true) = (.ok (.bool false), m false) := rfl
  have hask₂ : s.invoke ⟨0⟩ [] (m false) = (.ok (.bool false), m false) := rfl
  have hlimits : s.ctx.settings.LimitsLoops (some 1) := ⟨by decide, by decide +kernel⟩
  have hstarts : LoopStarts s ⟨0⟩ ⟨1⟩ none (m true) 1 0 (m true) :=
    .single (.goOn (by decide) hask₁ .goOn (by simp))
  have hends : LoopEnds s ⟨0⟩ ⟨1⟩ none (m true) 2 1 none (m false) :=
    (hstarts.tail (.again hrun₁)).tail (.finish (by decide) hask₂ .done)
  have hlaw := loop_limit_only_bounds s ⟨0⟩ ⟨1⟩
  refine ⟨hlimits, ?_, ⟨hends, ?_⟩, hstarts, ?_⟩
  · rw [(hlaw 1 (m true)).1 s g (some 1) (m true) rfl rfl hlimits]
    rfl
  · have hsame := ((hlaw 1 (m true)).2.2.1 2 1 none (m false) hends (by decide)).2
    exact hsame.trans hends.callNative_eq
  · exact ((hlaw 0 (m true)).2.2.2.1 1 (m true) hstarts).2.2.1

end RuleScript
