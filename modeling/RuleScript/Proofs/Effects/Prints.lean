/-
# The effects of a run are its prints

What a run shows are the messages of the calls of `print` that it completed,
in the order in which they were, and then the message of its failure if it
failed.

Which calls were completed is not read off the effects but told by a listener.
On an engine that is overheard (`Engine.overheard`), the listener hears the
message of each call of `print` when the call is over, and what it makes of it
takes the place of the effects. A run goes the same way on such an engine
whatever the listener does, and the listener has heard exactly the messages
that the run itself shows.

Key definitions: `printedText`, `Engine.overheard`, `Twin.heard`.
Key theorems: `Realm.engines_overheard`, `Runner.evalOn_overheard`,
`effects_are_the_prints`.
-/
import RuleScript.Proofs.Calls.Depth
import RuleScript.Proofs.Realm.Evaluation

namespace RuleScript

/-! ### Listening to `print` -/

/-- The message of a call of `print`. -/
def printedText (h : Heap) (args : List Value) : String :=
  String.intercalate " " (args.map (·.text h))

/-- What a listener makes of a further message. -/
abbrev Listener : Type := Array Effect → String → Array Effect

/-- A native call that is overheard: the effects of a completed call of
`print` are what the listener makes of its message. -/
def callOverheard (hear : Listener) (s : Site) (f : NativeFunction) (args : List Value) : Eval Value :=
  fun m =>
    match callNative s f args m with
    | (.ok v, m') =>
      match f.operation with
      | .core .print => (.ok v, { m' with effects := hear m.effects (printedText m.heap args) })
      | _ => (.ok v, m')
    | r => r

/-- The levels of evaluation, overheard. -/
def Engine.overheard (hear : Listener) : Nat → Engine
  | 0 => .exhausted
  | n + 1 => (overheard hear n).nextBy (callOverheard hear)

/-- Only calls of `print` are heard. -/
theorem callOverheard_of_ne {f : NativeFunction} (hf : f.operation ≠ .core .print) (hear : Listener)
    (s : Site) (args : List Value) : callOverheard hear s f args = callNative s f args := by
  funext m
  unfold callOverheard
  split
  · split
    · contradiction
    · rename_i h _ _
      exact h.symm
  · rfl

/-- A run beside one that is overheard: messages have been shown in the one and
heard in the other. -/
def Twin.heard (hear : Listener) (start : Array Effect) : Twin where
  aligned := True
  focused := True
  effects E E' := ∃ texts : List String, E.toList = texts.map .printed ∧ E' = texts.foldl hear start
  idle := True

/-- A call of `print` with as many values as it takes shows their message and
gives null. -/
theorem callNative_print {f : NativeFunction} (hf : f.operation = .core .print) {args : List Value}
    (hargs : f.arity.admits args.length = true) (s : Site) (m : Machine) :
    ∃ log, callNative s f args m = (.ok .null,
      { m with log, effects := m.effects.push (.printed (printedText m.heap args)) }) := by
  unfold callNative
  rw [hf, if_pos hargs]
  cases htracing : s.ctx.settings.tracing with
  | false =>
    refine ⟨m.log, ?_⟩
    simp only [Operation.run, CoreOp.run, printValues, Eval.note, htracing, Bool.false_eq_true, if_false]
    rfl
  | true =>
    refine ⟨m.log.push ("[DBG] " ++ ("print() " ++ Text.quoted (printedText m.heap args))), ?_⟩
    simp only [Operation.run, CoreOp.run, printValues, Eval.note, htracing, if_true]
    rfl

namespace Realm

variable {R : Realm} {hear : Listener} {start : Array Effect}

/-- A call of `print` shows one message, and one message is heard. -/
theorem callOverheard_print {s : Site} (e : Engine) (hpos : R.place s.pos) {f : NativeFunction}
    (hf : f.operation = .core .print) (args : List Value) :
    R.Keeps (Twin.heard hear start).started (callNative s f args)
      (callOverheard hear { s with engine := e } f args) R.value := by
  intro m m' hm hb
  cases hargs : f.arity.admits args.length with
  | false =>
    have hfails (s : Site) : callNative s f args =
        s.fail (.wrongArity ((Function.native f).name?.getD "function") f.arity args.length) := by
      unfold callNative
      rw [hargs]
      rfl
    have hoverheard : callOverheard hear { s with engine := e } f args =
        s.fail (.wrongArity ((Function.native f).name?.getD "function") f.arity args.length) := by
      unfold callOverheard
      rw [hfails]
      rfl
    rw [hfails, hoverheard]
    exact Keeps.fail hpos s.ctx _ hm hb
  | true =>
    obtain ⟨log, hshown⟩ := callNative_print hf hargs s m
    obtain ⟨log', hheard⟩ := callNative_print hf hargs { s with engine := e } m'
    have hoverheard : callOverheard hear { s with engine := e } f args m' =
        (.ok .null, { m' with log := log', effects := hear m'.effects (printedText m'.heap args) }) := by
      unfold callOverheard
      rw [hheard, hf]
    rw [hshown, hoverheard, hb.heap]
    obtain ⟨texts, hE, hE'⟩ := hb.effects
    refine .value ⟨hm.heap, hm.hosts, hm.calls, hm.focus⟩
      ⟨rfl, hb.hosts, hb.seed, hb.calls, hb.focus, ?_, hb.idle⟩ trivial
    refine ⟨texts ++ [printedText m.heap args], ?_, ?_⟩
    · rw [Array.toList_push, hE, List.map_append]
      rfl
    · rw [List.foldl_append, ← hE']
      rfl

/-- **Every level goes the same way when it is overheard.** -/
theorem engines_overheard (hear : Listener) (start : Array Effect) : ∀ n,
    R.Engines (Twin.heard hear start).started (Engine.level n) (Engine.overheard hear n)
  | 0 => engines_exhausted
  | n + 1 => by
    have he := engines_overheard hear start n
    refine he.nextBy fun {ctx pos f args} hctx hpos hf hargs => ?_
    by_cases hprint : f.operation = .core .print
    · exact callOverheard_print _ (R.place_of_site hpos) hprint args
    · rw [callOverheard_of_ne hprint]
      exact callNative_keeps he hctx hpos hargs hf fun h => absurd h hprint

end Realm

namespace Runner

/-! ### Binding a host shows nothing -/

theorem restoreAll_effects : ∀ (names : List String) (r : Runner),
    (names.foldl restore r).machine.effects = r.machine.effects
  | [], _ => rfl
  | name :: names, r => by
    have hrestore : (r.restore name).machine.effects = r.machine.effects := by
      unfold restore
      split <;> rfl
    exact (restoreAll_effects names (r.restore name)).trans hrestore

theorem bindMethods_effects (host : Nat) : ∀ (ms : List HostMethod) (r : Runner) (index : Nat),
    (bindMethods host r index ms).machine.effects = r.machine.effects
  | [], _, _ => rfl
  | m :: ms, r, index => by
    unfold bindMethods
    rw [bindMethods_effects host ms]
    split <;> rfl

/-- A script starts with nothing shown. -/
theorem prepared_effects (r : Runner) : r.prepared.machine.effects = #[] := by
  have hrelease := restoreAll_effects r.hostNames { r with machine := { r.machine with effects := #[] } }
  unfold prepared bindHost
  dsimp only
  split
  · exact hrelease
  · split
    · exact hrelease
    · split
      · exact hrelease
      · exact (bindMethods_effects _ _ _ _).trans hrelease

/-! ### Runs that are overheard -/

/-- The runner with other effects. -/
def withEffects (r : Runner) (effects : Array Effect) : Runner :=
  { r with machine := { r.machine with effects } }

/-- How a run that is overheard ends beside the run itself, with the messages
that were shown. -/
structure Overheard (hear : Listener) (start : Array Effect) (texts : List String)
    (p p' : Except Stop Value × Runner) : Prop where
  result : p'.1 = p.1
  heap : p'.2.machine.heap = p.2.machine.heap
  shown : p.2.machine.effects.toList = texts.map .printed
  heard : p'.2.machine.effects = texts.foldl hear start

theorem Overheard.of_ends {hear : Listener} {start : Array Effect} (r : Runner)
    {q q' : Except Stop Value × Machine} {post : Value → Prop}
    (h : Realm.everything.Ends (Twin.heard hear start) post q q') :
    ∃ texts, Overheard hear start texts
      (q.1.mapError (settle { r with machine := q.2 }), { r with machine := q.2 })
      (q'.1.mapError (settle { r with machine := q'.2 }), { r with machine := q'.2 }) := by
  cases h with
  | value _ hb _ =>
    obtain ⟨texts, hshown, hheard⟩ := hb.effects
    exact ⟨texts, rfl, hb.heap, hshown, hheard⟩
  | @stop s s' m m' _ hb _ hss _ =>
    obtain ⟨texts, hshown, hheard⟩ := hb.effects
    have hfocus : m'.focus = m.focus := hb.focus trivial
    obtain rfl := hss.aligned trivial
    refine ⟨texts, congrArg Except.error ?_, hb.heap, hshown, hheard⟩
    cases s' with
    | exhausted => exact congrArg (fun focus => Stop.fault (.raisedAt .depthExceeded focus r.source)) hfocus
    | _ => rfl

variable {r : Runner} (hr : r.machine.effects = #[]) (hear : Listener) (start : Array Effect)

include hr

theorem runNodesOn_overheard (nodes : List Node) : ∃ texts, Overheard hear start texts (r.runNodes nodes)
    ((r.withEffects start).runNodesOn (Engine.overheard hear maxLevels) nodes) := by
  have hscope : (r.withEffects start).programScope =
      (r.programScope.1, r.programScope.2.withEffects start) := by
    unfold programScope withEffects
    dsimp only
    split <;> rfl
  have hnone : r.programScope.2.machine.effects = #[] := by
    unfold programScope
    split <;> exact hr
  rw [runNodes_eq]
  unfold runNodesOn
  rw [hscope]
  generalize r.programScope = p at hnone
  obtain ⟨scope, r⟩ := p
  have hbeside : (Twin.heard hear start).Beside r.machine (r.withEffects start).machine :=
    ⟨rfl, rfl, rfl, fun _ => rfl, fun _ => rfl, ⟨[], congrArg Array.toList hnone, rfl⟩, fun _ => trivial⟩
  have hkeeps : Realm.everything.Keeps (Twin.heard hear start)
      ((Engine.level maxLevels).evaluate ⟨scope, r.source, r.settings⟩ nodes)
      ((Engine.overheard hear maxLevels).evaluate ⟨scope, r.source, r.settings⟩ nodes)
      Realm.everything.value := by
    obtain ⟨n, hlevels⟩ := exists_levels
    rw [hlevels]
    exact Realm.evaluateList_keeps (Realm.engines_overheard hear start n) ⟨trivial, .inl trivial⟩
      (Realm.everything_terms nodes)
  exact Overheard.of_ends r (hkeeps (Realm.everything_holds r.machine) hbeside)

/-- **A run goes the same way when it is overheard**, and what is heard is what
it shows. -/
theorem evalOn_overheard (text : String) : ∃ texts, Overheard hear start texts (r.eval text)
    ((r.withEffects start).evalOn (Engine.overheard hear maxLevels) text) := by
  let r₀ : Runner := { r with machine := { r.machine with calls := [], focus := none } }
  have hr₀ : r₀.machine.effects = #[] := hr
  unfold eval evalOn withEffects
  dsimp only
  cases parse r.settings.room.spans text with
  | ok nodes => exact runNodesOn_overheard hr₀ hear start nodes
  | error cause => cases cause <;> exact ⟨[], rfl, rfl, congrArg Array.toList hr, rfl⟩

end Runner

/-- **The effects of a run are its prints, in order, and then its failure.** For
each run of a script for a host there are the messages of the calls of `print`
that it completed: whatever a listener does with a message, the run goes the
same way when it is overheard, and the listener has heard these messages, in
this order. They are what the run shows; a run that fails shows its message
once, behind them, and a run that does not fail shows nothing else. -/
theorem effects_are_the_prints (r : Runner) (text : String) : ∃ texts : List String,
    (∀ hear start, let p := r.prepared.eval text
      let p' := (r.prepared.withEffects start).evalOn (Engine.overheard hear maxLevels) text
      p'.1 = p.1 ∧ p'.2.machine.heap = p.2.machine.heap ∧ p'.2.machine.effects = texts.foldl hear start) ∧
    match (r.handle text).1 with
    | .success _ => (r.handle text).2.machine.effects.toList = texts.map .printed
    | .failure _ message _ =>
      (r.handle text).2.machine.effects.toList = texts.map .printed ++ [.failed message] := by
  have hoverheard := Runner.evalOn_overheard r.prepared_effects
  -- the messages do not depend on the listener: they are what the run shows
  obtain ⟨texts, hshows⟩ : ∃ texts : List String,
      (r.prepared.eval text).2.machine.effects.toList = texts.map .printed := by
    obtain ⟨texts, h⟩ := hoverheard (fun E _ => E) #[] text
    exact ⟨texts, h.shown⟩
  refine ⟨texts, fun hear start => ?_, ?_⟩
  · obtain ⟨texts', h⟩ := hoverheard hear start text
    have hsame : texts' = texts :=
      (List.map_inj_right fun _ _ => Effect.printed.inj).mp (h.shown.symm.trans hshows)
    exact ⟨h.result, h.heap, hsame ▸ h.heard⟩
  · rw [Runner.handle_eq]
    generalize r.prepared.eval text = p at hshows
    obtain ⟨result, r'⟩ := p
    cases result with
    | ok v => exact hshows
    | error s =>
      show (r'.machine.effects.push _).toList = _
      rw [Array.toList_push, hshows]

end RuleScript
