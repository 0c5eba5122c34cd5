/-
# Calls and the traces of stops

A call is active from the moment its frame is pushed until it is over, and
whatever happens in between, the calls that were active before are active
again afterwards. A stop that leaves calls on its way out carries the active
calls of the innermost one.

To say which calls a stop has left, the program is run on a second engine
(`Engine.recording`), which notes no active calls: there a stop that leaves a
call is given that call's frame and nothing else, in front of the ones it has
left before. When a native operation replaces an internal error by a fault,
the fault has left nothing yet. The two engines reach the same machine, and
the trace of a stop is the calls that were active, outermost first, followed
by the calls that it has left (`recording_alike`).

Key definitions: `Stop.under`, `Stop.leaving`, `Engine.recording`, `CallEnd`,
`Runner.Request`.
Key theorems: `recording_alike`, `Engine.evaluate_calls`, `call_stack_discipline`.
-/
import RuleScript.Proofs.Calls.Evaluation
import RuleScript.Runner.Session

namespace RuleScript

/-! ### The record of a stop -/

namespace Stop

/-- The stop with some calls in front of the noted ones. -/
def under (outer : List Frame) : Stop → Stop
  | .fault f => .fault { f with trace := f.trace.map (outer ++ ·) }
  | .internal e trace => .internal e (trace.map (outer ++ ·))
  | .exhausted trace => .exhausted (trace.map (outer ++ ·))

/-- The stop after it has left a call. -/
def leaving (frame : Frame) : Stop → Stop
  | .fault f => .fault { f with trace := some (frame :: f.trace.getD []) }
  | .internal e trace => .internal e (some (frame :: trace.getD []))
  | .exhausted trace => .exhausted (some (frame :: trace.getD []))

theorem trace?_under (outer : List Frame) (s : Stop) :
    (s.under outer).trace? = s.trace?.map (outer ++ ·) := by
  cases s <;> rfl

theorem trace?_leaving (frame : Frame) (s : Stop) :
    (s.leaving frame).trace? = some (frame :: s.trace?.getD []) := by
  cases s <;> rfl

theorem under_of_fresh {s : Stop} (h : s.trace? = none) (outer : List Frame) : s.under outer = s := by
  cases s with
  | fault f =>
    obtain ⟨cause, line, column, source, trace⟩ := f
    obtain rfl : trace = none := h
    rfl
  | internal e trace =>
    obtain rfl : trace = none := h
    rfl
  | exhausted trace =>
    obtain rfl : trace = none := h
    rfl

theorem internal?_under (outer : List Frame) (s : Stop) : (s.under outer).internal? = s.internal? := by
  cases s <;> rfl

/-- Noting the active calls of the innermost call that was left is recording
the calls that were left, one by one. -/
theorem traced_under (frame : Frame) (calls : List Frame) (s : Stop) :
    (s.under (frame :: calls).reverse).traced (frame :: calls).reverse =
      (s.leaving frame).under calls.reverse := by
  have htrace (trace : Option (List Frame)) :
      some ((trace.map ((frame :: calls).reverse ++ ·)).getD (frame :: calls).reverse) =
        (some (frame :: trace.getD [])).map (calls.reverse ++ ·) := by
    cases trace <;> simp
  cases s <;> simp only [under, leaving, traced, htrace]

end Stop

/-- Enter a call, and record it in a stop that leaves it. -/
def Eval.recordFrame {α : Type} (frame : Frame) (act : Eval α) : Eval α := fun m =>
  match act { m with calls := frame :: m.calls } with
  | (.ok a, m') => (.ok a, popFrame m')
  | (.error s, m') => (.error (s.leaving frame), popFrame m')

/-- The engine with `n` levels in which a stop records the calls it leaves. -/
def Engine.recording : Nat → Engine
  | 0 => .exhausted
  | n + 1 => {
      evaluate := evaluateList (Engine.recording n)
      call := callBy Eval.recordFrame (Engine.recording n) }

/-! ### The two engines side by side -/

/-- The trace of a stop is the active calls and then the ones it has left. -/
def recorded (calls : List Frame) : Coupling where
  calls
  stops s s' := s = s'.under calls.reverse
  lost _ := False
  limits := (· = ·)
  fresh h := (Stop.under_of_fresh h _).symm
  internal h := by rw [h, Stop.internal?_under]
  lost_internal h := h.elim

theorem withFrame_agree {frame : Frame} {calls : List Frame} {x y : Eval Value}
    (h : (recorded (frame :: calls)).Agree x y) :
    (recorded calls).Agree (Eval.withFrame frame x) (Eval.recordFrame frame y) := by
  intro m hm
  have hxy := h { m with calls := frame :: m.calls } (by rw [hm]; rfl)
  unfold Eval.withFrame Eval.recordFrame
  generalize x _ = r, y _ = r' at hxy
  cases hxy with
  | value a hcalls => exact .value a (by rw [Eval.popFrame, hcalls]; rfl)
  | stop hcalls hs =>
    refine .stop (by rw [Eval.popFrame, hcalls]; rfl) ?_
    rw [hcalls, hs]
    exact Stop.traced_under frame calls _
  | lost m r hlost => exact hlost.elim

/-- **The engines are in step at every level.** -/
theorem recording_alike : ∀ (n : Nat) (calls : List Frame),
    Alike (recorded calls) (Engine.level n) (Engine.recording n)
  | 0, _ => ⟨fun _ _ _ _ => .of_local (throw _), fun _ _ _ _ _ _ => .of_local (throw _)⟩
  | n + 1, calls => by
    refine ⟨fun ctx _ hl nodes => evaluateList_agree (recording_alike n calls) hl nodes, ?_⟩
    rintro ctx _ rfl ref args pos
    refine callBy_agree ref args pos id .inl fun _ f => withFrame_agree ?_
    exact callBody_agree (recording_alike n _) rfl f args pos

theorem Coupling.Agree.calls_eq {α : Type} {C : Coupling} {x y : Eval α} (h : C.Agree x y)
    (hlost : ∀ s, ¬C.lost s) {m : Machine} (hm : m.calls = C.calls) : (x m).2.calls = m.calls := by
  have hxy := h m hm
  generalize x m = r, y m = r' at hxy
  cases hxy with
  | value a hcalls => exact hcalls.trans hm.symm
  | stop hcalls _ => exact hcalls.trans hm.symm
  | lost m r hl => exact (hlost _ hl).elim

namespace Engine

/-- Evaluation leaves the active calls as they were. -/
theorem evaluate_calls (n : Nat) (ctx : Context) (nodes : List Node) (m : Machine) :
    ((level n).evaluate ctx nodes m).2.calls = m.calls :=
  ((recording_alike n m.calls).evaluate ctx rfl nodes).calls_eq (fun _ h => h) rfl

/-- A call leaves the active calls as they were. -/
theorem call_calls (n : Nat) (ctx : Context) (ref : FunctionRef) (args : List Node) (pos : Position)
    (m : Machine) : ((level n).call ctx ref args pos m).2.calls = m.calls :=
  ((recording_alike n m.calls).call ctx rfl ref args pos).calls_eq (fun _ h => h) rfl

end Engine

/-! ### The trace of a call that fails -/

theorem callBy_entered (enter : Frame → Eval Value → Eval Value) (e : Engine) {ctx : Context}
    {ref : FunctionRef} {m : Machine} {f : Function} (hf : m.heap.function? ref = some f)
    (hadmits : ctx.settings.admitsCall m.calls.length = true) (args : List Node) (pos : Position) :
    callBy enter e ctx ref args pos m =
      enter (callFrame ctx f pos) (callBody e ctx f args pos) m := by
  have hget {α : Type} (k : Machine → Eval α) : (get >>= k) m = k m m := rfl
  unfold callBy
  rw [hget, hadmits, hf]
  rfl

/-- How a call with a given frame ends, beside the same call with a record.
The calls of before are active again. If the call stops, its stop is the
recorded one below those calls: it lists them, then the call itself, then the
calls inside that it has left, down to the innermost. -/
structure CallEnd (frame : Frame) (m : Machine) (r record : Except Stop Value × Machine) : Prop where
  calls : r.2.calls = m.calls
  machine : record.2 = r.2
  trace : ∀ s, r.1 = .error s → ∃ inner s', record.1 = .error s' ∧
    s'.trace? = some (frame :: inner) ∧ s = s'.under m.calls.reverse ∧
    s.trace? = some (m.calls.reverse ++ frame :: inner)

theorem recordFrame_trace {frame : Frame} {act : Eval Value} {m : Machine} {s : Stop}
    (h : (Eval.recordFrame frame act m).1 = .error s) :
    ∃ inner, s.trace? = some (frame :: inner) := by
  unfold Eval.recordFrame at h
  split at h
  · cases h
  · obtain rfl := Except.error.inj h
    exact ⟨_, Stop.trace?_leaving frame _⟩

theorem callEnd_of_entered (n : Nat) {ctx : Context} {ref : FunctionRef} {m : Machine} {f : Function}
    (hf : m.heap.function? ref = some f)
    (hadmits : ctx.settings.admitsCall m.calls.length = true) (args : List Node) (pos : Position) :
    CallEnd (callFrame ctx f pos) m ((Engine.level (n + 1)).call ctx ref args pos m)
      ((Engine.recording (n + 1)).call ctx ref args pos m) := by
  have hrecord : (Engine.recording (n + 1)).call ctx ref args pos m =
      Eval.recordFrame (callFrame ctx f pos) (callBody (Engine.recording n) ctx f args pos) m :=
    callBy_entered Eval.recordFrame (Engine.recording n) hf hadmits args pos
  have hends : (recorded m.calls).Ends ((Engine.level (n + 1)).call ctx ref args pos m)
      ((Engine.recording (n + 1)).call ctx ref args pos m) :=
    (recording_alike (n + 1) m.calls).call ctx rfl ref args pos m rfl
  rw [hrecord] at hends ⊢
  generalize (Engine.level (n + 1)).call ctx ref args pos m = r at hends ⊢
  generalize hr' : Eval.recordFrame _ _ m = r' at hends ⊢
  cases hends with
  | value a hcalls => exact ⟨hcalls, rfl, by rintro _ ⟨⟩⟩
  | @stop s s' m' hcalls hstops =>
    refine ⟨hcalls, rfl, ?_⟩
    rintro _ ⟨⟩
    obtain ⟨inner, hinner⟩ := recordFrame_trace (congrArg Prod.fst hr')
    refine ⟨inner, s', rfl, hinner, hstops, ?_⟩
    rw [hstops, Stop.trace?_under, hinner]
    rfl
  | lost _ _ h => exact h.elim

/-! ### Runners -/

namespace Runner

/-- What an embedding asks of a runner. -/
inductive Request where
  | runNodes (nodes : List Node)
  | eval (text : String)
  | handle (text : String)
  /-- Another host takes the place of the bound one, or none does. -/
  | rebind (host : Option Nat)

/-- The runner after a request. -/
def serve (r : Runner) : Request → Runner
  | .runNodes nodes => (r.runNodes nodes).2
  | .eval text => (r.eval text).2
  | .handle text => (r.handle text).2
  | .rebind host => { r with host }

/-- The runner after some requests in turn. -/
def serveAll (r : Runner) (requests : List Request) : Runner := requests.foldl serve r

theorem restore_calls (r : Runner) (name : String) :
    (r.restore name).machine.calls = r.machine.calls := by
  unfold restore
  split <;> rfl

theorem restoreAll_calls : ∀ (names : List String) (r : Runner),
    (names.foldl restore r).machine.calls = r.machine.calls
  | [], _ => rfl
  | name :: names, r => (restoreAll_calls names (r.restore name)).trans (r.restore_calls name)

theorem bindMethods_calls (host : Nat) : ∀ (ms : List HostMethod) (r : Runner) (index : Nat),
    (bindMethods host r index ms).machine.calls = r.machine.calls
  | [], _, _ => rfl
  | m :: ms, r, index => by
    unfold bindMethods
    rw [bindMethods_calls host ms]
    split <;> rfl

theorem bindHost_calls (r : Runner) : r.bindHost.machine.calls = r.machine.calls := by
  have hrelease : r.releaseHost.machine.calls = r.machine.calls := restoreAll_calls r.hostNames r
  unfold bindHost
  dsimp only
  split
  · exact hrelease
  · split
    · exact hrelease
    · split
      · exact hrelease
      · exact (bindMethods_calls _ _ _ _).trans hrelease

instance (sig : Signature) (op : Operation) : Eval.Local (newNative sig op) := Eval.Local.bind

instance (ops : List (Signature × Operation)) (more : Table Value) :
    Eval.Local (newFamily ops more) := Eval.Local.bind

instance : Eval.Local rootBindings := Eval.Local.bind

theorem create_calls (settings : Settings) (source : String) (keep : Bool) (hosts : Array Host)
    (host : Option Nat) : (create settings source keep hosts host).machine.calls = [] := by
  have hroot : ∀ m, (rootBindings m).2.calls = m.calls := fun m => (Eval.Local.run m).1
  have hcalls := hroot { Machine.initial with hosts }
  unfold create
  dsimp only
  rw [bindHost_calls]
  generalize rootBindings _ = r at hcalls ⊢
  rcases r with ⟨_ | _, m⟩
  · exact hcalls
  · exact hcalls

theorem programScope_calls (r : Runner) : r.programScope.2.machine.calls = r.machine.calls := by
  unfold programScope
  split <;> rfl

theorem runNodes_calls (r : Runner) (nodes : List Node) :
    (r.runNodes nodes).2.machine.calls = r.machine.calls :=
  (Engine.evaluate_calls maxLevels _ nodes _).trans r.programScope_calls

theorem eval_calls (r : Runner) (text : String) : (r.eval text).2.machine.calls = [] := by
  unfold eval
  dsimp only
  split
  · exact runNodes_calls _ _
  · rfl
  · rfl

theorem handle_calls (r : Runner) (text : String) : (r.handle text).2.machine.calls = [] := by
  have heval := eval_calls
    (bindHost { r with machine := { r.machine with effects := #[] } }) text
  unfold handle
  dsimp only
  generalize eval _ text = result at heval ⊢
  split <;> exact heval

/-- After every request no call is active. -/
theorem serve_calls {r : Runner} (h : r.machine.calls = []) (q : Request) :
    (r.serve q).machine.calls = [] := by
  cases q with
  | runNodes nodes => exact (r.runNodes_calls nodes).trans h
  | eval text => exact r.eval_calls text
  | handle text => exact r.handle_calls text
  | rebind host => exact h

theorem serveAll_calls : ∀ (qs : List Request) {r : Runner}, r.machine.calls = [] →
    (r.serveAll qs).machine.calls = []
  | [], _, h => h
  | q :: qs, _, h => serveAll_calls qs (serve_calls h q)

end Runner

/-- **Call-stack discipline.** Whenever a call ends, with a value or a stop,
the calls of before are active again; if it stops after it has been entered,
the trace of the stop lists those calls, the call itself and the calls inside
that the stop has left, down to the innermost. So no call is active on a
runner after any sequence of requests. -/
theorem call_stack_discipline (n : Nat) (ctx : Context) (ref : FunctionRef) (pos : Position)
    (m : Machine) :
    (∀ args, ((Engine.level n).call ctx ref args pos m).2.calls = m.calls) ∧
      (∀ values, ((Engine.level n).callWithValues ctx ref values pos m).2.calls = m.calls) ∧
      (∀ f, m.heap.function? ref = some f → ctx.settings.admitsCall m.calls.length = true →
        (∀ args, CallEnd (callFrame ctx f pos) m ((Engine.level (n + 1)).call ctx ref args pos m)
          ((Engine.recording (n + 1)).call ctx ref args pos m)) ∧
        ∀ values, CallEnd (callFrame ctx f pos) m
          ((Engine.level (n + 1)).callWithValues ctx ref values pos m)
          ((Engine.recording (n + 1)).callWithValues ctx ref values pos m)) ∧
      ∀ settings source keep hosts host requests,
        ((Runner.create settings source keep hosts host).serveAll requests).machine.calls = [] := by
  refine ⟨fun args => Engine.call_calls n ctx ref args pos m,
    fun values => Engine.call_calls n ctx ref (valueNodes pos values) pos m, ?_, ?_⟩
  · intro f hf hadmits
    exact ⟨fun args => callEnd_of_entered n hf hadmits args pos,
      fun values => callEnd_of_entered n hf hadmits (valueNodes pos values) pos⟩
  · intro settings source keep hosts host requests
    exact Runner.serveAll_calls requests (Runner.create_calls settings source keep hosts host)

/-- A call under another one that runs out of levels: its stop lists both. -/
theorem call_stack_discipline_exhausted :
    let f : Function := .script ⟨[], [], ⟨0⟩, "", some "f", false, none⟩
    let outer : Frame := ⟨"g", some 1, some 1, ""⟩
    let m : Machine := { Machine.initial with heap := ⟨#[], #[], #[], #[f]⟩, calls := [outer] }
    let ctx : Context := ⟨⟨0⟩, "", ⟨some 2, "", false, .usual⟩⟩
    let pos : Position := ⟨some 2, some 3, 4⟩
    CallEnd (callFrame ctx f pos) m ((Engine.level 1).call ctx ⟨0⟩ [] pos m)
        ((Engine.recording 1).call ctx ⟨0⟩ [] pos m) ∧
      ((Engine.level 1).call ctx ⟨0⟩ [] pos m).1 =
        .error (.exhausted (some [outer, callFrame ctx f pos])) := by
  refine ⟨((call_stack_discipline 0 _ _ _ _).2.2.1 _ rfl rfl).1 [], rfl⟩

end RuleScript
