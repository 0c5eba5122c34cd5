/-
# The limit on the depth of calls

A limit on the number of active calls does two things: it keeps to the bound,
and it makes a run that would exceed the bound fail. It does nothing else.

That the bound is kept is said with an engine that looks at the active calls
whenever an evaluation or a call starts and whenever a call has been entered,
and sets off an alarm if there are too many (`Engine.watched`): whatever the
alarm does, the run is the same. That nothing else changes is said with two
runs under two limits: they are in step until a call is refused by the first
one, and then no operation holds the fault back, so the first run ends with
it.

Key definitions: `Engine.watched`, `Stop.TooDeep`, `Runner.withLimit`.
Key theorems: `watched_alike`, `level_alike`, `depth_limit_only_bounds`.
-/
import RuleScript.Proofs.Calls.Trace

namespace RuleScript

/-! ### Runs with the same stops -/

/-- The fault of a call that would go too deep. -/
def Stop.TooDeep (s : Stop) : Prop := ∃ f, s = .fault f ∧ f.cause = .depthExceeded

theorem Stop.TooDeep.traced {s : Stop} (h : s.TooDeep) (calls : List Frame) :
    (s.traced calls).TooDeep := by
  obtain ⟨f, rfl, hf⟩ := h
  exact ⟨_, rfl, hf⟩

theorem Stop.TooDeep.internal? {s : Stop} (h : s.TooDeep) : s.internal? = none := by
  obtain ⟨f, rfl, -⟩ := h
  rfl

/-- Two runs that stop alike, unless the first goes too deep and the second
may then be out of step. -/
def inStep (calls : List Frame) (lossy : Prop) (limits : Option Int → Option Int → Prop) : Coupling where
  calls
  stops := (· = ·)
  lost s := lossy ∧ s.TooDeep
  limits
  fresh := @Stop.eq_of_fresh
  internal := @Stop.internal?_congr
  lost_internal h := h.2.internal?

theorem withFrame_inStep {frame : Frame} {calls : List Frame} {lossy : Prop}
    {limits : Option Int → Option Int → Prop} {x y : Eval Value}
    (h : (inStep (frame :: calls) lossy limits).Agree x y) :
    (inStep calls lossy limits).Agree (Eval.withFrame frame x) (Eval.withFrame frame y) :=
  h.withFrame rfl (fun hs => congrArg _ hs) fun calls hlost => ⟨hlost.1, hlost.2.traced calls⟩

/-- Runs that stay in step are one. -/
theorem eq_of_inStep {calls : List Frame} {lossy : Prop} {limits : Option Int → Option Int → Prop}
    {r r' : Except Stop Value × Machine} (h : (inStep calls lossy limits).Ends r r')
    (hkept : ∀ s, r.1 = .error s → lossy → ¬s.TooDeep) : r' = r := by
  cases h with
  | value a _ => rfl
  | @stop s s' m _ hs =>
    obtain rfl : s = s' := hs
    rfl
  | lost m r hlost => exact (hkept _ rfl hlost.1 hlost.2).elim

/-! ### The bound is kept -/

/-- A computation that sets off an alarm if more than `cap` calls are active
when it starts. -/
def Eval.watch {α : Type} (cap : Nat) (alarm act : Eval α) : Eval α := fun m =>
  if m.calls.length ≤ cap then act m else alarm m

/-- The engine with `n` levels that sets off an alarm if more than `cap` calls
are active at the start of an evaluation or a call, or once a call has been
entered. -/
def Engine.watched (cap : Nat) (alarm : Eval Value) : Nat → Engine
  | 0 => .exhausted
  | n + 1 => {
      evaluate ctx nodes := Eval.watch cap alarm (evaluateList (Engine.watched cap alarm n) ctx nodes)
      call ctx ref args pos := Eval.watch cap alarm
        (callBy (fun frame act => Eval.withFrame frame (Eval.watch cap alarm act))
          (Engine.watched cap alarm n) ctx ref args pos) }

/-- Two runs under one limit. -/
def bounded (cap : Nat) (calls : List Frame) : Coupling :=
  inStep calls False fun d d' => d = some (cap : Int) ∧ d' = some (cap : Int)

theorem watch_agree {cap : Nat} {calls : List Frame} (h : calls.length ≤ cap) (alarm : Eval Value)
    {x y : Eval Value} (hxy : (bounded cap calls).Agree x y) :
    (bounded cap calls).Agree x (Eval.watch cap alarm y) := by
  intro m hm
  have hlength : m.calls.length ≤ cap := by
    rw [hm]
    exact h
  unfold Eval.watch
  rw [if_pos hlength]
  exact hxy m hm

theorem Context.withLimit_self {ctx : Context} {limit : Option Int}
    (h : ctx.settings.maxDepth = limit) : ctx.withLimit limit = ctx := by
  subst h
  rfl

theorem Settings.admitsCall_iff {s : Settings} {cap : Int} (h : s.maxDepth = some cap) (active : Nat) :
    s.admitsCall active = true ↔ (active : Int) < cap := by
  unfold admitsCall
  rw [h]
  exact decide_eq_true_iff

/-- **The alarm is never set off.** -/
theorem watched_alike (cap : Nat) (alarm : Eval Value) : ∀ (n : Nat) (calls : List Frame),
    calls.length ≤ cap → Alike (bounded cap calls) (Engine.level n) (Engine.watched cap alarm n)
  | 0, _, _ => ⟨fun _ _ _ _ => .of_local (throw _), fun _ _ _ _ _ _ => .of_local (throw _)⟩
  | n + 1, calls, hcalls => by
    have ih := watched_alike cap alarm n
    refine ⟨fun ctx _ hl nodes => watch_agree hcalls alarm ?_, fun ctx limit hl ref args pos =>
      watch_agree hcalls alarm ?_⟩
    · exact evaluateList_agree (ih calls hcalls) hl nodes
    · have hsame : ctx.withLimit limit = ctx := Context.withLimit_self (hl.1.trans hl.2.symm)
      refine callBy_agree ref args pos (by rw [hsame]; exact id) (by rw [hsame]; exact .inl) ?_
      intro hadmits f
      have hdeeper : (callFrame ctx f pos :: calls).length ≤ cap := by
        have := (Settings.admitsCall_iff hl.1 _).mp hadmits
        have : calls.length < cap := Int.ofNat_lt.mp this
        exact this
      exact withFrame_inStep (watch_agree hdeeper alarm (callBody_agree (ih _ hdeeper) hl f args pos))

/-! ### Nothing else changes -/

/-- Two runs, the second under a limit that is no tighter, or under none. -/
def loosened (cap : Nat) (calls : List Frame) : Coupling :=
  inStep calls True fun d d' => d = some (cap : Int) ∧ ∀ c, d' = some c → (cap : Int) ≤ c

/-- What a limit admits, a looser one admits too. -/
theorem Settings.admitsCall_of_looser {s s' : Settings} {cap : Int} (h : s.maxDepth = some cap)
    (h' : ∀ c, s'.maxDepth = some c → cap ≤ c) {active : Nat} (hadmits : s.admitsCall active = true) :
    s'.admitsCall active = true := by
  have hlt := (admitsCall_iff h active).mp hadmits
  cases hd : s'.maxDepth with
  | none =>
    unfold admitsCall
    rw [hd]
  | some c => exact (admitsCall_iff hd active).mpr (Int.lt_of_lt_of_le hlt (h' c hd))

/-- **A looser limit is in step until a call is refused.** -/
theorem level_alike (cap : Nat) : ∀ (n : Nat) (calls : List Frame),
    Alike (loosened cap calls) (Engine.level n) (Engine.level n)
  | 0, _ => ⟨fun _ _ _ _ => .of_local (throw _), fun _ _ _ _ _ _ => .of_local (throw _)⟩
  | n + 1, calls => by
    refine ⟨fun ctx _ hl nodes => evaluateList_agree (level_alike cap n calls) hl nodes, ?_⟩
    intro ctx limit hl ref args pos
    refine callBy_agree ref args pos (Settings.admitsCall_of_looser hl.1 hl.2) ?_ ?_
    · exact fun _ => .inr ⟨trivial, _, rfl, rfl⟩
    · intro _ f
      have ih := level_alike cap n (callFrame ctx f pos :: calls)
      exact withFrame_inStep (callBody_agree ih hl f args pos)

theorem Engine.evaluate_withLimit {cap : Nat} {limit : Option Int}
    (hlimit : ∀ c, limit = some c → (cap : Int) ≤ c) (n : Nat) (ctx : Context)
    (hcap : ctx.settings.maxDepth = some (cap : Int)) (nodes : List Node) (m : Machine)
    (hdeep : ∀ s, ((level n).evaluate ctx nodes m).1 = .error s → ¬s.TooDeep) :
    (level n).evaluate (ctx.withLimit limit) nodes m = (level n).evaluate ctx nodes m :=
  eq_of_inStep ((level_alike cap n m.calls).evaluate ctx ⟨hcap, hlimit⟩ nodes m rfl)
    fun s hs _ => hdeep s hs

theorem Engine.evaluate_watched {cap : Nat} (alarm : Eval Value) (n : Nat) {ctx : Context}
    (hcap : ctx.settings.maxDepth = some (cap : Int)) (nodes : List Node) {m : Machine}
    (hm : m.calls.length ≤ cap) :
    (watched cap alarm n).evaluate ctx nodes m = (level n).evaluate ctx nodes m := by
  have hends := (watched_alike cap alarm n m.calls hm).evaluate ctx ⟨hcap, hcap⟩ nodes m rfl
  exact eq_of_inStep hends fun _ _ h => h.elim

/-! ### Runners -/

namespace Runner

/-- The runner with another limit on the depth. -/
def withLimit (r : Runner) (limit : Option Int) : Runner :=
  { r with settings := { r.settings with maxDepth := limit } }

/-- Evaluate nodes as a program on a given engine. -/
def runNodesOn (e : Engine) (r : Runner) (nodes : List Node) : Except Stop Value × Runner :=
  let (scope, r) := r.programScope
  let (result, machine) := e.evaluate ⟨scope, r.source, r.settings⟩ nodes r.machine
  let r := { r with machine }
  (result.mapError r.settle, r)

theorem runNodes_eq : runNodes = runNodesOn (Engine.level maxLevels) := rfl

theorem programScope_withLimit (r : Runner) (limit : Option Int) :
    (r.withLimit limit).programScope = (r.programScope.1, r.programScope.2.withLimit limit) := by
  unfold programScope withLimit
  dsimp only
  split <;> rfl

theorem settle_tooDeep {s : Stop} (h : s.TooDeep) (r : Runner) : r.settle s = s := by
  obtain ⟨f, rfl, -⟩ := h
  rfl

/-- A run in its parts: the program scope, the evaluation under the limit, and
what is left of it for the runner. -/
theorem runNodesOn_withLimit (e : Engine) (r : Runner) (limit : Option Int) (nodes : List Node) :
    runNodesOn e (r.withLimit limit) nodes =
      let p := r.programScope
      let ctx : Context := ⟨p.1, p.2.source, (p.2.withLimit limit).settings⟩
      let q := e.evaluate ctx nodes p.2.machine
      let r' : Runner := { p.2 with machine := q.2 }
      (q.1.mapError r'.settle, r'.withLimit limit) := by
  unfold runNodesOn
  rw [programScope_withLimit]
  rfl

/-- A run under a limit keeps to it. -/
theorem runNodesOn_watched {r : Runner} {cap : Nat} (hr : r.machine.calls.length ≤ cap)
    (alarm : Eval Value) (nodes : List Node) :
    runNodesOn (Engine.watched cap alarm maxLevels) (r.withLimit (some cap)) nodes =
      runNodes (r.withLimit (some cap)) nodes := by
  have hm : r.programScope.2.machine.calls.length ≤ cap := by
    rw [r.programScope_calls]
    exact hr
  rw [runNodes_eq, runNodesOn_withLimit, runNodesOn_withLimit]
  dsimp only
  rw [Engine.evaluate_watched alarm maxLevels rfl nodes hm]

/-- A run that does not go too deep under a limit is the same under a looser
one. -/
theorem runNodes_withLimit {cap : Nat} {limit : Option Int}
    (hlimit : ∀ c, limit = some c → (cap : Int) ≤ c) (r : Runner) (nodes : List Node)
    (hdeep : ∀ s, ((r.withLimit (some cap)).runNodes nodes).1 = .error s → ¬s.TooDeep) :
    (r.withLimit limit).runNodes nodes =
      (((r.withLimit (some cap)).runNodes nodes).1,
        ((r.withLimit (some cap)).runNodes nodes).2.withLimit limit) := by
  rw [runNodes_eq, runNodesOn_withLimit] at hdeep ⊢
  rw [runNodesOn_withLimit]
  have hsame := Engine.evaluate_withLimit hlimit maxLevels
    ⟨r.programScope.1, r.programScope.2.source, (r.programScope.2.withLimit (some cap)).settings⟩ rfl
    nodes r.programScope.2.machine ?_
  · dsimp only
    rw [← hsame]
    rfl
  · intro s hs htoo
    refine hdeep s ?_ htoo
    dsimp only
    rw [hs]
    exact congrArg Except.error (settle_tooDeep htoo _)

/-- Evaluate a source text as a program on a given engine. -/
def evalOn (e : Engine) (r : Runner) (text : String) : Except Stop Value × Runner :=
  let r := { r with machine := { r.machine with calls := [], focus := none } }
  match parse r.settings.room.spans text with
  | .ok nodes => r.runNodesOn e nodes
  | .error .malformed => (.error (.fault (.raisedAt .invalidSource none r.source)), r)
  | .error .tooDeep => (.error (r.settle (.exhausted none)), r)

theorem eval_eq : eval = evalOn (Engine.level maxLevels) := by
  unfold evalOn
  rfl

theorem evalOn_watched (r : Runner) (cap : Nat) (alarm : Eval Value) (text : String) :
    evalOn (Engine.watched cap alarm maxLevels) (r.withLimit (some cap)) text =
      eval (r.withLimit (some cap)) text := by
  -- a run of a text starts with no call active
  have hrun := runNodesOn_watched
    (r := { r with machine := { r.machine with calls := [], focus := none } }) (Nat.zero_le cap) alarm
  rw [eval_eq]
  unfold evalOn
  dsimp only
  cases parse (r.withLimit (some cap)).settings.room.spans text with
  | ok nodes => exact hrun nodes
  | error cause => cases cause <;> rfl

theorem eval_withLimit {cap : Nat} {limit : Option Int}
    (hlimit : ∀ c, limit = some c → (cap : Int) ≤ c) (r : Runner) (text : String)
    (hdeep : ∀ s, ((r.withLimit (some cap)).eval text).1 = .error s → ¬s.TooDeep) :
    (r.withLimit limit).eval text =
      (((r.withLimit (some cap)).eval text).1,
        ((r.withLimit (some cap)).eval text).2.withLimit limit) := by
  have hrun := runNodes_withLimit hlimit
    { r with machine := { r.machine with calls := [], focus := none } }
  have hspans (limit : Option Int) :
      (r.withLimit limit).settings.room.spans = r.settings.room.spans := rfl
  unfold eval at hdeep ⊢
  dsimp only at hdeep ⊢
  rw [hspans] at hdeep ⊢
  rw [hspans]
  cases hparse : parse r.settings.room.spans text with
  | ok nodes =>
    simp only [hparse] at hdeep
    exact hrun nodes hdeep
  | error cause => cases cause <;> rfl

/-! ### The entry for hosts -/

theorem restoreAll_withLimit (limit : Option Int) : ∀ (names : List String) (r : Runner),
    names.foldl restore (r.withLimit limit) = (names.foldl restore r).withLimit limit
  | [], _ => rfl
  | name :: names, r => by
    have hrestore : (r.withLimit limit).restore name = (r.restore name).withLimit limit := by
      unfold restore withLimit
      dsimp only
      split <;> rfl
    rw [List.foldl_cons, hrestore, restoreAll_withLimit limit names]
    rfl

theorem bindMethods_withLimit (limit : Option Int) (host : Nat) : ∀ (ms : List HostMethod) (r : Runner)
    (index : Nat),
    bindMethods host (r.withLimit limit) index ms = (bindMethods host r index ms).withLimit limit
  | [], _, _ => rfl
  | m :: ms, r, index => by
    unfold bindMethods
    dsimp only
    split
    · exact bindMethods_withLimit limit host ms (bindMethod host index r m) (index + 1)
    · exact bindMethods_withLimit limit host ms r (index + 1)

theorem bindHost_withLimit (r : Runner) (limit : Option Int) :
    (r.withLimit limit).bindHost = r.bindHost.withLimit limit := by
  have hrelease : (r.withLimit limit).releaseHost = r.releaseHost.withLimit limit := by
    unfold releaseHost
    rw [show (r.withLimit limit).hostNames = r.hostNames from rfl, restoreAll_withLimit]
    rfl
  unfold bindHost
  rw [hrelease]
  generalize r.releaseHost = r'
  dsimp only [withLimit]
  split
  · rfl
  · split
    · rfl
    · split
      · rfl
      · exact bindMethods_withLimit limit _ _ r' 0

/-- What a host is told of a run. -/
def concluded (text : String) (p : Except Stop Value × Runner) : Outcome × Runner :=
  match p.2.outcome text p.1 with
  | .success v => (.success v, p.2)
  | .failure stop message token =>
    (.failure stop message token,
      { p.2 with machine := { p.2.machine with effects := p.2.machine.effects.push (.failed message) } })

/-- The runner that a host's script runs on. -/
def prepared (r : Runner) : Runner :=
  bindHost { r with machine := { r.machine with effects := #[] } }

theorem handle_eq (r : Runner) (text : String) :
    r.handle text = concluded text (r.prepared.eval text) := by
  unfold handle concluded prepared
  rfl

theorem concluded_withLimit (text : String) (p : Except Stop Value × Runner) (limit : Option Int) :
    concluded text (p.1, p.2.withLimit limit) =
      ((concluded text p).1, (concluded text p).2.withLimit limit) := by
  obtain ⟨result, r⟩ := p
  cases result <;> rfl

theorem concluded_error (text : String) {p : Except Stop Value × Runner} {s : Stop}
    (h : p.1 = .error s) : ∃ message token, (concluded text p).1 = .failure s message token := by
  obtain ⟨result, r⟩ := p
  obtain rfl : result = .error s := h
  exact ⟨_, _, rfl⟩

/-- A failure that a host is told of is a stop, and the report of it. -/
theorem concluded_report {text : String} {p : Except Stop Value × Runner} {s : Stop}
    {message : String} {token : Option FaultToken}
    (h : (concluded text p).1 = .failure s message token) :
    p.1 = .error s ∧ report p.2.source text p.2.machine.focus s = (message, token) := by
  obtain ⟨result, r⟩ := p
  cases result with
  | ok v => cases h
  | error stop =>
    obtain ⟨rfl, hmessage, htoken⟩ := Outcome.failure.inj h
    exact ⟨rfl, Prod.ext hmessage htoken⟩

theorem handle_withLimit {cap : Nat} {limit : Option Int}
    (hlimit : ∀ c, limit = some c → (cap : Int) ≤ c) (r : Runner) (text : String)
    (hdeep : ∀ s message token,
      ((r.withLimit (some cap)).handle text).1 = .failure s message token → ¬s.TooDeep) :
    (r.withLimit limit).handle text =
      (((r.withLimit (some cap)).handle text).1,
        ((r.withLimit (some cap)).handle text).2.withLimit limit) := by
  have hprepared (limit : Option Int) : (r.withLimit limit).prepared = r.prepared.withLimit limit :=
    bindHost_withLimit { r with machine := { r.machine with effects := #[] } } limit
  rw [handle_eq, hprepared] at hdeep ⊢
  rw [handle_eq, hprepared, ← concluded_withLimit]
  rw [eval_withLimit hlimit r.prepared text ?_]
  intro s hs
  obtain ⟨message, token, hfailure⟩ := concluded_error text hs
  exact hdeep s message token hfailure

end Runner

/-- **The limit on the depth bounds the active calls and does nothing else.**
A run under a limit never has more calls active than it allows: the run is
the same if an alarm watches them. If it does not end with the fault of a
call that would go too deep, then under any looser limit, or under none, it
ends with the same value or stop, on the same machine. -/
theorem depth_limit_only_bounds (r : Runner) (cap : Nat) :
    ((∀ alarm text, Runner.evalOn (Engine.watched cap alarm maxLevels) (r.withLimit (some cap)) text =
        (r.withLimit (some cap)).eval text) ∧
      ∀ alarm nodes, r.machine.calls.length ≤ cap →
        Runner.runNodesOn (Engine.watched cap alarm maxLevels) (r.withLimit (some cap)) nodes =
          (r.withLimit (some cap)).runNodes nodes) ∧
      ∀ limit : Option Int, (∀ c, limit = some c → (cap : Int) ≤ c) →
        (∀ nodes, let capped := (r.withLimit (some cap)).runNodes nodes
          (∀ s, capped.1 = .error s → ¬s.TooDeep) →
            (r.withLimit limit).runNodes nodes = (capped.1, capped.2.withLimit limit)) ∧
        (∀ text, let capped := (r.withLimit (some cap)).eval text
          (∀ s, capped.1 = .error s → ¬s.TooDeep) →
            (r.withLimit limit).eval text = (capped.1, capped.2.withLimit limit)) ∧
        ∀ text, let capped := (r.withLimit (some cap)).handle text
          (∀ s message token, capped.1 = .failure s message token → ¬s.TooDeep) →
            (r.withLimit limit).handle text = (capped.1, capped.2.withLimit limit) := by
  refine ⟨⟨fun alarm text => r.evalOn_watched cap alarm text,
    fun alarm nodes hr => Runner.runNodesOn_watched hr alarm nodes⟩, ?_⟩
  intro limit hlimit
  exact ⟨fun nodes => Runner.runNodes_withLimit hlimit r nodes,
    fun text => Runner.eval_withLimit hlimit r text,
    fun text => Runner.handle_withLimit hlimit r text⟩

/-- Under a limit of one call, a call of a script runs as it does without a
limit. -/
theorem depth_limit_only_bounds_one_call :
    let pos : Position := ⟨some 1, some 1, 0⟩
    let f : Function := .script ⟨[], [.value pos (.bool true)], ⟨0⟩, "", some "f", false, none⟩
    let heap : Heap := ⟨#[⟨[], none⟩], #[], #[], #[f]⟩
    let r : Runner :=
      ⟨{ Machine.initial with heap }, ⟨none, "", false, .usual⟩, "", ⟨0⟩, some ⟨0⟩, [], none, []⟩
    let nodes : List Node := [.value pos (.function ⟨0⟩), .span pos .paren []]
    let capped := (r.withLimit (some 1)).runNodes nodes
    capped.1 = .ok (.bool true) ∧
      (r.withLimit none).runNodes nodes = (capped.1, capped.2.withLimit none) := by
  intro pos f heap r nodes capped
  have hcapped : capped.1 = .ok (.bool true) := rfl
  refine ⟨hcapped, ((depth_limit_only_bounds r 1).2 none (by rintro _ ⟨⟩)).1 nodes ?_⟩
  intro s hs
  cases hcapped.symm.trans hs

end RuleScript
