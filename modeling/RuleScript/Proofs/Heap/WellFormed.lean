/-
# The heap is well-formed

A heap is well-formed if every value in it refers to something that is there,
every function closes over a scope that is there, and a scope is younger than
the scope around it (`Heap.WellFormed`). So the way outward from a scope comes
to an end at a scope that has none around it, and no scope is inside itself:
values may form cycles, scopes may not.

Every state that a runner can be in has a well-formed heap
(`Runner.Reachable`), not only between its runs but also while a program is
running. The latter is said with an engine that looks at the heap whenever an
evaluation or a call starts and whenever one ends, and sets off an alarm if
something is wrong (`Engine.checked`): whatever the alarm does, the run is the
same. A host must not make references up (`Host.Honest`).

A call of a function that is no block evaluates the body in a scope that was
not there before the call (`EntersFresh`).

Key definitions: `Heap.WellFormed`, `Heap.Walk`, `Host.Honest`, `Runner.Reachable`,
`Engine.checked`, `EntersFresh`.
Key theorems: `Heap.WellFormed.walk_chain`, `Heap.WellFormed.not_inside_self`,
`checked_obeys`, `callScript_entersFresh`, `heap_stays_well_formed`.
-/
import RuleScript.Host.Sample
import RuleScript.Proofs.Heap.Names

namespace RuleScript

/-! ### Well-formed heaps -/

namespace Heap

/-- A scope that is there. -/
def HasScope (h : Heap) (s : ScopeRef) : Prop := s.index < h.scopes.size

/-- A value that refers to nothing but what is there. -/
def Allocated (h : Heap) : Value → Prop
  | .array r => r.index < h.arrays.size
  | .dict r => r.index < h.dicts.size
  | .function r => r.index < h.functions.size
  | .absent | .null | .bool _ | .number _ | .string _ => True

/-- A node that carries allocated values only. -/
def AllocatedNode (h : Heap) (n : Node) : Prop := n.MadeOf h.Allocated fun _ _ => True

/-- A function that refers to nothing but what is there: the scope it closes
over, the values in its body, the condition of a loop. -/
def AllocatedFunction (h : Heap) : Function → Prop
  | .script f => h.HasScope f.scope ∧ ∀ n ∈ f.body, h.AllocatedNode n
  | .native f =>
    match f.operation with
    | .loop condition _ => h.Allocated (.function condition)
    | _ => True

/-- One scope is directly inside another. -/
def Inside (h : Heap) (s p : ScopeRef) : Prop := (h.scope s).parent = some p

/-- The scopes from one outward, up to one that is inside none. -/
inductive Walk (h : Heap) : ScopeRef → List ScopeRef → Prop
  | last {s : ScopeRef} (hs : (h.scope s).parent = none) : Walk h s [s]
  | step {s p : ScopeRef} {rest : List ScopeRef} (hs : h.Inside s p) (hp : Walk h p rest) :
    Walk h s (s :: rest)

/-- Every reference is to something that is there, and every scope is younger
than the one around it. -/
structure WellFormed (h : Heap) : Prop where
  items : ∀ r, ∀ v ∈ h.items r, h.Allocated v
  dict : ∀ r, ∀ p ∈ h.dict r, h.Allocated p.2
  bindings : ∀ s, ∀ p ∈ h.bindings s, h.Allocated p.2
  functions : ∀ r f, h.function? r = some f → h.AllocatedFunction f
  inside : ∀ s p, h.Inside s p → p.index < s.index

namespace WellFormed

variable {h : Heap}

/-- With more steps than the index of a scope, the way outward is complete. -/
theorem walk_chainFrom (hh : h.WellFormed) : ∀ (fuel : Nat) {s : ScopeRef}, s.index < fuel →
    h.Walk s (h.chainFrom fuel s)
  | fuel + 1, s, hs => by
    unfold chainFrom
    split
    · rename_i p hp
      have hlt := hh.inside s p hp
      exact .step hp (hh.walk_chainFrom fuel (by omega))
    · rename_i hp
      exact .last hp

/-- **The way outward from a scope ends at a scope that is inside none.** -/
theorem walk_chain (hh : h.WellFormed) {s : ScopeRef} (hs : h.HasScope s) : h.Walk s (h.chain s) :=
  hh.walk_chainFrom _ hs

theorem index_lt (hh : h.WellFormed) {s p : ScopeRef} (hp : Relation.TransGen h.Inside s p) :
    p.index < s.index := by
  induction hp with
  | single hp => exact hh.inside _ _ hp
  | tail _ hq ih => exact Nat.lt_trans (hh.inside _ _ hq) ih

/-- **No scope is inside itself.** -/
theorem not_inside_self (hh : h.WellFormed) (s : ScopeRef) : ¬Relation.TransGen h.Inside s s :=
  fun hs => Nat.lt_irrefl _ (hh.index_lt hs)

end WellFormed

end Heap

/-! ### The policy -/

namespace Policy

/-- Every reference is to something that is there. -/
def allocation : Policy where
  value := Heap.Allocated
  scope := Heap.HasScope
  link s p := p.index < s.index
  closed _ := False
  emptying := True
  literal _ _ := True
  foreign := True
  stop _ := True

instance : allocation.Nests where
  value_mono {h h' v} hext hv := by
    cases v
    case array r => exact Nat.lt_of_lt_of_le hv hext.arrays
    case dict r => exact Nat.lt_of_lt_of_le hv hext.dicts
    case function r => exact Nat.lt_of_lt_of_le hv hext.functions
    all_goals exact trivial
  scope_mono hext hs := Nat.lt_of_lt_of_le hs hext.scopes
  scalar {h v} hv := by
    cases v
    case array | dict | function => exact hv.elim
    all_goals exact trivial
  newArray := Heap.newArray_lt
  newDict := Heap.newDict_lt
  newFunction := Heap.newFunction_lt
  link hp := hp
  not_closed _ := id
  fault _ := trivial
  exhausted := trivial
  traced _ _ := trivial
  literal _ _ := trivial
  foreign _ _ := trivial
  newScope h parent t _ := h.newScope_lt parent t
  nest hp := hp

instance : allocation.Empties := ⟨trivial⟩

theorem allocation_function {h : Heap} {f : Function} :
    allocation.function h f ↔ h.AllocatedFunction f := by
  cases f with
  | script f => exact Iff.rfl
  | native f =>
    obtain ⟨op, name, arity, usage, note⟩ := f
    cases op <;> exact Iff.rfl

theorem allocation_admits {h : Heap} : allocation.Admits h ↔ h.WellFormed := by
  constructor
  · intro hh
    exact ⟨hh.items, hh.dict, hh.bindings,
      fun r f hf => allocation_function.mp (hh.functions r f hf), hh.links⟩
  · intro hh
    exact ⟨hh.items, hh.dict, hh.bindings,
      fun r f hf => allocation_function.mpr (hh.functions r f hf), hh.inside, fun _ => False.elim⟩

/-- Also where the last node marks a missing value. -/
theorem allocated_of_buffer {h : Heap} {b : List Node} (hb : allocation.Buffer h b) :
    ∀ n ∈ b, h.AllocatedNode n := by
  induction hb with
  | nil => rintro _ ⟨⟩
  | absent pos => exact List.forall_mem_singleton.mpr (.value pos trivial)
  | cons hn _ ih => exact List.forall_mem_cons.mpr ⟨hn, ih⟩

theorem allocated_of_result {h : Heap} {v : Value} (hv : allocation.result h v) : h.Allocated v := by
  rcases hv with rfl | hv
  · exact trivial
  · exact hv

end Policy

/-! ### While a program runs -/

open Classical in
/-- A computation that sets off an alarm if the machine is not as it should be
when it starts, or when it has ended. -/
noncomputable def Eval.checked {α : Type} (before : Machine → Prop)
    (after : Except Stop α × Machine → Prop) (alarm act : Eval α) : Eval α := fun m =>
  if before m ∧ after (act m) then act m else alarm m

theorem Policy.Keeps.checked {α : Type} {P : Policy} {m : Machine} {post : Heap → α → Prop}
    {x y : Eval α} (hx : P.Keeps m x y post) {before : Machine → Prop}
    {after : Except Stop α × Machine → Prop} (hbefore : P.Holds m → before m)
    (hafter : ∀ r, P.Ends m post r → after r) (alarm : Eval α) :
    P.Keeps m x (Eval.checked before after alarm y) post := by
  intro hm
  obtain ⟨hxy, hend⟩ := hx hm
  refine ⟨?_, hend⟩
  unfold Eval.checked
  rw [hxy, if_pos ⟨hbefore hm, hafter _ hend⟩]

/-- A machine on which nodes can be evaluated in a context. -/
structure Machine.Sound (ctx : Context) (nodes : List Node) (m : Machine) : Prop where
  heap : m.heap.WellFormed
  scope : m.heap.HasScope ctx.scope
  nodes : ∀ n ∈ nodes, m.heap.AllocatedNode n

/-- A well-formed heap, and an allocated value if there is one. -/
structure SoundEnd (r : Except Stop Value × Machine) : Prop where
  heap : r.2.heap.WellFormed
  value : ∀ v, r.1 = .ok v → r.2.heap.Allocated v

/-- The engine with `n` levels that sets off an alarm if the heap is not
well-formed, or if the scope, the nodes or the result at hand are not
allocated, when an evaluation or a call starts or ends. -/
noncomputable def Engine.checked (alarm : Eval Value) : Nat → Engine
  | 0 => .exhausted
  | n + 1 => {
      evaluate ctx nodes := Eval.checked (Machine.Sound ctx nodes) SoundEnd alarm
        (evaluateList (Engine.checked alarm n) ctx nodes)
      call ctx ref args pos := Eval.checked (Machine.Sound ctx args) SoundEnd alarm
        (callFunction (Engine.checked alarm n) ctx ref args pos) }

open Policy in
/-- **The alarm is never set off.** -/
theorem checked_obeys (alarm : Eval Value) : ∀ n,
    allocation.Obeys (Engine.level n) (Engine.checked alarm n)
  | 0 => allocation.obeys_exhausted
  | n + 1 => by
    have ih := checked_obeys alarm n
    constructor
    · intro m ctx b hs hb
      refine (evaluateList_keeps ih hs hb).checked (fun hm => ?_) (fun r hr => ?_) alarm
      · exact ⟨allocation_admits.mp hm.heap, hs, allocated_of_buffer hb⟩
      · exact ⟨allocation_admits.mp hr.holds.heap, fun v hv => allocated_of_result (hr.value v hv)⟩
    · intro m ctx ref args hs hargs pos
      refine (ih.next.call ref hs hargs pos).checked (fun hm => ?_) (fun r hr => ?_) alarm
      · exact ⟨allocation_admits.mp hm.heap, hs, hargs⟩
      · exact ⟨allocation_admits.mp hr.holds.heap, hr.value⟩

/-! ### Runners -/

/-- A host whose methods hand back scalars and what they were given, but make
no references up. -/
def Host.Honest (o : Host) : Prop :=
  ∀ k ∈ o.methods, ∀ counters args p, (k.run counters args).1 = .ok p →
    p.MadeOf (fun v => v = .absent ∨ v.IsScalar ∨ v ∈ args) True

theorem Host.Honest.allocation {o : Host} (ho : o.Honest) : Policy.allocation.host o := by
  intro _ k hk counters args h hargs p hp
  refine (ho k hk counters args p hp).imp (fun v hv => ?_) id
  rcases hv with rfl | hv | hv
  · exact .inl rfl
  · exact Policy.result_scalar hv
  · exact .inr (hargs v hv)

/-- The host that shadows builtins makes nothing up. -/
theorem Host.honest_other : Host.other.Honest := by
  intro k hk counters args p hp
  simp only [Host.other, List.mem_cons, List.not_mem_nil, or_false] at hk
  rcases hk with rfl | rfl | rfl
  · obtain rfl := Except.ok.inj hp
    refine .sequence fun q hq => ?_
    simp only [List.mem_cons, List.not_mem_nil, or_false] at hq
    rcases hq with rfl | rfl
    · exact .integer _ trivial
    · exact .integer _ trivial
  · obtain rfl := Except.ok.inj hp
    exact .value (.inr (.inl trivial))
  · obtain rfl := Except.ok.inj hp
    refine .value (.inr ?_)
    cases args with
    | nil => exact .inl trivial
    | cons v _ => exact .inr (List.mem_cons_self ..)

namespace Runner

/-- A request that a runner can get: nodes from outside carry allocated values
only. -/
def Takes (r : Runner) : Request → Prop
  | .runNodes nodes => ∀ n ∈ nodes, r.machine.heap.AllocatedNode n
  | .eval _ | .handle _ | .rebind _ => True

/-- The states of runners: a new runner, and what it is after each request. -/
inductive Reachable : Runner → Prop
  | create (settings : Settings) (source : String) (keep : Bool) {hosts : Array Host}
    (host : Option Nat) (hhosts : ∀ o ∈ hosts, o.Honest) :
    Reachable (create settings source keep hosts host)
  | serve {r : Runner} (hr : Reachable r) {q : Request} (hq : r.Takes q) : Reachable (r.serve q)

open Policy in
theorem Reachable.session {r : Runner} (hr : r.Reachable) : allocation.Session r := by
  induction hr with
  | create settings source keep host hhosts =>
    exact session_create settings source keep (fun o ho => (hhosts o ho).allocation) (.inr trivial)
      fun _ => False.elim
  | @serve r _ q hq ih =>
    refine ih.serve ?_
    cases q with
    | runNodes nodes => exact hq
    | eval text => exact text_of_literal (fun _ _ => trivial) text
    | handle text => exact text_of_literal (fun _ _ => trivial) text
    | rebind host => exact .inr trivial

end Runner

/-! ### Calls -/

/-- The value of a function's body: null if it gives none. -/
def orNull (x : Eval Value) : Eval Value := do
  match ← x with
  | .absent => return .null
  | v => return v

/-- How a call of a script function goes: it stops over its arguments, or is
refused for having too many, or evaluates the body in a scope that was not
there when the call began. -/
inductive EntersFresh (e : Engine) (ctx : Context) (f : ScriptFunction) (args : List Node)
    (pos : Position) (m : Machine) : Except Stop Value × Machine → Prop
  | stopped {s : Stop} {m₁ : Machine} (h : evaluateArguments e ctx args pos m = (.error s, m₁)) :
    EntersFresh e ctx f args pos m (.error s, m₁)
  | refused {values : List Value} {m₁ : Machine}
    (h : evaluateArguments e ctx args pos m = (.ok values, m₁))
    (hmany : f.params.length < values.length) :
    EntersFresh e ctx f args pos m (Eval.fail ctx pos (.tooManyArguments
      ((Function.script f).name?.getD "function") f.params.length values.length) m₁)
  | entered {values : List Value} {m₁ : Machine} {scope : ScopeRef} {heap : Heap}
    (h : evaluateArguments e ctx args pos m = (.ok values, m₁))
    (hscope : m₁.heap.newScope (some f.scope) (bindParameters f.params values []) = (scope, heap))
    (hfresh : m.heap.scopes.size ≤ scope.index) :
    EntersFresh e ctx f args pos m
      (orNull (e.evaluate (ctx.within scope f.source) f.body) { m₁ with heap })

/-- Evaluating arguments takes no scope away. -/
theorem evaluateArguments_scopes (n : Nat) (ctx : Context) (args : List Node) (pos : Position)
    (m : Machine) : m.heap.scopes.size ≤
      (evaluateArguments (Engine.level n) ctx args pos m).2.heap.scopes.size := by
  have hkeeps : (Policy.sealing (fun _ => False) True).Keeps m (evaluateArguments (Engine.level n) ctx args pos)
      (evaluateArguments (Engine.level n) ctx args pos) _ :=
    evaluateArguments_keeps (Policy.obeys_level _ n) id (Policy.sealing_nodes _ args) pos
  exact (hkeeps (Policy.sealing_holds m)).2.grows.extend.scopes

/-- **A function that is no block runs its body in a fresh scope.** -/
theorem callScript_entersFresh (n : Nat) (ctx : Context) {f : ScriptFunction}
    (hf : f.isBlock = false) (args : List Node) (pos : Position) (m : Machine) :
    EntersFresh (Engine.level n) ctx f args pos m (callScript (Engine.level n) ctx f args pos m) := by
  have hscopes := evaluateArguments_scopes n ctx args pos m
  unfold callScript
  rcases hargs : evaluateArguments (Engine.level n) ctx args pos m with ⟨s | values, m₁⟩
  · rw [Eval.bind_run_error hargs]
    exact .stopped hargs
  · rw [hargs] at hscopes
    rw [Eval.bind_run_ok hargs]
    by_cases hmany : f.params.length < values.length
    · rw [if_pos hmany]
      exact .refused hargs hmany
    · rw [if_neg hmany, hf]
      exact .entered hargs rfl hscopes

/-! ### Conclusion -/

namespace Runner.Reachable

variable {r : Runner}

theorem wellFormed (hr : r.Reachable) : r.machine.heap.WellFormed :=
  Policy.allocation_admits.mp hr.session.holds.heap

theorem evalOn_checked (hr : r.Reachable) (alarm : Eval Value) (text : String) :
    r.evalOn (Engine.checked alarm maxLevels) text = r.eval text :=
  (hr.session.evalOn (checked_obeys alarm maxLevels)
    (Policy.text_of_literal (fun _ _ => trivial) text)).1

theorem handle_checked (hr : r.Reachable) (alarm : Eval Value) (text : String) :
    concluded text (r.prepared.evalOn (Engine.checked alarm maxLevels) text) = r.handle text := by
  rw [handle_eq, (hr.session.prepared.evalOn (checked_obeys alarm maxLevels)
    (Policy.text_of_literal (fun _ _ => trivial) text)).1]
  rfl

theorem runNodesOn_checked (hr : r.Reachable) (alarm : Eval Value) {nodes : List Node}
    (hnodes : ∀ n ∈ nodes, r.machine.heap.AllocatedNode n) :
    r.runNodesOn (Engine.checked alarm maxLevels) nodes = r.runNodes nodes :=
  (hr.session.runNodesOn (checked_obeys alarm maxLevels) hnodes).1

end Runner.Reachable

/-- **The heap stays well-formed.** In a well-formed heap the way outward from
every scope ends, and no scope is inside itself. The heap of a runner is
well-formed whatever was asked of the runner, and stays so all through a run:
checking it wherever an evaluation or a call starts or ends finds nothing. And
a call of a function that is no block evaluates the body in a scope that was
not there before. -/
theorem heap_stays_well_formed :
    (∀ h : Heap, h.WellFormed →
      (∀ s, h.HasScope s → h.Walk s (h.chain s)) ∧ ∀ s, ¬Relation.TransGen h.Inside s s) ∧
    (∀ r : Runner, r.Reachable → r.machine.heap.WellFormed ∧
      ∀ alarm, (∀ text, r.evalOn (Engine.checked alarm maxLevels) text = r.eval text) ∧
        (∀ text, Runner.concluded text (r.prepared.evalOn (Engine.checked alarm maxLevels) text) =
          r.handle text) ∧
        ∀ nodes, (∀ n ∈ nodes, r.machine.heap.AllocatedNode n) →
          r.runNodesOn (Engine.checked alarm maxLevels) nodes = r.runNodes nodes) ∧
    ∀ (n : Nat) (ctx : Context) (ref : FunctionRef) (f : ScriptFunction) (m : Machine),
      m.heap.function? ref = some (.script f) → f.isBlock = false →
      ctx.settings.admitsCall m.calls.length = true → ∀ args pos,
        let frame := callFrame ctx (.script f) pos
        let body := callScript (Engine.level n) ctx f args pos
        let inner : Machine := { m with calls := frame :: m.calls }
        (Engine.level (n + 1)).call ctx ref args pos m = Eval.withFrame frame body m ∧
          EntersFresh (Engine.level n) ctx f args pos inner (body inner) := by
  refine ⟨fun h hh => ⟨fun s => hh.walk_chain, hh.not_inside_self⟩, fun r hr => ?_, ?_⟩
  · exact ⟨hr.wellFormed, fun alarm => ⟨hr.evalOn_checked alarm, hr.handle_checked alarm,
      fun nodes => hr.runNodesOn_checked alarm⟩⟩
  · intro n ctx ref f m href hf hadmits args pos frame body inner
    have hcall : callFunction (Engine.level n) ctx ref args pos m = Eval.withFrame frame body m :=
      callBy_entered Eval.withFrame (Engine.level n) href hadmits args pos
    exact ⟨hcall, callScript_entersFresh n ctx hf args pos inner⟩

/-- Scripts with cyclic values and a closure on a runner with a host, and a
call of a closure over the only scope. -/
theorem heap_stays_well_formed_cycle :
    let script := "a = [1]; Array.push(a, a); @f(x) { @() { x } }; g = f(a)"
    let r := ((Runner.create ⟨none, "", false, .usual⟩ "" true #[Host.other] (some 0)).serve
      (.handle script)).serve (.eval "g()")
    let f : ScriptFunction := ⟨["x"], [.word ⟨some 1, some 1, 0⟩ "x"], ⟨0⟩, "", none, false, none⟩
    let m : Machine :=
      { Machine.initial with heap := ⟨#[⟨[], none⟩], #[], #[], #[.script f]⟩ }
    let ctx : Context := ⟨⟨0⟩, "", ⟨none, "", false, .usual⟩⟩
    let pos : Position := ⟨some 1, some 3, 2⟩
    r.Reachable ∧ r.machine.heap.WellFormed ∧
      (∀ s, ¬Relation.TransGen r.machine.heap.Inside s s) ∧
      m.heap.function? ⟨0⟩ = some (.script f) ∧
      EntersFresh (Engine.level 1) ctx f [] pos { m with calls := [callFrame ctx (.script f) pos] }
        (callScript (Engine.level 1) ctx f [] pos
          { m with calls := [callFrame ctx (.script f) pos] }) := by
  intro script r f m ctx pos
  have hhosts : ∀ o ∈ #[Host.other], o.Honest := by
    intro o ho
    obtain rfl : o = Host.other := by simpa using ho
    exact Host.honest_other
  have hcreate := Runner.Reachable.create ⟨none, "", false, .usual⟩ "" true (some 0) hhosts
  have hhandle := hcreate.serve (q := .handle script) trivial
  have hr : r.Reachable := hhandle.serve (q := .eval "g()") trivial
  have hheap := (heap_stays_well_formed.2.1 r hr).1
  refine ⟨hr, hheap, (heap_stays_well_formed.1 _ hheap).2, rfl, ?_⟩
  exact (heap_stays_well_formed.2.2 1 ctx ⟨0⟩ f m rfl rfl rfl [] pos).2

end RuleScript
