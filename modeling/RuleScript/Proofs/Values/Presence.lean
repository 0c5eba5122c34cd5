/-
# A missing value is never stored

A declaration and an empty statement have no value, and `absent` marks this.
The mark is kept out of the data: no binding, array element or dict entry is
absent, no function is called with an absent argument, and no call gives an
absent result (`Heap.Present`). It can be the result of a statement list, and
it can stand in a buffer that is being reduced, but only in the last place
(`LastMayBeAbsent`), where no rule passes it on.

This holds in all the states that a run goes through. An engine looks at the
heap, the nodes and the results wherever an evaluation or a call starts and
ends, at the buffer and the heap before and after every reduction step, and
at the values of the arguments of every call, and sets off an alarm if the
mark is where it must not be (`Engine.vigilant`): whatever the alarm does, the
run is the same.

Key definitions: `Heap.Present`, `LastMayBeAbsent`, `ReducesTo`, `Visits`,
`Engine.vigilant`.
Key theorems: `Visits.clear`, `vigilant_obeys`, `absent_is_never_data`.
-/
import RuleScript.Proofs.Heap.WellFormed

namespace RuleScript

/-! ### Where the mark may be -/

/-- A node that carries no mark of a missing value, at any depth. -/
def Node.Present (n : Node) : Prop := n.MadeOf (· ≠ .absent) fun _ _ => True

/-- A heap without marks of missing values: in bindings, array elements, dict
entries and function bodies. -/
structure Heap.Present (h : Heap) : Prop where
  bindings : ∀ s, ∀ p ∈ h.bindings s, p.2 ≠ .absent
  items : ∀ r, ∀ v ∈ h.items r, v ≠ .absent
  dict : ∀ r, ∀ p ∈ h.dict r, p.2 ≠ .absent
  bodies : ∀ r f, h.function? r = some (.script f) → ∀ n ∈ f.body, n.Present

/-- Nodes without marks, except that the last one may be a mark itself. -/
inductive LastMayBeAbsent : List Node → Prop
  | present {b : List Node} (h : ∀ n ∈ b, n.Present) : LastMayBeAbsent b
  | absent {b : List Node} (h : ∀ n ∈ b, n.Present) (pos : Position) :
    LastMayBeAbsent (b ++ [.value pos .absent])

/-- The buffers that the reduction of a buffer passes through, and the machine
at each of them. -/
inductive ReducesTo (e : Engine) (ctx : Context) (b : List Node) (m : Machine) :
    List Node → Machine → Prop
  | start : ReducesTo e ctx b m b m
  | step {b₁ b₂ : List Node} {m₁ m₂ : Machine} (h : ReducesTo e ctx b m b₁ m₁)
    (hstep : reduceStep e ctx b₁ m₁ = (.ok (some b₂), m₂)) : ReducesTo e ctx b m b₂ m₂

/-- The buffers that some statements pass through, evaluated in order. -/
inductive Visits (e : Engine) (ctx : Context) :
    List (List Node) → Machine → List Node → Machine → Prop
  | here {s b : List Node} {m m' : Machine} (rest : List (List Node)) (h : ReducesTo e ctx s m b m') :
    Visits e ctx (s :: rest) m b m'
  | later {s b : List Node} {rest : List (List Node)} {m m₁ m' : Machine} {v : Value}
    (h : evaluateStatement e ctx s m = (.ok v, m₁)) (hrest : Visits e ctx rest m₁ b m') :
    Visits e ctx (s :: rest) m b m'

/-! ### The policy -/

namespace Policy

/-- Everything may be anywhere but the mark of a missing value. -/
def presence : Policy where
  value _ v := v ≠ .absent
  scope _ _ := True
  link _ _ := True
  closed _ := False
  emptying := True
  literal _ _ := True
  foreign := True
  stop _ := True

instance : presence.Nests where
  value_mono _ hv := hv
  scope_mono _ _ := trivial
  scalar hv := by
    rintro rfl
    exact hv
  newArray _ _ := by rintro ⟨⟩
  newDict _ _ := by rintro ⟨⟩
  newFunction _ _ := by rintro ⟨⟩
  link _ := trivial
  not_closed _ := id
  fault _ := trivial
  exhausted := trivial
  traced _ _ := trivial
  literal _ _ := trivial
  foreign _ _ := trivial
  newScope _ _ _ _ := trivial
  nest _ := trivial

instance : presence.Empties := ⟨trivial⟩

/-- What a host hands back is turned into data by the library. -/
theorem presence_host (o : Host) : presence.host o :=
  fun _ _ _ _ _ _ _ p _ => p.madeOf_of_forall (fun _ => Classical.em _) trivial

theorem presence_heap {h : Heap} (hh : presence.Admits h) : h.Present :=
  ⟨hh.bindings, hh.items, hh.dict, fun r _ hf => (hh.functions r _ hf).2⟩

theorem presence_buffer {h : Heap} {b : List Node} (hb : presence.Buffer h b) :
    LastMayBeAbsent b := by
  induction hb with
  | nil => exact .present (by rintro _ ⟨⟩)
  | absent pos => exact .absent (b := []) (by rintro _ ⟨⟩) pos
  | @cons n rest hn _ ih =>
    cases ih with
    | present hrest => exact .present (List.forall_mem_cons.mpr ⟨hn, hrest⟩)
    | @absent b hb pos => exact .absent (b := n :: b) (List.forall_mem_cons.mpr ⟨hn, hb⟩) pos

end Policy

/-! ### Buffers -/

section Buffers

open Policy

variable {n : Nat} {ctx : Context} {m m' : Machine} {b' : List Node}

/-- One reduction step keeps the mark in its place, so a reduction does. -/
theorem ReducesTo.clear {b : List Node} (h : ReducesTo (Engine.level n) ctx b m b' m')
    (hm : presence.Holds m) (hb : presence.Buffer m.heap b) :
    presence.Holds m' ∧ presence.Buffer m'.heap b' := by
  induction h with
  | start => exact ⟨hm, hb⟩
  | step _ hstep ih =>
    have hscope (h : Heap) : presence.scope h ctx.scope := trivial
    obtain ⟨-, hend⟩ := reduceStep_keeps (presence.obeys_level n) (hscope _) ih.2 ih.1
    rw [hstep] at hend
    exact ⟨hend.holds, hend.value _ rfl _ rfl⟩

/-- So do statements in order. -/
theorem Visits.clear {statements : List (List Node)}
    (h : Visits (Engine.level n) ctx statements m b' m') (hm : presence.Holds m)
    (hstatements : ∀ b ∈ statements, presence.Buffer m.heap b) :
    presence.Holds m' ∧ presence.Buffer m'.heap b' := by
  induction h with
  | here rest h => exact h.clear hm (hstatements _ List.mem_cons_self)
  | later h _ ih =>
    obtain ⟨hb, hrest⟩ := List.forall_mem_cons.mp hstatements
    have hscope (h : Heap) : presence.scope h ctx.scope := trivial
    obtain ⟨-, hend⟩ := evaluateStatement_keeps (presence.obeys_level n) (hscope _) hb hm
    rw [h] at hend
    exact ih hend.holds fun b hb => hend.grows.buffer (hrest b hb)

end Buffers

/-! ### While a program runs -/

/-- A machine on which nodes are evaluated with no mark in the wrong place, now
or in any buffer on the way. -/
structure Machine.Clear (e : Engine) (ctx : Context) (nodes : List Node) (m : Machine) : Prop where
  heap : m.heap.Present
  start : LastMayBeAbsent nodes
  visits : ∀ b m', Visits e ctx (Node.splitOn ";" nodes) m b m' → LastMayBeAbsent b ∧ m'.heap.Present

/-- A machine on which a function is called with no mark among the arguments,
neither in their nodes nor in their values. -/
structure Machine.ClearCall (e : Engine) (ctx : Context) (ref : FunctionRef) (args : List Node)
    (pos : Position) (m : Machine) : Prop where
  heap : m.heap.Present
  start : ∀ n ∈ args, n.Present
  values : ∀ f values m', m.heap.function? ref = some f →
    evaluateArguments e ctx args pos { m with calls := callFrame ctx f pos :: m.calls } =
      (.ok values, m') → ∀ v ∈ values, v ≠ .absent

/-- A call that ends with no mark in the heap, and none as its result. -/
structure ClearCallEnd (r : Except Stop Value × Machine) : Prop where
  heap : r.2.heap.Present
  value : ∀ v, r.1 = .ok v → v ≠ .absent

/-- The engine with `n` levels that sets off an alarm if the mark of a missing
value is where it must not be. -/
noncomputable def Engine.vigilant (alarm : Eval Value) : Nat → Engine
  | 0 => .exhausted
  | n + 1 => {
      evaluate ctx nodes := Eval.checked (Machine.Clear (Engine.level n) ctx nodes)
        (fun r => r.2.heap.Present) alarm (evaluateList (Engine.vigilant alarm n) ctx nodes)
      call ctx ref args pos := Eval.checked (Machine.ClearCall (Engine.level n) ctx ref args pos)
        ClearCallEnd alarm (callFunction (Engine.vigilant alarm n) ctx ref args pos) }

open Policy in
/-- **The alarm is never set off.** -/
theorem vigilant_obeys (alarm : Eval Value) : ∀ n,
    presence.Obeys (Engine.level n) (Engine.vigilant alarm n)
  | 0 => presence.obeys_exhausted
  | n + 1 => by
    have ih := vigilant_obeys alarm n
    constructor
    · intro m ctx b hs hb
      show presence.Keeps m (evaluateList (Engine.level n) ctx b)
        (Eval.checked (Machine.Clear (Engine.level n) ctx b) (fun r => r.2.heap.Present) alarm
          (evaluateList (Engine.vigilant alarm n) ctx b)) presence.result
      refine (evaluateList_keeps ih hs hb).checked (fun hm => ?_) (fun r hr => ?_) alarm
      · refine ⟨presence_heap hm.heap, presence_buffer hb, fun b' m' hvisits => ?_⟩
        obtain ⟨hm', hb'⟩ := hvisits.clear hm (Buffer.splitOn ";" hb)
        exact ⟨presence_buffer hb', presence_heap hm'.heap⟩
      · exact presence_heap hr.holds.heap
    · intro m ctx ref args hs hargs pos
      refine (ih.next.call ref hs hargs pos).checked (fun hm => ?_) (fun r hr => ?_) alarm
      · refine ⟨presence_heap hm.heap, hargs, fun f values m' hf hvalues => ?_⟩
        let inner : Machine := { m with calls := callFrame ctx f pos :: m.calls }
        have hinner : presence.Holds inner := ⟨hm.heap, hm.hosts⟩
        obtain ⟨-, hend⟩ := evaluateArguments_keeps (presence.obeys_level n) (m := inner) hs hargs pos
          hinner
        rw [hvalues] at hend
        exact hend.value values rfl
      · exact ⟨presence_heap hr.holds.heap, hr.value⟩

/-! ### Runners -/

/-- A request whose nodes, if it brings any, carry no mark. -/
def Runner.Request.Present : Runner.Request → Prop
  | .runNodes nodes => ∀ n ∈ nodes, n.Present
  | .eval _ | .handle _ | .rebind _ => True

open Policy in
theorem presence_session (settings : Settings) (source : String) (keep : Bool) (hosts : Array Host)
    (host : Option Nat) {requests : List Runner.Request} (hrequests : ∀ q ∈ requests, q.Present) :
    presence.Session ((Runner.create settings source keep hosts host).serveAll requests) := by
  have hcreate : presence.Session (Runner.create settings source keep hosts host) :=
    session_create settings source keep (fun o _ => presence_host o) (.inr trivial)
      fun _ => False.elim
  refine hcreate.serveAll fun q hq h => ?_
  have hpresent := hrequests q hq
  cases q with
  | runNodes nodes => exact hpresent
  | eval text => exact text_of_literal (fun _ _ => trivial) text
  | handle text => exact text_of_literal (fun _ _ => trivial) text
  | rebind host => exact .inr trivial

/-- **A missing value is never data.** Whatever has been asked of a runner, if
the nodes that it was given carry no mark of a missing value, then no binding,
array element, dict entry or function body in its heap does. And all through a
run of a text or of such nodes nothing is found by an engine that looks for the
mark in the heap, among the arguments of a call and in its result, and in the
buffers, where only the last node may be one. -/
theorem absent_is_never_data (settings : Settings) (source : String) (keep : Bool)
    (hosts : Array Host) (host : Option Nat) (requests : List Runner.Request)
    (hrequests : ∀ q ∈ requests, q.Present) :
    let r := (Runner.create settings source keep hosts host).serveAll requests
    r.machine.heap.Present ∧ ∀ alarm,
      (∀ nodes, (∀ n ∈ nodes, n.Present) →
        r.runNodesOn (Engine.vigilant alarm maxLevels) nodes = r.runNodes nodes) ∧
      (∀ text, r.evalOn (Engine.vigilant alarm maxLevels) text = r.eval text) ∧
      ∀ text, Runner.concluded text (r.prepared.evalOn (Engine.vigilant alarm maxLevels) text) =
        r.handle text := by
  intro r
  have hr : Policy.presence.Session r := presence_session settings source keep hosts host hrequests
  have htext (text : String) : Policy.presence.text text :=
    Policy.text_of_literal (fun _ _ => trivial) text
  refine ⟨Policy.presence_heap hr.holds.heap, fun alarm => ?_⟩
  have hobeys := vigilant_obeys alarm maxLevels
  refine ⟨fun nodes hnodes => (hr.runNodesOn hobeys hnodes).1,
    fun text => (hr.evalOn hobeys (htext text)).1, fun text => ?_⟩
  rw [Runner.handle_eq, (hr.prepared.evalOn hobeys (htext text)).1]
  rfl

/-- A declaration, which has no value itself, after a script that declares a
function and calls it. -/
theorem absent_is_never_data_declaration :
    let pos : Position := ⟨some 1, some 1, 0⟩
    let nodes : List Node :=
      [.word pos "a", .symbol pos "=", .span pos .paren [.quoted pos "'b'"]]
    let requests : List Runner.Request :=
      [.handle "f = (@(x) \x7b x = ('c') \x7d); y = [f(null)]", .runNodes nodes]
    let m : Machine := { Machine.initial with heap := ⟨#[⟨[], none⟩], #[], #[], #[]⟩ }
    (∀ q ∈ requests, q.Present) ∧
      ((Engine.level 2).evaluate ⟨⟨0⟩, "", ⟨none, "", false, .usual⟩⟩ nodes m).1 = .ok .absent ∧
      ∃ r, r = (Runner.create ⟨none, "", false, .usual⟩ "" true #[] none).serveAll requests ∧
        r.machine.heap.Present ∧
        ∀ alarm, r.runNodesOn (Engine.vigilant alarm maxLevels) nodes = r.runNodes nodes := by
  intro pos nodes requests m
  have hnodes : ∀ n ∈ nodes, n.Present := by
    simp only [nodes, List.mem_cons, List.not_mem_nil, or_false]
    rintro n (rfl | rfl | rfl)
    · exact .word pos "a"
    · exact .symbol pos "="
    · exact .span pos .paren (List.forall_mem_singleton.mpr (.quoted pos _))
  have hrequests : ∀ q ∈ requests, q.Present := by
    simp only [requests, List.mem_cons, List.not_mem_nil, or_false]
    rintro q (rfl | rfl)
    · exact trivial
    · exact hnodes
  obtain ⟨hheap, hruns⟩ :=
    absent_is_never_data ⟨none, "", false, .usual⟩ "" true #[] none requests hrequests
  exact ⟨hrequests, rfl, _, rfl, hheap, fun alarm => (hruns alarm).1 nodes hnodes⟩

end RuleScript
