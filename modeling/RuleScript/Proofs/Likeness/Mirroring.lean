/-
# Computations that mirror each other

Two computations mirror each other under a likeness if they lead from machines
that are alike to machines that are alike, and end with a value and the value
it is carried over to, or with a stop and the stop it is carried over to
(`Likeness.Mirrors`). There is one rule for each way in which computations are
put together, so that mirroring is read off the text of an operation.

A scope is within reach if it is known to be there, or if nothing is renamed
(`Likeness.Reaches`); code is only run in such scopes. Machines never have
fewer scopes later on, so what is within reach stays so.

Key definitions: `Likeness.Machines`, `Likeness.Ends`, `Likeness.Mirrors`,
`Likeness.Engines`.
Key theorems: `Likeness.Mirrors.bind`, `Likeness.Mirrors.mapM`,
`Likeness.Mirrors.withFrame`, `Likeness.Mirrors.guarded`.
-/
import RuleScript.Engine
import RuleScript.Library.Sorting.Run
import RuleScript.Proofs.Computation
import RuleScript.Proofs.Likeness.Basic

namespace RuleScript

namespace Likeness

variable (L : Likeness) {α β γ δ : Type}

/-- Two machines that are alike, the first with at least `bound` scopes. What
the evaluation trace holds does not matter. -/
structure Machines (bound : Nat) (m m' : Machine) : Prop where
  heap : L.Heaps m.heap m'.heap
  known : bound ≤ m.heap.scopes.size
  calls : m'.calls = m.calls.map L.frame
  effects : m'.effects = m.effects
  focus : m'.focus = m.focus.map L.position
  hosts : L.hosted = true → m'.hosts = m.hosts
  seed : m'.seed = m.seed

/-- How two computations end that mirror each other. -/
inductive Ends (bound : Nat) (f : α → β) :
    Except Stop α × Machine → Except Stop β × Machine → Prop
  | value (a : α) {m m' : Machine} (h : L.Machines bound m m') : Ends bound f (.ok a, m) (.ok (f a), m')
  | stop (s : Stop) {m m' : Machine} (h : L.Machines bound m m') :
    Ends bound f (.error s, m) (.error (L.stop s), m')

/-- Two computations mirror each other; values are carried over by `f`. -/
def Mirrors (bound : Nat) (f : α → β) (x : Eval α) (x' : Eval β) : Prop :=
  ∀ ⦃m m' : Machine⦄, L.Machines bound m m' → L.Ends bound f (x m) (x' m')

/-- A result, or a stop that was caught. -/
def caught (f : α → β) : Except Stop α → Except Stop β
  | .ok a => .ok (f a)
  | .error s => .error (L.stop s)

/-- A scope that is known to be there, unless nothing is renamed. -/
def Reaches (bound : Nat) (s : ScopeRef) : Prop := L.Still ∨ s.index < bound

/-- Two engines that mirror each other. -/
structure Engines (e e' : Engine) : Prop where
  evaluate : ∀ {bound : Nat} {ctx : Context}, L.Reaches bound ctx.scope → ∀ nodes : List Node,
    L.Mirrors bound L.value (e.evaluate ctx nodes) (e'.evaluate (L.context ctx) (nodes.map L.node))
  call : ∀ {bound : Nat} {ctx : Context}, L.Reaches bound ctx.scope →
    ∀ (f : FunctionRef) (args : List Node) (pos : Position), L.Mirrors bound L.value
      (e.call ctx f args pos)
      (e'.call (L.context ctx) (L.function f) (args.map L.node) (L.position pos))

variable {L}

/-! ### Machines -/

namespace Machines

variable {bound : Nat} {m m' : Machine}

theorem onHeap (hm : L.Machines bound m m') {h h' : Heap} (hh : L.Heaps h h')
    (hsize : m.heap.scopes.size ≤ h.scopes.size) :
    L.Machines bound { m with heap := h } { m' with heap := h' } :=
  ⟨hh, Nat.le_trans hm.known hsize, hm.calls, hm.effects, hm.focus, hm.hosts, hm.seed⟩

/-- All the scopes of the machine are known. -/
theorem all (hm : L.Machines bound m m') : L.Machines m.heap.scopes.size m m' :=
  ⟨hm.heap, Nat.le_refl _, hm.calls, hm.effects, hm.focus, hm.hosts, hm.seed⟩

theorem weaken (hm : L.Machines bound m m') {bound' : Nat} (h : bound' ≤ bound) :
    L.Machines bound' m m' :=
  ⟨hm.heap, Nat.le_trans h hm.known, hm.calls, hm.effects, hm.focus, hm.hosts, hm.seed⟩

end Machines

theorem Ends.weaken {bound bound' : Nat} (h : bound' ≤ bound) {f : α → β}
    {r : Except Stop α × Machine} {r' : Except Stop β × Machine} (hr : L.Ends bound f r r') :
    L.Ends bound' f r r' := by
  cases hr with
  | value a hm => exact .value a (hm.weaken h)
  | stop s hm => exact .stop s (hm.weaken h)

/-- What follows computations that end alike. -/
theorem Ends.bind {bound : Nat} {f : α → β} {g : γ → δ} {x : Eval α} {x' : Eval β} {k : α → Eval γ}
    {k' : β → Eval δ} {m m' : Machine} (hx : L.Ends bound f (x m) (x' m'))
    (hk : ∀ a, L.Mirrors bound g (k a) (k' (f a))) : L.Ends bound g ((x >>= k) m) ((x' >>= k') m') := by
  rw [Eval.bind_run, Eval.bind_run]
  generalize x m = r, x' m' = r' at hx
  cases hx with
  | value a hm => exact hk a hm
  | stop s hm => exact .stop s hm

theorem Reaches.mono {bound bound' : Nat} (h : bound ≤ bound') {s : ScopeRef} (hs : L.Reaches bound s) :
    L.Reaches bound' s := hs.imp_right fun hlt => Nat.lt_of_lt_of_le hlt h

variable (L) in
theorem stop_raisedAt (c : Cause) (pos : Position) (source : String) :
    L.stop (.fault (.raisedAt c (some pos) source)) =
      .fault (.raisedAt c (some (L.position pos)) source) := by
  unfold stop Fault.raisedAt coordinate position
  cases L.blank <;> rfl

variable (L) in
theorem stop_traced (s : Stop) (calls : List Frame) :
    L.stop (s.traced calls) = (L.stop s).traced (calls.map L.frame) := by
  have htrace (trace : Option (List Frame)) :
      (some (trace.getD calls)).map (List.map L.frame) =
        some ((trace.map (List.map L.frame)).getD (calls.map L.frame)) := by
    cases trace <;> rfl
  cases s with
  | fault f => exact congrArg (fun t => Stop.fault ⟨_, _, _, _, t⟩) (htrace f.trace)
  | internal e trace => exact congrArg (Stop.internal e) (htrace trace)
  | exhausted trace => exact congrArg Stop.exhausted (htrace trace)

/-! ### Rules -/

namespace Mirrors

variable {bound : Nat} {f : α → β} {g : γ → δ}

theorem pure (a : α) : L.Mirrors bound f (pure a) (pure (f a)) := fun _ _ hm => .value a hm

theorem pure_of {a : α} {b : β} (h : b = f a) : L.Mirrors bound f (Pure.pure a) (Pure.pure b) :=
  h ▸ pure a

theorem bind {x : Eval α} {x' : Eval β} {k : α → Eval γ} {k' : β → Eval δ}
    (hx : L.Mirrors bound f x x') (hk : ∀ a, L.Mirrors bound g (k a) (k' (f a))) :
    L.Mirrors bound g (x >>= k) (x' >>= k') := fun _ _ hm => (hx hm).bind hk

theorem then_return {x : Eval α} {x' : Eval β} {k : α → γ} {k' : β → δ} (hx : L.Mirrors bound f x x')
    (hk : ∀ a, k' (f a) = g (k a)) :
    L.Mirrors bound g (do return k (← x)) (do return k' (← x')) :=
  hx.bind fun a => pure_of (hk a)

theorem throw {s s' : Stop} (h : s' = L.stop s) :
    L.Mirrors bound f (throw s : Eval α) (throw s' : Eval β) := by
  subst h
  exact fun _ _ hm => .stop s hm

theorem fail (ctx : Context) (pos : Position) (c : Cause) :
    L.Mirrors bound f (Eval.fail ctx pos c) (Eval.fail (L.context ctx) (L.position pos) c) :=
  throw (L.stop_raisedAt c pos ctx.source).symm

theorem ite {c : Prop} [Decidable c] {x y : Eval α} {x' y' : Eval β} (hx : L.Mirrors bound f x x')
    (hy : L.Mirrors bound f y y') :
    L.Mirrors bound f (if c then x else y) (if c then x' else y') := by
  split
  · exact hx
  · exact hy

/-- What is read from alike heaps. -/
theorem onHeap {get : Heap → α} {get' : Heap → β}
    (h : ∀ {h h' : Heap}, L.Heaps h h' → get' h' = f (get h)) :
    L.Mirrors bound f (Eval.onHeap get) (Eval.onHeap get') := by
  intro m m' hm
  have hget := h hm.heap
  show L.Ends bound f (.ok (get m.heap), m) (.ok (get' m'.heap), m')
  rw [hget]
  exact .value _ hm

theorem modifyHeap {change change' : Heap → Heap}
    (h : ∀ {h h' : Heap}, L.Heaps h h' → L.Heaps (change h) (change' h'))
    (hsize : ∀ h : Heap, h.scopes.size ≤ (change h).scopes.size) :
    L.Mirrors bound id (Eval.modifyHeap change) (Eval.modifyHeap change') :=
  fun m _ hm => .value () (hm.onHeap (h hm.heap) (hsize m.heap))

theorem allocate {make : Heap → α × Heap} {make' : Heap → β × Heap}
    (h : ∀ {h h' : Heap}, L.Heaps h h' → bound ≤ h.scopes.size →
      L.Heaps (make h).2 (make' h').2 ∧ (make' h').1 = f (make h).1 ∧
        h.scopes.size ≤ (make h).2.scopes.size) :
    L.Mirrors bound f (Eval.allocate make) (Eval.allocate make') := by
  intro m m' hm
  obtain ⟨hheap, hvalue, hsize⟩ := h hm.heap hm.known
  show L.Ends bound f (.ok (make m.heap).1, { m with heap := (make m.heap).2 })
    (.ok (make' m'.heap).1, { m' with heap := (make' m'.heap).2 })
  rw [hvalue]
  exact .value _ (hm.onHeap hheap hsize)

theorem newArray (xs : List Value) :
    L.Mirrors bound L.value (Eval.newArray xs) (Eval.newArray (xs.map L.value)) := by
  refine then_return (f := L.array) (allocate fun hh _ => ⟨hh.newArray xs, ?_, Nat.le_refl _⟩)
    fun _ => rfl
  exact hh.next_array.symm

theorem newDict (t : Table Value) :
    L.Mirrors bound L.value (Eval.newDict t) (Eval.newDict (L.table t)) := by
  refine then_return (f := L.dict) (allocate fun hh _ => ⟨hh.newDict t, ?_, Nat.le_refl _⟩)
    fun _ => rfl
  exact hh.next_dict.symm

theorem newNative {F : NativeFunction} (hfits : L.Fits F.operation) :
    L.Mirrors bound L.value (Eval.newFunction (.native F)) (Eval.newFunction (L.code (.native F))) := by
  refine then_return (f := L.function) (allocate fun hh _ => ⟨hh.newFunction ?_ ?_, ?_, Nat.le_refl _⟩)
    fun _ => rfl
  · rintro _ ⟨⟩
    exact hfits
  · exact .inr (by rintro _ ⟨⟩)
  · exact hh.next_function.symm

theorem newScript {F : ScriptFunction} (hscope : L.Reaches bound F.scope) :
    L.Mirrors bound L.value (Eval.newFunction (.script F)) (Eval.newFunction (L.code (.script F))) := by
  refine then_return (f := L.function)
    (allocate fun hh hbound => ⟨hh.newFunction ?_ ?_, ?_, Nat.le_refl _⟩) fun _ => rfl
  · rintro _ ⟨⟩
  · refine hscope.imp_right fun hlt => ?_
    rintro _ ⟨⟩
    exact Nat.lt_of_lt_of_le hlt hbound
  · exact hh.next_function.symm

/-- What follows runs with the new scope within reach. -/
theorem newScope {p : ScopeRef} (hp : L.Reaches bound p) (t : Table Value) {k : ScopeRef → Eval γ}
    {k' : ScopeRef → Eval δ}
    (hk : ∀ {bound : Nat} {s : ScopeRef}, L.Reaches bound s → L.Mirrors bound g (k s) (k' (L.scope s))) :
    L.Mirrors bound g (Eval.allocate (·.newScope (some p) t) >>= k)
      (Eval.allocate (·.newScope (some (L.scope p)) (L.table t)) >>= k') := by
  intro m m' hm
  have hheap := hm.heap.newScope (hp.imp_right fun hlt => Nat.lt_of_lt_of_le hlt hm.known) t
  have hsize := m.heap.newScope_lt (some p) t
  have hin := (hm.onHeap hheap (Nat.le_of_lt hsize)).all
  have hends := hk (s := ⟨m.heap.scopes.size⟩) (.inr hsize) hin
  show L.Ends bound g (k ⟨m.heap.scopes.size⟩ _) (k' ⟨m'.heap.scopes.size⟩ _)
  rw [← hm.heap.next_scope]
  exact hends.weaken (Nat.le_trans hm.known (Nat.le_of_lt hsize))

theorem assign (s : ScopeRef) (name : String) (v : Value) :
    L.Mirrors bound id (Eval.modifyHeap (·.assign s name v))
      (Eval.modifyHeap (·.assign (L.scope s) name (L.value v))) :=
  modifyHeap (fun hh => hh.assign s name v) fun _ => Nat.le_of_eq Array.size_modify.symm

theorem define (s : ScopeRef) (name : String) (v : Value) :
    L.Mirrors bound id (Eval.modifyHeap (·.define s name v))
      (Eval.modifyHeap (·.define (L.scope s) name (L.value v))) :=
  modifyHeap (fun hh => hh.define s name v) fun _ => Nat.le_of_eq Array.size_modify.symm

theorem setItems (r : ArrayRef) {xs xs' : List Value} (h : xs' = xs.map L.value) :
    L.Mirrors bound id (Eval.modifyHeap (·.setItems r xs))
      (Eval.modifyHeap (·.setItems (L.array r) xs')) := by
  subst h
  exact modifyHeap (fun hh => hh.setItems r xs) fun _ => Nat.le_refl _

theorem addItems (r : ArrayRef) {xs xs' : Heap → List Value}
    (h : ∀ {h h' : Heap}, L.Heaps h h' → xs' h' = (xs h).map L.value) :
    L.Mirrors bound id (Eval.modifyHeap fun h => h.addItems r (xs h))
      (Eval.modifyHeap fun h => h.addItems (L.array r) (xs' h)) := by
  refine modifyHeap (fun hh => ?_) fun _ => Nat.le_refl _
  rw [h hh]
  exact hh.addItems r _

theorem mapM {k : α → Eval γ} {k' : β → Eval δ} (hk : ∀ a, L.Mirrors bound g (k a) (k' (f a))) :
    ∀ xs : List α, L.Mirrors bound (List.map g) (xs.mapM k) ((xs.map f).mapM k') := by
  intro xs
  induction xs with
  | nil => exact pure []
  | cons x xs ih =>
    rw [List.map_cons, List.mapM_cons, List.mapM_cons]
    exact (hk x).bind fun y => ih.then_return fun _ => rfl

theorem forM {k k' : α → Eval PUnit} (hk : ∀ a, L.Mirrors bound id (k a) (k' a)) :
    ∀ xs : List α, L.Mirrors bound id (xs.forM k) (xs.forM k') := by
  intro xs
  induction xs with
  | nil => exact pure PUnit.unit
  | cons x xs ih => exact (hk x).bind fun _ => ih

/-- A change beside the heap. -/
theorem aside {change change' : Machine → Machine}
    (h : ∀ {m m' : Machine}, L.Machines bound m m' → L.Machines bound (change m) (change' m')) :
    L.Mirrors bound id (modify change : Eval Unit) (modify change' : Eval Unit) :=
  fun _ _ hm => .value () (h hm)

theorem note (ctx : Context) (line line' : Unit → String) :
    L.Mirrors bound id (Eval.note ctx line) (Eval.note (L.context ctx) line') := by
  unfold Eval.note
  refine ite (aside fun hm => ?_) (pure ())
  exact ⟨hm.heap, hm.known, hm.calls, hm.effects, hm.focus, hm.hosts, hm.seed⟩

theorem fire (ctx : Context) (what name : String) (pos : Position) :
    L.Mirrors bound id (Eval.fire ctx what name pos)
      (Eval.fire (L.context ctx) what name (L.position pos)) := by
  refine (aside fun hm => ?_).bind fun _ => note ctx _ _
  exact ⟨hm.heap, hm.known, hm.calls, hm.effects, rfl, hm.hosts, hm.seed⟩

/-- A call is entered and left; its stop notes the active calls. -/
theorem withFrame {frame : Frame} {x : Eval α} {x' : Eval β} (hx : L.Mirrors bound f x x') :
    L.Mirrors bound f (Eval.withFrame frame x) (Eval.withFrame (L.frame frame) x') := by
  intro m m' hm
  have hin : L.Machines bound { m with calls := frame :: m.calls }
      { m' with calls := L.frame frame :: m'.calls } :=
    ⟨hm.heap, hm.known, by rw [hm.calls]; rfl, hm.effects, hm.focus, hm.hosts, hm.seed⟩
  have hout {m₁ m₁' : Machine} (h : L.Machines bound m₁ m₁') :
      L.Machines bound (Eval.popFrame m₁) (Eval.popFrame m₁') := by
    refine ⟨h.heap, h.known, ?_, h.effects, h.focus, h.hosts, h.seed⟩
    show m₁'.calls.tail = m₁.calls.tail.map L.frame
    rw [h.calls, List.map_tail]
  have hends := hx hin
  unfold Eval.withFrame
  generalize x _ = r, x' _ = r' at hends
  cases hends with
  | value a h => exact .value a (hout h)
  | @stop s m₁ m₁' h =>
    show L.Ends bound f _ (.error ((L.stop s).traced m₁'.calls.reverse), _)
    rw [h.calls, ← List.map_reverse, ← L.stop_traced]
    exact .stop _ (hout h)

end Mirrors

/-- An internal error becomes the same fault on both sides; every other stop
passes. -/
theorem Ends.guarded {bound : Nat} {f : α → β} {x : Eval α} {x' : Eval β} {m m' : Machine}
    (hx : L.Ends bound f (x m) (x' m')) (ctx : Context) (pos : Position) :
    L.Ends bound f (Eval.guarded ctx pos x m) (Eval.guarded (L.context ctx) (L.position pos) x' m') := by
  unfold Eval.guarded
  generalize x m = r, x' m' = r' at hx
  cases hx with
  | value a h => exact .value a h
  | stop s h =>
    cases s with
    | internal e trace =>
      show L.Ends bound f _ (.error (.fault (.raisedAt _ (some (L.position pos)) ctx.source)), _)
      rw [← L.stop_raisedAt]
      exact .stop _ h
    | fault F => exact .stop (.fault F) h
    | exhausted trace => exact .stop (.exhausted trace) h

/-- A stop is caught on both sides. -/
theorem Mirrors.attempt {bound : Nat} {f : α → β} {x : Eval α} {x' : Eval β}
    (hx : L.Mirrors bound f x x') :
    L.Mirrors bound (L.caught f) (Eval.attempt x) (Eval.attempt x') := by
  intro m m' hm
  have hends := hx hm
  unfold Eval.attempt
  generalize x m = r, x' m' = r' at hends
  cases hends with
  | value a h => exact .value (f := L.caught f) (Except.ok a) h
  | stop s h => exact .value (f := L.caught f) (Except.error s) h

end Likeness

end RuleScript
