/-
# Computations that keep to a realm, with a second run beside them

A run keeps to a realm if it leads from a machine on which the realm holds to
another one, returns what lies inside, and stops only as the realm allows. The
statement is about two runs at once (`Realm.Keeps`). They have the same heap,
hosts and random source all along and end alike; how else they may differ is
said by a twin: their effects are related, and if they are not aligned, then
the active calls, and so the trace of a stop, may differ; if they are not
focused, then the place where something fired last. A run beside itself is the
plain case.

What only reads the heap is passed by `Realm.Keeps.look`; `Eval.Reads` finds
it from its text, together with the position that its faults have.

Key definitions: `Eval.Reads`, `Twin`, `Realm.Ends`, `Realm.Keeps`.
Key theorems: `Realm.Keeps.bind`, `Realm.Keeps.look`, `Realm.Keeps.fire`,
`Realm.Keeps.guarded`, `Realm.Keeps.withFrame`, `Dialogue.keeps_realm`.
-/
import RuleScript.Engine
import RuleScript.Proofs.Composition
import RuleScript.Proofs.Realm.Basic
import RuleScript.Proofs.Sorting.Dialogue

namespace RuleScript

/-! ### Computations that read the heap -/

namespace Stop

/-- A fault at a position, or an exhaustion, that has left no call. -/
def RaisedAt (pos : Position) (s : Stop) : Prop :=
  (∃ c source, s = .fault (.raisedAt c (some pos) source)) ∨ s = .exhausted none

/-- The stop without the calls it has left. -/
def untraced : Stop → Stop
  | .fault f => .fault { f with trace := none }
  | .internal e _ => .internal e none
  | .exhausted _ => .exhausted none

theorem untraced_traced (s : Stop) (calls : List Frame) : (s.traced calls).untraced = s.untraced := by
  cases s <;> rfl

end Stop

/-- A computation that only reads the heap, and faults at one position. -/
class Eval.Reads {α : Type} (pos : Position) (x : Eval α) : Prop where
  machine : ∀ m, (x m).2 = m
  heap : ∀ m m', m'.heap = m.heap → (x m').1 = (x m).1
  stop : ∀ m s, (x m).1 = .error s → s.RaisedAt pos

namespace Eval

variable {α β : Type} {pos : Position}

theorem Reads.run {x : Eval α} (hx : Reads pos x) (m : Machine) : x m = ((x m).1, m) :=
  Prod.ext rfl (hx.machine m)

instance Reads.bind {x : Eval α} {f : α → Eval β} [hx : Reads pos x] [hf : ∀ a, Reads pos (f a)] :
    Reads pos (x >>= f) where
  machine m := by
    rw [bind_run, hx.run m]
    cases (x m).1 with
    | error s => rfl
    | ok a => exact (hf a).machine m
  heap m m' hm := by
    rw [bind_run, bind_run, hx.run m, hx.run m', hx.heap m m' hm]
    cases (x m).1 with
    | error s => rfl
    | ok a => exact (hf a).heap m m' hm
  stop m s hs := by
    rw [bind_run, hx.run m] at hs
    cases hr : (x m).1 with
    | error t =>
      rw [hr] at hs
      obtain rfl := Except.error.inj hs
      exact hx.stop m t hr
    | ok a =>
      rw [hr] at hs
      exact (hf a).stop m s hs

instance (a : α) : Reads pos (pure a : Eval α) :=
  ⟨fun _ => rfl, fun _ _ _ => rfl, by rintro _ _ ⟨⟩⟩

instance {x : Eval α} {f : α → β} [Reads pos x] : Reads pos (f <$> x) := by
  rw [map_eq_pure_bind]
  infer_instance

instance : Reads pos (throw (Stop.exhausted none) : Eval α) :=
  ⟨fun _ => rfl, fun _ _ _ => rfl, by rintro _ _ ⟨⟩; exact .inr rfl⟩

instance (ctx : Context) (c : Cause) : Reads pos (fail ctx pos c : Eval α) :=
  ⟨fun _ => rfl, fun _ _ _ => rfl, by rintro _ _ ⟨⟩; exact .inl ⟨_, _, rfl⟩⟩

instance (f : Heap → α) : Reads pos (onHeap f) :=
  ⟨fun _ => rfl, fun m m' hm => congrArg (fun h => Except.ok (f h)) hm, by rintro _ _ ⟨⟩⟩

instance {c : Prop} [Decidable c] {x y : Eval α} [Reads pos x] [Reads pos y] :
    Reads pos (if c then x else y) := by
  split <;> infer_instance

/-- To read passes from the steps to what is put together from them. -/
theorem reads_inspects : Inspects (Reads pos) where
  pure _ := inferInstance
  exhausted := inferInstance
  onHeap _ := inferInstance
  bind _ _ := inferInstance

instance Reads.mapM {f : α → Eval β} [hf : ∀ a, Reads pos (f a)] (xs : List α) :
    Reads pos (xs.mapM f) := reads_inspects.mapM hf xs

end Eval

/-! ### Twins -/

/-- How a second run may differ from the first. -/
structure Twin where
  /-- Whether the same calls are active. -/
  aligned : Prop
  /-- Whether the same place is in focus. -/
  focused : Prop
  /-- How the effects of the two runs are related. -/
  effects : Array Effect → Array Effect → Prop
  /-- Whether it may be that no rule and no operator has fired yet. -/
  idle : Prop

namespace Twin

variable (T : Twin)

/-- Two runs that do not differ. -/
def same : Twin := ⟨True, True, (· = ·), True⟩

/-- Two runs that differ in no more than the place in focus. -/
def unfocused : Twin := ⟨True, False, (· = ·), True⟩

/-- The two runs once something has fired. -/
def started : Twin := { T with idle := False }

/-- Something has fired. -/
class Started : Prop where
  not_idle : ¬T.idle

instance : T.started.Started := ⟨id⟩

/-- What `print` shows is shown in both runs. -/
def Echoes : Prop :=
  ∀ E E' text, T.effects E E' → T.effects (E.push (.printed text)) (E'.push (.printed text))

theorem same_echoes : same.Echoes := by
  rintro E _ text rfl
  rfl

theorem unfocused_echoes : unfocused.Echoes := by
  rintro E _ text rfl
  rfl

/-- The machines of two runs. -/
structure Beside (m m' : Machine) : Prop where
  heap : m'.heap = m.heap
  hosts : m'.hosts = m.hosts
  seed : m'.seed = m.seed
  calls : T.aligned → m'.calls = m.calls
  focus : T.focused → m'.focus = m.focus
  effects : T.effects m.effects m'.effects
  idle : m.focus = none → T.idle

/-- The stops of two runs. -/
structure Stops (s s' : Stop) : Prop where
  untraced : s'.untraced = s.untraced
  aligned : T.aligned → s' = s

variable {T}

theorem Beside.refl (m : Machine) : same.Beside m m :=
  ⟨rfl, rfl, rfl, fun _ => rfl, fun _ => rfl, rfl, fun _ => trivial⟩

theorem Beside.fired [hT : T.Started] {m m' : Machine} (h : T.Beside m m') : m.focus ≠ none :=
  fun hfocus => hT.not_idle (h.idle hfocus)

theorem Beside.of_started {m m' : Machine} (h : T.started.Beside m m') : T.Beside m m' :=
  ⟨h.heap, h.hosts, h.seed, h.calls, h.focus, h.effects, fun hfocus => (h.idle hfocus).elim⟩

theorem Stops.refl (s : Stop) : T.Stops s s := ⟨rfl, fun _ => rfl⟩

theorem Beside.onHeap {m m' : Machine} (h : T.Beside m m') (f : Heap → Heap) :
    T.Beside { m with heap := f m.heap } { m' with heap := f m'.heap } :=
  ⟨congrArg f h.heap, h.hosts, h.seed, h.calls, h.focus, h.effects, h.idle⟩

end Twin

/-! ### Keeping to a realm -/

namespace Realm

variable {α β : Type}

section Judgement

variable (R : Realm) (T : Twin)

/-- How two runs end that keep to a realm. -/
inductive Ends (post : α → Prop) : Except Stop α × Machine → Except Stop α × Machine → Prop
  | value {a : α} {m m' : Machine} (hm : R.Holds m) (hb : T.Beside m m') (ha : post a) :
    Ends post (.ok a, m) (.ok a, m')
  | stop {s s' : Stop} {m m' : Machine} (hm : R.Holds m) (hb : T.Beside m m') (hs : R.stop s)
    (hss : T.Stops s s') (hfired : s.untraced = .exhausted none → m.focus ≠ none) :
    Ends post (.error s, m) (.error s', m')

/-- Two computations keep to a realm side by side. -/
def Keeps (x y : Eval α) (post : α → Prop) : Prop :=
  ∀ ⦃m m' : Machine⦄, R.Holds m → T.Beside m m' → R.Ends T post (x m) (y m')

/-- A computation keeps to a realm beside itself. -/
abbrev Does (x : Eval α) (post : α → Prop) : Prop := R.Keeps T x x post

/-- A context that code may run in. -/
structure Runs (ctx : Context) : Prop where
  scope : R.scope ctx.scope
  depth : T.aligned ∨ ctx.settings.maxDepth = none

/-- Two engines keep to a realm side by side. -/
structure Engines (e e' : Engine) : Prop where
  evaluate : ∀ {ctx : Context} {ns : List Node}, R.Runs T ctx → R.terms ns →
    R.Keeps T (e.evaluate ctx ns) (e'.evaluate ctx ns) R.value
  call : ∀ {ctx : Context} {f : FunctionRef} {args : List Node} {pos : Position}, R.Runs T ctx →
    R.function f → R.terms args → R.site pos →
    R.Keeps T (e.call ctx f args pos) (e'.call ctx f args pos) R.value

end Judgement

variable {R : Realm} {T : Twin} {post : α → Prop}

theorem Runs.within {ctx : Context} (h : R.Runs T ctx) {s : ScopeRef} (hs : R.scope s)
    (source : String) : R.Runs T (ctx.within s source) := ⟨hs, h.depth⟩

theorem Holds.onHeap {m : Machine} (hm : R.Holds m) {h : Heap} (hh : R.Admits h) :
    R.Holds { m with heap := h } := ⟨hh, hm.hosts, hm.calls, hm.focus⟩

theorem fault_raisedAt {pos : Position} (hpos : R.place pos) (c : Cause) (source : String) :
    R.fault (.raisedAt c (some pos) source) := ⟨⟨pos, hpos, rfl, rfl⟩, by rintro _ ⟨⟩⟩

theorem stop_raisedAt {pos : Position} (hpos : R.place pos) {s : Stop} (hs : s.RaisedAt pos) :
    R.stop s := by
  rcases hs with ⟨c, source, rfl⟩ | rfl
  · exact fault_raisedAt hpos c source
  · exact trivial

/-- A stop notes the active calls, unless it has some noted already. -/
theorem stop_traced {s : Stop} (hs : R.stop s) {calls : List Frame} (hcalls : ∀ f ∈ calls, R.frame f) :
    R.stop (s.traced calls.reverse) := by
  cases s with
  | fault f =>
    refine ⟨hs.place, ?_⟩
    rintro _ ⟨⟩ frame hframe
    cases htrace : f.trace with
    | none =>
      rw [htrace] at hframe
      exact hcalls frame (List.mem_reverse.mp hframe)
    | some frames =>
      rw [htrace] at hframe
      exact hs.trace frames htrace frame hframe
  | internal => exact trivial
  | exhausted => exact trivial

namespace Keeps

theorem bind {Q : β → Prop} {x y : Eval β} {f g : β → Eval α} (hx : R.Keeps T x y Q)
    (hf : ∀ a, Q a → R.Keeps T (f a) (g a) post) : R.Keeps T (x >>= f) (y >>= g) post := by
  intro m m' hm hb
  have hxy := hx hm hb
  rw [Eval.bind_run, Eval.bind_run]
  generalize x m = r, y m' = r' at hxy
  cases hxy with
  | value hm hb ha => exact hf _ ha hm hb
  | stop hm hb hs hss hfired => exact .stop hm hb hs hss hfired

theorem of_eq {x y : Eval α} (hxy : x = y) (hx : R.Does T x post) : R.Keeps T x y post := hxy ▸ hx

theorem pure {a : α} (ha : post a) : R.Does T (pure a) post := fun _ _ hm hb => .value hm hb ha

theorem then_return {Q : β → Prop} {x y : Eval β} {f : β → α} (hx : R.Keeps T x y Q)
    (hf : ∀ a, Q a → post (f a)) : R.Keeps T (do return f (← x)) (do return f (← y)) post :=
  hx.bind fun a ha => pure (hf a ha)

theorem ite {c : Prop} [Decidable c] {x x' y y' : Eval α} (hx : R.Keeps T x x' post)
    (hy : R.Keeps T y y' post) : R.Keeps T (if c then x else y) (if c then x' else y') post := by
  split
  · exact hx
  · exact hy

theorem internal (e : InternalError) : R.Does T (throw (.internal e none) : Eval α) post :=
  fun _ _ hm hb => .stop hm hb trivial (.refl _) (by rintro ⟨⟩)

theorem fail {pos : Position} (hpos : R.place pos) (ctx : Context) (c : Cause) :
    R.Does T (Eval.fail ctx pos c : Eval α) post :=
  fun _ _ hm hb => .stop hm hb (fault_raisedAt hpos c _) (.refl _) (by rintro ⟨⟩)

theorem exhausted [T.Started] : R.Does T (throw (.exhausted none) : Eval α) post :=
  fun _ _ hm hb => .stop hm hb trivial (.refl _) fun _ => hb.fired

/-- Reading the heap leaves the machine as it is. -/
theorem look [T.Started] {pos : Position} (hpos : R.place pos) {x : Eval β} [hx : Eval.Reads pos x]
    {f g : β → Eval α}
    (hf : ∀ a m, R.Admits m.heap → x m = (.ok a, m) → R.Keeps T (f a) (g a) post) :
    R.Keeps T (x >>= f) (x >>= g) post := by
  intro m m' hm hb
  rw [Eval.bind_run, Eval.bind_run, hx.run m, hx.run m', hx.heap m m' hb.heap]
  cases hr : (x m).1 with
  | error s =>
    have hs := hx.stop m s hr
    exact .stop hm hb (stop_raisedAt hpos hs) (.refl s) fun _ => hb.fired
  | ok a =>
    refine hf a m hm.heap ?_ hm hb
    rw [hx.run m, hr]

theorem of_reads [T.Started] {pos : Position} (hpos : R.place pos) {x : Eval α} [Eval.Reads pos x]
    (h : ∀ a m, R.Admits m.heap → x m = (.ok a, m) → post a) : R.Does T x post := by
  have hx : R.Does T (x >>= Pure.pure) post := look hpos fun a m hm ha => pure (h a m hm ha)
  simpa only [bind_pure] using hx

/-- Reading a view of the heap. -/
theorem onHeap {get : Heap → β} {f g : β → Eval α}
    (hf : ∀ h, R.Admits h → R.Keeps T (f (get h)) (g (get h)) post) :
    R.Keeps T (Eval.onHeap get >>= f) (Eval.onHeap get >>= g) post := by
  intro m m' hm hb
  have hread := hf m.heap hm.heap hm hb
  show R.Ends T post (f (get m.heap) m) (g (get m'.heap) m')
  rwa [hb.heap]

/-! ### Changes -/

theorem modifyHeap {f : Heap → Heap} (hf : ∀ h, R.Admits h → R.Admits (f h)) :
    R.Does T (Eval.modifyHeap f) fun _ => True :=
  fun m _ hm hb => .value (hm.onHeap (hf m.heap hm.heap)) (hb.onHeap f) trivial

theorem allocate {f : Heap → α × Heap} (hf : ∀ h, R.Admits h → R.Admits (f h).2 ∧ post (f h).1) :
    R.Does T (Eval.allocate f) post := by
  intro m m' hm hb
  obtain ⟨hh, hpost⟩ := hf m.heap hm.heap
  show R.Ends T post (.ok (f m.heap).1, { m with heap := (f m.heap).2 })
    (.ok (f m'.heap).1, { m' with heap := (f m'.heap).2 })
  have hb' := hb.onHeap fun h => (f h).2
  rw [hb.heap] at hb' ⊢
  exact .value (hm.onHeap hh) hb' hpost

theorem newArray {xs : List Value} (hxs : R.values xs) : R.Does T (Eval.newArray xs) R.value :=
  then_return (Q := R.array)
    (allocate fun h hh => ⟨hh.newArray hxs, hh.freeArray ⟨h.arrays.size⟩ (Nat.le_refl _)⟩) fun _ hr => hr

theorem newDict {t : Table Value} (ht : R.table t) : R.Does T (Eval.newDict t) R.value :=
  then_return (Q := R.dict)
    (allocate fun h hh => ⟨hh.newDict ht, hh.freeDict ⟨h.dicts.size⟩ (Nat.le_refl _)⟩) fun _ hr => hr

theorem newFunction {f : Function} (hf : R.code f) : R.Does T (Eval.newFunction f) R.value :=
  then_return (Q := R.function) (allocate fun h hh =>
    ⟨hh.newFunction hf, hh.freeFunction ⟨h.functions.size⟩ (Nat.le_refl _)⟩) fun _ hr => hr

theorem newScope {p : ScopeRef} (hp : R.scope p) {t : Table Value} (ht : R.table t) :
    R.Does T (Eval.allocate (·.newScope (some p) t)) R.scope := by
  refine allocate fun h hh => ⟨hh.newScope ?_ ht, hh.freeScope ⟨h.scopes.size⟩ (Nat.le_refl _)⟩
  rintro _ ⟨⟩
  exact hp

theorem assign {s : ScopeRef} (hs : R.scope s) (name : String) {v : Value} (hv : R.value v) :
    R.Does T (Eval.modifyHeap (·.assign s name v)) fun _ => True :=
  modifyHeap fun _ hh => hh.assign hs name hv

theorem define {s : ScopeRef} (hs : R.scope s) (name : String) {v : Value} (hv : R.value v) :
    R.Does T (Eval.modifyHeap (·.define s name v)) fun _ => True :=
  modifyHeap fun _ hh => hh.define hs name hv

theorem setItems {r : ArrayRef} (hr : R.array r) {xs : List Value} (hxs : R.values xs) :
    R.Does T (Eval.modifyHeap (·.setItems r xs)) fun _ => True :=
  modifyHeap fun _ hh => hh.setItems hr hxs

theorem addItems {r : ArrayRef} (hr : R.array r) {xs : Heap → List Value}
    (hxs : ∀ h, R.Admits h → R.values (xs h)) :
    R.Does T (Eval.modifyHeap fun h => h.addItems r (xs h)) fun _ => True :=
  modifyHeap fun h hh => hh.addItems hr (hxs h hh)

theorem setDict {r : DictRef} (hr : R.dict r) {t : Heap → Table Value}
    (ht : ∀ h, R.Admits h → R.table (t h)) :
    R.Does T (Eval.modifyHeap fun h => h.setDict r (t h)) fun _ => True :=
  modifyHeap fun h hh => hh.setDict hr (ht h hh)

theorem note (ctx : Context) (line : Unit → String) :
    R.Does T (Eval.note ctx line) fun _ => True := by
  unfold Eval.note
  refine ite (fun m m' hm hb => ?_) (pure trivial)
  exact .value ⟨hm.heap, hm.hosts, hm.calls, hm.focus⟩
    ⟨hb.heap, hb.hosts, hb.seed, hb.calls, hb.focus, hb.effects, hb.idle⟩ trivial

/-- What is shown is shown in both runs. -/
theorem print (hT : T.Echoes) (text : String) :
    R.Does T (modify fun m : Machine => { m with effects := m.effects.push (.printed text) })
      fun _ => True :=
  fun _ _ hm hb => .value ⟨hm.heap, hm.hosts, hm.calls, hm.focus⟩
    ⟨hb.heap, hb.hosts, hb.seed, hb.calls, hb.focus, hT _ _ text hb.effects, hb.idle⟩ trivial

/-- What comes after something has fired, in each run; if they stay focused,
at one place. -/
theorem fire_at {pos pos' : Position} (hpos : R.place pos) (hfocus : T.focused → pos' = pos)
    (ctx : Context) (what name what' name' : String) {x y : Eval α}
    (hx : R.Keeps T.started x y post) :
    R.Keeps T (Eval.fire ctx what name pos >>= fun _ => x) (Eval.fire ctx what' name' pos' >>= fun _ => y)
      post := by
  have hfire : ∀ {m m' : Machine}, R.Holds m → T.Beside m m' → ∃ m₁ m₁',
      Eval.fire ctx what name pos m = (.ok (), m₁) ∧ Eval.fire ctx what' name' pos' m' = (.ok (), m₁') ∧
        R.Holds m₁ ∧ T.started.Beside m₁ m₁' := by
    intro m m' hm hb
    have hplace : ∀ p, some pos = some p → R.place p := by
      rintro _ ⟨⟩
      exact hpos
    unfold Eval.fire Eval.note
    cases ctx.settings.tracing <;>
      exact ⟨_, _, rfl, rfl, ⟨hm.heap, hm.hosts, hm.calls, hplace⟩, hb.heap, hb.hosts, hb.seed, hb.calls,
        fun h => congrArg some (hfocus h), hb.effects, by rintro ⟨⟩⟩
  intro m m' hm hb
  obtain ⟨m₁, m₁', hrun, hrun', hm₁, hb₁⟩ := hfire hm hb
  rw [Eval.bind_run_ok hrun, Eval.bind_run_ok hrun']
  have hxy := hx hm₁ hb₁
  generalize x m₁ = r, y m₁' = r' at hxy
  cases hxy with
  | value hm hb ha => exact .value hm hb.of_started ha
  | stop hm hb hs hss hfired => exact .stop hm hb.of_started hs ⟨hss.untraced, hss.aligned⟩ hfired

/-- What comes after something has fired. -/
theorem fire {pos : Position} (hpos : R.place pos) (ctx : Context) (what name : String)
    {x y : Eval α} (hx : R.Keeps T.started x y post) :
    R.Keeps T (Eval.fire ctx what name pos >>= fun _ => x) (Eval.fire ctx what name pos >>= fun _ => y)
      post :=
  fire_at hpos (fun _ => rfl) ctx what name what name hx

/-! ### Lists -/

theorem mapM {f g : β → Eval α} : ∀ {xs : List β}, (∀ x ∈ xs, R.Keeps T (f x) (g x) post) →
    R.Keeps T (xs.mapM f) (xs.mapM g) fun ys => ∀ y ∈ ys, post y
  | [], _ => by
    rw [List.mapM_nil, List.mapM_nil]
    exact pure (by rintro _ ⟨⟩)
  | x :: xs, hxs => by
    obtain ⟨hx, hrest⟩ := List.forall_mem_cons.mp hxs
    rw [List.mapM_cons, List.mapM_cons]
    refine hx.bind fun y hy => (mapM hrest).then_return fun ys hys => ?_
    exact List.forall_mem_cons.mpr ⟨hy, hys⟩

theorem forM {f : β → Eval PUnit} : ∀ {xs : List β}, (∀ x ∈ xs, R.Does T (f x) fun _ => True) →
    R.Does T (xs.forM f) fun _ => True
  | [], _ => pure trivial
  | x :: xs, hxs => by
    obtain ⟨hx, hrest⟩ := List.forall_mem_cons.mp hxs
    exact hx.bind fun _ _ => forM hrest

/-! ### Around a call -/

/-- A call is entered and left; its stop notes the active calls. -/
theorem withFrame {x y : Eval α} {frame : Frame} (hframe : R.frame frame) (hx : R.Keeps T x y post) :
    R.Keeps T (Eval.withFrame frame x) (Eval.withFrame frame y) post := by
  intro m m' hm hb
  have hin : R.Holds { m with calls := frame :: m.calls } :=
    ⟨hm.heap, hm.hosts, List.forall_mem_cons.mpr ⟨hframe, hm.calls⟩, hm.focus⟩
  have hbin : T.Beside { m with calls := frame :: m.calls } { m' with calls := frame :: m'.calls } :=
    ⟨hb.heap, hb.hosts, hb.seed, fun h => congrArg (List.cons frame) (hb.calls h), hb.focus, hb.effects, hb.idle⟩
  have hout {m : Machine} (hm : R.Holds m) : R.Holds (Eval.popFrame m) :=
    ⟨hm.heap, hm.hosts, fun f hf => hm.calls f (List.mem_of_mem_tail hf), hm.focus⟩
  have hbout {m m' : Machine} (hb : T.Beside m m') : T.Beside (Eval.popFrame m) (Eval.popFrame m') :=
    ⟨hb.heap, hb.hosts, hb.seed, fun h => congrArg List.tail (hb.calls h), hb.focus, hb.effects, hb.idle⟩
  have hxy := hx hin hbin
  unfold Eval.withFrame
  generalize x _ = r, y _ = r' at hxy
  cases hxy with
  | value hm hb ha => exact .value (hout hm) (hbout hb) ha
  | @stop s s' m m' hm hb hs hss hfired =>
    refine .stop (hout hm) (hbout hb) (stop_traced hs hm.calls) ⟨?_, fun h => ?_⟩ ?_
    · rw [Stop.untraced_traced, Stop.untraced_traced, hss.untraced]
    · rw [hb.calls h, hss.aligned h]
    · rw [Stop.untraced_traced]
      exact hfired

/-- An internal error becomes a fault at the call. -/
theorem guarded {x y : Eval α} (hx : R.Keeps T x y post) {pos : Position} (hpos : R.place pos)
    (ctx : Context) : R.Keeps T (Eval.guarded ctx pos x) (Eval.guarded ctx pos y) post := by
  intro m m' hm hb
  have hxy := hx hm hb
  unfold Eval.guarded
  generalize x m = r, y m' = r' at hxy
  cases hxy with
  | value hm hb ha => exact .value hm hb ha
  | @stop s s' m m' hm hb hs hss hfired =>
    have huntraced := hss.untraced
    cases s <;> cases s' <;> first
      | cases huntraced; exact .stop hm hb (fault_raisedAt hpos _ _) (.refl _) (by rintro ⟨⟩)
      | exact .stop hm hb hs hss hfired
      | cases huntraced

end Keeps

end Realm

/-! ### Sorting -/

/-- A dialogue about values inside a realm keeps to the realm if its comparison
does, and if what comes after it does, also with a stop at hand. -/
theorem Dialogue.keeps_realm {α β γ : Type} {R : Realm} {T : Twin} {done : α → Prop}
    {halt : γ → Stop → α} {F : Comparison → Eval α} (hF : Dialogue R.value done halt F)
    {lt lt' : Comparison} {k k' : α → Eval β} {post : β → Prop}
    (hlt : ∀ {x y}, R.value x → R.value y → R.Keeps T (lt x y) (lt' x y) fun _ => True)
    (hdone : ∀ a, done a → R.Keeps T (k a) (k' a) post)
    (hhalt : ∀ c {s s' : Stop} {m m' : Machine}, R.Holds m → T.Beside m m' → R.stop s → T.Stops s s' →
      (s.untraced = .exhausted none → m.focus ≠ none) →
      R.Ends T post (k (halt c s) m) (k' (halt c s') m')) :
    R.Keeps T (F lt >>= k) (F lt' >>= k') post := by
  induction hF with
  | answer ha => simpa only [pure_bind] using hdone _ ha
  | @ask x y hx hy next c _ ih =>
    intro m m' hm hb
    have hxy := hlt hx hy hm hb
    rw [Eval.bind_run, Eval.bind_run]
    dsimp only [Eval.elseHalt]
    generalize lt x y m = r, lt' x y m' = r' at hxy
    cases hxy with
    | @value b m₁ m₁' hm hb _ =>
      have hnext := ih b hm hb
      rw [Eval.bind_run, Eval.bind_run] at hnext
      exact hnext
    | stop hm hb hs hss hfired => exact hhalt c hm hb hs hss hfired

end RuleScript
