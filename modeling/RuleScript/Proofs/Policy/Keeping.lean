/-
# Computations that keep to a policy

A computation keeps to a policy on a machine if, when the policy holds there,
it holds again when the computation ends, the heap has only grown, and what
comes out, a value or a stop, may come out (`Policy.Keeps`). The statement is
about two computations that must do the same on that machine, so that one
proof also covers an engine that observes what the other one does; mostly the
two are one.

Facts about a heap are carried from one computation to the next along
`Heap.Grows`. What only looks at the machine needs no such step: it is passed
by `Policy.Keeps.look`, and `Eval.Looks` finds it from its text.

Key definitions: `Eval.Looks`, `Policy.Keeps`, `Policy.relaxed`.
Key theorems: `Policy.Keeps.bind`, `Policy.Keeps.look`, `Policy.Keeps.mapM`,
`Policy.Keeps.guarded`, `Policy.Keeps.withFrame`.
-/
import RuleScript.Proofs.Composition
import RuleScript.Proofs.Policy.Basic

namespace RuleScript

/-! ### Computations that only look -/

/-- A fault, or an exhaustion that has left no call. -/
def Stop.IsPlain (s : Stop) : Prop := (∃ f, s = .fault f) ∨ s = .exhausted none

/-- A computation that leaves the machine as it is and converts nothing. -/
class Eval.Looks {α : Type} (x : Eval α) : Prop where
  run : ∀ m, (x m).2 = m ∧ ∀ s, (x m).1 = .error s → s.IsPlain

namespace Eval

variable {α β : Type}

instance Looks.bind {x : Eval α} {f : α → Eval β} [hx : Looks x] [hf : ∀ a, Looks (f a)] :
    Looks (x >>= f) := by
  refine ⟨fun m => ?_⟩
  obtain ⟨hm, hstop⟩ := hx.run m
  rw [bind_run]
  rcases hr : x m with ⟨s | a, m'⟩
  · rw [hr] at hm hstop
    exact ⟨hm, by rintro _ ⟨⟩; exact hstop s rfl⟩
  · rw [hr] at hm
    obtain rfl : m' = m := hm
    exact (hf a).run m'

theorem Looks.andThen {x : Eval α} {f : α → Eval β} [Looks x] (hf : ∀ a, Looks (f a)) :
    Looks (x >>= f) := Looks.bind

instance (a : α) : Looks (pure a : Eval α) := ⟨fun _ => ⟨rfl, by rintro _ ⟨⟩⟩⟩

instance {x : Eval α} {f : α → β} [Looks x] : Looks (f <$> x) := by
  rw [map_eq_pure_bind]
  infer_instance

instance : Looks (throw (Stop.exhausted none) : Eval α) :=
  ⟨fun _ => ⟨rfl, by rintro _ ⟨⟩; exact .inr rfl⟩⟩

instance (ctx : Context) (pos : Position) (c : Cause) : Looks (fail ctx pos c : Eval α) :=
  ⟨fun _ => ⟨rfl, by rintro _ ⟨⟩; exact .inl ⟨_, rfl⟩⟩⟩

instance : Looks (get : Eval Machine) := ⟨fun _ => ⟨rfl, by rintro _ ⟨⟩⟩⟩

instance (f : Heap → α) : Looks (onHeap f) := ⟨fun _ => ⟨rfl, by rintro _ ⟨⟩⟩⟩

instance {c : Prop} [Decidable c] {x y : Eval α} [Looks x] [Looks y] :
    Looks (if c then x else y) := by
  split <;> infer_instance

/-- To look passes from the steps to what is put together from them. -/
theorem looks_inspects : Inspects Looks where
  pure _ := inferInstance
  exhausted := inferInstance
  onHeap _ := inferInstance
  bind _ _ := inferInstance

instance Looks.mapM {f : α → Eval β} [hf : ∀ a, Looks (f a)] (xs : List α) : Looks (xs.mapM f) :=
  looks_inspects.mapM hf xs

end Eval

/-! ### Keeping to a policy -/

namespace Policy

variable {α β : Type}

/-- A property that lasts while the heap extends. -/
def Lasting (post : Heap → α → Prop) : Prop :=
  ∀ ⦃h h' : Heap⦄ ⦃a : α⦄, h.Extends h' → post h a → post h' a

theorem lasting_value {P : Policy} [P.Lawful] : Lasting P.value := fun _ _ _ => Lawful.value_mono

theorem lasting_values {P : Policy} [P.Lawful] : Lasting P.values :=
  fun _ _ _ hext hvs v hv => Lawful.value_mono hext (hvs v hv)

section Judgement

variable (P : Policy)

/-- How a computation ends that keeps to a policy. -/
structure Ends (m : Machine) (post : Heap → α → Prop) (r : Except Stop α × Machine) : Prop where
  holds : P.Holds r.2
  grows : m.heap.Grows P.closed P.emptying r.2.heap
  value : ∀ a, r.1 = .ok a → post r.2.heap a
  stop : ∀ s, r.1 = .error s → P.stop s

/-- Two computations do the same on a machine, and keep to a policy there;
what they return has the property `post`. -/
def Keeps (m : Machine) (x y : Eval α) (post : Heap → α → Prop) : Prop :=
  P.Holds m → y m = x m ∧ P.Ends m post (x m)

/-- A computation keeps to a policy. -/
abbrev Does (m : Machine) (x : Eval α) (post : Heap → α → Prop) : Prop := P.Keeps m x x post

end Judgement

namespace Keeps

variable {P : Policy} {m : Machine} {post : Heap → α → Prop}

theorem bind {Q : Heap → β → Prop} {x y : Eval β} {f g : β → Eval α} (hx : P.Keeps m x y Q)
    (hf : ∀ a m', m.heap.Grows P.closed P.emptying m'.heap → Q m'.heap a → P.Keeps m' (f a) (g a) post) :
    P.Keeps m (x >>= f) (y >>= g) post := by
  intro hm
  obtain ⟨hxy, hend⟩ := hx hm
  rw [Eval.bind_run, Eval.bind_run, hxy]
  rcases hr : x m with ⟨s | a, m'⟩
  · rw [hr] at hend
    exact ⟨rfl, hend.holds, hend.grows, by rintro _ ⟨⟩, by rintro _ ⟨⟩; exact hend.stop s rfl⟩
  · rw [hr] at hend
    obtain ⟨hfg, hend'⟩ := hf a m' hend.grows (hend.value a rfl) hend.holds
    exact ⟨hfg, hend'.holds, hend.grows.trans hend'.grows, hend'.value, hend'.stop⟩

theorem weaken {Q : Heap → α → Prop} {x y : Eval α} (hx : P.Keeps m x y Q)
    (h : ∀ h' a, Q h' a → post h' a) : P.Keeps m x y post := by
  intro hm
  obtain ⟨hxy, hend⟩ := hx hm
  exact ⟨hxy, hend.holds, hend.grows, fun a ha => h _ a (hend.value a ha), hend.stop⟩

theorem of_eq {x y : Eval α} (hxy : x = y) (hx : P.Does m x post) : P.Keeps m x y post := hxy ▸ hx

theorem pure {a : α} (ha : post m.heap a) : P.Does m (pure a) post :=
  fun hm => ⟨rfl, hm, .refl _, by rintro _ ⟨⟩; exact ha, by rintro _ ⟨⟩⟩

theorem then_return {Q : Heap → β → Prop} {x y : Eval β} {f : β → α} (hx : P.Keeps m x y Q)
    (hf : ∀ h a, m.heap.Grows P.closed P.emptying h → Q h a → post h (f a)) :
    P.Keeps m (do return f (← x)) (do return f (← y)) post :=
  hx.bind fun a _ hg ha => pure (hf _ a hg ha)

theorem ite {c : Prop} [Decidable c] {x x' y y' : Eval α} (hx : P.Keeps m x x' post)
    (hy : P.Keeps m y y' post) : P.Keeps m (if c then x else y) (if c then x' else y') post := by
  split
  · exact hx
  · exact hy

theorem throw {s : Stop} (hs : P.stop s) : P.Does m (throw s : Eval α) post :=
  fun hm => ⟨rfl, hm, .refl _, by rintro _ ⟨⟩, by rintro _ ⟨⟩; exact hs⟩

/-- What the policy says of the machine may be used. -/
theorem using_holds {x y : Eval α} (h : P.Holds m → P.Keeps m x y post) : P.Keeps m x y post :=
  fun hm => h hm hm

/-- The heap is changed to one that the policy admits. -/
theorem modifyHeap {f : Heap → Heap} (hadmits : P.Admits m.heap → P.Admits (f m.heap))
    (hgrows : P.Admits m.heap → m.heap.Grows P.closed P.emptying (f m.heap)) :
    P.Does m (Eval.modifyHeap f) fun _ _ => True :=
  fun hm => ⟨rfl, ⟨hadmits hm.heap, hm.hosts⟩, hgrows hm.heap, fun _ _ => trivial, by rintro _ ⟨⟩⟩

theorem allocate {f : Heap → α × Heap} (hadmits : P.Admits m.heap → P.Admits (f m.heap).2)
    (hgrows : P.Admits m.heap → m.heap.Grows P.closed P.emptying (f m.heap).2)
    (hpost : P.Admits m.heap → post (f m.heap).2 (f m.heap).1) : P.Does m (Eval.allocate f) post :=
  fun hm => ⟨rfl, ⟨hadmits hm.heap, hm.hosts⟩, hgrows hm.heap,
    by rintro _ ⟨⟩; exact hpost hm.heap, by rintro _ ⟨⟩⟩

/-- A change that touches neither the heap nor the methods of the hosts. -/
theorem aside {f : Machine → Machine} (hheap : (f m).heap = m.heap)
    (hhosts : P.Holds m → ∀ o ∈ (f m).hosts, P.host o) :
    P.Does m (modify f : Eval Unit) fun _ _ => True := by
  intro hm
  refine ⟨rfl, ⟨?_, hhosts hm⟩, ?_, fun _ _ => trivial, by rintro _ ⟨⟩⟩
  · show P.Admits (f m).heap
    rw [hheap]
    exact hm.heap
  · show m.heap.Grows P.closed P.emptying (f m).heap
    rw [hheap]
    exact .refl _

variable [P.Lawful]

theorem stop_of_isPlain {s : Stop} (hs : s.IsPlain) : P.stop s := by
  rcases hs with ⟨f, rfl⟩ | rfl
  · exact Lawful.fault f
  · exact Lawful.exhausted

theorem fail (ctx : Context) (pos : Position) (c : Cause) :
    P.Does m (Eval.fail ctx pos c : Eval α) post := throw (Lawful.fault _)

/-- Looking at the machine leaves it as it is. -/
theorem look {x : Eval β} [hx : Eval.Looks x] {f g : β → Eval α}
    (hf : ∀ a, x m = (.ok a, m) → P.Keeps m (f a) (g a) post) :
    P.Keeps m (x >>= f) (x >>= g) post := by
  intro hm
  obtain ⟨hrun, hstop⟩ := hx.run m
  rw [Eval.bind_run, Eval.bind_run]
  rcases hr : x m with ⟨s | a, m'⟩
  · rw [hr] at hrun hstop
    obtain rfl : m' = m := hrun
    exact throw (stop_of_isPlain (hstop s rfl)) hm
  · rw [hr] at hrun
    obtain rfl : m' = m := hrun
    exact hf a hr hm

theorem of_looks {x : Eval α} [Eval.Looks x] (hpost : ∀ a, x m = (.ok a, m) → post m.heap a) :
    P.Does m x post := by
  have h : P.Does m (x >>= Pure.pure) post := look fun a ha => pure (hpost a ha)
  simpa only [bind_pure] using h

omit [P.Lawful] in
/-- Reading from the heap, with what the policy says of the heap. -/
theorem onHeap {get : Heap → β} {f g : β → Eval α}
    (hf : P.Admits m.heap → P.Keeps m (f (get m.heap)) (g (get m.heap)) post) :
    P.Keeps m (Eval.onHeap get >>= f) (Eval.onHeap get >>= g) post :=
  fun hm => hf hm.heap hm

theorem newArray {xs : List Value} (hxs : P.values m.heap xs) :
    P.Does m (Eval.newArray xs) P.value := by
  refine then_return (Q := fun h r => P.value h (.array r)) (allocate ?_ ?_ ?_) fun _ _ _ hr => hr
  · exact fun hh => hh.newArray hxs
  · exact fun _ => m.heap.grows_newArray P.closed P.emptying xs
  · exact fun _ => Lawful.newArray m.heap xs

theorem newDict {t : Table Value} (ht : P.table m.heap t) : P.Does m (Eval.newDict t) P.value := by
  refine then_return (Q := fun h r => P.value h (.dict r)) (allocate ?_ ?_ ?_) fun _ _ _ hr => hr
  · exact fun hh => hh.newDict ht
  · exact fun _ => m.heap.grows_newDict P.closed P.emptying t
  · exact fun _ => Lawful.newDict m.heap t

theorem newFunction {f : Function} (hf : P.function m.heap f) :
    P.Does m (Eval.newFunction f) P.value := by
  refine then_return (Q := fun h r => P.value h (.function r)) (allocate ?_ ?_ ?_) fun _ _ _ hr => hr
  · exact fun hh => hh.newFunction hf
  · exact fun _ => m.heap.grows_newFunction P.closed P.emptying f
  · exact fun _ => Lawful.newFunction m.heap f

theorem assign {s : ScopeRef} (hs : P.scope m.heap s) (name : String) {v : Value}
    (hv : P.value m.heap v) : P.Does m (Eval.modifyHeap (·.assign s name v)) fun _ _ => True :=
  modifyHeap (fun hh => hh.assign s name hv) fun _ =>
    m.heap.grows_assign P.emptying (Lawful.not_closed hs) name v

theorem define {s : ScopeRef} (hs : P.scope m.heap s) (name : String) {v : Value}
    (hv : P.value m.heap v) : P.Does m (Eval.modifyHeap (·.define s name v)) fun _ _ => True :=
  modifyHeap (fun hh => hh.define s name hv) fun _ =>
    m.heap.grows_define P.emptying v (.inr (Lawful.not_closed hs))

theorem clearScope (hemptying : P.emptying) (s : ScopeRef) :
    P.Does m (Eval.modifyHeap (·.clearScope s)) fun _ _ => True :=
  modifyHeap (fun hh => hh.clearScope s) fun _ => m.heap.grows_clearScope hemptying s

theorem setItems (r : ArrayRef) {xs : List Value} (hxs : P.values m.heap xs) :
    P.Does m (Eval.modifyHeap (·.setItems r xs)) fun _ _ => True :=
  modifyHeap (fun hh => hh.setItems r hxs) fun _ => m.heap.grows_setItems P.closed P.emptying r xs

theorem addItems (r : ArrayRef) {xs : Heap → List Value}
    (hxs : P.Admits m.heap → P.values m.heap (xs m.heap)) :
    P.Does m (Eval.modifyHeap fun h => h.addItems r (xs h)) fun _ _ => True :=
  modifyHeap (fun hh => hh.addItems r (hxs hh)) fun _ => m.heap.grows_addItems P.closed P.emptying r _

theorem setDict (r : DictRef) {t : Heap → Table Value}
    (ht : P.Admits m.heap → P.table m.heap (t m.heap)) :
    P.Does m (Eval.modifyHeap fun h => h.setDict r (t h)) fun _ _ => True :=
  modifyHeap (fun hh => hh.setDict r (ht hh)) fun _ => m.heap.grows_setDict P.closed P.emptying r _

omit [P.Lawful] in
theorem mapM {f g : β → Eval α} (hlast : Lasting post) : ∀ {xs : List β} {m : Machine},
    (∀ x ∈ xs, ∀ m', m.heap.Grows P.closed P.emptying m'.heap → P.Keeps m' (f x) (g x) post) →
      P.Keeps m (xs.mapM f) (xs.mapM g) fun h ys => ∀ y ∈ ys, post h y
  | [], m, _ => by
    rw [List.mapM_nil, List.mapM_nil]
    exact pure (by rintro _ ⟨⟩)
  | x :: xs, m, hxs => by
    obtain ⟨hx, hrest⟩ := List.forall_mem_cons.mp hxs
    rw [List.mapM_cons, List.mapM_cons]
    refine (hx m (.refl _)).bind fun y m' hg hy => ?_
    refine then_return (mapM hlast fun x hx m'' hg' => hrest x hx m'' (hg.trans hg')) ?_
    exact fun h ys hg' hys => List.forall_mem_cons.mpr ⟨hlast hg'.extend hy, hys⟩

omit [P.Lawful] in
theorem forM {f : β → Eval PUnit} : ∀ {xs : List β} {m : Machine},
    (∀ x ∈ xs, ∀ m', m.heap.Grows P.closed P.emptying m'.heap → P.Does m' (f x) fun _ _ => True) →
      P.Does m (xs.forM f) fun _ _ => True
  | [], _, _ => pure trivial
  | x :: xs, m, hxs => by
    obtain ⟨hx, hrest⟩ := List.forall_mem_cons.mp hxs
    refine (hx m (.refl _)).bind fun _ m' hg _ => ?_
    exact forM fun x hx m'' hg' => hrest x hx m'' (hg.trans hg')

/-- A call is entered and left; its stop notes the active calls. -/
theorem withFrame {x y : Eval α} {frame : Frame}
    (hx : P.Keeps { m with calls := frame :: m.calls } x y post) :
    P.Keeps m (Eval.withFrame frame x) (Eval.withFrame frame y) post := by
  intro hm
  obtain ⟨hxy, hend⟩ := hx ⟨hm.heap, hm.hosts⟩
  unfold Eval.withFrame
  rw [hxy]
  rcases hr : x { m with calls := frame :: m.calls } with ⟨s | a, m'⟩
  · rw [hr] at hend
    refine ⟨rfl, ⟨hend.holds.heap, hend.holds.hosts⟩, hend.grows, by rintro _ ⟨⟩, ?_⟩
    rintro _ ⟨⟩
    exact Lawful.traced _ (hend.stop s rfl)
  · rw [hr] at hend
    exact ⟨rfl, ⟨hend.holds.heap, hend.holds.hosts⟩, hend.grows,
      by rintro _ ⟨⟩; exact hend.value a rfl, by rintro _ ⟨⟩⟩

end Keeps

/-! ### Inside a native operation -/

section Relaxed

variable (P : Policy)

/-- The policy inside a native operation, where an internal error may come out
as well: it becomes a fault at the call. -/
def relaxed : Policy := { P with stop := fun s => P.stop s ∨ ∃ e trace, s = .internal e trace }

instance [P.Lawful] : P.relaxed.Lawful where
  value_mono := Lawful.value_mono (P := P)
  scope_mono := Lawful.scope_mono (P := P)
  scalar := Lawful.scalar (P := P)
  newArray := Lawful.newArray (P := P)
  newDict := Lawful.newDict (P := P)
  newFunction := Lawful.newFunction (P := P)
  link := Lawful.link (P := P)
  not_closed := Lawful.not_closed (P := P)
  fault f := .inl (Lawful.fault (P := P) f)
  exhausted := .inl (Lawful.exhausted (P := P))
  traced := by
    rintro s calls (hs | ⟨e, trace, rfl⟩)
    · exact .inl (Lawful.traced (P := P) calls hs)
    · exact .inr ⟨e, _, rfl⟩
  literal hl he := .inl (Lawful.literal (P := P) hl he)
  foreign hf e := .inl (Lawful.foreign (P := P) hf e)

variable {P} {m : Machine} {post : Heap → α → Prop}

theorem relaxed_holds : P.relaxed.Holds m ↔ P.Holds m :=
  ⟨fun ⟨⟨a, b, c, d, e, f⟩, hhosts⟩ => ⟨⟨a, b, c, d, e, f⟩, hhosts⟩,
    fun ⟨⟨a, b, c, d, e, f⟩, hhosts⟩ => ⟨⟨a, b, c, d, e, f⟩, hhosts⟩⟩

theorem Keeps.relax {x y : Eval α} (hx : P.Keeps m x y post) : P.relaxed.Keeps m x y post := by
  intro hm
  obtain ⟨hxy, hend⟩ := hx (relaxed_holds.mp hm)
  exact ⟨hxy, relaxed_holds.mpr hend.holds, hend.grows, hend.value, fun s hs => .inl (hend.stop s hs)⟩

/-- What keeps to the relaxed policy keeps to the policy when it is guarded. -/
theorem Keeps.guarded [P.Lawful] {x y : Eval α} (hx : P.relaxed.Keeps m x y post) (ctx : Context)
    (pos : Position) : P.Keeps m (Eval.guarded ctx pos x) (Eval.guarded ctx pos y) post := by
  intro hm
  obtain ⟨hxy, hend⟩ := hx (relaxed_holds.mpr hm)
  unfold Eval.guarded
  rw [hxy]
  rcases hr : x m with ⟨s | a, m'⟩
  · rw [hr] at hend
    have hholds : P.Holds m' := relaxed_holds.mp hend.holds
    have hstop : P.stop s ∨ ∃ e trace, s = .internal e trace := hend.stop s rfl
    cases s with
    | internal e trace =>
      exact ⟨rfl, hholds, hend.grows, by rintro _ ⟨⟩, by rintro _ ⟨⟩; exact Lawful.fault _⟩
    | fault f =>
      exact ⟨rfl, hholds, hend.grows, by rintro _ ⟨⟩, by rintro _ ⟨⟩; exact Lawful.fault _⟩
    | exhausted trace =>
      refine ⟨rfl, hholds, hend.grows, by rintro _ ⟨⟩, ?_⟩
      rintro _ ⟨⟩
      exact hstop.resolve_right (by rintro ⟨e, t, ⟨⟩⟩)
  · rw [hr] at hend
    exact ⟨rfl, relaxed_holds.mp hend.holds, hend.grows, hend.value, by rintro _ ⟨⟩⟩

end Relaxed

end Policy

end RuleScript
