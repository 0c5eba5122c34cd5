/-
# Iteration works on a snapshot

`Array.forEach`, `Array.map` and `Array.filter` read the elements of the array
once, before the first call. Whatever the callback does to the array after
that, it is called for the first element, then for the second, and so on, each
time with the element, its position and the array itself, as far as it takes
them (`Traverses`). It is called for all of them unless a call stops, or `filter`
gets something else than a truth value; then no further call is made
(`Iterator.run_cases`).

`map` gathers what the callback gave, `filter` the elements for which it gave
true. The caller gets a new array with copies of them. They are copied after
the last call, so they are copied as they are then (`Iterator.Delivers`).

Key definitions: `Iterator`, `Site.visit`, `Traverses`, `Stopped`,
`Iterator.gathered`, `Iterator.Delivers`.
Key theorems: `Iterator.run_cases`, `receive_delivers`,
`iteration_works_on_a_snapshot`.
-/
import RuleScript.Proofs.Calls.Scoping
import RuleScript.Proofs.Library.Failure
import RuleScript.Proofs.Values.Data
import RuleScript.Proofs.Values.Delivery
import RuleScript.Proofs.Values.Results

namespace RuleScript

/-! ### The calls of an iteration -/

/-- The operations that call a function for the elements of an array. -/
inductive Iterator where
  | forEach | map | filter
deriving DecidableEq

namespace Iterator

/-- The operation of an iterator. -/
def op : Iterator → ArrayOp
  | .forEach => .forEach
  | .map => .map
  | .filter => .filter

/-- Whether the iteration goes on when the callback gave a value. -/
def accepts : Iterator → Value → Bool
  | .forEach, _ | .map, _ | .filter, .bool _ => true
  | .filter, _ => false

/-- The elements for which the callback gave true. -/
def chosen (xs vs : List Value) : List Value :=
  ((xs.zip vs).filter fun p => p.2.bool? = some true).map (·.1)

/-- What an iterator gathers, from the elements and what the callback gave for
each of them. -/
def gathered : Iterator → (xs vs : List Value) → List Value
  | .forEach, _, _ => []
  | .map, _, vs => vs
  | .filter, xs, vs => chosen xs vs

/-- What an iterator yields. -/
def product (it : Iterator) (xs vs : List Value) : Product :=
  match it with
  | .forEach => .value .null
  | .map | .filter => listProduct (it.gathered xs vs)

end Iterator

/-- The values that a callback is handed of those it is called with: as many as
it takes. -/
def Heap.handed (h : Heap) (f : FunctionRef) (values : List Value) : List Value :=
  match (h.function? f).bind (·.mostArguments?) with
  | some n => values.take n
  | none => values

/-- The call of an iteration callback for an element at a position. -/
def Site.visit (s : Site) (r : ArrayRef) (f : FunctionRef) (i : Nat) (x : Value) : Eval Value :=
  fun m => s.engine.callWithValues s.ctx f
    (m.heap.handed f [x, .number (Number.ofInt i), .array r]) s.pos m

theorem Site.invoke_iterationArgs (s : Site) (r : ArrayRef) (f : FunctionRef) (i : Nat) (x : Value) :
    s.invoke f (iterationArgs r i x) = s.visit r f i x := rfl

section Visiting

variable (it : Iterator) (s : Site) (r : ArrayRef) (f : FunctionRef)

/-- A callback was called for elements one after another, the first of them at
position `i`: from which machine, what it gave, and which machine it left. -/
inductive Traverses : Nat → List Value → Machine → List Value → Machine → Prop
  | done (i : Nat) (m : Machine) : Traverses i [] m [] m
  | next {i : Nat} {x v : Value} {xs vs : List Value} {m m₁ m₂ : Machine}
    (hcall : s.visit r f i x m = (.ok v, m₁)) (haccepts : it.accepts v = true)
    (hrest : Traverses (i + 1) xs m₁ vs m₂) : Traverses i (x :: xs) m (v :: vs) m₂

/-- A callback was called for the elements up to one of them. -/
def Reached (i : Nat) (xs : List Value) (m : Machine) (k : Nat) (x : Value) (m₁ : Machine) : Prop :=
  ∃ before after vs, xs = before ++ x :: after ∧ k = i + before.length ∧
    Traverses it s r f i before m vs m₁

/-- An iteration stopped with the call for one of the elements: the call
stopped, or it gave something that the iterator does not accept. -/
inductive Stopped (i : Nat) (xs : List Value) (m : Machine) : Stop → Machine → Prop
  | call {k : Nat} {x : Value} {m₁ m₂ : Machine} {stop : Stop}
    (hreached : Reached it s r f i xs m k x m₁) (hcall : s.visit r f k x m₁ = (.error stop, m₂)) :
    Stopped i xs m stop m₂
  | refused {k : Nat} {x v : Value} {m₁ m₂ : Machine}
    (hreached : Reached it s r f i xs m k x m₁) (hcall : s.visit r f k x m₁ = (.ok v, m₂))
    (hrefused : it.accepts v = false) :
    Stopped i xs m (.fault (.raisedAt (.expected "a boolean from the filter callback") (some s.pos)
      s.ctx.source)) m₂

variable {it s r f}

theorem Traverses.length_eq {i : Nat} {xs vs : List Value} {m m' : Machine}
    (h : Traverses it s r f i xs m vs m') : vs.length = xs.length := by
  induction h with
  | done => rfl
  | next _ _ _ ih => rw [List.length_cons, List.length_cons, ih]

/-- There is one way to call a callback for elements. -/
theorem Traverses.unique {i : Nat} {xs vs vs' : List Value} {m m' m'' : Machine}
    (h : Traverses it s r f i xs m vs m') (h' : Traverses it s r f i xs m vs' m'') :
    vs = vs' ∧ m' = m'' := by
  induction h generalizing vs' with
  | done =>
    cases h'
    exact ⟨rfl, rfl⟩
  | next hcall _ _ ih =>
    cases h' with
    | next hcall' _ hrest' =>
      cases hcall.symm.trans hcall'
      obtain ⟨rfl, rfl⟩ := ih hrest'
      exact ⟨rfl, rfl⟩

theorem Reached.first {i : Nat} {x : Value} {xs : List Value} {m : Machine} :
    Reached it s r f i (x :: xs) m i x m := ⟨[], xs, [], rfl, rfl, .done i m⟩

theorem Reached.next {i k : Nat} {x y v : Value} {xs : List Value} {m m₁ m₂ : Machine}
    (hcall : s.visit r f i x m = (.ok v, m₁)) (haccepts : it.accepts v = true)
    (h : Reached it s r f (i + 1) xs m₁ k y m₂) : Reached it s r f i (x :: xs) m k y m₂ := by
  obtain ⟨before, after, vs, rfl, rfl, hvisits⟩ := h
  refine ⟨x :: before, after, v :: vs, rfl, ?_, .next hcall haccepts hvisits⟩
  rw [List.length_cons]
  omega

theorem Stopped.next {i : Nat} {x v : Value} {xs : List Value} {m m₁ m₂ : Machine} {stop : Stop}
    (hcall : s.visit r f i x m = (.ok v, m₁)) (haccepts : it.accepts v = true)
    (h : Stopped it s r f (i + 1) xs m₁ stop m₂) : Stopped it s r f i (x :: xs) m stop m₂ := by
  cases h with
  | call hreached hstop => exact .call (hreached.next hcall haccepts) hstop
  | refused hreached hgave hrefused => exact .refused (hreached.next hcall haccepts) hgave hrefused

/-- `forEach` and `map` call the function for every element, or up to the call
that stops. -/
theorem iterate_cases (it : Iterator) (hit : ∀ v, it.accepts v = true) (i : Nat) (xs : List Value)
    (m : Machine) :
    (∃ vs m', Traverses it s r f i xs m vs m' ∧ iterate s r f i xs m = (.ok vs, m')) ∨
      ∃ stop m', Stopped it s r f i xs m stop m' ∧ iterate s r f i xs m = (.error stop, m') := by
  induction xs generalizing i m with
  | nil => exact .inl ⟨[], m, .done i m, rfl⟩
  | cons x xs ih =>
    rw [iterate, Site.invoke_iterationArgs]
    rcases hcall : s.visit r f i x m with ⟨stop | v, m₁⟩
    · rw [Eval.bind_run_error hcall]
      exact .inr ⟨stop, m₁, .call .first hcall, rfl⟩
    · rw [Eval.bind_run_ok hcall]
      rcases ih (i + 1) m₁ with ⟨vs, m', hvisits, hrun⟩ | ⟨stop, m', hstopped, hrun⟩
      · rw [Eval.bind_run_ok hrun]
        exact .inl ⟨v :: vs, m', .next hcall (hit v) hvisits, rfl⟩
      · rw [Eval.bind_run_error hrun]
        exact .inr ⟨stop, m', hstopped.next hcall (hit v), rfl⟩

/-- `filter` does so as long as it is given truth values. -/
theorem keepWhere_cases (i : Nat) (xs : List Value) (m : Machine) :
    (∃ vs m', Traverses .filter s r f i xs m vs m' ∧
        keepWhere s r f i xs m = (.ok (Iterator.chosen xs vs), m')) ∨
      ∃ stop m', Stopped .filter s r f i xs m stop m' ∧
        keepWhere s r f i xs m = (.error stop, m') := by
  induction xs generalizing i m with
  | nil => exact .inl ⟨[], m, .done i m, rfl⟩
  | cons x xs ih =>
    rw [keepWhere, Site.invoke_iterationArgs]
    rcases hcall : s.visit r f i x m with ⟨stop | v, m₁⟩
    · rw [Eval.bind_run_error hcall]
      exact .inr ⟨stop, m₁, .call .first hcall, rfl⟩
    · rw [Eval.bind_run_ok hcall]
      cases v with
      | bool keep =>
        rcases ih (i + 1) m₁ with ⟨vs, m', hvisits, hrun⟩ | ⟨stop, m', hstopped, hrun⟩
        · refine .inl ⟨.bool keep :: vs, m', .next hcall rfl hvisits, ?_⟩
          dsimp only
          rw [Eval.bind_run_ok hrun]
          cases keep <;> rfl
        · refine .inr ⟨stop, m', hstopped.next hcall rfl, ?_⟩
          dsimp only
          rw [Eval.bind_run_error hrun]
      | absent | null | number | string | array | dict | function =>
        exact .inr ⟨_, m₁, .refused .first hcall rfl, rfl⟩

/-- What is made of the result does not matter for how a computation goes. -/
theorem cases_then_return {x : Eval (List Value)} {m : Machine} {visited : List Value → Machine → Prop}
    {stopped : Stop → Machine → Prop} {result : List Value → List Value}
    (h : (∃ vs m', visited vs m' ∧ x m = (.ok (result vs), m')) ∨
      ∃ stop m', stopped stop m' ∧ x m = (.error stop, m')) (p : List Value → Product) :
    (∃ vs m', visited vs m' ∧ (do return p (← x) : Eval Product) m = (.ok (p (result vs)), m')) ∨
      ∃ stop m', stopped stop m' ∧ (do return p (← x) : Eval Product) m = (.error stop, m') := by
  rcases h with ⟨vs, m', hvisited, hrun⟩ | ⟨stop, m', hstopped, hrun⟩
  · exact .inl ⟨vs, m', hvisited, Eval.bind_run_ok hrun _⟩
  · exact .inr ⟨stop, m', hstopped, Eval.bind_run_error hrun _⟩

/-- **An iterator calls the function for every element of the snapshot**, and
yields what it gathers; or it stops with one of the calls, and makes no other
call after it. -/
theorem Iterator.run_cases (it : Iterator) (m : Machine) :
    (∃ vs m', Traverses it s r f 0 (m.heap.items r) m vs m' ∧
        it.op.run s [.array r, .function f] m = (.ok (it.product (m.heap.items r) vs), m')) ∨
      ∃ stop m', Stopped it s r f 0 (m.heap.items r) m stop m' ∧
        it.op.run s [.array r, .function f] m = (.error stop, m') := by
  cases it with
  | forEach =>
    exact cases_then_return (iterate_cases .forEach (fun _ => rfl) 0 (m.heap.items r) m)
      fun _ => .value .null
  | map => exact cases_then_return (iterate_cases .map (fun _ => rfl) 0 (m.heap.items r) m) listProduct
  | filter => exact cases_then_return (keepWhere_cases 0 (m.heap.items r) m) listProduct

end Visiting

/-! ### What the caller gets -/

/-- What the caller of an iterator gets, from the elements, what the callback
gave for them, and the machine that the last call left: null, or a new array
with copies of what was gathered if so many frames are enough for each of them,
and no array if not. If none of them is cyclic, there is no other reason. -/
inductive Iterator.Delivers (it : Iterator) (frames : Nat) (xs vs : List Value) (m : Machine) :
    Except Stop Value × Machine → Prop
  | nothing (hit : it = .forEach) : Delivers it frames xs vs m (.ok .null, m)
  | copies (hit : it ≠ .forEach)
    (henough : ∀ v ∈ it.gathered xs vs, v.copiable m.heap frames = true)
    {a : ArrayRef} {h : Heap} (hadds : m.heap.Adds h) (hnew : m.heap.arrays.size ≤ a.index)
    (hcopied : List.Forall₂ (Copied m.heap h) (it.gathered xs vs) (h.items a)) :
    Delivers it frames xs vs m (.ok (.array a), { m with heap := h })
  | tooDeep (hit : it ≠ .forEach)
    (hdeep : ∃ v ∈ it.gathered xs vs, v.copiable m.heap frames = false)
    {stop : Stop} {h : Heap} (hadds : m.heap.Adds h)
    (hstop : (∀ v ∈ it.gathered xs vs, ∃ deep, v.copiable m.heap deep = true) →
      stop = .exhausted none) : Delivers it frames xs vs m (.error stop, { m with heap := h })

theorem receive_delivers {it : Iterator} {s : Site} {host : Option (Nat × Host)} {xs vs : List Value}
    {m : Machine} (hm : m.heap.WellFormed) (hp : (it.product xs vs).MadeOf m.heap.Allocated True) :
    it.Delivers s.elementFrames xs vs m (s.receive host (it.product xs vs) m) := by
  have hlist (hit : it ≠ .forEach) (hlist : it.product xs vs = listProduct (it.gathered xs vs)) :
      it.Delivers s.elementFrames xs vs m (s.receive host (it.product xs vs) m) := by
    rw [hlist] at hp ⊢
    have hgathered : ∀ v ∈ it.gathered xs vs, m.heap.Allocated v := by
      intro v hv
      cases hp with
      | sequence hall =>
        cases hall (.value v) (List.mem_map_of_mem hv) with
        | value hv => exact hv
    have hhands := receive_handsArray s host hm (.refl _) hgathered
    generalize s.receive host (listProduct (it.gathered xs vs)) m = result at hhands
    cases hhands with
    | copies henough hcopies =>
      exact .copies hit henough hcopies.adds hcopies.fresh hcopies.copied
    | tooDeep hdeep hadds hstop => exact .tooDeep hit hdeep hadds fun hends => hstop (.ends hends)
  cases it with
  | forEach => exact .nothing rfl
  | map => exact hlist (by decide) rfl
  | filter => exact hlist (by decide) rfl

/-- **Iteration works on a snapshot.** `Array.forEach`, `Array.map` and
`Array.filter` call their callback for the elements that the array had when
they were called, one after another. Each time it gets the element, the
position and the array, as far as it takes them. Either it is called for all
of them, and then the caller gets null, copies of what the callback gave, or
copies of the elements for which it gave true, as far as the host has frames
for the copies; or one of the calls stops, or gives `filter` no truth value, and
then no other call is made. -/
theorem iteration_works_on_a_snapshot (it : Iterator) (n : Nat) (ctx : Context) (pos : Position)
    (f : NativeFunction) (hf : f.operation = .array it.op) (r : ArrayRef) (g : FunctionRef) (m : Machine)
    (hready : CallReady ctx f [.array r, .function g] m) :
    let s : Site := ⟨Engine.level n, ctx, pos⟩
    let xs := m.heap.items r
    let result := callNative s f [.array r, .function g] m
    (∃ vs m', Traverses it s r g 0 xs m vs m' ∧ vs.length = xs.length ∧
        it.Delivers s.elementFrames xs vs m' result) ∨
      ∃ stop m', Stopped it s r g 0 xs m stop m' ∧ ∃ stop', result = (.error stop', m') := by
  intro s xs result
  have hop : f.operation.run s [.array r, .function g] = it.op.run s [.array r, .function g] := by
    rw [hf]
    rfl
  rcases it.run_cases (s := s) (r := r) (f := g) m with
    ⟨vs, m', hvisits, hrun⟩ | ⟨stop, m', hstopped, hrun⟩
  · rw [← hop] at hrun
    obtain ⟨hheap, hproduct⟩ := product_sound hready (guarded_ok hrun)
    have hresult : result = s.receive (f.operation.host? m') (it.product xs vs) m' :=
      callNative_of_ok hready.arity hrun
    refine .inl ⟨vs, m', hvisits, hvisits.length_eq, ?_⟩
    rw [hresult]
    exact receive_delivers hheap hproduct
  · rw [← hop] at hrun
    exact .inr ⟨stop, m', hstopped, callNative_of_error s _ hready.arity hrun⟩

section Examples

/-- A context with one scope and no limits. -/
def plainContext : Context := ⟨⟨0⟩, "", ⟨none, "", false, .usual⟩⟩

/-- The native `Array.map`. -/
def mapNative : NativeFunction := ⟨.array .map, "map", .exactly 2, none, none⟩

/-- An array `a` that holds itself, `b` and itself again, where `b` is `[true]`; and the
native `Array.clear`. -/
def clearedOnTheWay : Machine := { Machine.ofArrays
    [[.array ⟨0⟩, .array ⟨1⟩, .array ⟨0⟩], [.bool true]] with
  heap.functions := #[.native ArrayOp.clear.native] }

theorem clearedOnTheWay_wellFormed : clearedOnTheWay.heap.WellFormed where
  items r v hv := by
    obtain ⟨xs, hxs, hv⟩ := Heap.mem_items_ofArrays hv
    rcases List.mem_pair.mp hxs with rfl | rfl
    · simp only [List.mem_cons, List.not_mem_nil, or_false] at hv
      rcases hv with rfl | rfl | rfl
      · exact Nat.zero_lt_two
      · exact Nat.one_lt_two
      · exact Nat.zero_lt_two
    · rw [List.mem_singleton.mp hv]
      trivial
  dict := by
    rintro r p ⟨⟩
  bindings := by
    rintro ⟨_ | i⟩ p ⟨⟩
  functions := by
    rintro ⟨_ | i⟩ f hf
    · cases hf
      trivial
    · cases hf
  inside := by
    rintro ⟨_ | i⟩ p ⟨⟩

theorem clearedOnTheWay_ready :
    CallReady plainContext mapNative [.array ⟨0⟩, .function ⟨0⟩] clearedOnTheWay := by
  refine ⟨clearedOnTheWay_wellFormed, ?_, Nat.zero_lt_one, trivial, ?_, rfl⟩
  · rintro o ⟨⟨⟩⟩
  · intro v hv
    rcases List.mem_pair.mp hv with rfl | rfl
    · exact Nat.zero_lt_two
    · exact Nat.zero_lt_one

/-- Where the array is iterated over. -/
def clearingSite : Site := ⟨Engine.level 2, plainContext, ⟨some 1, some 1, 0⟩⟩

/-- The callback gets no more than the element, and empties it. -/
theorem visit_clear {m : Machine} (hm : m.heap.function? ⟨0⟩ = some (.native ArrayOp.clear.native))
    (r q : ArrayRef) (i : Nat) : clearingSite.visit r ⟨0⟩ i (.array q) m =
      (.ok .null, { m with heap := m.heap.setItems q [] }) := by
  have hhanded : m.heap.handed ⟨0⟩ [.array q, .number (Number.ofInt i), .array r] = [.array q] := by
    unfold Heap.handed
    rw [hm]
    rfl
  have hbody : callBody (Engine.level 1) plainContext (.native ArrayOp.clear.native)
      (valueNodes clearingSite.pos [.array q]) clearingSite.pos =
        callNative ⟨Engine.level 1, plainContext, clearingSite.pos⟩ ArrayOp.clear.native [.array q] := by
    have hpresent : ∀ v ∈ [Value.array q], v ≠ .absent := List.forall_mem_singleton.mpr nofun
    show evaluateArguments _ _ _ _ >>= callNative _ _ = _
    rw [evaluateArguments_present 0 _ _ hpresent, pure_bind]
  calc clearingSite.visit r ⟨0⟩ i (.array q) m
      = callBy Eval.withFrame (Engine.level 1) plainContext ⟨0⟩ (valueNodes clearingSite.pos [.array q])
          clearingSite.pos m := by
        show (Engine.level 2).callWithValues plainContext ⟨0⟩ (m.heap.handed ⟨0⟩ _) _ m = _
        rw [hhanded]
        rfl
    _ = Eval.withFrame (callFrame plainContext (.native ArrayOp.clear.native) clearingSite.pos)
          (callNative ⟨Engine.level 1, plainContext, clearingSite.pos⟩ ArrayOp.clear.native
            [.array q]) m := by
        rw [callBy_entered _ _ hm rfl, hbody]
    _ = (.ok .null, { m with heap := m.heap.setItems q [] }) := rfl

/-- The first call of the callback clears the array, and still it is called for the
two elements behind the first. -/
theorem iteration_works_on_a_snapshot_map :
    let s := clearingSite
    let m := clearedOnTheWay
    let xs : List Value := [.array ⟨0⟩, .array ⟨1⟩, .array ⟨0⟩]
    ∃ m₁ m', s.visit ⟨0⟩ ⟨0⟩ 0 (.array ⟨0⟩) m = (.ok .null, m₁) ∧ m₁.heap.items ⟨0⟩ = [] ∧
      Traverses .map s ⟨0⟩ ⟨0⟩ 0 xs m [.null, .null, .null] m' ∧ m'.heap.items ⟨1⟩ = [] ∧
      Iterator.map.Delivers s.elementFrames xs [.null, .null, .null] m'
        (callNative s mapNative [.array ⟨0⟩, .function ⟨0⟩] m) := by
  intro s m xs
  let emptied (q : ArrayRef) (m : Machine) : Machine := { m with heap := m.heap.setItems q [] }
  let m₁ := emptied ⟨0⟩ m
  let m₂ := emptied ⟨1⟩ m₁
  let m₃ := emptied ⟨0⟩ m₂
  have hfirst : s.visit ⟨0⟩ ⟨0⟩ 0 (.array ⟨0⟩) m = (.ok .null, m₁) := visit_clear rfl ⟨0⟩ ⟨0⟩ 0
  have hsecond : s.visit ⟨0⟩ ⟨0⟩ 1 (.array ⟨1⟩) m₁ = (.ok .null, m₂) := visit_clear rfl ⟨0⟩ ⟨1⟩ 1
  have hthird : s.visit ⟨0⟩ ⟨0⟩ 2 (.array ⟨0⟩) m₂ = (.ok .null, m₃) := visit_clear rfl ⟨0⟩ ⟨0⟩ 2
  have htraverses : Traverses .map s ⟨0⟩ ⟨0⟩ 0 xs m [.null, .null, .null] m₃ :=
    .next hfirst rfl (.next hsecond rfl (.next hthird rfl (.done 3 m₃)))
  rcases iteration_works_on_a_snapshot .map 2 plainContext s.pos mapNative rfl ⟨0⟩ ⟨0⟩ m
    clearedOnTheWay_ready with ⟨vs, m', hvisits, -, hdelivers⟩ | ⟨stop, m', -, stop', hresult⟩
  · obtain ⟨rfl, rfl⟩ := htraverses.unique hvisits
    exact ⟨m₁, m₃, hfirst, rfl, htraverses, rfl, hdelivers⟩
  · have hreturns : (callNative s mapNative [.array ⟨0⟩, .function ⟨0⟩] m).1.isOk = true := by
      decide +kernel
    rw [show callNative s mapNative [.array ⟨0⟩, .function ⟨0⟩] m = _ from hresult] at hreturns
    cases hreturns

/-- The native `Array.filter`. -/
def filterNative : NativeFunction := ⟨.array .filter, "filter", .exactly 2, none, none⟩

/-- Arrays one inside another, and the native `boolean`. -/
def deepElement : Machine := { Machine.initial with
  heap := { nestedArrays 3001 with
    scopes := #[⟨[], none⟩]
    functions := #[.native ⟨.core .boolean, "boolean", .exactly 1, none, none⟩] } }

/-- An array that holds three thousand arrays, one inside another: the callback
gives true, and there is no cycle, but the caller gets nothing. -/
theorem deep_elements_are_not_filtered :
    let s : Site := ⟨Engine.level 2, plainContext, ⟨some 1, some 1, 0⟩⟩
    deepElement.heap.items ⟨3001⟩ = [.array ⟨3000⟩] ∧
      (∃ frames, (Value.array ⟨3000⟩).copiable deepElement.heap frames = true) ∧
      (∃ m', Traverses .filter s ⟨3001⟩ ⟨0⟩ 0 [.array ⟨3000⟩] deepElement [.bool true] m') ∧
      ∃ m', callNative s filterNative [.array ⟨3001⟩, .function ⟨0⟩] deepElement =
        (.error (.exhausted none), m') := by
  intro s
  have harrays : deepElement.heap.arrays = (nestedArrays 3001).arrays := rfl
  have hitems : deepElement.heap.items ⟨3001⟩ = [.array ⟨3000⟩] :=
    items_of_nestedArrays harrays (Nat.le_refl 3001)
  have hcall : s.visit ⟨3001⟩ ⟨0⟩ 0 (.array ⟨3000⟩) deepElement = (.ok (.bool true), deepElement) := rfl
  have hkept : keepWhere s ⟨3001⟩ ⟨0⟩ 0 [.array ⟨3000⟩] deepElement =
      (.ok [.array ⟨3000⟩], deepElement) := by
    rw [keepWhere, Site.invoke_iterationArgs, Eval.bind_run_ok hcall]
    rfl
  have hfilter (m : Machine) : ArrayOp.run s [.array ⟨3001⟩, .function ⟨0⟩] .filter m =
      (do return listProduct (← keepWhere s ⟨3001⟩ ⟨0⟩ 0 (m.heap.items ⟨3001⟩)) : Eval Product) m := rfl
  have hrun : filterNative.operation.run s [.array ⟨3001⟩, .function ⟨0⟩] deepElement =
      (.ok (listProduct [.array ⟨3000⟩]), deepElement) := by
    refine (hfilter deepElement).trans ?_
    rw [hitems, Eval.bind_run_ok hkept]
    rfl
  have hcopy : s.copyValue s.elementFrames (.array ⟨3000⟩) deepElement =
      (.error (.exhausted none), deepElement) :=
    copyValue_nestedArrays s harrays (by decide) (by decide)
  refine ⟨hitems, ⟨_, nestedArrays_copiable harrays (by decide)⟩,
    ⟨deepElement, .next hcall rfl (.done 1 deepElement)⟩, deepElement, ?_⟩
  rw [callNative_of_ok rfl hrun, receive_listProduct_eq, List.mapM_cons, bind_assoc,
    Eval.bind_run_error hcopy]

end Examples

end RuleScript
