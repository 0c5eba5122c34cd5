/-
# The standard library keeps to a policy

Native operations move values around: they take them from their arguments,
from the heap and from the functions that they call, and hand them back or
store them. None of them makes a value of its own but scalars, fresh arrays,
dicts and functions. So every operation keeps to every lawful policy, provided
that the engine it calls back into does (`Policy.Obeys`), and so does a native
call with the conversion of its result.

An operation may convert an integer that is too large; inside an operation
that is tolerated (`Policy.Tolerant`), since the call turns it into a fault.

Key definitions: `Policy.Obeys`, `Policy.Tolerant`.
Key theorems: `Site.copyValue_does`, `Site.receive_does`, `sortArray_keeps`,
`Operation.run_keeps`, `Disguise.callNative_keeps`.
-/
import RuleScript.Proofs.Calls.Coupling
import RuleScript.Proofs.Calls.Disguise
import RuleScript.Proofs.Policy.Keeping

namespace RuleScript

open Eval (Looks)
open Policy

/-! ### Engines -/

/-- Two engines do the same and keep to a policy, wherever code may run. -/
structure Policy.Obeys (P : Policy) (e e' : Engine) : Prop where
  evaluate : ∀ {m : Machine} {ctx : Context} {b : List Node}, P.scope m.heap ctx.scope →
    P.Buffer m.heap b → P.Keeps m (e.evaluate ctx b) (e'.evaluate ctx b) P.result
  call : ∀ {m : Machine} {ctx : Context} (f : FunctionRef) {args : List Node},
    P.scope m.heap ctx.scope → P.nodes m.heap args →
    ∀ pos, P.Keeps m (e.call ctx f args pos) (e'.call ctx f args pos) P.value

/-- Every internal error may come out. -/
class Policy.Tolerant (P : Policy) : Prop where
  internal : ∀ e trace, P.stop (.internal e trace)

instance (P : Policy) : P.relaxed.Tolerant := ⟨fun e trace => .inr ⟨e, trace, rfl⟩⟩

theorem Policy.Obeys.relax {P : Policy} {e e' : Engine} (he : P.Obeys e e') : P.relaxed.Obeys e e' where
  evaluate hs hb := by
    refine (he.evaluate hs ?_).relax
    induction hb with
    | nil => exact .nil
    | absent pos => exact .absent pos
    | cons hn _ ih => exact .cons hn ih
  call f _ hs hargs pos := (he.call f hs hargs pos).relax

/-! ### Operations that look -/

namespace Site

variable (s : Site)

instance {α : Type} (c : Cause) : Looks (s.fail c : Eval α) :=
  inferInstanceAs (Looks (Eval.fail s.ctx s.pos c))

instance (what : String) (v : Value) : Looks (s.number what v) := by
  unfold number; split <;> infer_instance

instance (what : String) (v : Value) : Looks (s.string what v) := by
  unfold string; split <;> infer_instance

instance (what : String) (v : Value) : Looks (s.bool what v) := by
  unfold bool; split <;> infer_instance

instance (what : String) (v : Value) : Looks (s.array what v) := by
  unfold array; split <;> infer_instance

instance (what : String) (v : Value) : Looks (s.dict what v) := by
  unfold dict; split <;> infer_instance

instance (what : String) (v : Value) : Looks (s.function what v) := by
  unfold function; split <;> infer_instance

instance (what : String) (v : Option Value) : Looks (s.number? what v) := by
  unfold number?; split <;> infer_instance

instance (r : ArrayRef) : Looks (items r) := inferInstanceAs (Looks (Eval.onHeap _))

variable {s}

theorem array_eq {what : String} {v : Value} {m m' : Machine} {r : ArrayRef}
    (h : s.array what v m = (.ok r, m')) : v = .array r := by
  cases v <;> cases h
  rfl

theorem dict_eq {what : String} {v : Value} {m m' : Machine} {r : DictRef}
    (h : s.dict what v m = (.ok r, m')) : v = .dict r := by
  cases v <;> cases h
  rfl

theorem function_eq {what : String} {v : Value} {m m' : Machine} {f : FunctionRef}
    (h : s.function what v m = (.ok f, m')) : v = .function f := by
  cases v <;> cases h
  rfl

end Site

instance (s : Site) (index : Float) (size : Nat) (allowEnd : Bool) :
    Looks (elementIndex s index size allowEnd) :=
  elementIndex_of_inspects Eval.looks_inspects s (fun _ => inferInstance) index size allowEnd

instance (s : Site) : Looks (loopLimit s) :=
  loopLimit_of_inspects Eval.looks_inspects s fun _ => inferInstance

instance (s : Site) (v : Option Value) : Looks (indentArgument s v) :=
  indentArgument_of_inspects Eval.looks_inspects s (fun _ => inferInstance) v

/-! ### Products -/

namespace Policy

variable {P : Policy} {h : Heap}

theorem product_value {v : Value} (hv : P.value h v) : P.product h (.value v) := .value (.inr hv)

theorem product_scalar [P.Lawful] {v : Value} (hv : v.IsScalar) : P.product h (.value v) :=
  .value (result_scalar hv)

/-- A sequence of values, each made from an element of a list. -/
theorem product_map {β : Type} {f : β → Value} {xs : List β} (hf : ∀ x ∈ xs, P.value h (f x)) :
    P.product h (.sequence (xs.map fun x => .value (f x))) := by
  refine .sequence fun p hp => ?_
  obtain ⟨x, hx, rfl⟩ := List.mem_map.mp hp
  exact product_value (hf x hx)

theorem product_table {t : Table Value} (ht : P.table h t) : P.product h (tableProduct t) := by
  refine .mapping fun p hp => ?_
  obtain ⟨q, hq, rfl⟩ := List.mem_map.mp hp
  exact product_value (ht q hq)

theorem values_entries {t : Table Value} (ht : P.table h t) : P.values h t.entries := by
  intro v hv
  obtain ⟨p, hp, rfl⟩ := List.mem_map.mp hv
  exact ht p hp

end Policy

/-! ### Results -/

section Results

variable {P : Policy} [P.Lawful] (s : Site)

namespace Site

/-- A copy of a value that may be stored may be stored. -/
theorem copyValue_does : ∀ (frames : Nat) {m : Machine} {v : Value}, P.result m.heap v →
    P.Does m (s.copyValue frames v) P.value
  | 0, _, _, _ => .throw Lawful.exhausted
  | frames + 1, m, v, hv => by
    cases v
    case absent => exact .fail _ _ _
    case array r =>
      match frames with
      | 0 => exact .throw Lawful.exhausted
      | frames + 1 =>
        refine .onHeap fun hh => Keeps.bind (.mapM (lasting_value (P := P)) ?_)
          fun _ _ _ hvs => .newArray hvs
        exact fun x hx m' hg => copyValue_does frames (.inr (hg.value (hh.items r x hx)))
    case dict r =>
      refine .onHeap fun hh => ?_
      refine Keeps.bind (Q := fun h t => ∀ p ∈ t, P.value h p.2) (.mapM ?_ ?_) ?_
      · exact fun _ _ _ hext hp => Lawful.value_mono hext hp
      · intro p hp m' hg
        exact (copyValue_does frames (.inr (hg.value (hh.dict r p hp)))).then_return
          fun _ _ _ hv => hv
      · exact fun _ _ _ ht => .newDict ht
    all_goals exact .pure (hv.resolve_left (by rintro ⟨⟩))

mutual

theorem receiveInside_does (host : Option (Nat × Host)) : ∀ (frames : Nat) (p : Product)
    {m : Machine}, P.product m.heap p → P.Does m (s.receiveInside host frames p) P.value
  | frames, .value v, m, hp => by
    rw [receiveInside]
    cases hp with
    | value hv => exact s.copyValue_does frames hv
  | 0, .integer _, _, _ | 0, .sequence _, _, _ | 0, .mapping _, _, _ | 0, .foreign _, _, _
  | 0, .method _, _, _ | 1, .sequence _, _, _ => .throw Lawful.exhausted
  | _ + 1, .integer n, m, hp => by
    unfold receiveInside
    cases hp with
    | integer _ hforeign =>
      split
      · exact .pure (Lawful.scalar trivial)
      · exact .throw (Lawful.foreign hforeign _)
  | frames + 2, .sequence ps, m, hp => by
    unfold receiveInside
    cases hp with
    | sequence hps => exact (receiveAll_does host frames ps hps).bind fun _ _ _ hvs => .newArray hvs
  | frames + 1, .mapping es, m, hp => by
    unfold receiveInside
    cases hp with
    | mapping hes => exact (receiveEntries_does host frames es hes).bind fun _ _ _ ht => .newDict ht
  | _ + 1, .foreign c, m, hp => by
    unfold receiveInside
    exact .fail _ _ _
  | _ + 1, .method k, m, hp => by
    unfold receiveInside
    cases hp with
    | method _ hforeign =>
      split
      · exact .newFunction hforeign
      · exact .pure null

theorem receiveAll_does (host : Option (Nat × Host)) (frames : Nat) : ∀ (ps : List Product)
    {m : Machine}, (∀ p ∈ ps, P.product m.heap p) → P.Does m (s.receiveAll host frames ps) P.values
  | [], m, _ => by
    unfold receiveAll
    exact .pure values_nil
  | p :: ps, m, hps => by
    obtain ⟨hp, hrest⟩ := List.forall_mem_cons.mp hps
    unfold receiveAll
    refine (receiveInside_does host frames p hp).bind fun v m' hg hv => ?_
    refine (receiveAll_does host frames ps fun q hq => hg.product (hrest q hq)).then_return ?_
    exact fun _ _ hg' hvs => values_cons (hg'.value hv) hvs

theorem receiveEntries_does (host : Option (Nat × Host)) (frames : Nat) :
    ∀ (es : List (ProductKey × Product)) {m : Machine},
    (∀ e ∈ es, P.product m.heap e.2) → P.Does m (s.receiveEntries host frames es) P.table
  | [], m, _ => by
    unfold receiveEntries
    exact .pure table_nil
  | (.other, _) :: es, m, _ => by
    unfold receiveEntries
    exact .fail _ _ _
  | (.text k, p) :: es, m, hes => by
    obtain ⟨hp, hrest⟩ := List.forall_mem_cons.mp hes
    unfold receiveEntries
    refine (receiveInside_does host frames p hp).bind fun v m' hg hv => ?_
    refine (receiveEntries_does host frames es fun q hq => hg.product (hrest q hq)).then_return ?_
    exact fun _ _ hg' ht => List.forall_mem_cons.mpr ⟨hg'.value hv, ht⟩

end

/-- What a native call gives may be stored. -/
theorem receive_does (host : Option (Nat × Host)) {p : Product} {m : Machine}
    (hp : P.product m.heap p) : P.Does m (s.receive host p) P.value := by
  unfold receive
  split
  · exact .pure null
  · exact s.receiveInside_does host _ _ hp

end Site

end Results

/-! ### Operations that call nothing -/

open Site (items)

section Local

variable {P : Policy} [P.Lawful] {m : Machine} (s : Site) {args : List Value}

theorem flatten_does : ∀ (frames : Nat) (level : Float) {m : Machine} {xs : List Value},
    P.values m.heap xs → P.Does m (flatten frames level xs) P.values
  | 0, _, _, _, _ => .throw Lawful.exhausted
  | frames + 1, level, m, xs, hxs => by
    refine Keeps.then_return (.mapM (lasting_values (P := P)) ?_) fun h parts _ hparts => ?_
    · intro x hx m' hg
      have hself : P.values m'.heap [x] := values_cons (hg.value (hxs x hx)) values_nil
      split
      · exact .ite (.onHeap fun hh => flatten_does frames _ (hh.items _)) (.pure hself)
      · exact .pure hself
    · exact fun v hv => by
        obtain ⟨part, hpart, hv⟩ := List.mem_flatten.mp hv
        exact hparts part hpart v hv

theorem createArray_does (hargs : P.values m.heap args) :
    P.Does m (createArray s args) P.product := by
  unfold createArray
  split
  · exact .pure (.sequence (by rintro _ ⟨⟩))
  · rename_i first rest
    obtain ⟨-, hrest⟩ := List.forall_mem_cons.mp hargs
    refine .look fun size _ => ?_
    split
    · exact .fail _ _ _
    · refine .ite (.fail _ _ _) (.ite (.fail _ _ _) (.ite (.fail _ _ _) (.pure ?_)))
      refine product_map fun v hv => ?_
      rw [List.eq_of_mem_replicate hv]
      cases rest with
      | nil => exact null
      | cons v rest => exact hrest v List.mem_cons_self

theorem unpackArray_does (hs : P.scope m.heap s.ctx.scope) :
    P.Does m (unpackArray s args) P.product := by
  refine .look fun r _ => .look fun names _ => .look fun names _ => .look fun names _ => ?_
  have hbind : P.Does m (do
      names.zipIdx.forM fun p =>
        Eval.modifyHeap (·.assign s.ctx.scope p.1 ((m.heap.items r).getD p.2 .null))
      return .value .null : Eval Product) P.product := by
    refine .using_holds fun hm => Keeps.bind (.forM fun p _ m' hg => ?_) fun _ _ _ _ => .pure ?_
    · exact .assign (hg.scope hs) p.1 (hg.value (values_getD (hm.heap.items r) p.2))
    · exact product_scalar trivial
  split
  · exact .look fun loose _ => .onHeap fun _ => .ite (.fail _ _ _) hbind
  · exact .look fun loose _ => .onHeap fun _ => .ite (.fail _ _ _) hbind

theorem removeItems_does : P.Does m (removeItems s args) P.product := by
  refine .look fun r _ => .look fun index _ => .onHeap fun hh => .look fun start _ => ?_
  have hremove (count : Nat) : P.Does m (do
      Eval.modifyHeap (·.setItems r
        ((m.heap.items r).take start ++ (m.heap.items r).drop (start + count)))
      return .value .null : Eval Product) P.product := by
    refine Keeps.bind (.setItems r ?_) fun _ _ _ _ => .pure (product_scalar trivial)
    exact values_append (values_take (hh.items r) _) (values_drop (hh.items r) _)
  split
  · exact hremove 1
  · refine .look fun c _ => ?_
    exact .ite (.look fun count _ => hremove count) (.look fun count _ => hremove count)

/-- To keep to a policy passes to what fills templates, if scopes may be emptied
wherever initialisers have their effect. -/
theorem Site.does_fills {D : Disguise} (hD : D.initialises = true → P.emptying) :
    s.Fills D fun x => ∀ m, P.Does m x fun _ _ => True where
  pure _ _ := .pure trivial
  exhausted _ := .throw Lawful.exhausted
  onHeap _ _ := .of_looks fun _ _ => trivial
  bind hx hf m := (hx m).bind fun a m' _ _ => hf a m'
  fail _ _ := .fail _ _ _
  clearScope hinitialises r _ := .clearScope (hD hinitialises) r

theorem renderTemplate_does {D : Disguise} (hD : D.initialises = true → P.emptying) :
    P.Does m (s.renderTemplate D args) P.product := by
  have hfills := s.does_fills (P := P) hD
  refine .look fun template _ => ?_
  refine Keeps.bind (Site.templateView_of_fills hfills args[1]? m) fun view m' _ _ => ?_
  exact (Site.render_of_fills hfills template view m').then_return
    fun _ _ _ _ => product_scalar trivial

theorem printValues_does : P.Does m (printValues s args) P.product := by
  refine .look fun h _ => ?_
  refine Keeps.bind (Q := fun _ _ => True) ?_ fun _ _ _ _ => ?_
  · unfold Eval.note
    exact .ite (.aside rfl fun hm => hm.hosts) (.pure trivial)
  · exact Keeps.bind (.aside rfl fun hm => hm.hosts) fun _ _ _ _ => .pure (product_scalar trivial)

/-- A method of a host gives what the host may give. -/
theorem runMethod_does (hforeign : P.foreign) (host index : Nat) (hargs : P.values m.heap args) :
    P.Does m (runMethod s host index args) P.product := by
  refine .using_holds fun hm => ?_
  have hget {f : Machine → Eval Product} (h : P.Does m (f m) P.product) :
      P.Does m (get >>= f) P.product := h
  refine hget ?_
  split
  · exact .pure (product_scalar trivial)
  · rename_i o ho
    split
    · exact .pure (product_scalar trivial)
    · rename_i k hk
      have hhost : P.host o := hm.hosts o (Array.mem_of_getElem? ho)
      rcases hrun : k.run o.counters args with ⟨result, counters⟩
      refine Keeps.bind (.aside rfl fun hm o' ho' => ?_) fun _ m' hg _ => ?_
      · rcases Array.mem_or_eq_of_mem_setIfInBounds ho' with ho' | rfl
        · exact hm.hosts o' ho'
        · exact hhost
      · cases result with
        | error f => exact .fail _ _ _
        | ok p =>
          refine .pure (hhost hforeign k (List.mem_of_getElem? hk) o.counters args m'.heap ?_ p ?_)
          · exact hg.values hargs
          · rw [hrun]

mutual

theorem Datum.build_does [P.Tolerant] : ∀ (frames : Nat) (d : Datum) {m : Machine},
    P.Does m (d.build frames) P.value
  | 0, _, _ => by
    rw [Datum.build]
    exact .throw Lawful.exhausted
  | _ + 1, .null, _ | _ + 1, .bool _, _ | _ + 1, .number _, _ | _ + 1, .text _, _ =>
    .pure (Lawful.scalar trivial)
  | _ + 1, .integer n, m => by
    unfold Datum.build
    split
    · exact .pure (Lawful.scalar trivial)
    · exact .throw (Tolerant.internal _ _)
  | 1, .list _, _ | 1, .table _, _ => .throw Lawful.exhausted
  | frames + 2, .list ds, m => (Datum.buildAll_does frames ds).bind fun _ _ _ hvs => .newArray hvs
  | frames + 2, .table es, m =>
    (Datum.buildEntries_does frames es).bind fun _ _ _ ht => .newDict ht

theorem Datum.buildAll_does [P.Tolerant] (frames : Nat) : ∀ (ds : List Datum) {m : Machine},
    P.Does m (Datum.buildAll frames ds) P.values
  | [], _ => by
    unfold Datum.buildAll
    exact .pure values_nil
  | d :: ds, m => by
    unfold Datum.buildAll
    refine (d.build_does frames).bind fun v m' hg hv => ?_
    exact (Datum.buildAll_does frames ds).then_return
      fun _ _ hg' hvs => values_cons (hg'.value hv) hvs

theorem Datum.buildEntries_does [P.Tolerant] (frames : Nat) :
    ∀ (es : List (String × Datum)) {m : Machine},
    P.Does m (Datum.buildEntries frames es) P.table
  | [], _ => by
    unfold Datum.buildEntries
    exact .pure table_nil
  | (k, d) :: es, m => by
    unfold Datum.buildEntries
    refine (d.build_does frames).bind fun v m' hg hv => ?_
    refine (Datum.buildEntries_does frames es).then_return fun _ _ hg' ht => ?_
    exact List.forall_mem_cons.mpr ⟨hg'.value hv, ht⟩

end

theorem DataOp.run_does [P.Tolerant] (format : DataFormat) (op : DataOp) :
    P.Does m (op.run s format args) P.product := by
  cases op
  case parse =>
    refine .look fun text _ => ?_
    split
    · exact (Datum.build_does _ _).then_return fun _ _ _ hv => product_value hv
    · exact .throw Lawful.exhausted
    · exact .fail _ _ _
  case stringify =>
    refine .look fun indent _ => .look fun h _ => ?_
    split
    · exact .pure (product_scalar trivial)
    · exact .throw Lawful.exhausted
    · exact .fail _ _ _

theorem MathOp.run_does (op : MathOp) : P.Does m (op.run s args) P.product := by
  cases op
  case pow => exact .look fun base _ => .look fun exponent _ => .pure (product_scalar trivial)
  case min | max => exact .look fun xs _ => .pure (product_scalar trivial)
  case random =>
    refine Keeps.bind (.aside rfl fun hm => hm.hosts) fun _ _ _ _ => ?_
    exact .look fun _ _ => .pure (product_scalar trivial)
  case unary op => exact .look fun x _ => .pure (product_scalar trivial)

theorem StringOp.run_does (op : StringOp) (hrender : op = .render → P.emptying) :
    P.Does m (op.run s args) P.product := by
  have hscalar {v : Value} (hv : v.IsScalar) : P.Does m (pure (.value v) : Eval Product) P.product :=
    .pure (product_scalar hv)
  have htexts (parts : List (List Char)) : P.Does m (pure (textsProduct parts)) P.product :=
    .pure (product_map fun _ _ => Lawful.scalar trivial)
  cases op
  case join =>
    refine .look fun r _ => .look fun xs _ => .look fun parts _ => ?_
    split <;> exact .look fun separator _ => hscalar trivial
  case toLowerCase | toUpperCase | sizeOf | trim => exact .look fun text _ => hscalar trivial
  case slice =>
    exact .look fun text _ => .look fun start _ => .look fun finish _ => hscalar trivial
  case split =>
    refine .look fun text _ => ?_
    split
    · refine .pure (.sequence fun p hp => ?_)
      rw [List.mem_singleton.mp hp]
      exact product_scalar trivial
    · exact .look fun separator _ => .ite (htexts _) (htexts _)
  case indexOf => exact .look fun text _ => .look fun search _ => hscalar trivial
  case render => exact renderTemplate_does s fun _ => hrender rfl

omit [P.Lawful] in
theorem table_merge {h : Heap} : ∀ {ts : List (Table Value)} {t : Table Value}, P.table h t →
    (∀ u ∈ ts, P.table h u) → P.table h (ts.foldl (fun t u => t.setAll u) t)
  | [], _, ht, _ => ht
  | u :: ts, t, ht, hts => by
    obtain ⟨hu, hrest⟩ := List.forall_mem_cons.mp hts
    show P.table h (ts.foldl (fun t u => t.setAll u) (t.setAll u))
    exact table_merge (table_setAll ht hu) hrest

theorem DictOp.run_does (op : DictOp) (hargs : P.values m.heap args) :
    P.Does m (op.run s args) P.product := by
  have hnull {m : Machine} : P.Does m (pure (.value .null) : Eval Product) P.product :=
    .pure (product_scalar trivial)
  cases op
  case keys =>
    exact .look fun d _ => .onHeap fun _ => .pure (product_map fun _ _ => Lawful.scalar trivial)
  case values =>
    exact .look fun d _ => .onHeap fun hh => .pure (product_map (values_entries (hh.dict d)))
  case has =>
    exact .look fun d _ => .look fun key _ => .look fun t _ => .pure (product_scalar trivial)
  case set =>
    refine .look fun d _ => .look fun key _ => ?_
    refine Keeps.bind (.setDict d fun hh => ?_) fun _ _ _ _ => hnull
    exact table_set (hh.dict d) key (values_getD hargs 2)
  case remove =>
    refine .look fun d _ => .look fun key _ => ?_
    refine Keeps.bind (.setDict d fun hh => ?_) fun _ _ _ _ => hnull
    exact fun p hp => hh.dict d p (Table.mem_of_mem_erase hp)
  case clone =>
    exact .look fun d _ => .onHeap fun hh => .pure (product_table (hh.dict d))
  case merge =>
    refine Keeps.then_return (Q := fun h ts => ∀ t ∈ ts, P.table h t) (.mapM ?_ ?_) ?_
    · exact fun _ _ _ hext ht p hp => Lawful.value_mono hext (ht p hp)
    · exact fun v _ m' _ => .look fun d _ => .using_holds fun hm => .of_looks (by
        rintro t ⟨⟩
        exact hm.heap.dict d)
    · exact fun _ _ _ htables => product_table (table_merge table_nil htables)

end Local

/-! ### Sorting -/

/-- A dialogue about values that may be stored keeps to a policy if its
comparison does, and if what comes after it does, also with a stop at hand. -/
theorem Dialogue.keeps {α β γ : Type} {P : Policy} {V : Value → Prop} {done : α → Prop}
    {halt : γ → Stop → α} {F : Comparison → Eval α} (hF : Dialogue V done halt F)
    {lt lt' : Comparison} {k k' : α → Eval β} {post : Heap → β → Prop} {m : Machine}
    (hlt : ∀ {x y}, V x → V y → ∀ m', m.heap.Grows P.closed P.emptying m'.heap →
      P.Keeps m' (lt x y) (lt' x y) fun _ _ => True)
    (hdone : ∀ a m', m.heap.Grows P.closed P.emptying m'.heap → done a → P.Keeps m' (k a) (k' a) post)
    (hhalt : ∀ c s m', m.heap.Grows P.closed P.emptying m'.heap → P.stop s →
      P.Keeps m' (k (halt c s)) (k' (halt c s)) post) :
    P.Keeps m (F lt >>= k) (F lt' >>= k') post := by
  induction hF generalizing m with
  | answer ha => simpa only [pure_bind] using hdone _ m (.refl _) ha
  | @ask x y hx hy next c _ ih =>
    intro hm
    obtain ⟨hxy, hend⟩ := hlt hx hy m (.refl _) hm
    rw [Eval.bind_run, Eval.bind_run]
    dsimp only [Eval.elseHalt]
    rw [hxy]
    rcases hr : lt x y m with ⟨s | b, m'⟩
    · rw [hr] at hend
      obtain ⟨hk, hend'⟩ := hhalt c s m' hend.grows (hend.stop s rfl) hend.holds
      exact ⟨hk, hend'.holds, hend.grows.trans hend'.grows, hend'.value, hend'.stop⟩
    · rw [hr] at hend
      have hnext := ih b (m := m') (fun hx hy m'' hg => hlt hx hy m'' (hend.grows.trans hg))
        (fun a m'' hg => hdone a m'' (hend.grows.trans hg))
        (fun c s m'' hg => hhalt c s m'' (hend.grows.trans hg)) hend.holds
      rw [Eval.bind_run, Eval.bind_run] at hnext
      obtain ⟨hk, hend'⟩ := hnext
      exact ⟨hk, hend'.holds, hend.grows.trans hend'.grows, hend'.value, hend'.stop⟩

/-! ### Operations that call back -/

section Callbacks

variable {P : Policy} {e e' : Engine} {ctx : Context} (pos : Position)

theorem valueNodes_nodes {h : Heap} : ∀ {vs : List Value}, P.values h vs →
    P.nodes h (valueNodes pos vs)
  | [], _ => by rintro _ ⟨⟩
  | [v], hvs => by
    intro n hn
    rw [List.mem_singleton.mp hn]
    exact .value pos (hvs v List.mem_cons_self)
  | v :: w :: vs, hvs => by
    obtain ⟨hv, hrest⟩ := List.forall_mem_cons.mp hvs
    refine List.forall_mem_cons.mpr ⟨.value pos hv, List.forall_mem_cons.mpr ⟨.symbol pos ",", ?_⟩⟩
    exact valueNodes_nodes hrest

theorem callWithValues_keeps (he : P.Obeys e e') {m : Machine} (hs : P.scope m.heap ctx.scope)
    (f : FunctionRef) {values : List Value} (hvalues : P.values m.heap values) :
    P.Keeps m (e.callWithValues ctx f values pos) (e'.callWithValues ctx f values pos) P.value :=
  he.call f hs (valueNodes_nodes pos hvalues) pos

theorem Site.invoke_keeps (he : P.Obeys e e') {m : Machine} (hs : P.scope m.heap ctx.scope)
    (f : FunctionRef) {values : List Value} (hvalues : P.values m.heap values) :
    P.Keeps m (Site.invoke ⟨e, ctx, pos⟩ f values) (Site.invoke ⟨e', ctx, pos⟩ f values) P.value := by
  refine .onHeap fun _ => callWithValues_keeps pos he hs f ?_
  split
  · exact values_take hvalues _
  · exact hvalues

variable [P.Lawful]

/-- A sort hands back the elements it was given, in every case. -/
theorem sortArray_keeps {m : Machine} {r : ArrayRef} (hr : P.value m.heap (.array r))
    {lt lt' : Comparison} (hlt : ∀ {x y}, P.value m.heap x → P.value m.heap y →
      ∀ m', m.heap.Grows P.closed P.emptying m'.heap → P.Keeps m' (lt x y) (lt' x y) fun _ _ => True) :
    P.Keeps m (sortArray ⟨e, ctx, pos⟩ r lt) (sortArray ⟨e', ctx, pos⟩ r lt') P.product := by
  refine .onHeap fun hh => Keeps.bind (.setItems r values_nil) fun _ m₁ hg₁ _ => ?_
  refine (sortItems_dialogue (P := P.value m.heap) null (hh.items r)).keeps ?_ ?_ ?_
  · exact fun hx hy m₂ hg₂ => hlt hx hy m₂ (hg₁.trans hg₂)
  · rintro ⟨sorted, _⟩ m₂ hg₂ ⟨rfl, hsorted⟩
    have hg := hg₁.trans hg₂
    refine .onHeap fun _ => Keeps.bind (.setItems r (hg.values hsorted)) fun _ m₃ hg₃ _ => ?_
    exact .ite (.pure (product_value ((hg.trans hg₃).value hr))) (.fail _ _ _)
  · rintro ⟨sorted, hsorted⟩ s m₂ hg₂ hstop
    have hg := hg₁.trans hg₂
    refine .onHeap fun _ => Keeps.bind (.setItems r (hg.values hsorted)) fun _ _ _ _ => ?_
    exact .throw hstop

theorem iterationArgs_values {h : Heap} {r : ArrayRef} (hr : P.value h (.array r)) (i : Nat)
    {x : Value} (hx : P.value h x) : P.values h (iterationArgs r i x) :=
  values_cons hx (values_cons (Lawful.scalar trivial) (values_cons hr values_nil))

variable (he : P.Obeys e e')

include he

theorem callbackLess_keeps {m : Machine} (hs : P.scope m.heap ctx.scope) (f : FunctionRef)
    {a b : Value} (ha : P.value m.heap a) (hb : P.value m.heap b) :
    P.Keeps m (callbackLess ⟨e, ctx, pos⟩ f a b) (callbackLess ⟨e', ctx, pos⟩ f a b)
      fun _ _ => True := by
  have hab := values_cons ha (values_cons hb values_nil)
  refine (Site.invoke_keeps pos he hs f hab).bind fun v m' _ _ => ?_
  cases v
  case number x => exact .pure trivial
  all_goals exact .fail _ _ _

theorem iterate_keeps {r : ArrayRef} (f : FunctionRef) : ∀ {xs : List Value} (i : Nat) {m : Machine},
    P.scope m.heap ctx.scope → P.value m.heap (.array r) → P.values m.heap xs →
    P.Keeps m (iterate ⟨e, ctx, pos⟩ r f i xs) (iterate ⟨e', ctx, pos⟩ r f i xs) P.values
  | [], _, _, _, _, _ => .pure values_nil
  | x :: xs, i, m, hs, hr, hxs => by
    obtain ⟨hx, hrest⟩ := List.forall_mem_cons.mp hxs
    refine (Site.invoke_keeps pos he hs f (iterationArgs_values hr i hx)).bind fun v m' hg hv => ?_
    refine (iterate_keeps f (i + 1) (hg.scope hs) (hg.value hr) (hg.values hrest)).then_return ?_
    exact fun _ _ hg' hvs => values_cons (hg'.value hv) hvs

theorem keepWhere_keeps {r : ArrayRef} (f : FunctionRef) :
    ∀ {xs : List Value} (i : Nat) {m : Machine},
    P.scope m.heap ctx.scope → P.value m.heap (.array r) → P.values m.heap xs →
    P.Keeps m (keepWhere ⟨e, ctx, pos⟩ r f i xs) (keepWhere ⟨e', ctx, pos⟩ r f i xs) P.values
  | [], _, _, _, _, _ => .pure values_nil
  | x :: xs, i, m, hs, hr, hxs => by
    obtain ⟨hx, hrest⟩ := List.forall_mem_cons.mp hxs
    refine (Site.invoke_keeps pos he hs f (iterationArgs_values hr i hx)).bind fun v m' hg _ => ?_
    cases v
    case bool keep =>
      refine (keepWhere_keeps f (i + 1) (hg.scope hs) (hg.value hr) (hg.values hrest)).then_return ?_
      intro h vs hg' hvs
      split
      · exact values_cons ((hg.trans hg').value hx) hvs
      · exact hvs
    all_goals exact .fail _ _ _

/-- A loop keeps to a policy round by round. -/
theorem runRounds_keeps (condition body : FunctionRef) (limit : Option Int) :
    ∀ (fuel : Nat) (count : Int) {m : Machine}, P.scope m.heap ctx.scope →
    P.Keeps m (runRounds ⟨e, ctx, pos⟩ condition body limit fuel count)
      (runRounds ⟨e', ctx, pos⟩ condition body limit fuel count) P.product
  | 0, _, _, _ => .throw Lawful.exhausted
  | fuel + 1, count, m, hs => by
    refine (Site.invoke_keeps pos he hs condition values_nil).bind fun v m' hg _ => ?_
    have hround : P.Keeps m'
        (do let _ ← Site.invoke ⟨e, ctx, pos⟩ body []
            runRounds ⟨e, ctx, pos⟩ condition body limit fuel (count + 1))
        (do let _ ← Site.invoke ⟨e', ctx, pos⟩ body []
            runRounds ⟨e', ctx, pos⟩ condition body limit fuel (count + 1)) P.product :=
      (Site.invoke_keeps pos he (hg.scope hs) body values_nil).bind fun _ _ hg' _ =>
        runRounds_keeps condition body limit fuel (count + 1) ((hg.trans hg').scope hs)
    cases v
    case bool go =>
      refine .ite (.pure (product_scalar trivial)) ?_
      cases limit with
      | some most => exact .ite (.fail _ _ _) hround
      | none => exact hround
    all_goals exact .fail _ _ _

variable {m : Machine} (hs : P.scope m.heap ctx.scope) {args : List Value}

include hs

theorem runLoop_keeps (condition : FunctionRef) (limit : Option Int) :
    P.Keeps m (runLoop ⟨e, ctx, pos⟩ condition limit args)
      (runLoop ⟨e', ctx, pos⟩ condition limit args) P.product :=
  .look fun body _ => runRounds_keeps pos he condition body limit maxRounds 0 hs

theorem runBranch_keeps (condition : Bool) :
    P.Keeps m (runBranch ⟨e, ctx, pos⟩ condition args)
      (runBranch ⟨e', ctx, pos⟩ condition args) P.product := by
  refine .look fun body _ => .ite ?_ (.pure (product_scalar trivial))
  exact (Site.invoke_keeps pos he hs body values_nil).then_return fun _ _ _ hv => product_value hv

variable (hargs : P.values m.heap args)

include hargs

/-- **Array operations keep to a policy.** -/
theorem ArrayOp.run_keeps (op : ArrayOp) :
    P.Keeps m (op.run ⟨e, ctx, pos⟩ args) (op.run ⟨e', ctx, pos⟩ args) P.product := by
  have hnull {m : Machine} : P.Does m (pure (.value .null) : Eval Product) P.product :=
    .pure (product_scalar trivial)
  have hcount (n : Int) : P.Does m (pure (Site.countProduct n)) P.product :=
    .pure (product_scalar trivial)
  -- what an argument that must be an array refers to
  have harray {i : Nat} {what : String} {r : ArrayRef}
      (h : Site.array ⟨e, ctx, pos⟩ what (args.getD i .null) m = (.ok r, m)) :
      P.value m.heap (.array r) := Site.array_eq h ▸ values_getD hargs i
  cases op
  case create => exact .of_eq rfl (createArray_does _ hargs)
  case clone => exact .look fun r _ => .onHeap fun hh => .pure (product_map (hh.items r))
  case ofValues => exact .pure (product_map hargs)
  case sizeOf => exact .look fun r _ => .onHeap fun _ => hcount _
  case set =>
    refine .look fun r _ => .look fun index _ => .onHeap fun hh => .look fun k _ => ?_
    refine Keeps.bind (.setItems r fun v hv => ?_) fun _ _ _ _ => hnull
    rcases List.mem_or_eq_of_mem_set hv with hv | rfl
    · exact hh.items r v hv
    · exact values_getD hargs 2
  case push =>
    refine .look fun r _ => Keeps.bind (.addItems r fun hh => ?_) fun _ _ _ _ => hnull
    exact values_append (hh.items r) (values_drop hargs 1)
  case unshift =>
    refine .look fun r _ => Keeps.bind (.addItems r fun hh => ?_) fun _ _ _ _ => hnull
    exact values_append (fun v hv => values_drop hargs 1 v (List.mem_reverse.mp hv)) (hh.items r)
  case pop =>
    refine .look fun r _ => .onHeap fun hh => ?_
    refine Keeps.bind (.setItems r fun v hv => ?_) fun _ m' hg _ => .pure (product_value (hg.value ?_))
    · exact hh.items r v (List.dropLast_subset _ hv)
    · cases hlast : (m.heap.items r).getLast? with
      | none => exact null
      | some v => exact hh.items r v (List.mem_of_getLast? hlast)
  case shift =>
    refine .look fun r _ => .onHeap fun hh => ?_
    refine Keeps.bind (.setItems r (values_drop (hh.items r) 1)) fun _ m' hg _ => ?_
    refine .pure (product_value (hg.value ?_))
    cases hitems : m.heap.items r with
    | nil => exact null
    | cons v vs => exact hh.items r v (hitems ▸ List.mem_cons_self)
  case slice =>
    refine .look fun r _ => .look fun start _ => .look fun finish _ => .onHeap fun hh => .pure ?_
    exact product_map (values_drop (values_take (hh.items r) _) _)
  case insert =>
    refine .look fun r _ => .look fun index _ => .onHeap fun hh => .look fun k _ => ?_
    refine Keeps.bind (.addItems r fun _ => ?_) fun _ _ _ _ => hnull
    refine values_append (values_append (values_take (hh.items r) k) (values_drop hargs 2)) ?_
    exact values_drop (hh.items r) k
  case remove => exact .of_eq rfl (removeItems_does _)
  case clear => exact .look fun r _ => Keeps.bind (.setItems r values_nil) fun _ _ _ _ => hnull
  case flat =>
    refine .look fun r _ => ?_
    have hflat (depth : Float) : P.Does m (do
        let parts ← flatten (Site.frames ⟨e, ctx, pos⟩) depth (← items r)
        return listProduct parts) P.product := by
      refine .onHeap fun hh => (flatten_does _ depth (hh.items r)).then_return ?_
      exact fun _ _ _ hvs => product_map hvs
    dsimp only
    split
    · exact .look fun depth _ => .ite (.fail _ _ _) (hflat depth)
    · exact .look fun depth _ => .ite (.fail _ _ _) (hflat depth)
  case unpack => exact .of_eq rfl (unpackArray_does _ hs)
  case indexOf | lastIndexOf => exact .look fun r _ => .onHeap fun _ => hcount _
  case includes => exact .look fun r _ => .onHeap fun _ => .pure (product_scalar trivial)
  case sort =>
    refine .look fun r hr => ?_
    split
    · refine .look fun f _ => sortArray_keeps pos (harray hr) fun hx hy m' hg => ?_
      exact callbackLess_keeps pos he (hg.scope hs) f (hg.value hx) (hg.value hy)
    · refine .onHeap fun _ => .ite (sortArray_keeps pos (harray hr) fun _ _ m' _ => ?_) (.fail _ _ _)
      unfold plainLess
      split <;> exact .pure trivial
  case forEach =>
    refine .look fun r hr => .look fun f _ => .onHeap fun hh => ?_
    exact (iterate_keeps pos he f 0 hs (harray hr) (hh.items r)).then_return
      fun _ _ _ _ => product_scalar trivial
  case map =>
    refine .look fun r hr => .look fun f _ => .onHeap fun hh => ?_
    exact (iterate_keeps pos he f 0 hs (harray hr) (hh.items r)).then_return
      fun _ _ _ hvs => product_map hvs
  case filter =>
    refine .look fun r hr => .look fun f _ => .onHeap fun hh => ?_
    exact (keepWhere_keeps pos he f 0 hs (harray hr) (hh.items r)).then_return
      fun _ _ _ hvs => product_map hvs

/-- **Core operations keep to a policy.** -/
theorem CoreOp.run_keeps (op : CoreOp) :
    P.Keeps m (op.run ⟨e, ctx, pos⟩ args) (op.run ⟨e', ctx, pos⟩ args) P.product := by
  have hnames (names : List String) : P.Does m (pure (namesProduct names)) P.product :=
    .pure (product_map fun _ _ => Lawful.scalar trivial)
  cases op
  case help =>
    refine .look fun f _ => .look fun g _ => ?_
    split <;> exact .pure (product_scalar trivial)
  case dir =>
    simp only [CoreOp.run]
    split
    · exact .onHeap fun _ => hnames _
    · exact .look fun d _ => .onHeap fun _ => hnames _
  case exist => exact .look fun name _ => .onHeap fun _ => .pure (product_scalar trivial)
  case get =>
    refine .look fun name _ => .onHeap fun hh => ?_
    split
    · rename_i v hv
      exact .pure (product_value (hh.read? hv))
    · exact .fail _ _ _
  case set =>
    have hv := values_getD hargs 1
    refine .look fun name _ => Keeps.bind (.assign hs name hv) fun _ _ hg _ => ?_
    exact .pure (product_value (hg.value hv))
  case typeOf | boolean => exact .pure (product_scalar trivial)
  case number =>
    simp only [CoreOp.run]
    split
    · exact .pure (product_scalar trivial)
    · exact .fail _ _ _
  case string => exact .onHeap fun _ => .pure (product_scalar trivial)
  case print => exact .of_eq rfl (printValues_does _)
  case branch =>
    refine .look fun condition _ => Keeps.then_return (.newFunction trivial) ?_
    exact fun _ _ _ hv => product_value hv
  case choose =>
    refine .look fun condition _ => .look fun yes _ => .look fun no _ => ?_
    exact (Site.invoke_keeps pos he hs _ values_nil).then_return fun _ _ _ hv => product_value hv
  case repeating =>
    simp only [CoreOp.run, loopLimit_withLimit e e' ctx ctx.settings.maxDepth pos]
    refine .look fun condition hcondition => .look fun limit _ => ?_
    have hvalue : P.value m.heap (.function condition) :=
      Site.function_eq hcondition ▸ values_getD hargs 0
    exact Keeps.then_return (.newFunction hvalue) fun _ _ _ hv => product_value hv

/-- **Probes keep to a policy that lets them be there.** -/
theorem ProbeOp.run_keeps (hforeign : P.foreign) (op : ProbeOp) :
    P.Keeps m (op.run ⟨e, ctx, pos⟩ args) (op.run ⟨e', ctx, pos⟩ args) P.product := by
  have hcoordinate (c : Option Int) : P.product m.heap (coordinateProduct c) := by
    cases c with
    | none => exact product_scalar trivial
    | some n => exact .integer n hforeign
  cases op
  case callSite =>
    refine .pure (.sequence (List.forall_mem_cons.mpr ⟨hcoordinate _, ?_⟩))
    refine List.forall_mem_cons.mpr ⟨hcoordinate _, List.forall_mem_singleton.mpr ?_⟩
    exact product_scalar trivial
  case apply =>
    refine .look fun f _ => ?_
    exact (callWithValues_keeps pos he hs f (values_drop hargs 1)).then_return
      fun _ _ _ hv => product_value hv
  case count => exact .pure (.integer _ hforeign)
  case document =>
    refine .look fun usage _ => .look fun f hf => ?_
    have hvalue : P.value m.heap (.function f) := Site.function_eq hf ▸ values_getD hargs 1
    refine Keeps.bind (.modifyHeap (fun hh => hh.documented f usage) fun _ => ?_) fun _ _ hg _ => ?_
    · exact m.heap.grows_modifyFunction P.closed P.emptying f _
    · exact .pure (product_value (hg.value hvalue))

/-- **Every native operation keeps to a policy that lets it be there.** A template
may empty scopes. -/
theorem Operation.run_keeps [P.Tolerant] {op : Operation} (hop : P.operation m.heap op)
    (hrender : op = .string .render → P.emptying) :
    P.Keeps m (op.run ⟨e, ctx, pos⟩ args) (op.run ⟨e', ctx, pos⟩ args) P.product := by
  cases op with
  | core op => exact CoreOp.run_keeps pos he hs hargs op
  | array op => exact ArrayOp.run_keeps pos he hs hargs op
  | string op =>
    refine .of_eq (op.run_withLimit e e' ctx ctx.settings.maxDepth pos args) ?_
    exact StringOp.run_does _ op fun h => hrender (congrArg _ h)
  | dict op => exact .of_eq (by cases op <;> rfl) (DictOp.run_does _ op hargs)
  | math op => exact .of_eq (by cases op <;> rfl) (MathOp.run_does _ op)
  | data format op => exact .of_eq (by cases op <;> rfl) (DataOp.run_does _ format op)
  | probe op => exact ProbeOp.run_keeps pos he hs hargs hop op
  | branch condition => exact runBranch_keeps pos he hs condition
  | loop condition limit => exact runLoop_keeps pos he hs condition limit
  | method host k => exact .of_eq rfl (runMethod_does _ hop host k hargs)
  | idle => exact .pure (product_scalar trivial)

/-- So does every one in disguise. -/
theorem Disguise.run_keeps [P.Tolerant] {D : Disguise} (hD : D.initialises = true → P.emptying)
    {op : Operation} (hop : P.operation m.heap op) :
    P.Keeps m (D.run ⟨e, ctx, pos⟩ args op) (D.run ⟨e', ctx, pos⟩ args op) P.product := by
  unfold Disguise.run
  split
  · refine .of_eq (Site.renderTemplate_withLimit e e' ctx ctx.settings.maxDepth pos D args) ?_
    exact renderTemplate_does _ hD
  · rename_i hother
    exact Operation.run_keeps pos he hs hargs hop fun h => absurd h hother

end Callbacks

/-- **Native calls keep to a policy**, in every disguise. -/
theorem Disguise.callNative_keeps {P : Policy} [P.Lawful] {D : Disguise}
    (hD : D.initialises = true → P.emptying) {e e' : Engine} (he : P.Obeys e e') {ctx : Context}
    (pos : Position) {m : Machine} (hs : P.scope m.heap ctx.scope) {args : List Value}
    (hargs : P.values m.heap args) {f : NativeFunction} (hf : P.operation m.heap f.operation) :
    P.Keeps m (D.callNative ⟨e, ctx, pos⟩ f args) (D.callNative ⟨e', ctx, pos⟩ f args) P.value := by
  refine .ite ?_ (.fail _ _ _)
  have hrun := Disguise.run_keeps (P := P.relaxed) pos he.relax hs hargs hD hf
  refine (hrun.guarded ctx pos).bind fun product m' _ hproduct => ?_
  refine .look fun m'' _ => .of_eq ?_ (Site.receive_does _ _ hproduct)
  exact Site.receive_withLimit e e' ctx ctx.settings.maxDepth pos _ product

end RuleScript
