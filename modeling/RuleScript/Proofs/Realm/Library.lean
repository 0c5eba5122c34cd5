/-
# The standard library keeps to a realm

A native operation gets hold of its arguments, of what it finds in arrays and
dicts inside the realm, of names that its scope sees, and of what the
functions that it calls hand back. It changes nothing else, faults at its own
call and calls at its own call. So every operation keeps to every realm,
provided that the engines it calls back into do, and so does a native call
with the conversion of its result. Of two runs side by side, only what `print`
shows needs a word on the effects.

Key theorems: `Site.copyValue_keeps`, `Site.receive_keeps`,
`Realm.sortArray_keeps`, `Realm.Operation.run_keeps`, `Realm.callNative_keeps`.
-/
import RuleScript.Proofs.Calls.Coupling
import RuleScript.Proofs.Policy.Library
import RuleScript.Proofs.Realm.Rendering

namespace RuleScript

open Eval (Reads)

/-! ### Operations that read -/

namespace Site

variable (s : Site)

instance {α : Type} (c : Cause) : Reads s.pos (s.fail c : Eval α) :=
  inferInstanceAs (Reads s.pos (Eval.fail s.ctx s.pos c))

instance (what : String) (v : Value) : Reads s.pos (s.number what v) := by
  unfold number; split <;> infer_instance

instance (what : String) (v : Value) : Reads s.pos (s.string what v) := by
  unfold string; split <;> infer_instance

instance (what : String) (v : Value) : Reads s.pos (s.bool what v) := by
  unfold bool; split <;> infer_instance

instance (what : String) (v : Value) : Reads s.pos (s.array what v) := by
  unfold array; split <;> infer_instance

instance (what : String) (v : Value) : Reads s.pos (s.dict what v) := by
  unfold dict; split <;> infer_instance

instance (what : String) (v : Value) : Reads s.pos (s.function what v) := by
  unfold function; split <;> infer_instance

instance (what : String) (v : Option Value) : Reads s.pos (s.number? what v) := by
  unfold number?; split <;> infer_instance

instance {pos : Position} (r : ArrayRef) : Reads pos (items r) :=
  inferInstanceAs (Reads pos (Eval.onHeap _))

end Site

instance (s : Site) (index : Float) (size : Nat) (allowEnd : Bool) :
    Reads s.pos (elementIndex s index size allowEnd) :=
  elementIndex_of_inspects Eval.reads_inspects s (fun _ => inferInstance) index size allowEnd

instance (s : Site) : Reads s.pos (loopLimit s) :=
  loopLimit_of_inspects Eval.reads_inspects s fun _ => inferInstance

instance (s : Site) (v : Option Value) : Reads s.pos (indentArgument s v) :=
  indentArgument_of_inspects Eval.reads_inspects s (fun _ => inferInstance) v

/-! ### Products -/

namespace Realm

section Products

variable {R : Realm}

theorem product_value {v : Value} (hv : R.value v) : R.product (.value v) := .value hv

theorem product_scalar {v : Value} (hv : v.IsScalar) : R.product (.value v) :=
  .value (value_of_isScalar hv)

/-- A sequence of values, each made from an element of a list. -/
theorem product_map {β : Type} {f : β → Value} {xs : List β} (hf : ∀ x ∈ xs, R.value (f x)) :
    R.product (.sequence (xs.map fun x => .value (f x))) := by
  refine .sequence fun p hp => ?_
  obtain ⟨x, hx, rfl⟩ := List.mem_map.mp hp
  exact product_value (hf x hx)

theorem product_table {t : Table Value} (ht : R.table t) : R.product (tableProduct t) := by
  refine .mapping fun p hp => ?_
  obtain ⟨q, hq, rfl⟩ := List.mem_map.mp hp
  exact product_value (ht q hq)

theorem values_entries {t : Table Value} (ht : R.table t) : R.values t.entries := by
  intro v hv
  obtain ⟨p, hp, rfl⟩ := List.mem_map.mp hv
  exact ht p hp

theorem table_merge : ∀ {ts : List (Table Value)} {t : Table Value}, R.table t →
    (∀ u ∈ ts, R.table u) → R.table (ts.foldl (fun t u => t.setAll u) t)
  | [], _, ht, _ => ht
  | u :: ts, t, ht, hts => by
    obtain ⟨hu, hrest⟩ := List.forall_mem_cons.mp hts
    have hmerge : R.table (ts.foldl (fun t u => t.setAll u) (t.setAll u)) :=
      table_merge (table_setAll ht hu) hrest
    exact hmerge

end Products

/-! ### Results -/

section Results

variable {R : Realm} {T : Twin} {s : Site}

/-- A copy of what lies inside lies inside. -/
theorem copyValue_keeps [T.Started] (hpos : R.place s.pos) : ∀ (frames : Nat) {v : Value},
    R.value v → R.Does T (s.copyValue frames v) R.value
  | 0, _, _ => .exhausted
  | frames + 1, v, hv => by
    cases v
    case absent => exact .fail hpos _ _
    case array r =>
      match frames with
      | 0 => exact .exhausted
      | frames + 1 =>
        refine .onHeap fun h hh => Keeps.bind (.mapM fun x hx => ?_) fun _ hvs => .newArray hvs
        exact copyValue_keeps hpos frames (hh.items hv x hx)
    case dict r =>
      refine .onHeap fun h hh => ?_
      refine Keeps.bind (Q := R.table) (.mapM fun p hp => ?_) fun _ ht => .newDict ht
      exact (copyValue_keeps hpos frames (hh.dict hv p hp)).then_return fun _ hv => hv
    all_goals exact .pure hv

mutual

theorem receiveInside_keeps [T.Started] (hpos : R.place s.pos) (host : Option (Nat × Host)) :
    ∀ (frames : Nat) {p : Product}, R.product p → R.Does T (s.receiveInside host frames p) R.value
  | frames, .value v, hp => by
    rw [Site.receiveInside]
    cases hp with
    | value hv => exact copyValue_keeps hpos _ hv
  | 0, .integer _, _ | 0, .sequence _, _ | 0, .mapping _, _ | 0, .foreign _, _ | 0, .method _, _
  | 1, .sequence _, _ => .exhausted
  | _ + 1, .integer n, _ => by
    unfold Site.receiveInside
    split
    · exact .pure trivial
    · exact .internal _
  | frames + 2, .sequence ps, hp => by
    unfold Site.receiveInside
    cases hp with
    | sequence hps => exact (receiveAll_keeps hpos host frames hps).bind fun _ hvs => .newArray hvs
  | frames + 1, .mapping es, hp => by
    unfold Site.receiveInside
    cases hp with
    | mapping hes => exact (receiveEntries_keeps hpos host frames hes).bind fun _ ht => .newDict ht
  | _ + 1, .foreign c, _ => by
    unfold Site.receiveInside
    exact .fail hpos _ _
  | _ + 1, .method k, _ => by
    unfold Site.receiveInside
    split
    · exact .newFunction trivial
    · exact .pure trivial

theorem receiveAll_keeps [T.Started] (hpos : R.place s.pos) (host : Option (Nat × Host)) (frames : Nat) :
    ∀ {ps : List Product}, (∀ p ∈ ps, R.product p) → R.Does T (s.receiveAll host frames ps) R.values
  | [], _ => by
    unfold Site.receiveAll
    exact .pure values_nil
  | p :: ps, hps => by
    obtain ⟨hp, hrest⟩ := List.forall_mem_cons.mp hps
    unfold Site.receiveAll
    refine (receiveInside_keeps hpos host frames hp).bind fun v hv => ?_
    exact (receiveAll_keeps hpos host frames hrest).then_return fun _ hvs => values_cons hv hvs

theorem receiveEntries_keeps [T.Started] (hpos : R.place s.pos) (host : Option (Nat × Host))
    (frames : Nat) : ∀ {es : List (ProductKey × Product)}, (∀ e ∈ es, R.product e.2) →
    R.Does T (s.receiveEntries host frames es) R.table
  | [], _ => by
    unfold Site.receiveEntries
    exact .pure table_nil
  | (.other, _) :: es, _ => by
    unfold Site.receiveEntries
    exact .fail hpos _ _
  | (.text k, p) :: es, hes => by
    obtain ⟨hp, hrest⟩ := List.forall_mem_cons.mp hes
    unfold Site.receiveEntries
    refine (receiveInside_keeps hpos host frames hp).bind fun v hv => ?_
    exact (receiveEntries_keeps hpos host frames hrest).then_return
      fun _ ht => List.forall_mem_cons.mpr ⟨hv, ht⟩

end

/-- What a native call gives lies inside. -/
theorem receive_keeps [T.Started] (hpos : R.place s.pos) (host : Option (Nat × Host)) {p : Product}
    (hp : R.product p) : R.Does T (s.receive host p) R.value := by
  unfold Site.receive
  split
  · exact .pure trivial
  · exact receiveInside_keeps hpos host _ hp

end Results

/-! ### Operations that call nothing -/

open Site (items)

section Local

variable {R : Realm} {T : Twin}

mutual

theorem Datum.build_keeps [T.Started] : ∀ (frames : Nat) (d : Datum), R.Does T (d.build frames) R.value
  | 0, _ => by
    rw [Datum.build]
    exact .exhausted
  | _ + 1, .null | _ + 1, .bool _ | _ + 1, .number _ | _ + 1, .text _ => .pure trivial
  | _ + 1, .integer n => by
    unfold Datum.build
    split
    · exact .pure trivial
    · exact .internal _
  | 1, .list _ | 1, .table _ => .exhausted
  | frames + 2, .list ds => (Datum.buildAll_keeps frames ds).bind fun _ hvs => .newArray hvs
  | frames + 2, .table es => (Datum.buildEntries_keeps frames es).bind fun _ ht => .newDict ht

theorem Datum.buildAll_keeps [T.Started] (frames : Nat) : ∀ ds : List Datum,
    R.Does T (Datum.buildAll frames ds) R.values
  | [] => by
    unfold Datum.buildAll
    exact .pure values_nil
  | d :: ds => by
    unfold Datum.buildAll
    refine (Datum.build_keeps frames d).bind fun v hv => ?_
    exact (Datum.buildAll_keeps frames ds).then_return fun _ hvs => values_cons hv hvs

theorem Datum.buildEntries_keeps [T.Started] (frames : Nat) : ∀ es : List (String × Datum),
    R.Does T (Datum.buildEntries frames es) R.table
  | [] => by
    unfold Datum.buildEntries
    exact .pure table_nil
  | (k, d) :: es => by
    unfold Datum.buildEntries
    refine (Datum.build_keeps frames d).bind fun v hv => ?_
    exact (Datum.buildEntries_keeps frames es).then_return fun _ ht => List.forall_mem_cons.mpr ⟨hv, ht⟩

end

variable [T.Started]

theorem flatten_keeps : ∀ (depth : Nat) (level : Float) {xs : List Value}, R.values xs →
    R.Does T (flatten depth level xs) R.values
  | 0, _, _, _ => .exhausted
  | depth + 1, level, xs, hxs => by
    refine Keeps.then_return (Q := fun parts => ∀ part ∈ parts, R.values part) (.mapM fun x hx => ?_)
      fun parts hparts v hv => ?_
    · have hself : R.values [x] := values_cons (hxs x hx) values_nil
      split
      · rename_i r
        have hr : R.array r := hxs _ hx
        exact .ite (.onHeap fun h hh => flatten_keeps depth _ (hh.items hr)) (.pure hself)
      · exact .pure hself
    · obtain ⟨part, hpart, hv⟩ := List.mem_flatten.mp hv
      exact hparts part hpart v hv

variable {s : Site} (hpos : R.place s.pos) {args : List Value}

include hpos

theorem createArray_keeps (hargs : R.values args) : R.Does T (createArray s args) R.product := by
  unfold createArray
  split
  · exact .pure (.sequence (by rintro _ ⟨⟩))
  · rename_i first rest
    obtain ⟨-, hrest⟩ := List.forall_mem_cons.mp hargs
    refine .look hpos fun size _ _ _ => ?_
    have hfail (c : Cause) : R.Does T (s.fail c : Eval Product) R.product := .fail hpos _ c
    split
    · exact hfail _
    · refine .ite (hfail _) (.ite (hfail _) (.ite (hfail _) (.pure ?_)))
      refine product_map fun v hv => ?_
      rw [List.eq_of_mem_replicate hv]
      cases rest with
      | nil => exact trivial
      | cons v rest => exact hrest v List.mem_cons_self

theorem unpackArray_keeps (hs : R.scope s.ctx.scope) (hargs : R.values args) :
    R.Does T (unpackArray s args) R.product := by
  refine .look hpos fun r m hm hr => ?_
  have hitems : R.array r := by
    have hvalue := values_getD hargs 0
    rwa [Site.array_eq hr] at hvalue
  refine .look hpos fun names _ _ _ => .look hpos fun names _ _ _ => .look hpos fun names _ _ _ => ?_
  have hbind {xs : List Value} (hxs : R.values xs) : R.Does T (do
      names.zipIdx.forM fun p => Eval.modifyHeap (·.assign s.ctx.scope p.1 (xs.getD p.2 .null))
      return .value .null : Eval Product) R.product :=
    Keeps.bind (.forM fun p _ => .assign hs p.1 (values_getD hxs p.2)) fun _ _ =>
      .pure (product_scalar trivial)
  split <;>
    exact .look hpos fun loose _ _ _ => .onHeap fun h hh =>
      .ite (.fail hpos _ _) (hbind (hh.items hitems))

theorem removeItems_keeps (hargs : R.values args) : R.Does T (removeItems s args) R.product := by
  refine .look hpos fun r m hm hr => .look hpos fun index _ _ _ => ?_
  have harray : R.array r := by
    have hvalue := values_getD hargs 0
    rwa [Site.array_eq hr] at hvalue
  refine .onHeap fun h hh => .look hpos fun start _ _ _ => ?_
  have hremove (count : Nat) : R.Does T (do
      Eval.modifyHeap (·.setItems r ((h.items r).take start ++ (h.items r).drop (start + count)))
      return .value .null : Eval Product) R.product := by
    have hxs := hh.items harray
    refine Keeps.bind (.setItems harray ?_) fun _ _ => .pure (product_scalar trivial)
    exact values_append (values_take hxs _) (values_drop hxs _)
  split
  · exact hremove 1
  · refine .look hpos fun c _ _ _ => ?_
    exact .ite (.look hpos fun count _ _ _ => hremove count)
      (.look hpos fun count _ _ _ => hremove count)

omit [T.Started] hpos in
theorem printValues_keeps (hT : T.Echoes) : R.Does T (printValues s args) R.product :=
  .onHeap fun _ _ => (Keeps.note _ _).bind fun _ _ => (Keeps.print hT _).bind fun _ _ =>
    .pure (product_scalar trivial)

omit [T.Started] hpos in
theorem runMethod_run {m : Machine} {host index : Nat} {o : Host} (ho : m.hosts[host]? = some o)
    {k : HostMethod} (hk : o.methods[index]? = some k) {result : Except HostFault Product}
    {counters : Counters} (hrun : k.run o.counters args = (result, counters)) :
    runMethod s host index args m =
      (match result with
        | .ok p => .ok p
        | .error f => .error (.fault (.raisedAt f.cause (some s.pos) s.ctx.source)),
      { m with hosts := m.hosts.setIfInBounds host { o with counters } }) := by
  have hget {f : Machine → Eval Product} : (get >>= f) m = f m m := rfl
  unfold runMethod
  simp only [hget, ho, hk, hrun]
  cases result <;> rfl

omit [T.Started] in
/-- A method of a host gives what the host may give. -/
theorem runMethod_keeps (host index : Nat) (hargs : R.values args) :
    R.Does T (runMethod s host index args) R.product := by
  intro m m' hm hb
  have hget (m : Machine) {f : Machine → Eval Product} : (get >>= f) m = f m m := rfl
  cases ho : m.hosts[host]? with
  | none =>
    unfold runMethod
    rw [hget, hget, hb.hosts, ho]
    exact .value hm hb (product_scalar trivial)
  | some o =>
    cases hk : o.methods[index]? with
    | none =>
      unfold runMethod
      simp only [hget, hb.hosts, ho, hk]
      exact .value hm hb (product_scalar trivial)
    | some k =>
      have hhost : R.host o := hm.hosts o (Array.mem_of_getElem? ho)
      rcases hrun : k.run o.counters args with ⟨result, counters⟩
      rw [runMethod_run ho hk hrun, runMethod_run (hb.hosts ▸ ho) hk hrun]
      have hm₁ : R.Holds { m with hosts := m.hosts.setIfInBounds host { o with counters } } := by
        refine ⟨hm.heap, fun o' ho' => ?_, hm.calls, hm.focus⟩
        rcases Array.mem_or_eq_of_mem_setIfInBounds ho' with ho' | rfl
        · exact hm.hosts o' ho'
        · exact hhost
      have hb₁ : T.Beside { m with hosts := m.hosts.setIfInBounds host { o with counters } }
          { m' with hosts := m'.hosts.setIfInBounds host { o with counters } } :=
        ⟨hb.heap, congrArg (fun hosts => hosts.setIfInBounds host { o with counters }) hb.hosts, hb.seed,
          hb.calls, hb.focus, hb.effects, hb.idle⟩
      cases result with
      | error f => exact Keeps.fail hpos s.ctx f.cause hm₁ hb₁
      | ok p =>
        refine .value hm₁ hb₁ ?_
        exact hhost k (List.mem_of_getElem? hk) o.counters args hargs p (by rw [hrun])

theorem DataOp.run_keeps (format : DataFormat) (op : DataOp) :
    R.Does T (op.run s format args) R.product := by
  cases op
  case parse =>
    refine .look hpos fun text _ _ _ => ?_
    split
    · exact (Datum.build_keeps _ _).then_return fun _ hv => product_value hv
    · exact .exhausted
    · exact .fail hpos _ _
  case stringify =>
    refine .look hpos fun indent _ _ _ => .onHeap fun h _ => ?_
    dsimp only [id]
    split
    · exact .pure (product_scalar trivial)
    · exact .exhausted
    · exact .fail hpos _ _

theorem MathOp.run_keeps (op : MathOp) : R.Does T (op.run s args) R.product := by
  cases op
  case pow =>
    exact .look hpos fun base _ _ _ => .look hpos fun exponent _ _ _ => .pure (product_scalar trivial)
  case min | max => exact .look hpos fun xs _ _ _ => .pure (product_scalar trivial)
  case random =>
    intro m m' hm hb
    have hseed : T.Beside { m with seed := nextSeed m.seed } { m' with seed := nextSeed m'.seed } :=
      ⟨hb.heap, hb.hosts, congrArg nextSeed hb.seed, hb.calls, hb.focus, hb.effects, hb.idle⟩
    have hrun (m : Machine) : MathOp.random.run s args m =
        (.ok (.value (.number (seedNumber (nextSeed m.seed)))), { m with seed := nextSeed m.seed }) := rfl
    have hnumber : seedNumber (nextSeed m'.seed) = seedNumber (nextSeed m.seed) := by rw [hb.seed]
    rw [hrun, hrun, hnumber]
    exact .value ⟨hm.heap, hm.hosts, hm.calls, hm.focus⟩ hseed (product_scalar trivial)
  case unary op => exact .look hpos fun x _ _ _ => .pure (product_scalar trivial)

theorem StringOp.run_keeps (op : StringOp) (hargs : R.values args) :
    R.Does T (op.run s args) R.product := by
  have hscalar {v : Value} (hv : v.IsScalar) : R.Does T (pure (.value v) : Eval Product) R.product :=
    .pure (product_scalar hv)
  have htexts (parts : List (List Char)) : R.Does T (pure (textsProduct parts)) R.product :=
    .pure (product_map fun _ _ => trivial)
  cases op
  case join =>
    refine .look hpos fun r _ _ _ => .look hpos fun xs _ _ _ => .look hpos fun parts _ _ _ => ?_
    split <;> exact .look hpos fun separator _ _ _ => hscalar trivial
  case toLowerCase | toUpperCase | sizeOf | trim => exact .look hpos fun text _ _ _ => hscalar trivial
  case slice =>
    exact .look hpos fun text _ _ _ => .look hpos fun start _ _ _ => .look hpos fun finish _ _ _ =>
      hscalar trivial
  case split =>
    refine .look hpos fun text _ _ _ => ?_
    split
    · refine .pure (.sequence fun p hp => ?_)
      rw [List.mem_singleton.mp hp]
      exact product_scalar trivial
    · exact .look hpos fun separator _ _ _ => .ite (htexts _) (htexts _)
  case indexOf => exact .look hpos fun text _ _ _ => .look hpos fun search _ _ _ => hscalar trivial
  case render =>
    exact renderTemplate_keeps hpos hargs

theorem DictOp.run_keeps (op : DictOp) (hargs : R.values args) :
    R.Does T (op.run s args) R.product := by
  have hnull : R.Does T (pure (.value .null) : Eval Product) R.product := .pure (product_scalar trivial)
  have hdict {what : String} {d : DictRef} {m : Machine}
      (h : s.dict what (args.getD 0 .null) m = (.ok d, m)) : R.dict d := by
    have hvalue := values_getD hargs 0
    rwa [Site.dict_eq h] at hvalue
  cases op
  case keys =>
    exact .look hpos fun d _ _ _ => .onHeap fun _ _ => .pure (product_map fun _ _ => trivial)
  case values =>
    refine .look hpos fun d _ _ hd => .onHeap fun h hh => ?_
    exact .pure (product_map (values_entries (hh.dict (hdict hd))))
  case has =>
    exact .look hpos fun d _ _ _ => .look hpos fun key _ _ _ => .onHeap fun _ _ =>
      .pure (product_scalar trivial)
  case set =>
    refine .look hpos fun d _ _ hd => .look hpos fun key _ _ _ => ?_
    refine Keeps.bind (.setDict (hdict hd) fun h hh => ?_) fun _ _ => hnull
    exact table_set (hh.dict (hdict hd)) key (values_getD hargs 2)
  case remove =>
    refine .look hpos fun d _ _ hd => .look hpos fun key _ _ _ => ?_
    refine Keeps.bind (.setDict (hdict hd) fun h hh => ?_) fun _ _ => hnull
    exact fun p hp => hh.dict (hdict hd) p (Table.mem_of_mem_erase hp)
  case clone =>
    exact .look hpos fun d _ _ hd => .onHeap fun h hh => .pure (product_table (hh.dict (hdict hd)))
  case merge =>
    refine Keeps.then_return (Q := fun ts => ∀ t ∈ ts, R.table t) (.mapM fun v hv => ?_)
      fun _ htables => product_table (table_merge table_nil htables)
    refine .look hpos fun d _ _ hd => .of_reads hpos ?_
    rintro _ m hm ⟨⟩
    have hvalue := hargs v hv
    rw [Site.dict_eq hd] at hvalue
    exact hm.dict hvalue

end Local

/-! ### Operations that call back -/

section Callbacks

variable {R : Realm} {T : Twin}

theorem valueNodes_terms {pos : Position} (hpos : R.place pos) : ∀ {vs : List Value}, R.values vs →
    R.terms (valueNodes pos vs)
  | [], _ => terms_nil
  | [v], hvs => terms_cons.mpr ⟨.value hpos (hvs v List.mem_cons_self), terms_nil⟩
  | v :: w :: vs, hvs => by
    obtain ⟨hv, hrest⟩ := List.forall_mem_cons.mp hvs
    have hcomma : R.Term (.symbol pos ",") := .symbol "," hpos
    exact terms_cons.mpr ⟨.value hpos hv, terms_cons.mpr ⟨hcomma, valueNodes_terms hpos hrest⟩⟩

variable {s : Site} {e' : Engine} (he : R.Engines T s.engine e') (hctx : R.Runs T s.ctx)
  (hpos : R.site s.pos)

include he hctx hpos in
theorem callWithValues_keeps {f : FunctionRef} (hf : R.function f) {values : List Value}
    (hvalues : R.values values) :
    R.Keeps T (s.engine.callWithValues s.ctx f values s.pos) (e'.callWithValues s.ctx f values s.pos)
      R.value :=
  he.call hctx hf (valueNodes_terms (R.place_of_site hpos) hvalues) hpos

include he hctx hpos in
theorem invoke_keeps {f : FunctionRef} (hf : R.function f) {values : List Value}
    (hvalues : R.values values) :
    R.Keeps T (s.invoke f values) (Site.invoke { s with engine := e' } f values) R.value := by
  refine .onHeap fun _ _ => callWithValues_keeps he hctx hpos hf ?_
  split
  · exact values_take hvalues _
  · exact hvalues

include hpos in
/-- A sort hands back the elements it was given, in every case. -/
theorem sortArray_keeps {r : ArrayRef} (hr : R.array r) {lt lt' : Comparison}
    (hlt : ∀ {x y}, R.value x → R.value y → R.Keeps T (lt x y) (lt' x y) fun _ => True) :
    R.Keeps T (sortArray s r lt) (sortArray { s with engine := e' } r lt') R.product := by
  refine .onHeap fun h hh => Keeps.bind (.setItems hr values_nil) fun _ _ => ?_
  refine (sortItems_dialogue (P := R.value) trivial (hh.items hr)).keeps_realm hlt ?_ ?_
  · rintro ⟨sorted, _⟩ ⟨rfl, hsorted⟩
    refine .onHeap fun _ _ => Keeps.bind (.setItems hr hsorted) fun _ _ => ?_
    exact .ite (.pure (product_value hr)) (.fail (R.place_of_site hpos) _ _)
  · rintro ⟨sorted, hsorted⟩ s s' m m' hm hb hs hss hfired
    have hm₁ : R.Holds { m with heap := m.heap.setItems r sorted } :=
      hm.onHeap (hm.heap.setItems hr hsorted)
    exact .stop hm₁ (hb.onHeap (·.setItems r sorted)) hs hss hfired

include he hctx hpos

theorem callbackLess_keeps {f : FunctionRef} (hf : R.function f) {a b : Value}
    (ha : R.value a) (hb : R.value b) :
    R.Keeps T (callbackLess s f a b) (callbackLess { s with engine := e' } f a b)
      fun _ => True := by
  have hab := values_cons ha (values_cons hb values_nil)
  refine (invoke_keeps he hctx hpos hf hab).bind fun v _ => ?_
  cases v
  case number x => exact .pure trivial
  all_goals exact .fail (R.place_of_site hpos) _ _

omit he hctx hpos in
theorem iterationArgs_values {r : ArrayRef} (hr : R.array r) (i : Nat) {x : Value}
    (hx : R.value x) : R.values (iterationArgs r i x) :=
  values_cons hx (values_cons trivial (values_cons hr values_nil))

theorem iterate_keeps {r : ArrayRef} (hr : R.array r) {f : FunctionRef} (hf : R.function f) :
    ∀ {xs : List Value} (i : Nat), R.values xs →
    R.Keeps T (iterate s r f i xs) (iterate { s with engine := e' } r f i xs) R.values
  | [], _, _ => .pure values_nil
  | x :: xs, i, hxs => by
    obtain ⟨hx, hrest⟩ := List.forall_mem_cons.mp hxs
    refine (invoke_keeps he hctx hpos hf (iterationArgs_values hr i hx)).bind
      fun v hv => ?_
    exact (iterate_keeps hr hf (i + 1) hrest).then_return fun _ hvs => values_cons hv hvs

theorem keepWhere_keeps {r : ArrayRef} (hr : R.array r) {f : FunctionRef} (hf : R.function f) :
    ∀ {xs : List Value} (i : Nat), R.values xs →
    R.Keeps T (keepWhere s r f i xs) (keepWhere { s with engine := e' } r f i xs) R.values
  | [], _, _ => .pure values_nil
  | x :: xs, i, hxs => by
    obtain ⟨hx, hrest⟩ := List.forall_mem_cons.mp hxs
    refine (invoke_keeps he hctx hpos hf (iterationArgs_values hr i hx)).bind
      fun v _ => ?_
    cases v
    case bool keep =>
      refine (keepWhere_keeps hr hf (i + 1) hrest).then_return fun vs hvs => ?_
      split
      · exact values_cons hx hvs
      · exact hvs
    all_goals exact .fail (R.place_of_site hpos) _ _

variable [T.Started]

/-- A loop keeps to a realm round by round. -/
theorem runRounds_keeps {condition body : FunctionRef} (hcondition : R.function condition)
    (hbody : R.function body) (limit : Option Int) : ∀ (fuel : Nat) (count : Int),
    R.Keeps T (runRounds s condition body limit fuel count)
      (runRounds { s with engine := e' } condition body limit fuel count) R.product
  | 0, _ => .exhausted
  | fuel + 1, count => by
    have hplace := R.place_of_site hpos
    have hround : R.Keeps T
        (do let _ ← s.invoke body []
            runRounds s condition body limit fuel (count + 1))
        (do let _ ← Site.invoke { s with engine := e' } body []
            runRounds { s with engine := e' } condition body limit fuel (count + 1)) R.product :=
      (invoke_keeps he hctx hpos hbody values_nil).bind fun _ _ =>
        runRounds_keeps hcondition hbody limit fuel (count + 1)
    refine (invoke_keeps he hctx hpos hcondition values_nil).bind fun v _ => ?_
    cases v
    case bool go =>
      refine .ite (.pure (product_scalar trivial)) ?_
      cases limit with
      | some most => exact .ite (.fail hplace _ _) hround
      | none => exact hround
    all_goals exact .fail hplace _ _

variable {args : List Value} (hargs : R.values args)

include hargs

omit [T.Started] he hctx hpos in
/-- What an argument refers to that must be an array, a dict or a function. -/
theorem array_argument {s : Site} {i : Nat} {what : String} {r : ArrayRef} {m : Machine}
    (h : s.array what (args.getD i .null) m = (.ok r, m)) : R.array r := by
  have hvalue := values_getD hargs i
  rwa [Site.array_eq h] at hvalue

omit [T.Started] he hctx hpos in
theorem function_argument {s : Site} {i : Nat} {what : String} {f : FunctionRef} {m : Machine}
    (h : s.function what (args.getD i .null) m = (.ok f, m)) : R.function f := by
  have hvalue := values_getD hargs i
  rwa [Site.function_eq h] at hvalue

theorem runLoop_keeps {condition : FunctionRef} (hcondition : R.function condition)
    (limit : Option Int) :
    R.Keeps T (runLoop s condition limit args)
      (runLoop { s with engine := e' } condition limit args) R.product := by
  refine .look (R.place_of_site hpos) fun body m hm hbody => ?_
  exact runRounds_keeps he hctx hpos hcondition (function_argument hargs hbody) limit maxRounds 0

theorem runBranch_keeps (condition : Bool) :
    R.Keeps T (runBranch s condition args)
      (runBranch { s with engine := e' } condition args) R.product := by
  refine .look (R.place_of_site hpos) fun body m hm hbody => ?_
  refine .ite ?_ (.pure (product_scalar trivial))
  exact (invoke_keeps he hctx hpos (function_argument hargs hbody) values_nil).then_return
    fun _ hv => product_value hv

/-- **Array operations keep to a realm.** -/
theorem ArrayOp.run_keeps (op : ArrayOp) :
    R.Keeps T (op.run s args) (op.run { s with engine := e' } args) R.product := by
  have hplace := R.place_of_site hpos
  have hnull : R.Does T (pure (.value .null) : Eval Product) R.product := .pure (product_scalar trivial)
  have hcount (n : Int) : R.Does T (pure (Site.countProduct n)) R.product :=
    .pure (product_scalar trivial)
  cases op
  case create => exact .of_eq rfl (createArray_keeps hplace hargs)
  case clone =>
    refine .look hplace fun r _ _ hr => .onHeap fun h hh => .pure (product_map (hh.items ?_))
    exact array_argument hargs hr
  case ofValues => exact .pure (product_map hargs)
  case sizeOf => exact .look hplace fun r _ _ _ => .onHeap fun _ _ => hcount _
  case set =>
    refine .look hplace fun r _ _ hr => .look hplace fun index _ _ _ => .onHeap fun h hh => ?_
    refine .look hplace fun k _ _ _ => ?_
    have harray := array_argument hargs hr
    refine Keeps.bind (.setItems harray fun v hv => ?_) fun _ _ => hnull
    rcases List.mem_or_eq_of_mem_set hv with hv | rfl
    · exact hh.items harray v hv
    · exact values_getD hargs 2
  case push =>
    refine .look hplace fun r _ _ hr => ?_
    have harray := array_argument hargs hr
    refine Keeps.bind (.addItems harray fun h hh => ?_) fun _ _ => hnull
    exact values_append (hh.items harray) (values_drop hargs 1)
  case unshift =>
    refine .look hplace fun r _ _ hr => ?_
    have harray := array_argument hargs hr
    refine Keeps.bind (.addItems harray fun h hh => ?_) fun _ _ => hnull
    exact values_append (fun v hv => values_drop hargs 1 v (List.mem_reverse.mp hv)) (hh.items harray)
  case pop =>
    refine .look hplace fun r _ _ hr => .onHeap fun h hh => ?_
    have harray := array_argument hargs hr
    refine Keeps.bind (.setItems harray fun v hv => ?_) fun _ _ => .pure (product_value ?_)
    · exact hh.items harray v (List.dropLast_subset _ hv)
    · cases hlast : (h.items r).getLast? with
      | none => exact trivial
      | some v => exact hh.items harray v (List.mem_of_getLast? hlast)
  case shift =>
    refine .look hplace fun r _ _ hr => .onHeap fun h hh => ?_
    have harray := array_argument hargs hr
    refine Keeps.bind (.setItems harray (values_drop (hh.items harray) 1)) fun _ _ => ?_
    refine .pure (product_value ?_)
    cases hitems : h.items r with
    | nil => exact trivial
    | cons v vs => exact hh.items harray v (hitems ▸ List.mem_cons_self)
  case slice =>
    refine .look hplace fun r _ _ hr => .look hplace fun start _ _ _ => ?_
    refine .look hplace fun finish _ _ _ => .onHeap fun h hh => .pure ?_
    exact product_map (values_drop (values_take (hh.items (array_argument hargs hr)) _) _)
  case insert =>
    refine .look hplace fun r _ _ hr => .look hplace fun index _ _ _ => .onHeap fun h hh => ?_
    refine .look hplace fun k _ _ _ => ?_
    have harray := array_argument hargs hr
    refine Keeps.bind (.addItems harray fun _ _ => ?_) fun _ _ => hnull
    have hxs := hh.items harray
    exact values_append (values_append (values_take hxs k) (values_drop hargs 2)) (values_drop hxs k)
  case remove => exact .of_eq rfl (removeItems_keeps hplace hargs)
  case clear =>
    refine .look hplace fun r _ _ hr => ?_
    exact Keeps.bind (.setItems (array_argument hargs hr) values_nil) fun _ _ => hnull
  case flat =>
    refine .look hplace fun r _ _ hr => ?_
    have hflat (depth : Float) : R.Does T (do
        let parts ← flatten s.frames depth (← items r)
        return listProduct parts) R.product := by
      refine .onHeap fun h hh => (flatten_keeps _ depth (hh.items ?_)).then_return fun _ hvs => ?_
      · exact array_argument hargs hr
      · exact product_map hvs
    dsimp only
    split <;>
      exact .look hplace fun depth _ _ _ => .ite (.fail hplace _ _) (hflat depth)
  case unpack => exact .of_eq rfl (unpackArray_keeps hplace hctx.scope hargs)
  case indexOf | lastIndexOf => exact .look hplace fun r _ _ _ => .onHeap fun _ _ => hcount _
  case includes =>
    exact .look hplace fun r _ _ _ => .onHeap fun _ _ => .pure (product_scalar trivial)
  case sort =>
    refine .look hplace fun r _ _ hr => ?_
    have harray := array_argument hargs hr
    split
    · rename_i v hv
      have hvalue : R.value v := hargs v (List.mem_of_getElem? hv)
      refine .look hplace fun f _ _ hf => sortArray_keeps hpos harray fun hx hy => ?_
      rw [Site.function_eq hf] at hvalue
      exact callbackLess_keeps he hctx hpos hvalue hx hy
    · refine .onHeap fun _ _ => .ite ?_ (.fail hplace _ _)
      refine sortArray_keeps hpos harray fun _ _ => ?_
      unfold plainLess
      split <;> exact .pure trivial
  case forEach =>
    refine .look hplace fun r _ _ hr => .look hplace fun f _ _ hf => .onHeap fun h hh => ?_
    have harray := array_argument hargs hr
    exact (iterate_keeps he hctx hpos harray (function_argument hargs hf) 0
      (hh.items harray)).then_return fun _ _ => product_scalar trivial
  case map =>
    refine .look hplace fun r _ _ hr => .look hplace fun f _ _ hf => .onHeap fun h hh => ?_
    have harray := array_argument hargs hr
    exact (iterate_keeps he hctx hpos harray (function_argument hargs hf) 0
      (hh.items harray)).then_return fun _ hvs => product_map hvs
  case filter =>
    refine .look hplace fun r _ _ hr => .look hplace fun f _ _ hf => .onHeap fun h hh => ?_
    have harray := array_argument hargs hr
    exact (keepWhere_keeps he hctx hpos harray (function_argument hargs hf) 0
      (hh.items harray)).then_return fun _ hvs => product_map hvs

/-- **Core operations keep to a realm.** -/
theorem CoreOp.run_keeps {op : CoreOp} (hprint : op = .print → T.Echoes) :
    R.Keeps T (op.run s args) (op.run { s with engine := e' } args) R.product := by
  have hplace := R.place_of_site hpos
  have hnames (names : List String) : R.Does T (pure (namesProduct names)) R.product :=
    .pure (product_map fun _ _ => trivial)
  cases op
  case help =>
    refine .look hplace fun f _ _ _ => .onHeap fun h _ => ?_
    split <;> exact .pure (product_scalar trivial)
  case dir =>
    simp only [CoreOp.run]
    split
    · exact .onHeap fun _ _ => hnames _
    · exact .look hplace fun d _ _ _ => .onHeap fun _ _ => hnames _
  case exist => exact .look hplace fun name _ _ _ => .onHeap fun _ _ => .pure (product_scalar trivial)
  case get =>
    refine .look hplace fun name _ _ _ => .onHeap fun h hh => ?_
    split
    · rename_i v hv
      exact .pure (product_value (hh.read? hctx.scope hv))
    · exact .fail hplace _ _
  case set =>
    have hv := values_getD hargs 1
    refine .look hplace fun name _ _ _ => Keeps.bind (.assign hctx.scope name hv) fun _ _ => ?_
    exact .pure (product_value hv)
  case typeOf | boolean => exact .pure (product_scalar trivial)
  case number =>
    simp only [CoreOp.run]
    split
    · exact .pure (product_scalar trivial)
    · exact .fail hplace _ _
  case string => exact .onHeap fun _ _ => .pure (product_scalar trivial)
  case print => exact .of_eq rfl (printValues_keeps (hprint rfl))
  case branch =>
    refine .look hplace fun condition _ _ _ => Keeps.then_return (.newFunction trivial) ?_
    exact fun _ hv => product_value hv
  case choose =>
    refine .look hplace fun condition _ _ _ => .look hplace fun yes _ _ hyes => ?_
    refine .look hplace fun no _ _ hno => ?_
    have hchosen : R.function (if condition then yes else no) := by
      split
      · exact function_argument hargs hyes
      · exact function_argument hargs hno
    exact (invoke_keeps he hctx hpos hchosen values_nil).then_return
      fun _ hv => product_value hv
  case repeating =>
    have hlimit : loopLimit { s with engine := e' } = loopLimit s :=
      (loopLimit_withLimit s.engine e' s.ctx s.ctx.settings.maxDepth s.pos).symm
    simp only [CoreOp.run, hlimit]
    refine .look hplace fun condition _ _ hcondition => ?_
    refine .look hplace fun limit _ _ _ => ?_
    exact Keeps.then_return (.newFunction (function_argument hargs hcondition))
      fun _ hv => product_value hv

/-- **Probes keep to a realm.** -/
theorem ProbeOp.run_keeps (op : ProbeOp) :
    R.Keeps T (op.run s args) (op.run { s with engine := e' } args) R.product := by
  have hplace := R.place_of_site hpos
  have hcoordinate (c : Option Int) : R.product (coordinateProduct c) := by
    cases c with
    | none => exact product_scalar trivial
    | some n => exact .integer n trivial
  cases op
  case callSite =>
    refine .pure (.sequence (List.forall_mem_cons.mpr ⟨hcoordinate _, ?_⟩))
    refine List.forall_mem_cons.mpr ⟨hcoordinate _, List.forall_mem_singleton.mpr ?_⟩
    exact product_scalar trivial
  case apply =>
    refine .look hplace fun f _ _ hf => ?_
    exact (callWithValues_keeps he hctx hpos (function_argument hargs hf)
      (values_drop hargs 1)).then_return fun _ hv => product_value hv
  case count => exact .pure (.integer _ trivial)
  case document =>
    refine .look hplace fun usage _ _ _ => .look hplace fun f _ _ hf => ?_
    have hfunction := function_argument hargs hf
    refine Keeps.bind (.modifyHeap fun h hh => hh.documented hfunction usage) fun _ _ => ?_
    exact .pure (product_value hfunction)

/-- **Every native operation inside a realm keeps to it.** -/
theorem Operation.run_keeps {op : Operation} (hop : R.operation op)
    (hprint : op = .core .print → T.Echoes) :
    R.Keeps T (op.run s args) (op.run { s with engine := e' } args) R.product := by
  have hplace := R.place_of_site hpos
  cases op with
  | core op => exact CoreOp.run_keeps he hctx hpos hargs fun h => hprint (congrArg _ h)
  | array op => exact ArrayOp.run_keeps he hctx hpos hargs op
  | string op =>
    exact .of_eq (StringOp.run_withLimit s.engine e' s.ctx s.ctx.settings.maxDepth s.pos args op) (StringOp.run_keeps hplace op hargs)
  | dict op => exact .of_eq (by cases op <;> rfl) (DictOp.run_keeps hplace op hargs)
  | math op => exact .of_eq (by cases op <;> rfl) (MathOp.run_keeps hplace op)
  | data format op => exact .of_eq (by cases op <;> rfl) (DataOp.run_keeps hplace format op)
  | probe op => exact ProbeOp.run_keeps he hctx hpos hargs op
  | branch condition => exact runBranch_keeps he hctx hpos hargs condition
  | loop condition limit => exact runLoop_keeps he hctx hpos hargs hop limit
  | method host k => exact .of_eq rfl (runMethod_keeps hplace host k hargs)
  | idle => exact .pure (product_scalar trivial)

/-- **Native calls keep to a realm.** -/
theorem callNative_keeps {f : NativeFunction} (hf : R.operation f.operation)
    (hprint : f.operation = .core .print → T.Echoes) :
    R.Keeps T (callNative s f args) (callNative { s with engine := e' } f args) R.value := by
  have hplace := R.place_of_site hpos
  refine .ite ?_ (.fail hplace _ _)
  have hrun := Operation.run_keeps he hctx hpos hargs hf hprint
  refine (hrun.guarded hplace s.ctx).bind fun product hproduct m m' hm hb => ?_
  have hhost : f.operation.host? m' = f.operation.host? m := by
    unfold Operation.host?
    rw [hb.hosts]
  show R.Ends T R.value (s.receive (f.operation.host? m) product m)
    (Site.receive { s with engine := e' } (f.operation.host? m') product m')
  rw [hhost]
  have hreceive : R.Does T (s.receive (f.operation.host? m) product) R.value :=
    receive_keeps hplace _ hproduct
  exact (Keeps.of_eq (Site.receive_withLimit s.engine e' s.ctx s.ctx.settings.maxDepth s.pos _ product) hreceive) hm hb

end Callbacks

end Realm

end RuleScript
