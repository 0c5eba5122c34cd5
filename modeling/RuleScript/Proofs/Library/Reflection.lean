/-
# Reflection on names

`dir`, `exist`, `get` and `set` look at the names that are visible from the scope
they are called in. A word looks a name up by a way of its own, but all of them see
the same names.

The visible names are collected scope by scope, and each scope adds the names that
are not listed yet. A name that is not listed yet when its scope's turn comes is one
that no inner scope binds. So every name stands where its nearest scope puts it
(`Heap.visibleNames_eq`), and being listed is the same as being found by look-up
(`Heap.mem_visibleNames`).

To set a visible name changes no list. To set one that was not visible adds it to the
scope of the call, and there it stands behind the names that were there
(`Heap.visibleNames_assign`).

Key definitions: `Heap.BindsOnce`, `Lists`, `RaisesReferenceError`.
Key theorems: `Heap.visibleNames_eq`, `Heap.mem_visibleNames`,
`Heap.nodup_visibleNames`, `Heap.visibleNames_assign`, `reflection_agrees_with_lookup`.
-/
import RuleScript.Proofs.Calls.Scoping
import RuleScript.Proofs.Heap.Visibility
import RuleScript.Proofs.Library.Failure
import RuleScript.Proofs.Values.Delivery
import RuleScript.Proofs.Values.Results

namespace RuleScript

/-! ### The visible names -/

namespace Heap

variable {h h' : Heap} {s t r : ScopeRef} {x y : String} {v : Value}

/-- Every scope binds a name once at most. -/
def BindsOnce (h : Heap) : Prop := ∀ s, (h.bindings s).names.Nodup

namespace BindsOnce

theorem define (hh : h.BindsOnce) (r : ScopeRef) (x : String) (v : Value) :
    (h.define r x v).BindsOnce := by
  intro s
  rcases scope_define (h := h) r s x v with hsame | ⟨-, hset⟩
  · have hbindings : (h.define r x v).bindings s = h.bindings s := congrArg Scope.bindings hsame
    rw [hbindings]
    exact hh s
  · have hbindings : (h.define r x v).bindings s = (h.bindings s).set x v :=
      congrArg Scope.bindings hset
    rw [hbindings]
    exact Table.nodup_names_set x v (hh s)

theorem assign (hh : h.BindsOnce) (s : ScopeRef) (x : String) (v : Value) :
    (h.assign s x v).BindsOnce := hh.define (h.receiver s x) x v

/-- A function that is called binds its parameters in a new scope, one after another. -/
theorem newScope (hh : h.BindsOnce) (parent : Option ScopeRef) (params : List String)
    (args : List Value) : (h.newScope parent (bindParameters params args [])).2.BindsOnce := by
  have honce : ∀ (params : List String) (args : List Value) (t : Table Value), t.names.Nodup →
      (bindParameters params args t).names.Nodup := by
    intro params
    induction params with
    | nil => exact fun _ _ ht => ht
    | cons p params ih => exact fun args t ht => ih args.tail _ (Table.nodup_names_set p _ ht)
  intro s
  unfold bindings
  rw [scope_newScope]
  split
  · exact honce params args [] List.nodup_nil
  · exact hh s

end BindsOnce

/-- Scopes outward from one are older and older. -/
theorem Walk.pairwise (hh : h.WellFormed) {scopes : List ScopeRef} (hs : h.Walk s scopes) :
    scopes.Pairwise fun a b => b.index < a.index := by
  induction hs with
  | last => exact List.pairwise_singleton _ _
  | @step s p rest hp hrest ih =>
    have hparent : p.index < s.index := hh.inside s p hp
    refine List.pairwise_cons.mpr ⟨fun t ht => ?_, ih⟩
    have hle : t.index ≤ p.index := by
      cases hrest with
      | last =>
        rw [List.mem_singleton.mp ht]
      | step =>
        rcases List.mem_cons.mp ht with rfl | ht
        · exact Nat.le_refl _
        · exact Nat.le_of_lt ((List.pairwise_cons.mp ih).1 t ht)
    omega

/-- **No scope comes twice on the way outward.** -/
theorem WellFormed.nodup_chain (hh : h.WellFormed) (hs : h.HasScope s) : (h.chain s).Nodup := by
  refine ((hh.walk_chain hs).pairwise hh).imp fun {a b} hlt => ?_
  rintro rfl
  exact Nat.lt_irrefl _ hlt

theorem chain_eq_cons (hs : h.HasScope s) : ∃ outer, h.chain s = s :: outer := by
  obtain ⟨n, hn⟩ : ∃ n, h.scopes.size = n + 1 := by
    have hlt : s.index < h.scopes.size := hs
    exact ⟨h.scopes.size - 1, by omega⟩
  unfold chain
  rw [hn]
  exact ⟨_, rfl⟩

/-- What some scopes add to a list of names: those of their names that are not listed
and that none of the scopes before binds. -/
def newNames (h : Heap) (scopes : List ScopeRef) (listed : List String) : List String :=
  scopes.flatMap fun t => (h.bindings t).names.filter fun x =>
    x ∉ listed ∧ scopes.find? (fun s => (h.bindings s).has x) = some t

theorem foldl_addNames (h : Heap) : ∀ (scopes : List ScopeRef) (listed : List String), scopes.Nodup →
    scopes.foldl (fun listed s => addNames listed (h.bindings s).names) listed =
      listed ++ h.newNames scopes listed
  | [], listed, _ => (List.append_nil listed).symm
  | s :: scopes, listed, hnodup => by
    obtain ⟨hs, hscopes⟩ := List.nodup_cons.mp hnodup
    rw [List.foldl_cons, foldl_addNames h scopes _ hscopes, newNames, newNames, List.flatMap_cons,
      addNames, List.append_assoc]
    congr 2
    · refine List.filter_congr fun x hx => ?_
      have hfind : (s :: scopes).find? (fun s => (h.bindings s).has x) = some s :=
        List.find?_cons_of_pos ((Table.mem_names_iff x _).mp hx)
      simp [hfind]
    · refine List.flatMap_congr fun t ht => List.filter_congr fun x _ => ?_
      have hne : s ≠ t := by
        rintro rfl
        exact hs ht
      by_cases hx : x ∈ (h.bindings s).names
      · have hfind : (s :: scopes).find? (fun s => (h.bindings s).has x) = some s :=
          List.find?_cons_of_pos ((Table.mem_names_iff x _).mp hx)
        simp [hfind, hne, hx]
      · have hhas : ¬(h.bindings s).has x = true := fun hhas => hx ((Table.mem_names_iff x _).mpr hhas)
        have hfind : (s :: scopes).find? (fun s => (h.bindings s).has x) =
            scopes.find? fun s => (h.bindings s).has x := List.find?_cons_of_neg hhas
        simp [hfind, hx]

/-- **Every visible name stands where its nearest scope puts it.** -/
theorem visibleNames_eq (hh : h.WellFormed) (hs : h.HasScope s) :
    h.visibleNames s = (h.chain s).flatMap fun t =>
      (h.bindings t).names.filter fun x => h.owner? s x = some t := by
  unfold visibleNames
  rw [foldl_addNames h _ _ (hh.nodup_chain hs), List.nil_append, newNames]
  simp only [List.not_mem_nil, not_false_eq_true, true_and]
  rfl

/-- **The names that are listed are those that look-up finds.** -/
theorem mem_visibleNames (hh : h.WellFormed) (hs : h.HasScope s) :
    x ∈ h.visibleNames s ↔ (h.owner? s x).isSome = true := by
  rw [visibleNames_eq hh hs, List.mem_flatMap, Option.isSome_iff_exists]
  constructor
  · rintro ⟨t, -, hx⟩
    exact ⟨t, of_decide_eq_true (List.mem_filter.mp hx).2⟩
  · rintro ⟨t, ht⟩
    have hhas : (h.bindings t).has x = true := List.find?_some (p := fun s => (h.bindings s).has x) ht
    have hmem : x ∈ (h.bindings t).names := (Table.mem_names_iff x _).mpr hhas
    exact ⟨t, List.mem_of_find?_eq_some ht, List.mem_filter.mpr ⟨hmem, decide_eq_true ht⟩⟩

/-- **No name is listed twice.** -/
theorem nodup_visibleNames (hh : h.WellFormed) (honce : h.BindsOnce) (hs : h.HasScope s) :
    (h.visibleNames s).Nodup := by
  rw [visibleNames_eq hh hs]
  refine List.nodup_flatMap.mpr ⟨fun t _ => (honce t).filter _, ?_⟩
  refine (hh.nodup_chain hs).imp fun {a b} hne x hxa hxb => ?_
  have ha : h.owner? s x = some a := of_decide_eq_true (List.mem_filter.mp hxa).2
  have hb : h.owner? s x = some b := of_decide_eq_true (List.mem_filter.mp hxb).2
  exact hne (Option.some.inj (ha.symm.trans hb))

/-- A name has a value exactly if look-up finds a scope for it. -/
theorem read?_eq_none_iff : h.read? s x = none ↔ h.owner? s x = none := by
  rw [read?_eq_owner?]
  cases ho : h.owner? s x with
  | none => simp
  | some o =>
    have hhas : (h.bindings o).has x = true := List.find?_some (p := fun s => (h.bindings s).has x) ho
    have hget : (h.bindings o).get? x ≠ none := by
      rw [← Option.isSome_iff_ne_none]
      exact hhas
    simp [hget]

/-! ### What an assignment adds -/

/-- The list depends on the scopes and on their names only. -/
theorem visibleNames_congr (hchain : h'.chain s = h.chain s)
    (hnames : ∀ t ∈ h.chain s, (h'.bindings t).names = (h.bindings t).names) :
    h'.visibleNames s = h.visibleNames s := by
  unfold visibleNames
  rw [hchain]
  exact List.foldl_ext _ _ _ fun listed t ht => by rw [hnames t ht]

theorem Adds.visibleNames (hadds : h.Adds h') (s : ScopeRef) : h'.visibleNames s = h.visibleNames s := by
  refine visibleNames_congr ?_ fun t _ => ?_
  · rw [chain, chain, hadds.scopes, hadds.chainFrom]
  · rw [bindings, bindings, scope, scope, hadds.scopes]

/-- To set a name that is visible changes no list. -/
theorem visibleNames_assign_visible (hx : (h.owner? s x).isSome = true) (v : Value) :
    (h.assign s x v).visibleNames s = h.visibleNames s := by
  obtain ⟨o, ho⟩ := Option.isSome_iff_exists.mp hx
  have hhas : (h.bindings o).has x = true := List.find?_some (p := fun s => (h.bindings s).has x) ho
  have hassign : h.assign s x v = h.define o x v := by rw [assign, receiver, ho, Option.getD_some]
  rw [hassign]
  refine visibleNames_congr (chain_define o s) fun t _ => ?_
  by_cases ht : t = o
  · rw [ht, bindings_define (lt_of_has hhas), Table.names_set_of_has x v hhas]
  · rw [bindings_define_of_ne ht]

/-- **To set a name that is not visible puts it behind the names of the scope it is set
from.** -/
theorem visibleNames_assign_new (hh : h.WellFormed) (hs : h.HasScope s) (hx : h.owner? s x = none)
    (v : Value) : ∃ outer, h.visibleNames s = (h.bindings s).names ++ outer ∧
      (h.assign s x v).visibleNames s = (h.bindings s).names ++ x :: outer := by
  obtain ⟨scopes, hchain⟩ := chain_eq_cons hs
  have hlacks : ∀ t ∈ h.chain s, x ∉ (h.bindings t).names := by
    intro t ht hmem
    have hnone := List.find?_eq_none.mp hx t ht
    exact hnone ((Table.mem_names_iff x _).mp hmem)
  have hnodup := hh.nodup_chain hs
  rw [hchain] at hlacks hnodup
  obtain ⟨hself, houter⟩ := List.forall_mem_cons.mp hlacks
  obtain ⟨hs', hscopes⟩ := List.nodup_cons.mp hnodup
  have hassign : h.assign s x v = h.define s x v := by rw [assign, receiver, hx, Option.getD_none]
  have hnames : ((h.define s x v).bindings s).names = (h.bindings s).names ++ [x] := by
    rw [bindings_define hs, Table.names_set_of_not_mem v hself]
  have hrest (listed : List String) :
      scopes.foldl (fun listed t => addNames listed ((h.define s x v).bindings t).names) listed =
        scopes.foldl (fun listed t => addNames listed (h.bindings t).names) listed := by
    refine List.foldl_ext _ _ _ fun listed t ht => ?_
    have hne : t ≠ s := by
      rintro rfl
      exact hs' ht
    rw [bindings_define_of_ne hne]
  have hfirst (names : List String) : addNames [] names = names := by simp [addNames]
  have hsame : h.newNames scopes ((h.bindings s).names ++ [x]) =
      h.newNames scopes (h.bindings s).names := by
    refine List.flatMap_congr fun t ht => List.filter_congr fun y hy => ?_
    have hne : y ≠ x := by
      rintro rfl
      exact houter t ht hy
    simp [hne]
  refine ⟨h.newNames scopes (h.bindings s).names, ?_, ?_⟩
  · rw [visibleNames, hchain, List.foldl_cons, hfirst, foldl_addNames h _ _ hscopes]
  · rw [visibleNames, hassign, chain_define, hchain, List.foldl_cons, hfirst, hnames, hrest,
      foldl_addNames h _ _ hscopes, hsame, List.append_assoc]
    rfl

end Heap

/-! ### What a copy may stop with -/

/-- Whatever a computation stops with has a property. -/
def Eval.StopsWith {α : Type} (P : Stop → Prop) (x : Eval α) : Prop :=
  ∀ m stop m', x m = (.error stop, m') → P stop

namespace Eval.StopsWith

variable {α β : Type} {P : Stop → Prop}

/-- What always returns does not stop. -/
theorem of_ok {x : Eval α} (hx : ∀ m, ∃ a m', x m = (.ok a, m')) : StopsWith P x := by
  intro m stop m' h
  obtain ⟨a, m₁, hrun⟩ := hx m
  rw [hrun] at h
  cases h

theorem throw {stop : Stop} (h : P stop) : StopsWith P (throw stop : Eval α) := by
  rintro m _ m' ⟨⟩
  exact h

theorem bind {x : Eval α} {f : α → Eval β} (hx : StopsWith P x) (hf : ∀ a, StopsWith P (f a)) :
    StopsWith P (x >>= f) := by
  intro m stop m' h
  rw [Eval.bind_run] at h
  rcases hr : x m with ⟨stop' | a, m₁⟩
  · rw [hr] at h
    cases h
    exact hx m _ _ hr
  · rw [hr] at h
    exact hf a _ _ _ h

end Eval.StopsWith

/-- A ReferenceError of a script. -/
def Stop.IsReferenceError : Stop → Prop
  | .fault f => f.cause.kind = .reference
  | _ => False

/-- To raise no ReferenceError passes from the steps to what is put together
from them. -/
theorem stopsWith_builds : Eval.Builds (Eval.StopsWith (¬·.IsReferenceError)) where
  pure _ := .of_ok fun _ => ⟨_, _, rfl⟩
  exhausted := .throw id
  onHeap _ := .of_ok fun _ => ⟨_, _, rfl⟩
  bind := .bind
  newArray _ := .of_ok fun _ => ⟨_, _, rfl⟩
  newDict _ := .of_ok fun _ => ⟨_, _, rfl⟩
  tooLarge := .throw id

/-- To hand a value back raises no ReferenceError. -/
theorem receive_stopsWith (s : Site) (host : Option (Nat × Host)) (v : Value) :
    Eval.StopsWith (¬·.IsReferenceError) (s.receive host (.value v)) := by
  have hcopy := s.copyValue_of_builds stopsWith_builds (fun _ => .throw (by rintro ⟨⟩)) s.frames v
  cases v with
  | absent => exact .of_ok fun _ => ⟨_, _, rfl⟩
  | null | bool | number | string | array | dict | function => exact hcopy

/-! ### The natives -/

/-- A run ended with a ReferenceError. -/
def RaisesReferenceError (r : Except Stop Value × Machine) : Prop :=
  ∃ stop, r.1 = .error stop ∧ stop.IsReferenceError

/-- What `dir()` gives: a new array of names. -/
def Lists (s : Site) (m : Machine) (names : List String) : Prop :=
  HandsStrings names m (callNative s CoreOp.dir.native [] m)

section Natives

variable {s : Site} {m : Machine} {x : String} {v : Value}

theorem dir_lists (s : Site) (m : Machine) : Lists s m (m.heap.visibleNames s.ctx.scope) := by
  let names := m.heap.visibleNames s.ctx.scope
  have hnames : namesProduct names = listProduct (names.map .string) := by
    rw [namesProduct, listProduct, List.map_map]
    rfl
  have hrun : CoreOp.dir.native.operation.run s [] m = (.ok (listProduct (names.map .string)), m) := by
    rw [← hnames]
    rfl
  rw [Lists, callNative_of_ok rfl hrun]
  exact receive_handsStrings s _ names m

theorem callNative_exist (s : Site) (m : Machine) (x : String) :
    callNative s CoreOp.exist.native [.string x] m =
      (.ok (.bool (m.heap.owner? s.ctx.scope x).isSome), m) := rfl

/-- `get` raises a ReferenceError exactly for the names that look-up does not find. -/
theorem callNative_get_raises (s : Site) (m : Machine) (x : String) :
    RaisesReferenceError (callNative s CoreOp.get.native [.string x] m) ↔
      m.heap.owner? s.ctx.scope x = none := by
  have hlook : Eval.onHeap (·.read? s.ctx.scope x) m = (.ok (m.heap.read? s.ctx.scope x), m) := rfl
  rw [← Heap.read?_eq_none_iff]
  cases hread : m.heap.read? s.ctx.scope x with
  | none =>
    rw [hread] at hlook
    have hrun : CoreOp.get.native.operation.run s [.string x] m =
        s.fail (.undefinedVariable x) m := by
      simp only [CoreOp.native, Signature.native, Operation.run, CoreOp.run, List.getD_cons_zero,
        Site.string, pure_bind]
      rw [Eval.bind_run_ok hlook]
    rw [callNative_of_fault s _ rfl hrun]
    exact ⟨fun _ => rfl, fun _ => ⟨_, rfl, rfl⟩⟩
  | some v =>
    rw [hread] at hlook
    have hrun : CoreOp.get.native.operation.run s [.string x] m = (.ok (.value v), m) := by
      simp only [CoreOp.native, Signature.native, Operation.run, CoreOp.run, List.getD_cons_zero,
        Site.string, pure_bind]
      rw [Eval.bind_run_ok hlook]
      rfl
    rw [callNative_of_ok rfl hrun]
    refine ⟨fun hraises => ?_, fun hnone => by cases hnone⟩
    obtain ⟨stop, hstop, href⟩ := hraises
    exact absurd href (receive_stopsWith s _ v m stop _ (Prod.ext hstop rfl))

/-- A word raises a ReferenceError exactly for the names that look-up does not find. -/
theorem evaluate_word_raises (e : Engine) (ctx : Context) (pos : Position) (x : String) (m : Machine) :
    RaisesReferenceError (evaluateList e ctx [.word pos x] m) ↔
      m.heap.owner? ctx.scope x = none := by
  have hword : evaluateList e ctx [.word pos x] =
      Eval.fire ctx "RULE" Rule.word.name pos >>= fun _ => readVariable ctx pos x :=
    evaluateList_primary e ctx (p := .word pos x) rfl
  obtain ⟨m₁, hfire, hheap, -, -⟩ := Eval.fire_run ctx "RULE" Rule.word.name pos m
  have hlook : Eval.onHeap (·.read? ctx.scope x) m₁ = (.ok (m.heap.read? ctx.scope x), m₁) := by
    rw [← hheap]
    rfl
  rw [hword, Eval.bind_run_ok hfire, readVariable, Eval.bind_run_ok hlook, ← Heap.read?_eq_none_iff]
  cases m.heap.read? ctx.scope x with
  | none => exact ⟨fun _ => rfl, fun _ => ⟨_, rfl, rfl⟩⟩
  | some v =>
    refine ⟨fun hraises => ?_, fun hnone => by cases hnone⟩
    obtain ⟨stop, hstop, -⟩ := hraises
    cases hstop

/-- A word that has a value evaluates to it. -/
theorem evaluate_word (e : Engine) {ctx : Context} (pos : Position)
    (hread : m.heap.read? ctx.scope x = some v) :
    ∃ m', evaluateList e ctx [.word pos x] m = (.ok v, m') ∧ m'.heap = m.heap := by
  have hreduce := reduce_word e pos hread
  obtain ⟨w, m', hrun, ⟨rfl, hheap⟩, -, -⟩ := hreduce
  have hlist : evaluateList e ctx [.word pos x] = reduce e ctx [.word pos x] >>= pure := rfl
  rw [hlist, bind_pure]
  exact ⟨m', hrun, hheap⟩

theorem callNative_assigns (s : Site) (m : Machine) (x : String) (v : Value) :
    ∃ h, (callNative s CoreOp.set.native [.string x, v] m).2 = { m with heap := h } ∧
      (m.heap.assign s.ctx.scope x v).Adds h := by
  have hrun : CoreOp.set.native.operation.run s [.string x, v] m =
      (.ok (.value v), { m with heap := m.heap.assign s.ctx.scope x v }) := rfl
  rw [callNative_of_ok rfl hrun]
  exact (receive_adding s _ _).adds _

end Natives

/-- **Reflection agrees with look-up.** In a scope of a well-formed heap whose scopes
bind every name once, `dir()` lists the names that have a nearest scope, each once and
where that scope puts it: inner scopes first, and the names of one scope in the order
in which they came. `exist` holds for the names that `dir()` lists, and they are those
for which neither the word nor `get` raises a ReferenceError. When `set` has been called,
the word evaluates to what it was set to, and `dir()` lists the same names, or one more
if it was not visible, behind the names of the scope of the call. -/
theorem reflection_agrees_with_lookup (s : Site) (m : Machine) (hm : m.heap.WellFormed)
    (honce : m.heap.BindsOnce) (hs : m.heap.HasScope s.ctx.scope) (e : Engine) (pos : Position) :
    ∃ names, Lists s m names ∧ names.Nodup ∧
      (names = (m.heap.chain s.ctx.scope).flatMap fun t =>
        (m.heap.bindings t).names.filter fun x => m.heap.owner? s.ctx.scope x = some t) ∧
      (∀ x, (x ∈ names ↔ ∃ o, m.heap.Nearest x s.ctx.scope o) ∧
        callNative s CoreOp.exist.native [.string x] m = (.ok (.bool (decide (x ∈ names))), m) ∧
        (x ∈ names ↔ ¬RaisesReferenceError (evaluateList e s.ctx [.word pos x] m)) ∧
        (x ∈ names ↔ ¬RaisesReferenceError (callNative s CoreOp.get.native [.string x] m))) ∧
      ∀ x v, ∃ m' names', (callNative s CoreOp.set.native [.string x, v] m).2 = m' ∧
        (∃ m'', evaluateList e s.ctx [.word pos x] m' = (.ok v, m'')) ∧
        m'.heap.BindsOnce ∧ Lists s m' names' ∧
        (x ∈ names → names' = names) ∧
        (x ∉ names → ∃ outer, names = (m.heap.bindings s.ctx.scope).names ++ outer ∧
          names' = (m.heap.bindings s.ctx.scope).names ++ x :: outer) := by
  have hfound (x : String) : x ∈ m.heap.visibleNames s.ctx.scope ↔
      ¬m.heap.owner? s.ctx.scope x = none := by
    rw [Heap.mem_visibleNames hm hs, Option.isSome_iff_ne_none]
  refine ⟨m.heap.visibleNames s.ctx.scope, dir_lists s m, Heap.nodup_visibleNames hm honce hs,
    Heap.visibleNames_eq hm hs, fun x => ⟨?_, ?_, ?_, ?_⟩, fun x v => ?_⟩
  · rw [hfound, Heap.owner?_eq_none_iff]
    push Not
    rfl
  · have hexist : (m.heap.owner? s.ctx.scope x).isSome = decide (x ∈ m.heap.visibleNames s.ctx.scope) := by
      rw [Bool.eq_iff_iff, decide_eq_true_eq, Heap.mem_visibleNames hm hs]
    rw [callNative_exist, hexist]
  · rw [evaluate_word_raises]
    exact hfound x
  · rw [callNative_get_raises]
    exact hfound x
  · obtain ⟨h, hset, hadds⟩ := callNative_assigns s m x v
    have hread : h.read? s.ctx.scope x = some v := by
      rw [hadds.read?]
      exact Heap.read?_assign hs x v
    obtain ⟨m'', hword, -⟩ := evaluate_word e (m := { m with heap := h }) pos hread
    have honce' : h.BindsOnce := by
      intro t
      have hbindings : h.bindings t = (m.heap.assign s.ctx.scope x v).bindings t := by
        rw [Heap.bindings, Heap.bindings, Heap.scope, Heap.scope, hadds.scopes]
      rw [hbindings]
      exact honce.assign s.ctx.scope x v t
    refine ⟨_, _, hset, ⟨m'', hword⟩, honce', dir_lists s _, fun hx => ?_, fun hx => ?_⟩
    · rw [hadds.visibleNames]
      exact Heap.visibleNames_assign_visible ((Heap.mem_visibleNames hm hs).mp hx) v
    · rw [hadds.visibleNames]
      refine Heap.visibleNames_assign_new hm hs ?_ v
      by_contra hfinds
      exact hx ((hfound x).mpr hfinds)

/-- A scope inside one that shadows a name of the root. -/
def shadowedScopes : Heap :=
  ⟨#[⟨[("a", .null), ("b", .bool false)], none⟩, ⟨[("b", .bool true)], some ⟨0⟩⟩, ⟨[], some ⟨1⟩⟩],
    #[], #[], #[]⟩

theorem shadowedScopes_wellFormed : shadowedScopes.WellFormed where
  items := by rintro r v ⟨⟩
  dict := by rintro r p ⟨⟩
  bindings := by
    rintro ⟨_ | _ | _ | i⟩ p hp
    · rcases List.mem_pair.mp hp with rfl | rfl <;> trivial
    · rcases List.mem_singleton.mp hp with rfl
      trivial
    · cases hp
    · cases hp
  functions := by rintro r f ⟨⟩
  inside := by
    rintro ⟨_ | _ | _ | i⟩ p hp
    · cases hp
    · cases hp
      exact Nat.zero_lt_one
    · cases hp
      exact Nat.one_lt_two
    · cases hp

theorem shadowedScopes_bindsOnce : shadowedScopes.BindsOnce := by
  rintro ⟨_ | _ | _ | i⟩
  · decide
  · decide
  · decide
  · exact List.nodup_nil

/-- The shadowed name is listed once, where the inner scope has it, and a new one goes
in front of it, into the scope of the call. -/
theorem reflection_agrees_with_lookup_shadowed :
    let s : Site := ⟨Engine.exhausted, ⟨⟨2⟩, "", ⟨none, "", false, .usual⟩⟩, ⟨some 1, some 1, 0⟩⟩
    let m : Machine := { Machine.initial with heap := shadowedScopes }
    Lists s m ["b", "a"] ∧
      ¬RaisesReferenceError (evaluateList Engine.exhausted s.ctx [.word s.pos "b"] m) ∧
      callNative s CoreOp.exist.native [.string "c"] m = (.ok (.bool false), m) ∧
      ∃ m', (callNative s CoreOp.set.native [.string "c", .null] m).2 = m' ∧
        Lists s m' ["c", "b", "a"] := by
  intro s m
  have hscope : m.heap.HasScope s.ctx.scope := show 2 < 3 by decide
  obtain ⟨names, hlists, -, hnames, hfound, hset⟩ :=
    reflection_agrees_with_lookup s m shadowedScopes_wellFormed shadowedScopes_bindsOnce hscope
      Engine.exhausted s.pos
  have hlisted : names = ["b", "a"] := hnames.trans rfl
  subst hlisted
  obtain ⟨m', names', hcall, -, -, hlists', -, hnew⟩ := hset "c" .null
  obtain ⟨outer, houter, hnames'⟩ := hnew (by decide)
  have hown : (m.heap.bindings s.ctx.scope).names = [] := rfl
  rw [hown, List.nil_append] at houter hnames'
  subst houter
  subst hnames'
  exact ⟨hlists, (hfound "b").2.2.1.mp (by decide), (hfound "c").2.1, m', hcall, hlists'⟩

end RuleScript
