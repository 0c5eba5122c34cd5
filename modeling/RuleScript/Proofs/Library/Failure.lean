/-
# Failed operations change nothing

An operation of the library takes its arguments apart and checks them before
it changes anything. So if it calls no function of the script and stops, every
scope, array, dict and function is as it was when the operation was entered,
whatever the arguments are and however they refer to each other
(`Operation.run_spares`). There are two exceptions. `parse` may have made arrays
and dicts by then; nothing refers to them. And a template that calls the
initialiser of a scope has emptied the scope, and may fail at what follows
(`render_onlyEmptied`, `failed_templates_empty_scopes`).

The argument has two parts. What looks at the machine leaves it alone
(`Eval.Looks`), and what changes the heap always returns (`Eval.Succeeds`); a
computation that does the second only after the first spares the heap when it
stops (`Eval.Spares`). The three are classes, so that the text of an operation
decides.

`Array.unpack` binds several names. It stops before the first of them is bound,
or binds them all (`unpackArray_cases`).

Key definitions: `Operation.callsBack`, `Eval.Succeeds`, `Eval.Spares`,
`Heap.OnlyEmptied`, `Heap.assignEach`, `Unpacked`.
Key theorems: `Operation.run_spares`, `Operation.run_adds`, `unpackArray_cases`,
`failed_natives_change_nothing`.
-/
import RuleScript.Proofs.Calls.Disguise
import RuleScript.Proofs.Heap.Assignment
import RuleScript.Proofs.Rendering
import RuleScript.Proofs.Values.Copy

namespace RuleScript

open Eval (Looks)

/-- The operations that may call a function of the script. `if` and `while`
make such an operation; they call nothing themselves. -/
def Operation.callsBack : Operation → Bool
  | .core .choose | .branch _ | .loop .. | .probe .apply => true
  | .array .sort | .array .forEach | .array .map | .array .filter => true
  | _ => false

/-! ### What always returns, and what spares the heap -/

/-- A computation that always returns. -/
class Eval.Succeeds {α : Type} (x : Eval α) : Prop where
  run : ∀ m, ∃ a m', x m = (.ok a, m')

/-- A computation that leaves the heap as it was when it stops. -/
class Eval.Spares {α : Type} (x : Eval α) : Prop where
  run : ∀ {m m' : Machine} {stop : Stop}, x m = (.error stop, m') → m'.heap = m.heap

namespace Eval

variable {α β : Type}

namespace Succeeds

instance (a : α) : Succeeds (pure a : Eval α) := ⟨fun m => ⟨a, m, rfl⟩⟩

instance (f : Heap → α) : Succeeds (onHeap f) := ⟨fun m => ⟨f m.heap, m, rfl⟩⟩

instance (f : Machine → Machine) : Succeeds (modify f : Eval Unit) := ⟨fun m => ⟨(), f m, rfl⟩⟩

instance (f : Heap → Heap) : Succeeds (modifyHeap f) := ⟨fun _ => ⟨(), _, rfl⟩⟩

instance (f : Heap → α × Heap) : Succeeds (allocate f) := ⟨fun m => ⟨(f m.heap).1, _, rfl⟩⟩

instance : Succeeds (get : Eval Machine) := ⟨fun m => ⟨m, m, rfl⟩⟩

instance bind {x : Eval α} {f : α → Eval β} [hx : Succeeds x] [hf : ∀ a, Succeeds (f a)] :
    Succeeds (x >>= f) where
  run m := by
    obtain ⟨a, m₁, hrun⟩ := hx.run m
    obtain ⟨b, m₂, hrun'⟩ := (hf a).run m₁
    exact ⟨b, m₂, (bind_run_ok hrun f).trans hrun'⟩

instance (f : Function) : Succeeds (newFunction f) :=
  inferInstanceAs (Succeeds (allocate _ >>= _))

instance (ctx : Context) (line : Unit → String) : Succeeds (note ctx line) := by
  unfold note
  split <;> infer_instance

end Succeeds

namespace Spares

instance of_looks {x : Eval α} [hx : Looks x] : Spares x where
  run {m m' stop} h := by
    have hm := (hx.run m).1
    rw [h] at hm
    exact congrArg Machine.heap hm

instance of_succeeds {x : Eval α} [hx : Succeeds x] : Spares x where
  run {m m' stop} h := by
    obtain ⟨a, m₁, hrun⟩ := hx.run m
    rw [hrun] at h
    cases h

/-- What comes after looking at the machine decides. -/
theorem look {x : Eval α} {f : α → Eval β} [hx : Looks x] (hf : ∀ a, Spares (f a)) :
    Spares (x >>= f) where
  run {m m' stop} h := by
    have hm := (hx.run m).1
    rw [bind_run] at h
    rcases hr : x m with ⟨stop' | a, m₁⟩
    · rw [hr] at h hm
      cases h
      exact congrArg Machine.heap hm
    · rw [hr] at h hm
      obtain rfl : m₁ = m := hm
      exact (hf a).run h

instance bind {x : Eval α} {f : α → Eval β} [Looks x] [hf : ∀ a, Spares (f a)] :
    Spares (x >>= f) := look hf

instance ite {c : Prop} [Decidable c] {x y : Eval α} [Spares x] [Spares y] :
    Spares (if c then x else y) := by
  split <;> infer_instance

end Spares

/-- A computation that only looks at the machine and returns goes on where it
stood. -/
theorem Looks.bind_ok {x : Eval α} {f : α → Eval β} [hx : Looks x] {m m' : Machine} {b : β}
    (h : (x >>= f) m = (.ok b, m')) : ∃ a, x m = (.ok a, m) ∧ f a m = (.ok b, m') := by
  have hm := (hx.run m).1
  rw [bind_run] at h
  rcases hr : x m with ⟨stop | a, m₁⟩
  · rw [hr] at h
    cases h
  · rw [hr] at h hm
    obtain rfl : m₁ = m := hm
    exact ⟨a, rfl, h⟩

/-- What looks at the machine adds nothing. -/
instance Adding.of_looks {x : Eval α} [hx : Looks x] : Adding x :=
  Adding.of_same fun m => (hx.run m).1

end Eval

open Eval (Spares Succeeds Adding)
open Site (items)

/-! ### The operations -/

instance flatten_looks (depth : Nat) (level : Float) (xs : List Value) :
    Looks (flatten depth level xs) := flatten_of_inspects Eval.looks_inspects depth level xs

section Operations

variable (s : Site) (args : List Value)

instance : Spares (createArray s args) := by
  unfold createArray
  split
  · infer_instance
  · refine .look fun size => ?_
    split <;> infer_instance

instance : Spares (removeItems s args) := by
  unfold removeItems
  refine .look fun r => .look fun index => .look fun xs => .look fun start => ?_
  split
  · infer_instance
  · refine .look fun count => ?_
    split <;> infer_instance

/-- A method of a host may change the host, but not the heap. -/
theorem runMethod_spares (host index : Nat) : Spares (runMethod s host index args) := by
  refine ⟨fun {m m' stop} h => ?_⟩
  have hget (f : Machine → Eval Product) : (get >>= f) m = f m m := rfl
  unfold runMethod at h
  rw [hget] at h
  cases ho : m.hosts[host]? with
  | none =>
    rw [ho] at h
    cases h
  | some o =>
    rw [ho] at h
    dsimp only at h
    cases hk : o.methods[index]? with
    | none =>
      rw [hk] at h
      cases h
    | some k =>
      rw [hk] at h
      dsimp only at h
      cases hresult : (k.run o.counters args).1 with
      | ok p =>
        rw [hresult] at h
        cases h
      | error f =>
        rw [hresult] at h
        cases h
        rfl

theorem StringOp.run_looks (op : StringOp) (hop : op ≠ .render) : Looks (op.run s args) := by
  cases op with
  | render => exact absurd rfl hop
  | join =>
    unfold StringOp.run
    refine .andThen fun r => .andThen fun xs => .andThen fun parts => ?_
    split <;> infer_instance
  | split =>
    unfold StringOp.run
    refine .andThen fun text => ?_
    split
    · infer_instance
    · refine .andThen fun separator => ?_
      split <;> infer_instance
  | indexOf | sizeOf | slice | toLowerCase | toUpperCase | trim =>
    unfold StringOp.run
    infer_instance

theorem DictOp.run_spares (op : DictOp) : Spares (op.run s args) := by
  cases op <;> unfold DictOp.run <;> infer_instance

theorem MathOp.run_spares (op : MathOp) : Spares (op.run s args) := by
  cases op <;> unfold MathOp.run <;> infer_instance

theorem CoreOp.run_spares (op : CoreOp) (hop : (Operation.core op).callsBack = false) :
    Spares (op.run s args) := by
  cases op with
  | choose => cases hop
  | help =>
    unfold CoreOp.run
    refine .look fun f => .look fun found => ?_
    split <;> infer_instance
  | dir =>
    cases args with
    | nil | cons v rest =>
      rw [CoreOp.run]
      infer_instance
  | get =>
    unfold CoreOp.run
    refine .look fun name => .look fun found => ?_
    split <;> infer_instance
  | number =>
    rw [CoreOp.run]
    split <;> infer_instance
  | print =>
    rw [CoreOp.run]
    unfold printValues
    infer_instance
  | boolean | exist | branch | set | string | typeOf | repeating =>
    rw [CoreOp.run]
    infer_instance

/-! ### Binding the names of an array -/

/-- Assign values to names from a scope, one after another. -/
def Heap.assignEach (h : Heap) (r : ScopeRef) (pairs : List (String × Value)) : Heap :=
  pairs.foldl (fun h p => h.assign r p.1 p.2) h

section Assigning

variable {h : Heap} {r : ScopeRef} {pairs : List (String × Value)}

theorem Heap.scopes_size_assignEach : (h.assignEach r pairs).scopes.size = h.scopes.size := by
  induction pairs generalizing h with
  | nil => rfl
  | cons p pairs ih =>
    have hassign : (h.assign r p.1 p.2).scopes.size = h.scopes.size := scopes_size_define _
    exact ih.trans hassign

/-- Only scopes change. -/
theorem Heap.assignEach_eq (h : Heap) (r : ScopeRef) (pairs : List (String × Value)) :
    ∃ scopes, h.assignEach r pairs = { h with scopes } := by
  induction pairs generalizing h with
  | nil => exact ⟨h.scopes, rfl⟩
  | cons p pairs ih =>
    obtain ⟨scopes, hrest⟩ := ih (h.assign r p.1 p.2)
    exact ⟨scopes, hrest⟩

/-- The names that are not assigned read as before. -/
theorem Heap.read?_assignEach_of_notMem {name : String} (hname : ∀ p ∈ pairs, p.1 ≠ name)
    (t : ScopeRef) : (h.assignEach r pairs).read? t name = h.read? t name := by
  induction pairs generalizing h with
  | nil => rfl
  | cons p pairs ih =>
    obtain ⟨hp, hrest⟩ := List.forall_mem_cons.mp hname
    calc (h.assignEach r (p :: pairs)).read? t name
        = (h.assign r p.1 p.2).read? t name := ih hrest
      _ = h.read? t name := read?_assign_of_ne hp r t

/-- A name reads as the last value that it was assigned. -/
theorem Heap.read?_assignEach {name : String} {v : Value} {before after : List (String × Value)}
    (hr : r.index < h.scopes.size) (hlast : ∀ p ∈ after, p.1 ≠ name) :
    (h.assignEach r (before ++ (name, v) :: after)).read? r name = some v := by
  have hsize : r.index < (h.assignEach r before).scopes.size := by
    rwa [Heap.scopes_size_assignEach]
  have hsplit : h.assignEach r (before ++ (name, v) :: after) =
      ((h.assignEach r before).assign r name v).assignEach r after := by
    unfold Heap.assignEach
    rw [List.foldl_append, List.foldl_cons]
  rw [hsplit, Heap.read?_assignEach_of_notMem hlast, Heap.read?_assign hsize]

end Assigning

/-- The names in one array were bound to the elements of another, from a scope.
Of the names that are there twice the last one counts; names beyond the last
element are bound to null. Nothing else changed. -/
structure Unpacked (r : ScopeRef) (xs : List Value) (names : List String) (h h' : Heap) : Prop where
  bound : ∀ i name, names[i]? = some name → name ∉ names.drop (i + 1) →
    h'.read? r name = some (xs.getD i .null)
  others : ∀ name, name ∉ names → ∀ t, h'.read? t name = h.read? t name
  arrays : h'.arrays = h.arrays
  dicts : h'.dicts = h.dicts
  functions : h'.functions = h.functions

namespace Unpacked

/-- The names, each with its element. -/
def pairs (xs : List Value) (names : List String) : List (String × Value) :=
  names.zipIdx.map fun p => (p.1, xs.getD p.2 .null)

variable {r : ScopeRef} {xs : List Value} {names : List String} {h : Heap}

theorem forM_assign_run (values : Nat → Value) (m : Machine) (ps : List (String × Nat)) :
    (ps.forM fun p => Eval.modifyHeap (·.assign r p.1 (values p.2))) m =
      (.ok (), { m with heap := m.heap.assignEach r (ps.map fun p => (p.1, values p.2)) }) := by
  induction ps generalizing m with
  | nil => rfl
  | cons p ps ih => exact (Eval.bind_run_ok rfl _).trans (ih _)

theorem names_pairs : (pairs xs names).map (·.1) = names := by
  unfold pairs
  rw [List.map_map]
  exact List.zipIdx_map_fst 0 names

theorem of_assignEach (hr : r.index < h.scopes.size) :
    Unpacked r xs names h (h.assignEach r (pairs xs names)) := by
  obtain ⟨scopes, hscopes⟩ := h.assignEach_eq r (pairs xs names)
  refine ⟨?_, ?_, ?_, ?_, ?_⟩
  · intro i name hi hlast
    obtain ⟨hlength, hget⟩ := List.getElem?_eq_some_iff.mp hi
    have hlength' : i < (pairs xs names).length := by
      rwa [← List.length_map (f := (·.1)), names_pairs]
    have hpair : (pairs xs names)[i] = (name, xs.getD i .null) := by
      simp [pairs, hget]
    have hsplit : pairs xs names =
        (pairs xs names).take i ++ (name, xs.getD i .null) :: (pairs xs names).drop (i + 1) := by
      rw [← hpair, ← List.drop_eq_getElem_cons hlength', List.take_append_drop]
    rw [hsplit]
    refine Heap.read?_assignEach hr fun p hp => ?_
    have hmem : p.1 ∈ ((pairs xs names).drop (i + 1)).map (·.1) := List.mem_map_of_mem hp
    rw [List.map_drop, names_pairs] at hmem
    rintro rfl
    exact hlast hmem
  · intro name hname t
    refine Heap.read?_assignEach_of_notMem (fun p hp => ?_) t
    have hmem : p.1 ∈ (pairs xs names).map (·.1) := List.mem_map_of_mem hp
    rw [names_pairs] at hmem
    rintro rfl
    exact hname hmem
  · rw [hscopes]
  · rw [hscopes]
  · rw [hscopes]

end Unpacked

theorem mapM_string {what : String} {m m' : Machine} {vs : List Value} {ts : List String}
    (h : vs.mapM (s.string what) m = (.ok ts, m')) : vs = ts.map .string := by
  induction vs generalizing ts with
  | nil =>
    cases h
    rfl
  | cons v vs ih =>
    rw [List.mapM_cons] at h
    obtain ⟨t, ht, h₁⟩ := Eval.Looks.bind_ok h
    obtain ⟨ts', hts', h₂⟩ := Eval.Looks.bind_ok h₁
    cases h₂
    rw [ih hts', List.map_cons]
    cases v <;> cases ht
    rfl

instance : Spares (unpackArray s args) := by
  unfold unpackArray
  refine .look fun r => .look fun names => .look fun names => .look fun names => ?_
  split
  all_goals
    refine .look fun loose => .look fun xs => ?_
    have hforM : Succeeds (names.zipIdx.forM fun p =>
        Eval.modifyHeap (·.assign s.ctx.scope p.1 (xs.getD p.2 .null))) :=
      ⟨fun m => ⟨(), _, Unpacked.forM_assign_run (fun i => xs.getD i .null) m _⟩⟩
    have hbind : Succeeds (do
        names.zipIdx.forM fun p => Eval.modifyHeap (·.assign s.ctx.scope p.1 (xs.getD p.2 .null))
        return .value .null : Eval Product) := inferInstance
    dsimp only
    split
    · infer_instance
    · exact @Spares.of_succeeds _ _ hbind

/-- What `unpack` does when it has its names. -/
theorem unpack_names (loose : Bool) {xs : ArrayRef} {names : List String} {m m' : Machine} {p : Product}
    (h : (do
      let xs ← items xs
      if xs.length < names.length && !loose then s.fail .notEnoughValues
      else
        names.zipIdx.forM fun p => Eval.modifyHeap (·.assign s.ctx.scope p.1 (xs.getD p.2 .null))
        return .value .null : Eval Product) m = (.ok p, m')) :
    p = .value .null ∧ m'.heap =
      m.heap.assignEach s.ctx.scope (Unpacked.pairs (m.heap.items xs) names) := by
  obtain ⟨elements, helements, h₁⟩ := Eval.Looks.bind_ok h
  cases helements
  by_cases hshort : ((m.heap.items xs).length < names.length && !loose) = true
  · rw [if_pos hshort] at h₁
    cases h₁
  · have hforM := Unpacked.forM_assign_run (r := s.ctx.scope)
      (fun i => (m.heap.items xs).getD i .null) m names.zipIdx
    rw [if_neg hshort, Eval.bind_run_ok hforM] at h₁
    cases h₁
    exact ⟨rfl, rfl⟩

/-- **`unpack` binds no name, or all of them.** -/
theorem unpackArray_cases {m : Machine} (hscope : s.ctx.scope.index < m.heap.scopes.size) :
    (∃ stop m', unpackArray s args m = (.error stop, m') ∧ m'.heap = m.heap) ∨
      ∃ xs names ts m', args.getD 0 .null = .array xs ∧ args.getD 1 .null = .array names ∧
        m.heap.items names = ts.map .string ∧
        unpackArray s args m = (.ok (.value .null), m') ∧
        Unpacked s.ctx.scope (m.heap.items xs) ts m.heap m'.heap := by
  rcases hrun : unpackArray s args m with ⟨stop | p, m'⟩
  · exact .inl ⟨stop, m', rfl, Spares.run hrun⟩
  · unfold unpackArray at hrun
    obtain ⟨xs, hxs, h₁⟩ := Eval.Looks.bind_ok hrun
    obtain ⟨names, hnames, h₂⟩ := Eval.Looks.bind_ok h₁
    obtain ⟨vs, hvs, h₃⟩ := Eval.Looks.bind_ok h₂
    obtain ⟨ts, hts, h₄⟩ := Eval.Looks.bind_ok h₃
    cases hvs
    have hbound : p = .value .null ∧ m'.heap =
        m.heap.assignEach s.ctx.scope (Unpacked.pairs (m.heap.items xs) ts) := by
      cases hoption : args[2]? with
      | none =>
        rw [hoption] at h₄
        exact unpack_names s false h₄
      | some v =>
        rw [hoption] at h₄
        obtain ⟨loose, -, h₅⟩ := Eval.Looks.bind_ok h₄
        exact unpack_names s loose h₅
    obtain ⟨rfl, hheap⟩ := hbound
    refine .inr ⟨xs, names, ts, m', Site.array_eq hxs, Site.array_eq hnames, mapM_string s hts, rfl, ?_⟩
    rw [hheap]
    exact .of_assignEach hscope

theorem ArrayOp.run_spares (op : ArrayOp) (hop : (Operation.array op).callsBack = false) :
    Spares (op.run s args) := by
  cases op with
  | sort | forEach | map | filter => cases hop
  | flat =>
    unfold ArrayOp.run
    refine .look fun r => ?_
    split
    all_goals
      refine .look fun depth => ?_
      dsimp only
      split <;> infer_instance
  | create | clone | ofValues | sizeOf | set | push | unshift | pop | shift | slice | insert | remove
  | clear | indexOf | lastIndexOf | includes | unpack =>
    unfold ArrayOp.run
    infer_instance

end Operations

section Data

instance Datum.build_adding (frames : Nat) (d : Datum) : Adding (d.build frames) :=
  build_of_builds adding_builds frames d

variable (s : Site) (args : List Value)

theorem DataOp.stringify_looks (format : DataFormat) : Looks (DataOp.run s format args .stringify) := by
  unfold DataOp.run
  refine .andThen fun indent => .andThen fun h => ?_
  split <;> infer_instance

theorem DataOp.run_adding (format : DataFormat) (op : DataOp) : Adding (op.run s format args) := by
  cases op with
  | parse =>
    rw [DataOp.run]
    refine @Adding.bind _ _ _ _ inferInstance fun text => ?_
    split <;> infer_instance
  | stringify =>
    have := DataOp.stringify_looks s args format
    infer_instance

theorem ProbeOp.run_spares (op : ProbeOp) (hop : (Operation.probe op).callsBack = false) :
    Spares (op.run s args) := by
  cases op with
  | apply => cases hop
  | callSite | count | document =>
    rw [ProbeOp.run]
    infer_instance

end Data

/-! ### Templates -/

/-- Some scopes were made anew, and nothing else has changed. -/
structure Heap.OnlyEmptied (h h' : Heap) : Prop where
  scope : ∀ r, h'.scope r = h.scope r ∨ h'.scope r = ⟨[], none⟩
  size : h'.scopes.size = h.scopes.size
  arrays : h'.arrays = h.arrays
  dicts : h'.dicts = h.dicts
  functions : h'.functions = h.functions

namespace Heap.OnlyEmptied

variable {h h' h'' : Heap}

theorem refl (h : Heap) : h.OnlyEmptied h := ⟨fun _ => .inl rfl, rfl, rfl, rfl, rfl⟩

theorem trans (h₁ : h.OnlyEmptied h') (h₂ : h'.OnlyEmptied h'') : h.OnlyEmptied h'' where
  scope r := by
    rcases h₂.scope r with hr | hr
    · rw [hr]
      exact h₁.scope r
    · exact .inr hr
  size := h₂.size.trans h₁.size
  arrays := h₂.arrays.trans h₁.arrays
  dicts := h₂.dicts.trans h₁.dicts
  functions := h₂.functions.trans h₁.functions

theorem clearScope (h : Heap) (r : ScopeRef) : h.OnlyEmptied (h.clearScope r) where
  scope t := by
    rcases scope_clearScope (h := h) r t with ht | ht
    · exact .inl ht
    · exact .inr ht
  size := Array.size_modify
  arrays := rfl
  dicts := rfl
  functions := rfl

end Heap.OnlyEmptied

section Templates

variable (s : Site) (args : List Value)

/-- Where the initialisers of scopes do nothing, a template only looks. -/
theorem looks_fills : s.Fills .tame Looks where
  toInspects := Eval.looks_inspects
  fail _ := inferInstance
  clearScope := nofun

theorem onlyEmptied_fills :
    s.Fills .plain fun x => ∀ m, Heap.OnlyEmptied m.heap (x m).2.heap where
  pure _ m := .refl m.heap
  exhausted m := .refl m.heap
  onHeap _ m := .refl m.heap
  bind {_ _ x f} hx hf m := by
    have hfirst := hx m
    rw [Eval.bind_run]
    rcases hr : x m with ⟨stop | a, m₁⟩
    · rw [hr] at hfirst
      exact hfirst
    · rw [hr] at hfirst
      exact hfirst.trans (hf a m₁)
  fail _ m := .refl m.heap
  clearScope _ r m := .clearScope m.heap r

/-- **A template changes nothing, but that it may empty scopes.** -/
theorem render_onlyEmptied (m : Machine) :
    Heap.OnlyEmptied m.heap (s.renderTemplate .plain args m).2.heap :=
  Site.renderTemplate_of_fills (onlyEmptied_fills s) args m

/-- A filling that goes the same way where initialisers do nothing changes nothing. -/
theorem render_spares_of_tame {m : Machine}
    (htame : s.renderTemplate .tame args m = s.renderTemplate .plain args m) :
    (s.renderTemplate .plain args m).2.heap = m.heap := by
  have hlooks : Looks (s.renderTemplate .tame args) := Site.renderTemplate_of_fills (looks_fills s) args
  rw [← htame]
  exact congrArg Machine.heap (hlooks.run m).1

end Templates

/-! ### Every operation -/

section Every

variable (s : Site) (args : List Value)

/-- **An operation that calls no function spares the heap**, unless it makes
values from a text or fills a template. -/
theorem Operation.run_spares (op : Operation) (hop : op.callsBack = false)
    (hrender : op ≠ .string .render) (hparse : ∀ format, op ≠ .data format .parse) :
    Spares (op.run s args) := by
  cases op with
  | core op => exact op.run_spares s args hop
  | array op => exact op.run_spares s args hop
  | string op => exact @Spares.of_looks _ _ (op.run_looks s args fun h => hrender (congrArg _ h))
  | dict op => exact op.run_spares s args
  | math op => exact op.run_spares s args
  | data format op =>
    cases op with
    | parse => exact absurd rfl (hparse format)
    | stringify => exact @Spares.of_looks _ _ (DataOp.stringify_looks s args format)
  | probe op => exact op.run_spares s args hop
  | branch | loop => cases hop
  | method host k => exact runMethod_spares s args host k
  | idle =>
    rw [Operation.run]
    infer_instance

/-- **An operation that calls no function and stops has at most added arrays
and dicts**, unless it fills a template. -/
theorem Operation.run_adds (op : Operation) (hop : op.callsBack = false)
    (hrender : op ≠ .string .render) {m m' : Machine} {stop : Stop}
    (h : op.run s args m = (.error stop, m')) : m.heap.Adds m'.heap := by
  by_cases hparse : ∀ format, op ≠ .data format .parse
  · have hspares := op.run_spares s args hop hrender hparse
    rw [hspares.run h]
    exact .refl m.heap
  · push Not at hparse
    obtain ⟨format, rfl⟩ := hparse
    obtain ⟨added, hm', hadds⟩ := (DataOp.run_adding s args format .parse).adds m
    have hrun : DataOp.run s format args .parse m = (.error stop, m') := h
    rw [hrun] at hm'
    obtain rfl : m' = { m with heap := added } := hm'
    exact hadds

/-- When the operation of a native stops, the call stops on the same machine. -/
theorem callNative_of_error {f : NativeFunction} {m m' : Machine} {stop : Stop}
    (hadmits : f.arity.admits args.length = true)
    (h : f.operation.run s args m = (.error stop, m')) :
    ∃ stop', callNative s f args m = (.error stop', m') := by
  have hguarded : ∃ stop', Eval.guarded s.ctx s.pos (f.operation.run s args) m =
      (.error stop', m') := by
    unfold Eval.guarded
    rw [h]
    cases stop with
    | internal e trace => exact ⟨_, rfl⟩
    | fault e => exact ⟨_, rfl⟩
    | exhausted trace => exact ⟨_, rfl⟩
  obtain ⟨stop', hguarded⟩ := hguarded
  refine ⟨stop', ?_⟩
  unfold callNative
  rw [if_pos hadmits, Eval.bind_run_error hguarded]

/-- A stop that is no internal error is the stop of the call. -/
theorem callNative_of_stop {f : NativeFunction} {m m' : Machine} {stop : Stop}
    (hadmits : f.arity.admits args.length = true) (hstop : ∀ e trace, stop ≠ .internal e trace)
    (h : f.operation.run s args m = (.error stop, m')) :
    callNative s f args m = (.error stop, m') := by
  have hguarded : Eval.guarded s.ctx s.pos (f.operation.run s args) m = (.error stop, m') := by
    unfold Eval.guarded
    rw [h]
    cases stop with
    | internal e trace => exact absurd rfl (hstop e trace)
    | fault e => rfl
    | exhausted trace => rfl
  unfold callNative
  rw [if_pos hadmits, Eval.bind_run_error hguarded]

/-- A fault of the operation is the fault of the call. -/
theorem callNative_of_fault {f : NativeFunction} {m m' : Machine} {e : Fault}
    (hadmits : f.arity.admits args.length = true)
    (h : f.operation.run s args m = (.error (.fault e), m')) :
    callNative s f args m = (.error (.fault e), m') :=
  callNative_of_stop s args hadmits (by rintro _ _ ⟨⟩) h

end Every

/-- **Failed natives change nothing, but for the scopes that a template empties.**
Take a native whose operation calls no function of the script, and arguments that
its arity admits. If the operation stops, then so does the call. Every scope, array,
dict and function is then as it was when the operation was entered, and only `parse`
may have added arrays and dicts; that holds of a template too if it is filled the
same way where the initialisers of scopes do nothing. Any template leaves all as it
was but for scopes that are made anew. `Array.unpack` stops without a change, or it
binds all its names. -/
theorem failed_natives_change_nothing (s : Site) (f : NativeFunction) (args : List Value) (m : Machine)
    (hf : f.operation.callsBack = false) (hadmits : f.arity.admits args.length = true) :
    (∀ stop m', f.operation.run s args m = (.error stop, m') →
      (∃ stop', callNative s f args m = (.error stop', m')) ∧
      (f.operation ≠ .string .render ∨
          s.renderTemplate .tame args m = s.renderTemplate .plain args m →
        m.heap.Adds m'.heap ∧
          ((∀ format, f.operation ≠ .data format .parse) → m'.heap = m.heap)) ∧
      (f.operation = .string .render → m.heap.OnlyEmptied m'.heap)) ∧
    (f.operation = .array .unpack → m.heap.HasScope s.ctx.scope →
      (∃ stop m', f.operation.run s args m = (.error stop, m') ∧ m'.heap = m.heap) ∨
      ∃ xs names ts m', args.getD 0 .null = .array xs ∧ args.getD 1 .null = .array names ∧
        m.heap.items names = ts.map .string ∧
        f.operation.run s args m = (.ok (.value .null), m') ∧
        Unpacked s.ctx.scope (m.heap.items xs) ts m.heap m'.heap) := by
  constructor
  · intro stop m' hrun
    refine ⟨callNative_of_error s args hadmits hrun, ?_, ?_⟩
    · by_cases hrender : f.operation = .string .render
      · rintro (hne | htame)
        · exact absurd hrender hne
        · rw [hrender] at hrun
          have hsame : m'.heap = m.heap := by
            rw [← render_spares_of_tame s args htame]
            exact congrArg (·.2.heap) hrun.symm
          exact ⟨hsame ▸ .refl m.heap, fun _ => hsame⟩
      · intro _
        refine ⟨f.operation.run_adds s args hf hrender hrun, fun hparse => ?_⟩
        have hspares := f.operation.run_spares s args hf hrender hparse
        exact hspares.run hrun
    · intro hrender
      rw [hrender] at hrun
      have hempties := render_onlyEmptied s args m
      rw [show s.renderTemplate .plain args m = (.error stop, m') from hrun] at hempties
      exact hempties
  · intro hunpack hscope
    rw [hunpack]
    exact unpackArray_cases s args hscope

/-- The native `Array.unpack`. -/
def unpackNative : NativeFunction := ⟨.array .unpack, "unpack", .between 2 3, none, none⟩

/-- A scope, the array `[1]` and the array `['a', 'b']`. -/
def oneForTwo : Machine := { Machine.initial with
  heap := ⟨#[⟨[], none⟩], #[⟨[.number 1], 0⟩, ⟨[.string "a", .string "b"], 0⟩], #[], #[]⟩ }

/-- There are too few elements for the names: no name is bound, or, if that is
allowed, the last name is bound to null. -/
theorem failed_natives_change_nothing_unpack :
    let s : Site := ⟨Engine.exhausted, ⟨⟨0⟩, "", ⟨none, "", false, .usual⟩⟩, ⟨some 1, some 1, 0⟩⟩
    (∃ stop m', callNative s unpackNative [.array ⟨0⟩, .array ⟨1⟩] oneForTwo = (.error stop, m') ∧
      m'.heap = oneForTwo.heap) ∧
    ∃ p m', unpackNative.operation.run s [.array ⟨0⟩, .array ⟨1⟩, .bool true] oneForTwo = (.ok p, m') ∧
      m'.heap.read? ⟨0⟩ "b" = some .null := by
  intro s
  constructor
  · obtain ⟨hstops, -⟩ := failed_natives_change_nothing s unpackNative [.array ⟨0⟩, .array ⟨1⟩]
      oneForTwo rfl rfl
    obtain ⟨⟨stop, hcall⟩, hspares, -⟩ := hstops _ oneForTwo rfl
    exact ⟨stop, oneForTwo, hcall, (hspares (.inl nofun)).2 nofun⟩
  · obtain ⟨-, hbinds⟩ := failed_natives_change_nothing s unpackNative
      [.array ⟨0⟩, .array ⟨1⟩, .bool true] oneForTwo rfl rfl
    rcases hbinds rfl Nat.zero_lt_one with
      ⟨stop, m', hrun, -⟩ | ⟨xs, names, ts, m', ⟨⟩, ⟨⟩, hts, hrun, hbound⟩
    · cases hrun
    · have hnames : ts = ["a", "b"] := List.map_injective_iff.mpr (fun _ _ => Value.string.inj) hts.symm
      subst hnames
      exact ⟨_, m', hrun, hbound.bound 1 "b" rfl (by simp)⟩

/-- A template calls the initialiser of the scope that a function closes over, and
then a handler, which needs arguments: the call fails, and `x` is bound no more. -/
theorem failed_templates_empty_scopes :
    let s : Site := ⟨Engine.exhausted, ⟨⟨0⟩, "", ⟨none, "", false, .usual⟩⟩, ⟨some 1, some 1, 0⟩⟩
    let f : Function := .script ⟨[], [], ⟨0⟩, "", some "f", false, none⟩
    let render : NativeFunction := ⟨.string .render, "render", .between 1 2, none, none⟩
    let m : Machine := { Machine.initial with
      heap := ⟨#[⟨[("x", .null)], none⟩], #[], #[[("f", .function ⟨0⟩), ("d", .function ⟨1⟩)]],
        #[f, .native render]⟩ }
    let args : List Value :=
      [.string "\x7b\x7bf.closure.__init__\x7d\x7d\x7b\x7bd.handler\x7d\x7d", .dict ⟨0⟩]
    let r := callNative s render args m
    render.operation.callsBack = false ∧ render.arity.admits args.length = true ∧
      r.1.isOk = false ∧ (m.heap.bindings ⟨0⟩).names = ["x"] ∧ (r.2.heap.bindings ⟨0⟩).names = [] := by
  decide +kernel

end RuleScript
