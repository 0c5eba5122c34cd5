/-
# The root scope and the host names stay in step

A runner records the names under which it has bound methods of its host.
Between any two requests the root scope has names of the library and recorded
names, and no others (`Runner.InStep`): programs never extend the root, and
binding the host anew first takes back what was recorded. It has all of them
(`Runner.Complete`) until a template empties it.

What binding anew does to the root is said name by name (`Runner.Rebound`). A
recorded name gets a wrapper of the current host's method of that name; of
two methods whose names fall together in camel case, the later one. A name
that was recorded before and is not lent any more gets its value from the
library, or none if the library has no such name, whatever a program has
assigned to it meanwhile. All other names keep what they have.

Key definitions: `Stands`, `Runner.Lent`, `Runner.lender?`, `Runner.Rebound`,
`Runner.InStep`, `Runner.Complete`, `Runner.TameAll`.
Key theorems: `Runner.bindHost_rebound`, `Runner.InStep.serve`, `host_names_in_step`.
-/
import RuleScript.Host.Sample
import RuleScript.Proofs.Heap.Names

namespace RuleScript

/-! ### Tables, name by name -/

namespace Table

variable {α : Type}

theorem get?_cons (n : String) (a : α) (t : Table α) (name : String) :
    get? ((n, a) :: t) name = if n = name then some a else t.get? name := by
  unfold get?
  rw [List.lookup_cons]
  by_cases hn : n = name
  · rw [if_pos hn, hn, beq_self_eq_true]
  · rw [if_neg hn, beq_eq_false_iff_ne.mpr (Ne.symm hn)]

theorem get?_set (name : String) (a : α) (other : String) : ∀ t : Table α,
    (t.set name a).get? other = if name = other then some a else t.get? other
  | [] => get?_cons name a [] other
  | (n, b) :: rest => by
    unfold set
    split
    · rename_i hn
      rw [get?_cons, get?_cons, hn]
      split <;> rfl
    · rename_i hn
      rw [get?_cons, get?_cons, get?_set name a other rest]
      by_cases hother : n = other
      · rw [if_pos hother, if_pos hother, if_neg fun h => hn (hother.trans h.symm)]
      · rw [if_neg hother, if_neg hother]

theorem mem_names_iff (name : String) : ∀ t : Table α, name ∈ t.names ↔ t.has name = true
  | [] => by simp [names, has, get?]
  | (n, a) :: rest => by
    rw [names_cons, List.mem_cons, mem_names_iff name rest]
    unfold has
    rw [get?_cons]
    by_cases hn : n = name
    · simp [hn]
    · simp [hn, Ne.symm hn]

theorem get?_eq_none_iff {t : Table α} {name : String} : t.get? name = none ↔ name ∉ t.names := by
  rw [mem_names_iff]
  unfold has
  cases t.get? name <;> simp

/-- A table that lists a name once has nothing under it when it is erased. -/
theorem get?_erase (name other : String) : ∀ {t : Table α}, t.names.Nodup →
    (t.erase name).get? other = if name = other then none else t.get? other
  | [], _ => by simp [erase, get?]
  | (n, b) :: rest, h => by
    obtain ⟨hn, hrest⟩ := List.nodup_cons.mp h
    unfold erase
    split
    · rename_i heq
      subst heq
      rw [get?_cons]
      split
      · rename_i hother
        rw [← hother]
        exact get?_eq_none_iff.mpr hn
      · rfl
    · rename_i hne
      rw [get?_cons, get?_cons, get?_erase name other hrest]
      by_cases hother : n = other
      · rw [if_pos hother, if_pos hother, if_neg fun h => hne (hother.trans h.symm)]
      · rw [if_neg hother, if_neg hother]

theorem names_erase_sublist (name : String) : ∀ t : Table α, (t.erase name).names.Sublist t.names
  | [] => List.Sublist.refl _
  | (n, b) :: rest => by
    unfold erase
    split
    · exact List.sublist_cons_self _ _
    · exact (names_erase_sublist name rest).cons_cons n

theorem mem_names_set {name : String} {a : α} {t : Table α} {n : String}
    (h : n ∈ (t.set name a).names) : n = name ∨ n ∈ t.names := by
  rw [mem_names_iff, has, get?_set] at h
  rw [mem_names_iff]
  split at h
  · rename_i hn
    exact .inl hn.symm
  · exact .inr h

theorem nodup_names_set (name : String) (a : α) : ∀ {t : Table α}, t.names.Nodup →
    (t.set name a).names.Nodup
  | [], _ => List.nodup_cons.mpr ⟨List.not_mem_nil, List.nodup_nil⟩
  | (n, b) :: rest, h => by
    obtain ⟨hn, hrest⟩ := List.nodup_cons.mp h
    unfold set
    split
    · exact h
    · rename_i hne
      refine List.nodup_cons.mpr ⟨fun hmem => ?_, nodup_names_set name a hrest⟩
      rcases mem_names_set hmem with heq | hmem
      · exact hne heq
      · exact hn hmem

end Table

/-! ### The library lists every name once -/

theorem newNatives_names {β : Type} (sig : β → Signature) (op : β → Operation) : ∀ ops : List β,
    Eval.Returns (fun t => Table.names t = ops.map fun o => (sig o).name)
      (ops.mapM fun o => newNative (sig o) (op o)) := by
  intro ops
  induction ops with
  | nil => exact .pure rfl
  | cons o ops ih =>
    have hfirst : Eval.Returns (fun p : String × Value => p.1 = (sig o).name)
        (newNative (sig o) (op o)) := .bind fun _ => .pure rfl
    rw [List.mapM_cons]
    refine .bind_of hfirst fun p hp => .bind_of ih fun t ht => .pure ?_
    rw [List.map_cons, ← hp, ← ht]
    rfl

theorem rootBindings_nodup : Eval.Returns (fun t => (Table.names t).Nodup) rootBindings := by
  unfold rootBindings
  refine .bind_of (newNatives_names CoreOp.signature .core CoreOp.catalogue) fun core hcore => ?_
  refine .bind fun array => .bind fun string => .bind fun dict => .bind fun math => ?_
  refine .bind fun json => .bind fun yaml => .pure ?_
  simp only [Table.names, List.map_append, List.map_cons, List.map_nil] at hcore ⊢
  rw [hcore]
  decide

theorem Runner.library_nodup (hosts : Array Host) : (library hosts).1.names.Nodup := by
  unfold library
  split
  · rename_i t m hr
    exact rootBindings_nodup _ t m hr
  · exact List.nodup_nil

/-! ### The root of a runner -/

theorem Heap.bindings_define {h : Heap} {r : ScopeRef} (hr : r.index < h.scopes.size) (name : String)
    (v : Value) : (h.define r name v).bindings r = (h.bindings r).set name v := by
  unfold define bindings scope
  dsimp only
  rw [Array.getD_eq_getD_getElem?, Array.getElem?_modify, Array.getD_eq_getD_getElem?, if_pos rfl,
    Array.getElem?_eq_getElem hr]
  rfl

theorem Heap.bindings_undefine {h : Heap} {r : ScopeRef} (hr : r.index < h.scopes.size)
    (name : String) : (h.undefine r name).bindings r = (h.bindings r).erase name := by
  unfold undefine bindings scope
  dsimp only
  rw [Array.getD_eq_getD_getElem?, Array.getElem?_modify, Array.getD_eq_getD_getElem?, if_pos rfl,
    Array.getElem?_eq_getElem hr]
  rfl

namespace Runner

/-- What the root scope has under a name. -/
def rootValue? (r : Runner) (name : String) : Option Value :=
  (r.machine.heap.bindings r.root).get? name

/-- The function that the root scope has under a name. -/
def rootFunction? (r : Runner) (name : String) : Option Function :=
  match r.rootValue? name with
  | some (.function f) => r.machine.heap.function? f
  | _ => none

theorem mem_rootNames_iff {r : Runner} {name : String} :
    name ∈ r.rootNames ↔ (r.rootValue? name).isSome = true :=
  Table.mem_names_iff name _

/-- A root scope that is there and lists every name once. -/
structure Rooted (r : Runner) : Prop where
  root : r.root.index < r.machine.heap.scopes.size
  nodup : r.rootNames.Nodup

/-! ### Taking names back -/

/-- What taking some names back does. -/
structure Restored (names : List String) (r r' : Runner) : Prop where
  rooted : r'.Rooted
  value : ∀ name, r'.rootValue? name =
    if name ∈ names then r.builtins.get? name else r.rootValue? name
  builtins : r'.builtins = r.builtins
  host : r'.host = r.host
  hosts : r'.machine.hosts = r.machine.hosts

theorem restore_restored {r : Runner} (hr : r.Rooted) (name : String) :
    Restored [name] r (r.restore name) := by
  unfold restore
  cases hbuiltin : r.builtins.get? name with
  | some v =>
    have hbindings := Heap.bindings_define hr.root name v
    refine ⟨⟨?_, ?_⟩, fun other => ?_, rfl, rfl, rfl⟩
    · exact Nat.lt_of_lt_of_eq hr.root Array.size_modify.symm
    · show ((r.machine.heap.define r.root name v).bindings r.root).names.Nodup
      rw [hbindings]
      exact Table.nodup_names_set name v hr.nodup
    · show ((r.machine.heap.define r.root name v).bindings r.root).get? other = _
      rw [hbindings, Table.get?_set]
      by_cases hother : name = other
      · simp [hother, ← hbuiltin]
      · simp [hother, Ne.symm hother, rootValue?]
  | none =>
    have hbindings := Heap.bindings_undefine hr.root name
    refine ⟨⟨?_, ?_⟩, fun other => ?_, rfl, rfl, rfl⟩
    · exact Nat.lt_of_lt_of_eq hr.root Array.size_modify.symm
    · show ((r.machine.heap.undefine r.root name).bindings r.root).names.Nodup
      rw [hbindings]
      exact (Table.names_erase_sublist name _).nodup hr.nodup
    · show ((r.machine.heap.undefine r.root name).bindings r.root).get? other = _
      rw [hbindings, Table.get?_erase name other hr.nodup]
      by_cases hother : name = other
      · simp [hother, ← hbuiltin]
      · simp [hother, Ne.symm hother, rootValue?]

theorem restoreAll_restored : ∀ (names : List String) {r : Runner}, r.Rooted →
    Restored names r (names.foldl restore r)
  | [], _, hr => ⟨hr, fun _ => by simp, rfl, rfl, rfl⟩
  | name :: names, r, hr => by
    have hfirst := restore_restored hr name
    have hrest := restoreAll_restored names hfirst.rooted
    refine ⟨hrest.rooted, fun other => ?_, hrest.builtins.trans hfirst.builtins,
      hrest.host.trans hfirst.host, hrest.hosts.trans hfirst.hosts⟩
    rw [List.foldl_cons, hrest.value, hfirst.value, hfirst.builtins]
    by_cases hother : other ∈ names
    · simp [hother]
    · simp [hother]

/-! ### Binding methods -/

/-- The function that stands for a method of a host. -/
def wrapper (host index : Nat) (k : HostMethod) : Function :=
  .native ⟨.method host index, scriptName k.member, k.arity, k.usage, none⟩

end Runner

/-- The script names of the methods that scripts may see, in order. -/
def lentNames (ks : List HostMethod) : List String :=
  (ks.filter (·.exposed)).map fun k => scriptName k.member

/-- The method that a script name stands for: of the exposed ones with this
name, the one at the last position. -/
structure Stands (ks : List HostMethod) (name : String) (index : Nat) (k : HostMethod) : Prop where
  method : ks[index]? = some k
  exposed : k.exposed = true
  named : scriptName k.member = name
  last : ∀ (j : Nat) k', ks[j]? = some k' → k'.exposed = true → scriptName k'.member = name → j ≤ index

theorem Stands.cons {ks : List HostMethod} {name : String} {index : Nat} {k : HostMethod}
    (h : Stands ks name index k) (first : HostMethod) : Stands (first :: ks) name (index + 1) k where
  method := h.method
  exposed := h.exposed
  named := h.named
  last j k' hj hk hname := by
    cases j with
    | zero => exact Nat.zero_le _
    | succ j => exact Nat.succ_le_succ (h.last j k' hj hk hname)

theorem mem_lentNames {ks : List HostMethod} {name : String} : name ∈ lentNames ks ↔
    ∃ (j : Nat) (k : HostMethod), ks[j]? = some k ∧ k.exposed = true ∧ scriptName k.member = name := by
  unfold lentNames
  rw [List.mem_map]
  constructor
  · rintro ⟨k, hk, hname⟩
    obtain ⟨hmem, hexposed⟩ := List.mem_filter.mp hk
    obtain ⟨j, hj⟩ := List.getElem?_of_mem hmem
    exact ⟨j, k, hj, hexposed, hname⟩
  · rintro ⟨j, k, hj, hexposed, hname⟩
    exact ⟨k, List.mem_filter.mpr ⟨List.mem_of_getElem? hj, hexposed⟩, hname⟩

/-- The first of some methods stands for its name if no later one has it. -/
theorem stands_first {first : HostMethod} {ks : List HostMethod} (hexposed : first.exposed = true)
    (hnew : scriptName first.member ∉ lentNames ks) :
    Stands (first :: ks) (scriptName first.member) 0 first where
  method := rfl
  exposed := hexposed
  named := rfl
  last j k' hj hk hname := by
    cases j with
    | zero => exact Nat.le_refl _
    | succ j => exact (hnew (mem_lentNames.mpr ⟨j, k', hj, hk, hname⟩)).elim

namespace Runner

/-- What binding some methods of a host does, the first one at `index`. -/
structure Lent (host index : Nat) (ks : List HostMethod) (r r' : Runner) : Prop where
  rooted : r'.Rooted
  hostNames : r'.hostNames = r.hostNames ++ lentNames ks
  lent : ∀ name ∈ lentNames ks, ∃ j k, Stands ks name j k ∧
    r'.rootFunction? name = some (wrapper host (index + j) k)
  others : ∀ name, name ∉ lentNames ks → r'.rootValue? name = r.rootValue? name
  functions : ∀ f, f.index < r.machine.heap.functions.size →
    r'.machine.heap.function? f = r.machine.heap.function? f
  builtins : r'.builtins = r.builtins

theorem lentNames_cons_exposed {k : HostMethod} (hk : k.exposed = true) (ks : List HostMethod) :
    lentNames (k :: ks) = scriptName k.member :: lentNames ks := by
  unfold lentNames
  rw [List.filter_cons_of_pos hk, List.map_cons]

theorem lentNames_cons_hidden {k : HostMethod} (hk : ¬k.exposed = true) (ks : List HostMethod) :
    lentNames (k :: ks) = lentNames ks := by
  unfold lentNames
  rw [List.filter_cons_of_neg hk]

/-- Binding one method changes the root under its name only. -/
theorem bindMethod_lent {r : Runner} (hr : r.Rooted) (host index : Nat) {k : HostMethod}
    (hk : k.exposed = true) : Lent host index [k] r (bindMethod host index r k) := by
  have hnew := r.machine.heap.function?_newFunction (wrapper host index k)
  have hbindings := Heap.bindings_define (h := (r.machine.heap.newFunction (wrapper host index k)).2)
    hr.root (scriptName k.member) (.function ⟨r.machine.heap.functions.size⟩)
  have hvalue (name : String) : (bindMethod host index r k).rootValue? name =
      if scriptName k.member = name then some (.function ⟨r.machine.heap.functions.size⟩)
      else r.rootValue? name := by
    unfold rootValue?
    exact (congrArg (Table.get? · name) hbindings).trans (Table.get?_set _ _ _ _)
  have hnames : lentNames [k] = [scriptName k.member] := lentNames_cons_exposed hk []
  refine ⟨⟨?_, ?_⟩, by rw [hnames]; rfl, fun name hname => ?_, fun name hname => ?_, fun f hf => ?_,
    rfl⟩
  · exact Nat.lt_of_lt_of_eq hr.root Array.size_modify.symm
  · have hnodup := Table.nodup_names_set (scriptName k.member)
      (Value.function ⟨r.machine.heap.functions.size⟩) hr.nodup
    show (((r.machine.heap.newFunction (wrapper host index k)).2.define r.root (scriptName k.member)
      (.function ⟨r.machine.heap.functions.size⟩)).bindings r.root).names.Nodup
    rw [hbindings]
    exact hnodup
  · rw [hnames, List.mem_singleton] at hname
    rw [hname]
    refine ⟨0, k, stands_first hk (by simp [lentNames]), ?_⟩
    unfold rootFunction?
    rw [hvalue, if_pos rfl]
    exact (hnew _).trans (if_pos rfl)
  · rw [hnames, List.mem_singleton] at hname
    rw [hvalue, if_neg (Ne.symm hname)]
  · exact (hnew f).trans (if_neg (Nat.ne_of_lt hf))

theorem rootFunction?_of_others {r r' : Runner} {name : String} {g : Function}
    (hvalue : r'.rootValue? name = r.rootValue? name)
    (hfunctions : ∀ f, f.index < r.machine.heap.functions.size →
      r'.machine.heap.function? f = r.machine.heap.function? f)
    (hg : r.rootFunction? name = some g) : r'.rootFunction? name = some g := by
  unfold rootFunction? at hg ⊢
  rw [hvalue]
  split at hg
  · rename_i f hf
    obtain ⟨hlt, -⟩ := Array.getElem?_eq_some_iff.mp hg
    rw [hfunctions f hlt]
    exact hg
  · cases hg

theorem bindMethods_lent (host : Nat) : ∀ (ks : List HostMethod) {r : Runner} (index : Nat), r.Rooted →
    Lent host index ks r (bindMethods host r index ks)
  | [], r, _, hr => ⟨hr, (List.append_nil _).symm, by rintro _ ⟨⟩, fun _ _ => rfl, fun _ _ => rfl, rfl⟩
  | k :: ks, r, index, hr => by
    unfold bindMethods
    dsimp only
    split
    · rename_i hk
      have hfirst := bindMethod_lent hr host index hk
      have hrest := bindMethods_lent host ks (index + 1) hfirst.rooted
      have hone : lentNames [k] = [scriptName k.member] := lentNames_cons_exposed hk []
      have hgrown : r.machine.heap.functions.size ≤
          (bindMethod host index r k).machine.heap.functions.size :=
        (r.machine.heap.grows_newFunction (fun _ => False) False (wrapper host index k)).extend.functions
      refine ⟨hrest.rooted, ?_, fun name hname => ?_, fun name hname => ?_, fun f hf => ?_,
        hrest.builtins.trans hfirst.builtins⟩
      · rw [hrest.hostNames, hfirst.hostNames, hone, lentNames_cons_exposed hk, List.append_assoc,
          List.singleton_append]
      · by_cases hlater : name ∈ lentNames ks
        · obtain ⟨j, k', hstands, hfunction⟩ := hrest.lent name hlater
          refine ⟨j + 1, k', hstands.cons k, ?_⟩
          rw [hfunction, Nat.add_right_comm, Nat.add_assoc]
        · rw [lentNames_cons_exposed hk, List.mem_cons] at hname
          have hfirstname : name = scriptName k.member := hname.resolve_right hlater
          rw [hfirstname] at hlater ⊢
          obtain ⟨j, k', hstands, hfunction⟩ := hfirst.lent _ (hone ▸ List.mem_singleton_self _)
          obtain rfl : j = 0 := Nat.le_zero.mp <| by
            have hlt := (List.getElem?_eq_some_iff.mp hstands.method).1
            exact Nat.le_of_lt_succ hlt
          obtain rfl : k = k' := Option.some.inj hstands.method
          exact ⟨0, k, stands_first hk hlater,
            rootFunction?_of_others (hrest.others _ hlater) hrest.functions hfunction⟩
      · rw [lentNames_cons_exposed hk, List.mem_cons, not_or] at hname
        rw [hrest.others name hname.2, hfirst.others name (by rw [hone, List.mem_singleton]; exact hname.1)]
      · rw [hrest.functions f (Nat.lt_of_lt_of_le hf hgrown), hfirst.functions f hf]
    · rename_i hk
      have hrest := bindMethods_lent host ks (index + 1) hr
      refine ⟨hrest.rooted, ?_, fun name hname => ?_, fun name hname => ?_, hrest.functions,
        hrest.builtins⟩
      · rw [hrest.hostNames, lentNames_cons_hidden hk]
      · rw [lentNames_cons_hidden hk] at hname
        obtain ⟨j, k', hstands, hfunction⟩ := hrest.lent name hname
        refine ⟨j + 1, k', hstands.cons k, ?_⟩
        rw [hfunction, Nat.add_right_comm, Nat.add_assoc]
      · rw [lentNames_cons_hidden hk] at hname
        exact hrest.others name hname

/-! ### Binding the host anew -/

/-- The host that lends its methods: the current one, unless it is not there
or counts as empty. -/
def lender? (r : Runner) : Option (Nat × Host) :=
  match r.host with
  | none => none
  | some index =>
    match r.machine.hosts[index]? with
    | none => none
    | some o => if o.isEmpty then none else some (index, o)

/-- The names that the current host lends. -/
def currentNames (r : Runner) : List String :=
  match r.lender? with
  | some (_, o) => lentNames o.methods
  | none => []

/-- What binding the host of `r` anew makes of the root scope, name by name. -/
structure Rebound (r r' : Runner) : Prop where
  hostNames : r'.hostNames = r.currentNames
  lent : ∀ name ∈ r'.hostNames, ∃ host o index k, r.lender? = some (host, o) ∧
    Stands o.methods name index k ∧ r'.rootFunction? name = some (wrapper host index k)
  returned : ∀ name ∈ r.hostNames, name ∉ r'.hostNames →
    r'.rootValue? name = r.builtins.get? name
  others : ∀ name, name ∉ r.hostNames → name ∉ r'.hostNames →
    r'.rootValue? name = r.rootValue? name

theorem bindHost_eq (r : Runner) : r.bindHost = match r.releaseHost.lender? with
    | some (host, o) => bindMethods host r.releaseHost 0 o.methods
    | none => r.releaseHost := by
  unfold bindHost lender?
  generalize r.releaseHost = r₀
  dsimp only
  cases hhost : r₀.host with
  | none => rfl
  | some index =>
    simp only
    cases hosts : r₀.machine.hosts[index]? with
    | none => rfl
    | some o =>
      simp only
      cases o.isEmpty <;> rfl

/-- **Binding the host anew, name by name.** -/
theorem bindHost_rebound {r : Runner} (hr : r.Rooted) :
    Rebound r r.bindHost ∧ r.bindHost.Rooted ∧ r.bindHost.builtins = r.builtins := by
  have hrestored := restoreAll_restored r.hostNames hr
  have hrooted : r.releaseHost.Rooted := ⟨hrestored.rooted.root, hrestored.rooted.nodup⟩
  have hvalue (name : String) : r.releaseHost.rootValue? name =
      if name ∈ r.hostNames then r.builtins.get? name else r.rootValue? name := hrestored.value name
  have hlender : r.releaseHost.lender? = r.lender? := by
    unfold lender?
    rw [show r.releaseHost.host = r.host from hrestored.host,
      show r.releaseHost.machine.hosts = r.machine.hosts from hrestored.hosts]
  have hreleased (hnone : r.lender? = none) : Rebound r r.releaseHost := by
    refine ⟨by unfold currentNames; rw [hnone]; rfl, by rintro _ ⟨⟩, fun name hname _ => ?_,
      fun name hname _ => ?_⟩
    · rw [hvalue, if_pos hname]
    · rw [hvalue, if_neg hname]
  rw [bindHost_eq, hlender]
  cases hcurrent : r.lender? with
  | none => exact ⟨hreleased hcurrent, hrooted, hrestored.builtins⟩
  | some p =>
    obtain ⟨host, o⟩ := p
    have hlent := bindMethods_lent host o.methods 0 hrooted
    have hnames : (bindMethods host r.releaseHost 0 o.methods).hostNames = lentNames o.methods :=
      hlent.hostNames
    refine ⟨⟨?_, fun name hname => ?_, fun name hname hnot => ?_, fun name hname hnot => ?_⟩,
      hlent.rooted, hlent.builtins.trans hrestored.builtins⟩
    · rw [hnames]
      unfold currentNames
      rw [hcurrent]
    · rw [hnames] at hname
      obtain ⟨index, k, hstands, hfunction⟩ := hlent.lent name hname
      exact ⟨host, o, index, k, hcurrent, hstands, Nat.zero_add index ▸ hfunction⟩
    · rw [hnames] at hnot
      rw [hlent.others name hnot, hvalue, if_pos hname]
    · rw [hnames] at hnot
      rw [hlent.others name hnot, hvalue, if_neg hname]

/-! ### Sessions -/

/-- The root has names of the library and recorded ones, and no others. -/
structure InStep (r : Runner) : Prop where
  rooted : r.Rooted
  names : ∀ name ∈ r.rootNames, name ∈ r.builtins.names ∨ name ∈ r.hostNames

/-- The root has all the names of the library and all the recorded ones. -/
def Complete (r : Runner) : Prop :=
  ∀ name, name ∈ r.builtins.names ∨ name ∈ r.hostNames → name ∈ r.rootNames

namespace InStep

variable {r : Runner}

/-- A recorded name is bound. -/
theorem mem_rootNames (h : r.Rooted) {name : String} (hname : name ∈ r.bindHost.hostNames) :
    name ∈ r.bindHost.rootNames := by
  obtain ⟨hrebound, -, -⟩ := bindHost_rebound h
  obtain ⟨host, o, index, k, -, -, hfunction⟩ := hrebound.lent name hname
  rw [mem_rootNames_iff]
  unfold rootFunction? at hfunction
  split at hfunction
  · rename_i f hf
    rw [hf]
    rfl
  · cases hfunction

theorem bindHost (h : r.InStep) : r.bindHost.InStep := by
  obtain ⟨hrebound, hrooted, hbuiltins⟩ := bindHost_rebound h.rooted
  refine ⟨hrooted, fun name hname => ?_⟩
  rw [hbuiltins]
  by_cases hnew : name ∈ r.bindHost.hostNames
  · exact .inr hnew
  · rw [mem_rootNames_iff] at hname
    by_cases hold : name ∈ r.hostNames
    · rw [hrebound.returned name hold hnew] at hname
      exact .inl ((Table.mem_names_iff _ _).mpr hname)
    · rw [hrebound.others name hold hnew, ← mem_rootNames_iff] at hname
      exact .inl ((h.names name hname).resolve_right hold)

theorem bindHost_complete (h : r.InStep) (hall : r.Complete) : r.bindHost.Complete := by
  obtain ⟨hrebound, -, hbuiltins⟩ := bindHost_rebound h.rooted
  intro name hname
  by_cases hnew : name ∈ r.bindHost.hostNames
  · exact mem_rootNames h.rooted hnew
  · have hbuiltin : name ∈ r.builtins.names := hbuiltins ▸ hname.resolve_right hnew
    rw [mem_rootNames_iff]
    by_cases hold : name ∈ r.hostNames
    · rw [hrebound.returned name hold hnew]
      exact (Table.mem_names_iff _ _).mp hbuiltin
    · rw [hrebound.others name hold hnew, ← mem_rootNames_iff]
      exact hall name (.inl hbuiltin)

/-- A runner with the same record whose root has lost nothing, or everything. -/
theorem of_names {r' : Runner} (h : r.InStep) (hroot : r'.root.index < r'.machine.heap.scopes.size)
    (hnames : r'.rootNames = r.rootNames ∨ r'.rootNames = []) (hbuiltins : r'.builtins = r.builtins)
    (hhostNames : r'.hostNames = r.hostNames) : r'.InStep := by
  rcases hnames with hsame | hnone
  · refine ⟨⟨hroot, hsame ▸ h.rooted.nodup⟩, fun name hname => ?_⟩
    rw [hbuiltins, hhostNames]
    exact h.names name (hsame ▸ hname)
  · refine ⟨⟨hroot, hnone ▸ List.nodup_nil⟩, fun name hname => ?_⟩
    rw [hnone] at hname
    cases hname

end InStep

theorem Complete.of_names {r r' : Runner} (h : r.Complete) (hnames : r'.rootNames = r.rootNames)
    (hbuiltins : r'.builtins = r.builtins) (hhostNames : r'.hostNames = r.hostNames) :
    r'.Complete := by
  intro name hname
  rw [hbuiltins, hhostNames] at hname
  exact hnames ▸ h name hname

/-- A run changes nothing but the machine. -/
theorem runNodes_record (r : Runner) (nodes : List Node) :
    (r.runNodes nodes).2 = { r with machine := (r.runNodes nodes).2.machine } := by
  obtain ⟨m, settings, source, root, program, builtins, host, hostNames⟩ := r
  cases program <;> rfl

theorem eval_record (r : Runner) (text : String) :
    (r.eval text).2 = { r with machine := (r.eval text).2.machine } := by
  unfold eval
  dsimp only
  split
  · exact runNodes_record { r with machine := { r.machine with calls := [], focus := none } } _
  · rfl
  · rfl

namespace InStep

open Policy

variable {r : Runner} (h : r.InStep) (hr : (sealing (· = r.root) True).Session r)

include h hr

theorem runNodes (nodes : List Node) : (r.runNodes nodes).2.InStep ∧
    (r.Complete → r.Tame (.runNodes nodes) → (r.runNodes nodes).2.Complete) := by
  have hruns := hr.runNodes (sealing_nodes r.machine.heap nodes)
  have hbuiltins : (r.runNodes nodes).2.builtins = r.builtins := by rw [runNodes_record]
  have hhostNames : (r.runNodes nodes).2.hostNames = r.hostNames := by rw [runNodes_record]
  have hnames := (hruns.rootNames hr.root).imp_right And.right
  exact ⟨h.of_names hruns.session.root hnames hbuiltins hhostNames,
    fun hall htame => hall.of_names (hr.runNodes_tame htame) hbuiltins hhostNames⟩

theorem eval (text : String) : (r.eval text).2.InStep ∧
    (r.Complete → r.Tame (.eval text) → (r.eval text).2.Complete) := by
  have hruns := hr.eval (text_of_literal (fun _ _ => trivial) text)
  have hbuiltins : (r.eval text).2.builtins = r.builtins := by rw [eval_record]
  have hhostNames : (r.eval text).2.hostNames = r.hostNames := by rw [eval_record]
  have hnames := (hruns.rootNames hr.root).imp_right And.right
  exact ⟨h.of_names hruns.session.root hnames hbuiltins hhostNames,
    fun hall htame => hall.of_names (hr.eval_tame htame) hbuiltins hhostNames⟩

omit hr in
theorem prepared : r.prepared.InStep := bindHost ⟨⟨h.rooted.root, h.rooted.nodup⟩, h.names⟩

omit hr in
theorem prepared_complete (hall : r.Complete) : r.prepared.Complete :=
  bindHost_complete (r := { r with machine := { r.machine with effects := #[] } })
    ⟨⟨h.rooted.root, h.rooted.nodup⟩, h.names⟩ hall

omit hr in
theorem prepared_builtins : r.prepared.builtins = r.builtins :=
  (bindHost_rebound (r := { r with machine := { r.machine with effects := #[] } })
    ⟨h.rooted.root, h.rooted.nodup⟩).2.2

/-- **Every request leaves the root and the record in step**, and a tame one leaves
the root complete. -/
theorem serve (q : Request) : (r.serve q).InStep ∧ (r.serve q).builtins = r.builtins ∧
    (r.Complete → r.Tame q → (r.serve q).Complete) := by
  cases q with
  | runNodes nodes =>
    obtain ⟨hstep, hall⟩ := h.runNodes hr nodes
    exact ⟨hstep, by rw [Runner.serve, runNodes_record], hall⟩
  | eval text =>
    obtain ⟨hstep, hall⟩ := h.eval hr text
    exact ⟨hstep, by rw [Runner.serve, eval_record], hall⟩
  | handle text =>
    have hprepared := hr.prepared
    rw [show r.root = r.prepared.root from hprepared.closed _ rfl] at hprepared
    obtain ⟨hstep, hall⟩ := h.prepared.eval hprepared text
    have hbuiltins : (r.prepared.eval text).2.builtins = r.builtins := by
      rw [eval_record]
      exact h.prepared_builtins
    have hcomplete (hr : r.Complete) (htame : r.Tame (.handle text)) :
        (r.prepared.eval text).2.Complete := hall (h.prepared_complete hr) htame
    show (r.handle text).2.InStep ∧ (r.handle text).2.builtins = r.builtins ∧
      (r.Complete → r.Tame (.handle text) → (r.handle text).2.Complete)
    rw [handle_eq]
    unfold concluded
    split
    · exact ⟨hstep, hbuiltins, hcomplete⟩
    · exact ⟨⟨⟨hstep.rooted.root, hstep.rooted.nodup⟩, hstep.names⟩, hbuiltins, hcomplete⟩
  | rebind host =>
    exact ⟨⟨⟨h.rooted.root, h.rooted.nodup⟩, h.names⟩, rfl, fun hall _ => hall⟩

end InStep

/-- Each of some requests in turn is tame. -/
def TameAll (r : Runner) : List Request → Prop
  | [] => True
  | q :: qs => r.Tame q ∧ (r.serve q).TameAll qs

theorem InStep.serveAll {root : ScopeRef} : ∀ (qs : List Request) {r : Runner}, r.InStep →
    (Policy.sealing (· = root) True).Session r →
    (r.serveAll qs).InStep ∧ (r.serveAll qs).builtins = r.builtins ∧
      (r.Complete → r.TameAll qs → (r.serveAll qs).Complete)
  | [], _, h, _ => ⟨h, rfl, fun hall _ => hall⟩
  | q :: qs, r, h, hr => by
    have hr' : (Policy.sealing (· = root) True).Session (r.serve q) :=
      hr.serve (Policy.sealing_request _ q)
    obtain rfl : root = r.root := hr.closed root rfl
    obtain ⟨hfirst, hbuiltins, hall⟩ := h.serve hr q
    obtain ⟨hrest, hbuiltins', hall'⟩ := serveAll qs hfirst hr'
    exact ⟨hrest, hbuiltins'.trans hbuiltins,
      fun hcomplete htame => hall' (hall hcomplete htame.1) htame.2⟩

/-- A runner whose root holds the library and nothing else. -/
theorem inStep_of_bindings {r : Runner} (hroot : r.root.index < r.machine.heap.scopes.size)
    (hbindings : r.machine.heap.bindings r.root = r.builtins) (hnodup : r.builtins.names.Nodup)
    (hnone : r.hostNames = []) : r.InStep ∧ r.Complete := by
  have hnames : r.rootNames = r.builtins.names := congrArg Table.names hbindings
  refine ⟨⟨⟨hroot, hnames ▸ hnodup⟩, fun name hname => .inl (hnames ▸ hname)⟩, fun name hname => ?_⟩
  rw [hnone] at hname
  exact hnames ▸ hname.resolve_right List.not_mem_nil

theorem inStep_unbound (settings : Settings) (source : String) (keep : Bool) (hosts : Array Host)
    (host : Option Nat) :
    let r := unbound settings source keep hosts host
    (r.InStep ∧ r.Complete) ∧ r.builtins = (library hosts).1 := by
  have hnodup := library_nodup hosts
  unfold unbound
  generalize library hosts = l at hnodup ⊢
  obtain ⟨bindings, machine⟩ := l
  have hroot := machine.heap.newScope_lt none bindings
  have hbindings : (machine.heap.newScope none bindings).2.bindings ⟨machine.heap.scopes.size⟩ =
      bindings := by
    unfold Heap.bindings
    rw [Heap.scope_newScope, if_pos rfl]
  cases keep with
  | false => exact ⟨inStep_of_bindings hroot hbindings hnodup rfl, rfl⟩
  | true =>
    refine ⟨inStep_of_bindings ?_ ?_ hnodup rfl, rfl⟩
    · exact Nat.lt_trans hroot (Heap.newScope_lt _ _ _)
    · refine Eq.trans ?_ hbindings
      unfold Heap.bindings
      exact congrArg Scope.bindings ((Heap.scope_newScope _ _ _ _).trans (if_neg (Nat.ne_of_lt hroot)))

theorem inStep_session (settings : Settings) (source : String) (keep : Bool) (hosts : Array Host)
    (host : Option Nat) (requests : List Request) :
    let new := create settings source keep hosts host
    let r := new.serveAll requests
    r.InStep ∧ r.builtins = (library hosts).1 ∧ (new.TameAll requests → r.Complete) := by
  obtain ⟨⟨hunbound, hall⟩, hlibrary⟩ := inStep_unbound settings source keep hosts host
  have hcreate : (create settings source keep hosts host).InStep := by
    rw [create_eq]
    exact hunbound.bindHost
  have hcomplete : (create settings source keep hosts host).Complete := by
    rw [create_eq]
    exact hunbound.bindHost_complete hall
  have hbuiltins : (create settings source keep hosts host).builtins = (library hosts).1 := by
    rw [create_eq, (bindHost_rebound hunbound.rooted).2.2, hlibrary]
  have hsealed := Policy.sealing_session settings source keep hosts host []
  generalize create settings source keep hosts host = r at hcreate hcomplete hbuiltins hsealed
  obtain ⟨hr, hsame, hall⟩ := hcreate.serveAll requests hsealed
  exact ⟨hr, hsame.trans hbuiltins, hall hcomplete⟩

end Runner

/-- **The root scope and the record of host names stay in step.** Whatever has
been asked of a runner, hosts changing or missing in between: its root scope
has no names but those of the library and the recorded host names, and it has all
of them if initialisers of scopes had no part in what was asked. And before a
script is handled, the host is bound anew, in any case: each recorded name gets
the current host's method of that name, each name that was recorded before
and is not lent any more gets back what the library has under it, if it has
anything, and every other name keeps what it has. -/
theorem host_names_in_step (settings : Settings) (source : String) (keep : Bool)
    (hosts : Array Host) (host : Option Nat) (requests : List Runner.Request) :
    let new := Runner.create settings source keep hosts host
    let r := new.serveAll requests
    r.builtins = (Runner.library hosts).1 ∧
      (∀ name ∈ r.rootNames, name ∈ r.builtins.names ∨ name ∈ r.hostNames) ∧
      (new.TameAll requests →
        ∀ name, name ∈ r.rootNames ↔ name ∈ r.builtins.names ∨ name ∈ r.hostNames) ∧
      (∀ text, r.handle text = Runner.concluded text (r.prepared.eval text)) ∧
      r.Rebound r.prepared ∧
      (∀ name ∈ r.prepared.rootNames, name ∈ r.builtins.names ∨ name ∈ r.currentNames) ∧
      (∀ name ∈ r.currentNames, name ∈ r.prepared.rootNames) ∧
      (new.TameAll requests →
        ∀ name, name ∈ r.prepared.rootNames ↔ name ∈ r.builtins.names ∨ name ∈ r.currentNames) := by
  intro new r
  obtain ⟨hr, hbuiltins, hall⟩ := Runner.inStep_session settings source keep hosts host requests
  have hbare : Runner.InStep { r with machine := { r.machine with effects := #[] } } :=
    ⟨⟨hr.rooted.root, hr.rooted.nodup⟩, hr.names⟩
  obtain ⟨hrebound, -, -⟩ := Runner.bindHost_rebound hbare.rooted
  have hcurrent : r.prepared.hostNames = r.currentNames := hrebound.hostNames
  have hnames := hr.prepared.names
  have hrecorded {name : String} (hname : name ∈ r.prepared.hostNames) : name ∈ r.prepared.rootNames :=
    Runner.InStep.mem_rootNames hbare.rooted hname
  rw [hr.prepared_builtins, hcurrent] at hnames
  refine ⟨hbuiltins, hr.names, fun htame name => ⟨hr.names name, hall htame name⟩,
    fun text => Runner.handle_eq r text,
    ⟨hrebound.hostNames, hrebound.lent, hrebound.returned, hrebound.others⟩, hnames,
    fun name hname => hrecorded (hrebound.hostNames ▸ hname), fun htame name => ⟨hnames name, ?_⟩⟩
  have hcomplete := hr.prepared_complete (hall htame) name
  rwa [hr.prepared_builtins, hcurrent] at hcomplete

/-- A runner whose host lends `array` and `print` runs a value, and then the host is
taken away. Both names are there after the run. When the next script is handled,
`array` is gone, and `print` is there, which the library has. -/
theorem host_names_in_step_value :
    let new := Runner.create ⟨none, "", false, .usual⟩ "" false #[.other] (some 0)
    let requests : List Runner.Request := [.runNodes [.value ⟨some 1, some 1, 0⟩ (.bool true)], .rebind none]
    let r := new.serveAll requests
    new.TameAll requests ∧ ("array" ∈ r.rootNames ∧ "print" ∈ r.rootNames) ∧
      "array" ∉ r.prepared.rootNames ∧ "print" ∈ r.prepared.rootNames := by
  have hlent : "array" ∈ (Runner.create ⟨none, "", false, .usual⟩ "" false #[.other] (some 0)).hostNames := by
    decide +kernel
  have hlibrary : "array" ∉ (Runner.library #[.other]).1.names ∧
      "print" ∈ (Runner.library #[.other]).1.names := by decide +kernel
  have hstep := host_names_in_step ⟨none, "", false, .usual⟩ "" false #[.other] (some 0)
    [.runNodes [.value ⟨some 1, some 1, 0⟩ (.bool true)], .rebind none]
  -- From here on it does not matter how the runner and the library are made.
  generalize Runner.create _ _ _ _ _ = new at hlent hstep ⊢
  generalize Runner.library #[.other] = l at hlibrary hstep
  intro new requests r
  have htame : new.TameAll requests := ⟨new.tame_value _ _, trivial, trivial⟩
  have hrecorded : r.hostNames = new.hostNames := by
    show (new.runNodes [.value ⟨some 1, some 1, 0⟩ (.bool true)]).2.hostNames = new.hostNames
    rw [Runner.runNodes_record]
  have hcurrent : r.currentNames = [] := rfl
  obtain ⟨hbuiltins, -, hnames, -, -, -, -, hprepared⟩ := hstep
  rw [← hbuiltins] at hlibrary
  refine ⟨htame, ⟨(hnames htame _).mpr (.inr (hrecorded ▸ hlent)),
    (hnames htame _).mpr (.inl hlibrary.2)⟩, fun hthere => ?_, (hprepared htame _).mpr (.inl hlibrary.2)⟩
  rcases (hprepared htame _).mp hthere with hbuiltin | hnow
  · exact hlibrary.1 hbuiltin
  · rw [hcurrent] at hnow
    cases hnow

/-- The program `String.render('…', {'f': @(){null}})` with a template that calls the
initialiser of the scope around that of the function. -/
def emptiesRoot : List Node :=
  let p : Position := ⟨some 1, some 1, 0⟩
  [.word p "String", .symbol p ".", .word p "render", .span p .paren
    [.quoted p "'\x7b\x7bf.closure.parent.__init__\x7d\x7d'", .symbol p ",", .span p .brace
      [.quoted p "'f'", .symbol p ":", .symbol p "@", .span p .paren [], .span p .brace [.word p "null"]]]]

/-- It empties the root: what the library has is not bound any more. -/
theorem templates_empty_the_root :
    let r := Runner.create ⟨none, "", false, .usual⟩ "" false #[] none
    "print" ∈ r.builtins.names ∧ "print" ∉ (r.runNodes emptiesRoot).2.rootNames := by
  decide +kernel

end RuleScript
