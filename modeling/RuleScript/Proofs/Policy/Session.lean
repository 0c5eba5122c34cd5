/-
# Runners keep to a policy

A runner keeps to a policy from the moment it is made and through every
request that it serves (`Policy.Session`): between runs everything may be
where it is on its machine, and a run ends with a value or a stop that may
come out. What is asked of a request is that the nodes it brings may be run
and that it binds a host only if natives from outside may be there. A source
text brings no values, so all that is asked of it is about its number
literals.

Key definitions: `Policy.Session`, `Policy.Runs`, `Policy.text`, `Policy.request`.
Key theorems: `Policy.Session.runNodesOn`, `Policy.Session.evalOn`,
`Policy.Session.serve`, `Policy.session_create`.
-/
import RuleScript.Proofs.Calls.Depth
import RuleScript.Proofs.Policy.Evaluation
import RuleScript.Proofs.Source.Parsing

namespace RuleScript

open Policy

/-! ### Sessions -/

namespace Policy

variable (P : Policy)

/-- A source text whose nodes may be run. -/
def text (text : String) : Prop :=
  ∀ (h : Heap) (spans : Nat) nodes, parse spans text = .ok nodes → P.nodes h nodes

/-- A request that may be served. -/
def request (h : Heap) : Runner.Request → Prop
  | .runNodes nodes => P.nodes h nodes
  | .eval text => P.text text
  | .handle text => P.text text
  | .rebind host => host = none ∨ P.foreign

/-- A runner on which everything may be where it is. -/
structure Session (r : Runner) : Prop where
  holds : P.Holds r.machine
  root : r.root.index < r.machine.heap.scopes.size
  program : ∀ p, r.program = some p → P.scope r.machine.heap p
  builtins : P.table r.machine.heap r.builtins
  host : r.host = none ∨ P.foreign
  closed : ∀ s, P.closed s → s = r.root

/-- How a run of a runner ends. -/
structure Runs (r : Runner) (p : Except Stop Value × Runner) : Prop where
  session : P.Session p.2
  grows : r.machine.heap.Grows P.closed P.emptying p.2.machine.heap
  value : ∀ v, p.1 = .ok v → P.result p.2.machine.heap v
  stop : ∀ s, p.1 = .error s → ∃ s', P.stop s' ∧ s = p.2.settle s'

variable {P}

theorem text_of_literal (hl : ∀ text suffix, P.literal text suffix) (text : String) : P.text text :=
  fun _ _ _ h => parse_madeOf (fun _ _ => hl _ _) h

namespace Session

variable {r : Runner}

/-- What a runner holds besides its machine does not matter for a change of
the heap. -/
theorem onHeap [P.Lawful] (hr : P.Session r) {h : Heap} (hadmits : P.Admits h)
    (hext : r.machine.heap.Extends h) : P.Session (r.modifyHeap fun _ => h) where
  holds := ⟨hadmits, hr.holds.hosts⟩
  root := Nat.lt_of_lt_of_le hr.root hext.scopes
  program p hp := Lawful.scope_mono hext (hr.program p hp)
  builtins p hp := Lawful.value_mono hext (hr.builtins p hp)
  host := hr.host
  closed := hr.closed

/-! ### Hosts -/

section Hosts

variable [P.Lawful]

theorem restore (hr : P.Session r) (name : String) : P.Session (r.restore name) := by
  unfold Runner.restore
  split
  · rename_i v hv
    refine hr.onHeap (hr.holds.heap.define _ name (table_get? hr.builtins hv)) ?_
    exact ⟨Nat.le_of_eq Array.size_modify.symm, Nat.le_refl _, Nat.le_refl _, Nat.le_refl _⟩
  · refine hr.onHeap (hr.holds.heap.undefine _ name) ?_
    exact ⟨Nat.le_of_eq Array.size_modify.symm, Nat.le_refl _, Nat.le_refl _, Nat.le_refl _⟩

theorem restoreAll : ∀ (names : List String) {r : Runner}, P.Session r →
    P.Session (names.foldl Runner.restore r)
  | [], _, hr => hr
  | name :: names, _, hr => restoreAll names (hr.restore name)

theorem releaseHost (hr : P.Session r) : P.Session r.releaseHost :=
  let hr' := restoreAll r.hostNames hr
  ⟨hr'.holds, hr'.root, hr'.program, hr'.builtins, hr'.host, hr'.closed⟩

theorem bindMethod (hr : P.Session r) (hforeign : P.foreign) (host index : Nat) (k : HostMethod) :
    P.Session (Runner.bindMethod host index r k) := by
  let f : Function := .native ⟨.method host index, scriptName k.member, k.arity, k.usage, none⟩
  have hf : P.Admits (r.machine.heap.newFunction f).2 := hr.holds.heap.newFunction hforeign
  have hbound := hr.onHeap hf (r.machine.heap.grows_newFunction P.closed P.emptying f).extend
  have hvalue := Lawful.newFunction (P := P) r.machine.heap f
  have hname := hbound.onHeap (hf.define r.root (scriptName k.member) hvalue)
    ⟨Nat.le_of_eq Array.size_modify.symm, Nat.le_refl _, Nat.le_refl _, Nat.le_refl _⟩
  exact ⟨hname.holds, hname.root, hname.program, hname.builtins, hname.host, hname.closed⟩

theorem bindMethods (hforeign : P.foreign) (host : Nat) : ∀ (ks : List HostMethod) {r : Runner}
    (index : Nat), P.Session r → P.Session (Runner.bindMethods host r index ks)
  | [], _, _, hr => hr
  | k :: ks, r, index, hr => by
    unfold Runner.bindMethods
    dsimp only
    split
    · exact bindMethods hforeign host ks (index + 1) (hr.bindMethod hforeign host index k)
    · exact bindMethods hforeign host ks (index + 1) hr

theorem bindHost (hr : P.Session r) : P.Session r.bindHost := by
  have hreleased := hr.releaseHost
  unfold Runner.bindHost
  dsimp only
  split
  · exact hreleased
  · rename_i host hhost
    have hforeign : P.foreign := hreleased.host.resolve_left (by rw [hhost]; rintro ⟨⟩)
    split
    · exact hreleased
    · split
      · exact hreleased
      · exact bindMethods hforeign host _ 0 hreleased

end Hosts

/-! ### Runs -/

section Runs

variable [P.Nests]

theorem programScope (hr : P.Session r) :
    P.Session r.programScope.2 ∧ P.scope r.programScope.2.machine.heap r.programScope.1 ∧
      r.machine.heap.Grows P.closed P.emptying r.programScope.2.machine.heap := by
  unfold Runner.programScope
  split
  · rename_i p hp
    exact ⟨hr, hr.program p hp, .refl _⟩
  · have hclosed := hr.holds.heap.closed
    have hgrows := r.machine.heap.grows_newScope P.closed P.emptying (some r.root) []
    refine ⟨hr.onHeap (hr.holds.heap.newScope ?_ table_nil) hgrows.extend, ?_, hgrows⟩
    · rintro _ ⟨⟩
      exact Lawful.link hr.root
    · exact Nests.newScope r.machine.heap _ _ hclosed

theorem runNodesOn (hr : P.Session r) {e e' : Engine} (he : P.Obeys e e') {nodes : List Node}
    (hnodes : P.nodes r.machine.heap nodes) :
    r.runNodesOn e' nodes = r.runNodesOn e nodes ∧ P.Runs r (r.runNodesOn e nodes) := by
  obtain ⟨hr', hscope, hgrows⟩ := hr.programScope
  let ctx : Context := ⟨r.programScope.1, r.programScope.2.source, r.programScope.2.settings⟩
  have hkeeps : P.Keeps r.programScope.2.machine (e.evaluate ctx nodes) (e'.evaluate ctx nodes)
      P.result := he.evaluate hscope (.of_nodes (hgrows.nodes hnodes))
  obtain ⟨heq, hend⟩ := hkeeps hr'.holds
  constructor
  · unfold Runner.runNodesOn
    dsimp only
    rw [heq]
  · unfold Runner.runNodesOn
    dsimp only
    generalize e.evaluate _ nodes r.programScope.2.machine = q at hend
    obtain ⟨result, machine⟩ := q
    refine ⟨⟨hend.holds, ?_, ?_, ?_, hr'.host, hr'.closed⟩, hgrows.trans hend.grows, ?_, ?_⟩
    · exact Nat.lt_of_lt_of_le hr'.root hend.grows.extend.scopes
    · exact fun p hp => hend.grows.scope (hr'.program p hp)
    · exact hend.grows.table hr'.builtins
    · intro v hv
      cases result with
      | ok w =>
        obtain rfl : w = v := Except.ok.inj hv
        exact hend.value w rfl
      | error s => cases hv
    · intro s hs
      cases result with
      | ok w => cases hs
      | error s' => exact ⟨s', hend.stop s' rfl, (Except.error.inj hs).symm⟩

theorem evalOn (hr : P.Session r) {e e' : Engine} (he : P.Obeys e e') {text : String}
    (htext : P.text text) :
    r.evalOn e' text = r.evalOn e text ∧ P.Runs r (r.evalOn e text) := by
  let r₀ : Runner := { r with machine := { r.machine with calls := [], focus := none } }
  have hr₀ : P.Session r₀ :=
    ⟨⟨hr.holds.heap, hr.holds.hosts⟩, hr.root, hr.program, hr.builtins, hr.host, hr.closed⟩
  unfold Runner.evalOn
  dsimp only
  cases hparse : parse r.settings.room.spans text with
  | ok nodes =>
    obtain ⟨heq, hruns⟩ := hr₀.runNodesOn he (htext _ _ nodes hparse)
    exact ⟨heq, hruns.session, hruns.grows, hruns.value, hruns.stop⟩
  | error cause =>
    cases cause with
    | malformed =>
      refine ⟨rfl, hr₀, .refl _, by rintro _ ⟨⟩, ?_⟩
      rintro _ ⟨⟩
      exact ⟨.fault _, Lawful.fault _, rfl⟩
    | tooDeep =>
      refine ⟨rfl, hr₀, .refl _, by rintro _ ⟨⟩, ?_⟩
      rintro _ ⟨⟩
      exact ⟨.exhausted none, Lawful.exhausted, rfl⟩

section Empties

variable [P.Empties]

theorem runNodes (hr : P.Session r) {nodes : List Node} (hnodes : P.nodes r.machine.heap nodes) :
    P.Runs r (r.runNodes nodes) := (hr.runNodesOn (P.obeys_level maxLevels) hnodes).2

theorem eval (hr : P.Session r) {text : String} (htext : P.text text) : P.Runs r (r.eval text) :=
  (hr.evalOn (P.obeys_level maxLevels) htext).2

omit [P.Empties] in
theorem prepared (hr : P.Session r) : P.Session r.prepared :=
  bindHost ⟨⟨hr.holds.heap, hr.holds.hosts⟩, hr.root, hr.program, hr.builtins, hr.host, hr.closed⟩

omit [P.Nests] [P.Empties] in
theorem concluded {text : String} {p : Except Stop Value × Runner} (hp : P.Session p.2) :
    P.Session (Runner.concluded text p).2 := by
  unfold Runner.concluded
  split
  · exact hp
  · exact ⟨⟨hp.holds.heap, hp.holds.hosts⟩, hp.root, hp.program, hp.builtins, hp.host, hp.closed⟩

/-- **Every request leaves a session of the policy.** -/
theorem serve (hr : P.Session r) {q : Runner.Request} (hq : P.request r.machine.heap q) :
    P.Session (r.serve q) := by
  cases q with
  | runNodes nodes => exact (hr.runNodes hq).session
  | eval text => exact (hr.eval hq).session
  | handle text =>
    show P.Session (r.handle text).2
    rw [Runner.handle_eq]
    exact concluded (hr.prepared.eval hq).session
  | rebind host => exact ⟨hr.holds, hr.root, hr.program, hr.builtins, hq, hr.closed⟩

/-- **So do requests that may be served whatever the heap.** -/
theorem serveAll : ∀ {qs : List Runner.Request} {r : Runner}, P.Session r →
    (∀ q ∈ qs, ∀ h, P.request h q) → P.Session (r.serveAll qs)
  | [], _, hr, _ => hr
  | q :: qs, r, hr, hqs => by
    obtain ⟨hq, hrest⟩ := List.forall_mem_cons.mp hqs
    show P.Session ((r.serve q).serveAll qs)
    exact serveAll (hr.serve (hq _)) hrest

end Empties

end Runs

end Session

/-! ### Making a runner -/

section Create

variable [P.Lawful] {m : Machine}

theorem newNative_does (s : Signature) {op : Operation} (hop : P.operation m.heap op) :
    P.Does m (newNative s op) fun h p => P.value h p.2 :=
  Keeps.then_return (.newFunction hop) fun _ _ _ hv => hv

theorem lasting_entry : Lasting fun h (p : String × Value) => P.value h p.2 :=
  fun _ _ _ hext hp => Lawful.value_mono hext hp

/-- A family of operations that may be anywhere. -/
theorem newFamily_does {ops : List (Signature × Operation)}
    (hops : ∀ p ∈ ops, ∀ h, P.operation h p.2) {more : Table Value}
    (hmore : ∀ p ∈ more, p.2.IsScalar) : P.Does m (newFamily ops more) P.value := by
  refine Keeps.bind (.mapM (lasting_entry (P := P)) fun p hp m' _ => ?_)
    fun natives m' _ hnatives => ?_
  · exact newNative_does p.1 (hops p hp _)
  · exact .newDict (List.forall_mem_append.mpr ⟨hnatives, fun p hp => Lawful.scalar (hmore p hp)⟩)

/-- The library may be bound under every lawful policy. -/
theorem rootBindings_does : P.Does m rootBindings P.table := by
  have hfamily {β : Type} {catalogue : List β} {f : β → Signature × Operation} {more : Table Value}
      (hf : ∀ op h, P.operation h (f op).2) (hmore : ∀ p ∈ more, p.2.IsScalar) {m : Machine} :
      P.Does m (newFamily (catalogue.map f) more) P.value := by
    refine newFamily_does (fun p hp => ?_) hmore
    obtain ⟨op, -, rfl⟩ := List.mem_map.mp hp
    exact hf op
  have hnone : ∀ p ∈ ([] : Table Value), p.2.IsScalar := by rintro _ ⟨⟩
  refine Keeps.bind (.mapM (lasting_entry (P := P)) fun op _ m' _ => newNative_does _ trivial)
    fun core m₁ _ hcore => ?_
  refine Keeps.bind (hfamily (fun _ _ => by trivial) hnone) fun array m₂ hg₂ harray => ?_
  refine Keeps.bind (hfamily (fun _ _ => by trivial) hnone) fun string m₃ hg₃ hstring => ?_
  refine Keeps.bind (hfamily (fun _ _ => by trivial) hnone) fun dict m₄ hg₄ hdict => ?_
  refine Keeps.bind (hfamily (fun _ _ => by trivial) (by simp [Value.IsScalar]))
    fun math m₅ hg₅ hmath => ?_
  refine Keeps.bind (hfamily (fun _ _ => by trivial) hnone) fun json m₆ hg₆ hjson => ?_
  refine Keeps.then_return (hfamily (fun _ _ => by trivial) hnone) fun h yaml hg₇ hyaml => ?_
  have hg₆₇ := hg₆.trans hg₇
  have hg₅₇ := hg₅.trans hg₆₇
  have hg₄₇ := hg₄.trans hg₅₇
  have hg₃₇ := hg₃.trans hg₄₇
  have hconstants : P.table h [("true", .bool true), ("false", .bool false), ("null", .null),
      ("NaN", .number Number.nan), ("infinity", .number Number.infinity)] := by
    have hscalars : ∀ p ∈ [("true", Value.bool true), ("false", .bool false), ("null", .null),
        ("NaN", .number Number.nan), ("infinity", .number Number.infinity)], p.2.IsScalar := by
      simp [Value.IsScalar]
    exact fun p hp => Lawful.scalar (hscalars p hp)
  refine List.forall_mem_append.mpr ⟨List.forall_mem_append.mpr ⟨hconstants, ?_⟩, ?_⟩
  · exact (hg₂.trans hg₃₇).table hcore
  · intro p hp
    simp only [List.mem_cons, List.not_mem_nil, or_false] at hp
    rcases hp with rfl | rfl | rfl | rfl | rfl | rfl
    · exact hg₃₇.value harray
    · exact hg₄₇.value hstring
    · exact hg₅₇.value hdict
    · exact hg₆₇.value hmath
    · exact hg₇.value hjson
    · exact hyaml

/-- The policy without closed scopes. -/
def opened (P : Policy) : Policy := { P with closed := fun _ => False }

instance : P.opened.Lawful where
  value_mono := Lawful.value_mono (P := P)
  scope_mono := Lawful.scope_mono (P := P)
  scalar := Lawful.scalar (P := P)
  newArray := Lawful.newArray (P := P)
  newDict := Lawful.newDict (P := P)
  newFunction := Lawful.newFunction (P := P)
  link := Lawful.link (P := P)
  not_closed _ := id
  fault := Lawful.fault (P := P)
  exhausted := Lawful.exhausted (P := P)
  traced := Lawful.traced (P := P)
  literal := Lawful.literal (P := P)
  foreign := Lawful.foreign (P := P)

omit [P.Lawful] in
theorem opened_empty : P.opened.Admits .empty where
  items _ := values_nil
  dict _ := table_nil
  bindings _ := table_nil
  functions _ _ hf := by cases hf
  links _ _ hp := by cases hp
  closed _ := False.elim

omit [P.Lawful] in
theorem admits_of_opened {h : Heap} (hh : P.opened.Admits h)
    (hclosed : ∀ s, P.closed s → s.index < h.scopes.size) : P.Admits h :=
  ⟨hh.items, hh.dict, hh.bindings, hh.functions, hh.links, hclosed⟩

end Create

end Policy

namespace Runner

/-- The bindings of the root scope that a runner starts with, and the machine
they are made on. -/
def library (hosts : Array Host) : Table Value × Machine :=
  match rootBindings { Machine.initial with hosts } with
  | (.ok t, m) => (t, m)
  | (.error _, m) => ([], m)

/-- A new runner before its host is bound. -/
def unbound (settings : Settings) (source : String) (keep : Bool) (hosts : Array Host)
    (host : Option Nat) : Runner :=
  let (bindings, machine) := library hosts
  let (root, heap) := machine.heap.newScope none bindings
  let (program, heap) :=
    if keep then
      let (p, heap) := heap.newScope (some root) []
      (some p, heap)
    else (none, heap)
  ⟨{ machine with heap }, settings, source, root, program, bindings, host, []⟩

theorem create_eq (settings : Settings) (source : String) (keep : Bool) (hosts : Array Host)
    (host : Option Nat) :
    create settings source keep hosts host = (unbound settings source keep hosts host).bindHost := by
  rcases hr : rootBindings { Machine.initial with hosts } with ⟨s | t, m⟩
  · cases keep <;> simp [create, unbound, library, hr]
  · cases keep <;> simp [create, unbound, library, hr]

theorem releaseHost_settings (r : Runner) : r.releaseHost.settings = r.settings := by
  have hrestore (r : Runner) (name : String) : (r.restore name).settings = r.settings := by
    unfold restore
    split <;> rfl
  show (r.hostNames.foldl restore r).settings = _
  generalize r.hostNames = names
  induction names generalizing r with
  | nil => rfl
  | cons name names ih => rw [List.foldl_cons, ih, hrestore]

theorem bindMethods_settings (host : Nat) : ∀ (ks : List HostMethod) (r : Runner) (index : Nat),
    (bindMethods host r index ks).settings = r.settings
  | [], _, _ => rfl
  | k :: ks, r, index => by
    unfold bindMethods
    dsimp only
    split <;> exact bindMethods_settings host ks _ (index + 1)

theorem bindHost_settings (r : Runner) : r.bindHost.settings = r.settings := by
  have hreleased := r.releaseHost_settings
  unfold bindHost
  dsimp only
  split
  · exact hreleased
  · split
    · exact hreleased
    · split
      · exact hreleased
      · exact (bindMethods_settings _ _ _ 0).trans hreleased

theorem prepared_settings (r : Runner) : r.prepared.settings = r.settings :=
  bindHost_settings { r with machine := { r.machine with effects := #[] } }

/-- A new runner has the settings that it was made with. -/
theorem create_settings (settings : Settings) (source : String) (keep : Bool) (hosts : Array Host)
    (host : Option Nat) : (create settings source keep hosts host).settings = settings := by
  rw [create_eq, bindHost_settings]
  unfold unbound
  generalize library hosts = l
  cases keep <;> rfl

end Runner

namespace Policy

variable {P : Policy} [P.Nests]

theorem library_opened {hosts : Array Host} (hhosts : ∀ o ∈ hosts, P.host o) :
    P.opened.Holds (Runner.library hosts).2 ∧
      P.table (Runner.library hosts).2.heap (Runner.library hosts).1 := by
  obtain ⟨-, hend⟩ := rootBindings_does (P := P.opened) (m := { Machine.initial with hosts })
    ⟨opened_empty, hhosts⟩
  unfold Runner.library
  split
  · rename_i t m hr
    rw [hr] at hend
    exact ⟨hend.holds, hend.value t rfl⟩
  · rename_i s m hr
    rw [hr] at hend
    exact ⟨hend.holds, table_nil⟩

theorem session_unbound (settings : Settings) (source : String) (keep : Bool) {hosts : Array Host}
    {host : Option Nat} (hhosts : ∀ o ∈ hosts, P.host o) (hhost : host = none ∨ P.foreign)
    (hclosed : ∀ s, P.closed s → s = (Runner.unbound settings source keep hosts host).root) :
    P.Session (Runner.unbound settings source keep hosts host) := by
  obtain ⟨hopened, hbindings⟩ := library_opened (P := P) hhosts
  unfold Runner.unbound at hclosed ⊢
  generalize Runner.library hosts = l at hopened hbindings hclosed ⊢
  obtain ⟨bindings, machine⟩ := l
  dsimp only at hclosed hbindings ⊢
  have hroot := machine.heap.newScope_lt none bindings
  have hadmits : P.Admits (machine.heap.newScope none bindings).2 := by
    have hnew : P.opened.Admits (machine.heap.newScope none bindings).2 :=
      hopened.heap.newScope (by rintro _ ⟨⟩) hbindings
    exact admits_of_opened hnew fun s hs => hclosed s hs ▸ hroot
  have hgrows := machine.heap.grows_newScope (fun _ => False) False none bindings
  have hbare : P.Session ⟨{ machine with heap := (machine.heap.newScope none bindings).2 }, settings,
      source, (machine.heap.newScope none bindings).1, none, bindings, host, []⟩ :=
    ⟨⟨hadmits, hopened.hosts⟩, hroot, by rintro _ ⟨⟩, hgrows.table hbindings, hhost, hclosed⟩
  cases keep with
  | false => exact hbare
  | true =>
    obtain ⟨hr, hscope, -⟩ := hbare.programScope
    refine ⟨hr.holds, hr.root, ?_, hr.builtins, hr.host, hr.closed⟩
    rintro _ ⟨⟩
    exact hscope

/-- **A new runner is a session of the policy.** -/
theorem session_create (settings : Settings) (source : String) (keep : Bool) {hosts : Array Host}
    {host : Option Nat} (hhosts : ∀ o ∈ hosts, P.host o) (hhost : host = none ∨ P.foreign)
    (hclosed : ∀ s, P.closed s → s = (Runner.unbound settings source keep hosts host).root) :
    P.Session (Runner.create settings source keep hosts host) := by
  rw [Runner.create_eq]
  exact (session_unbound settings source keep hhosts hhost hclosed).bindHost

end Policy

end RuleScript
