/-
# Runs of one runner

A runner serves one script after another on the same machine. Each gets a
program scope of its own, but the root scope around it and the library in it are
there for all of them, and what a script leaves on the heap stays there. A
script that assigns to a name of the root changes it for good
(`assignment_to_root_stays`).

A script that leaves the names of the root and the dicts of the library as they
were (`Runner.SameLibrary`) has no influence on the next one. The heap is longer
after it, so what the next script allocates gets other references, and that is
all: the heap of a new runner reads in the longer one (`Heap.Begins.heaps`), and
a script goes the same way on both, unless a template shows the number of a scope
(`Runner.DiscreetOn`). The functions of the library need no such condition, since
no script can change them (`Runner.Alone.functions_stay`). The random source is
not a runner's own, so the new runner finds it where the first script left it.

Key definitions: `Heap.Begins`, `Likeness.onward`, `Outcome.renamed`,
`Runner.Alone`, `Runner.New`, `Runner.SameLibrary`, `Runner.DiscreetOn`.
Key theorems: `Heap.Begins.heaps`, `Runner.Alone.handle_alike`,
`Runner.Alone.functions_stay`, `runs_are_isolated`, `assignment_to_root_stays`.
-/
import RuleScript.Proofs.Faults.Taxonomy
import RuleScript.Proofs.Heap.WellFormed
import RuleScript.Proofs.Hosts.Binding
import RuleScript.Proofs.Likeness.Discretion
import RuleScript.Proofs.Source.Parsing

namespace RuleScript

/-! ### A heap that goes on -/

/-- Every arena of the first heap is the beginning of the same arena of the
second. -/
structure Heap.Begins (h h' : Heap) : Prop where
  scopes : h.scopes.toList <+: h'.scopes.toList
  arrays : h.arrays.toList <+: h'.arrays.toList
  dicts : h.dicts.toList <+: h'.dicts.toList
  functions : h.functions.toList <+: h'.functions.toList

/-- An arena reads in a longer one that begins with it, if its entries stay as
they are. -/
theorem Renaming.arenas_shift {α : Type} {f : α → α} {a a' : Array α}
    (h : a.toList <+: a'.toList) (hf : ∀ x ∈ a, f x = x) :
    (Renaming.shift a.size (a'.size - a.size)).Arenas f a a' where
  next j := by
    have hle : a.size ≤ a'.size := h.length_le
    show (if a.size + j < a.size then _ else _) = _
    rw [if_neg (by omega)]
    omega
  entry i := by
    show a'[if i < a.size then i else _]? = _
    split
    · rename_i hi
      have hentry := List.prefix_iff_getElem?.mp h i hi
      rw [Array.getElem?_toList] at hentry
      rw [hentry, Array.getElem?_eq_getElem hi]
      exact congrArg some (hf _ (Array.getElem_mem hi)).symm
    · rename_i hi
      rw [Array.getElem?_eq_none (by omega), Array.getElem?_eq_none (by omega)]
      rfl

namespace Likeness

/-- What the first heap holds keeps its name; what comes after it moves to where
the second heap ends. -/
def onward (h h' : Heap) : Likeness where
  blank := false
  hosted := false
  scopes := .shift h.scopes.size (h'.scopes.size - h.scopes.size)
  arrays := .shift h.arrays.size (h'.arrays.size - h.arrays.size)
  dicts := .shift h.dicts.size (h'.dicts.size - h.dicts.size)
  functions := .shift h.functions.size (h'.functions.size - h.functions.size)
  fixed := #[]

/-! ### What keeps its name -/

/-- Nodes stay as they are if the values in them do. -/
theorem node_of_madeOf {L : Likeness} (hblank : L.blank = false) {value : Value → Prop}
    {literal : String → String → Prop} (hvalue : ∀ v, value v → L.value v = v) {n : Node}
    (hn : n.MadeOf value literal) : L.node n = n := by
  induction hn with
  | number pos hl => exact congrArg (Node.number · _ _) (L.position_of_placed hblank pos)
  | word pos text => exact congrArg (Node.word · text) (L.position_of_placed hblank pos)
  | quoted pos raw => exact congrArg (Node.quoted · raw) (L.position_of_placed hblank pos)
  | symbol pos text => exact congrArg (Node.symbol · text) (L.position_of_placed hblank pos)
  | @span pos d body _ ih =>
    have hbody : L.nodes body = body := by
      rw [nodes_eq_map]
      exact (List.map_congr_left ih).trans (List.map_id body)
    rw [node, hbody, L.position_of_placed hblank]
  | value pos hv => rw [node, hvalue _ hv, L.position_of_placed hblank]

theorem map_node_of_parse {L : Likeness} (hblank : L.blank = false) {text : String} {spans : Nat}
    {nodes : List Node} (h : parse spans text = .ok nodes) : nodes.map L.node = nodes := by
  have hmade : ∀ n ∈ nodes, n.MadeOf (fun _ => False) fun _ _ => True :=
    parse_madeOf (fun _ _ => trivial) h
  refine (List.map_congr_left fun n hn => ?_).trans (List.map_id nodes)
  exact node_of_madeOf hblank (fun _ => False.elim) (hmade n hn)

section Onward

variable {h h' : Heap}

theorem onward_value {v : Value} (hv : h.Allocated v) : (onward h h').value v = v := by
  cases v
  case array r => exact congrArg (fun i => Value.array ⟨i⟩) (if_pos hv)
  case dict r => exact congrArg (fun i => Value.dict ⟨i⟩) (if_pos hv)
  case function r => exact congrArg (fun i => Value.function ⟨i⟩) (if_pos hv)
  all_goals rfl

theorem onward_scope {s : ScopeRef} (hs : h.HasScope s) : (onward h h').scope s = s :=
  congrArg ScopeRef.mk (if_pos hs)

theorem onward_table {t : Table Value} (ht : ∀ p ∈ t, h.Allocated p.2) : (onward h h').table t = t :=
  (List.map_congr_left fun p hp => congrArg (Prod.mk p.1) (onward_value (ht p hp))).trans
    (List.map_id t)

theorem onward_code {f : Function} (hf : h.AllocatedFunction f) : (onward h h').code f = f := by
  cases f with
  | script f =>
    obtain ⟨hscope, hbody⟩ := hf
    have hnodes : (onward h h').nodes f.body = f.body := by
      rw [nodes_eq_map]
      refine (List.map_congr_left fun n hn => ?_).trans (List.map_id f.body)
      exact node_of_madeOf rfl (fun _ => onward_value) (hbody n hn)
    rw [code, hnodes, onward_scope hscope]
  | native f =>
    obtain ⟨operation, name, arity, usage, note⟩ := f
    cases operation
    case loop condition limit =>
      have hcondition : (onward h h').value (.function condition) = .function condition :=
        onward_value hf
      rw [code, Likeness.operation, Value.function.inj hcondition]
    all_goals rfl

end Onward

end Likeness

/-! ### The longer heap is alike -/

/-- An operation from outside the standard library. -/
def Operation.Foreign : Operation → Prop
  | .probe _ | .method _ _ => True
  | _ => False

/-- Only operations of the standard library are on the heap. -/
def Heap.Standard (h : Heap) : Prop :=
  ∀ r f, h.function? r = some (.native f) → ¬f.operation.Foreign

/-- A policy that admits nothing from outside. -/
theorem Policy.Admits.standard {P : Policy} {h : Heap} (hh : P.Admits h) (hforeign : ¬P.foreign) :
    h.Standard := by
  intro r f hf
  have hop : P.operation h f.operation := hh.functions r _ hf
  generalize f.operation = op at hop
  cases op
  case probe => exact absurd hop hforeign
  case method => exact absurd hop hforeign
  all_goals exact id

theorem Likeness.fits_of_not_foreign (L : Likeness) {op : Operation} (hop : ¬op.Foreign) : L.Fits op := by
  cases op
  case probe => exact absurd trivial hop
  case method => exact absurd trivial hop
  all_goals trivial

/-- The scope around another is there. -/
theorem Heap.WellFormed.hasScope_parent {h : Heap} (hw : h.WellFormed) {s p : ScopeRef}
    (hp : (h.scope s).parent = some p) : h.HasScope p := by
  have hs : s.index < h.scopes.size := by
    by_contra hs
    unfold Heap.scope at hp
    rw [Array.getD_eq_getD_getElem?, Array.getElem?_eq_none (Nat.le_of_not_lt hs)] at hp
    cases hp
  exact Nat.lt_trans (hw.inside s p hp) hs

theorem Heap.exists_scope {h : Heap} {s : Scope} (hs : s ∈ h.scopes) : ∃ r, h.scope r = s := by
  obtain ⟨i, hi, rfl⟩ := Array.mem_iff_getElem.mp hs
  exact ⟨⟨i⟩, Array.getD_eq_getD_getElem?.trans (by rw [Array.getElem?_eq_getElem hi]; rfl)⟩

theorem Heap.exists_array {h : Heap} {c : ArrayCell} (hc : c ∈ h.arrays) : ∃ r, h.arrayCell r = c := by
  obtain ⟨i, hi, rfl⟩ := Array.mem_iff_getElem.mp hc
  exact ⟨⟨i⟩, Array.getD_eq_getD_getElem?.trans (by rw [Array.getElem?_eq_getElem hi]; rfl)⟩

theorem Heap.exists_dict {h : Heap} {t : Table Value} (ht : t ∈ h.dicts) : ∃ r, h.dict r = t := by
  obtain ⟨i, hi, rfl⟩ := Array.mem_iff_getElem.mp ht
  exact ⟨⟨i⟩, Array.getD_eq_getD_getElem?.trans (by rw [Array.getElem?_eq_getElem hi]; rfl)⟩

open Likeness in
/-- **A well-formed heap reads in every heap that begins with it.** -/
theorem Heap.Begins.heaps {h h' : Heap} (hb : h.Begins h') (hw : h.WellFormed)
    (hscopes : 0 < h.scopes.size) (hstandard : h.Standard) : (onward h h').Heaps h h' where
  scopes := Renaming.arenas_shift hb.scopes fun s hs => by
    obtain ⟨r, rfl⟩ := Heap.exists_scope hs
    have hparent : (h.scope r).parent.map (onward h h').scope = (h.scope r).parent := by
      cases hp : (h.scope r).parent with
      | none => rfl
      | some p => exact congrArg some (onward_scope (hw.hasScope_parent hp))
    have hbindings : (onward h h').table (h.scope r).bindings = (h.scope r).bindings :=
      onward_table (hw.bindings r)
    rw [scopeCell, hbindings, hparent]
  arrays := Renaming.arenas_shift hb.arrays fun c hc => by
    obtain ⟨r, rfl⟩ := Heap.exists_array hc
    refine congrArg (ArrayCell.mk · (h.arrayCell r).additions) ?_
    exact (List.map_congr_left fun v hv => onward_value (hw.items r v hv)).trans (List.map_id _)
  dicts := Renaming.arenas_shift hb.dicts fun t ht => by
    obtain ⟨r, rfl⟩ := Heap.exists_dict ht
    exact onward_table (hw.dict r)
  functions := Renaming.arenas_shift hb.functions fun f hf => by
    obtain ⟨i, hi, rfl⟩ := Array.mem_iff_getElem.mp hf
    exact onward_code (hw.functions ⟨i⟩ _ (Array.getElem?_eq_getElem hi))
  fits r f hf := (onward h h').fits_of_not_foreign (hstandard r f hf)
  fixed := List.nil_prefix
  order := .inr ⟨hscopes, hw.inside, fun r f hf => (hw.functions r _ hf).1⟩

/-! ### Runs on machines that are alike -/

/-- An outcome on another machine: a value is carried over, a failure stays. -/
def Outcome.renamed (L : Likeness) : Outcome → Outcome
  | .success v => .success (L.value v)
  | .failure stop message token => .failure stop message token

namespace Likeness

variable {L : Likeness}

/-- How two runs end that go the same way. -/
structure Runs (L : Likeness) (p p' : Except Stop Value × Runner) : Prop where
  result : p'.1 = p.1.map L.value
  machine : L.Machines 0 p.2.machine p'.2.machine
  record : p'.2 = { p.2 with machine := p'.2.machine }

theorem coordinate_of_placed (hblank : L.blank = false) (c : Option Int) : L.coordinate c = c := by
  rw [coordinate, hblank]
  rfl

theorem frames_of_placed (hblank : L.blank = false) (frames : List Frame) :
    frames.map L.frame = frames := by
  refine (List.map_congr_left fun f _ => ?_).trans (List.map_id frames)
  rw [frame, coordinate_of_placed hblank, coordinate_of_placed hblank]
  rfl

theorem focus_of_placed (hblank : L.blank = false) (focus : Option Position) :
    focus.map L.position = focus := by
  rw [show L.position = id from funext (L.position_of_placed hblank), Option.map_id, id]

theorem stop_of_placed (hblank : L.blank = false) (s : Stop) : L.stop s = s := by
  have htrace (trace : Option (List Frame)) : trace.map (·.map L.frame) = trace := by
    cases trace with
    | none => rfl
    | some frames => exact congrArg some (frames_of_placed hblank frames)
  cases s with
  | fault f => rw [stop, htrace, coordinate_of_placed hblank, coordinate_of_placed hblank]
  | internal e trace => rw [stop, htrace]
  | exhausted trace => rw [stop, htrace]

/-- A machine is alike to itself. -/
theorem Plain.machines (hplain : L.Plain) {m : Machine}
    (hfits : ∀ r f, m.heap.function? r = some (.native f) → L.Fits f.operation)
    (hfixed : L.fixed.toList <+: m.heap.functions.toList) : L.Machines 0 m m where
  heap := hplain.heaps hfits hfixed
  known := Nat.zero_le _
  calls := (frames_of_placed hplain.placed m.calls).symm
  effects := rfl
  focus := (focus_of_placed hplain.placed m.focus).symm
  hosts := fun _ => rfl
  seed := rfl

/-- **A discreet run of nodes goes the same way** on a machine that is alike. -/
theorem Machines.runNodes (hblank : L.blank = false) {r : Runner} (hprogram : r.program = none)
    {bound : Nat} {m' : Machine} (hm : L.Machines bound r.machine m') (hroot : L.Reaches bound r.root)
    (hkeep : L.scope r.root = r.root) {nodes : List Node} (hnodes : nodes.map L.node = nodes)
    (hd : r.Discreet L.disguise nodes) :
    L.Runs (r.runNodes nodes) (Runner.runNodes { r with machine := m' } nodes) := by
  obtain ⟨m, settings, source, root, program, builtins, host, hostNames⟩ := r
  obtain rfl : program = none := hprogram
  let h := (m.heap.newScope (some root) []).2
  let h' := (m'.heap.newScope (some root) []).2
  let ctx : Context := ⟨⟨m.heap.scopes.size⟩, source, settings⟩
  replace hm : L.Machines bound m m' := hm
  replace hd : Discreet L.disguise maxLevels ctx nodes { m with heap := h } := hd
  have hheaps : L.Heaps h h' := by
    have hnew := hm.heap.newScope (hroot.imp_right fun hlt => Nat.lt_of_lt_of_le hlt hm.known) []
    rwa [hkeep] at hnew
  have hlt := m.heap.newScope_lt (some root) []
  have hm₁ := (hm.onHeap hheaps (Nat.le_of_lt hlt)).all
  have hends := hm₁.evaluate (.inr hlt) hd
  rw [hnodes] at hends
  have hcontext : L.context ctx = ⟨⟨m'.heap.scopes.size⟩, source, settings⟩ :=
    congrArg (fun s => Context.mk s source settings) hm.heap.next_scope
  rw [hcontext] at hends
  -- What a run makes of how the evaluation ends.
  let finish (q : Except Stop Value × Machine) : Except Stop Value × Runner :=
    let r : Runner := ⟨q.2, settings, source, root, none, builtins, host, hostNames⟩
    (q.1.mapError r.settle, r)
  show L.Runs (finish ((Engine.level maxLevels).evaluate ctx nodes { m with heap := h }))
    (finish ((Engine.level maxLevels).evaluate ⟨⟨m'.heap.scopes.size⟩, source, settings⟩ nodes
      { m' with heap := h' }))
  generalize (Engine.level maxLevels).evaluate _ nodes { m with heap := h } = q,
    (Engine.level maxLevels).evaluate _ nodes { m' with heap := h' } = q' at hends
  cases hends with
  | value a hm₂ => exact ⟨rfl, hm₂.weaken (Nat.zero_le _), rfl⟩
  | @stop t m₂ m₂' hm₂ =>
    refine ⟨?_, hm₂.weaken (Nat.zero_le _), rfl⟩
    have hfocus : m₂'.focus = m₂.focus := hm₂.focus.trans (focus_of_placed hblank _)
    rw [stop_of_placed hblank]
    cases t with
    | exhausted trace =>
      show Except.error (Stop.fault (.raisedAt _ m₂'.focus source)) = _
      rw [hfocus]
      rfl
    | fault f => rfl
    | internal e trace => rfl

/-- So does a run of a source text. -/
theorem Machines.eval (hblank : L.blank = false) {r : Runner} (hprogram : r.program = none)
    {bound : Nat} {m' : Machine}
    (hm : L.Machines bound r.rested.machine { m' with calls := [], focus := none })
    (hroot : L.Reaches bound r.root) (hkeep : L.scope r.root = r.root) {text : String}
    (hd : ∀ nodes, parse r.settings.room.spans text = .ok nodes → r.rested.Discreet L.disguise nodes) :
    L.Runs (r.eval text) (Runner.eval { r with machine := m' } text) := by
  cases hparse : parse r.settings.room.spans text with
  | ok nodes =>
    rw [Runner.eval_of_parse r hparse, Runner.eval_of_parse { r with machine := m' } hparse]
    exact Machines.runNodes (r := r.rested) hblank hprogram hm hroot hkeep
      (map_node_of_parse hblank hparse) (hd nodes hparse)
  | error cause =>
    unfold Runner.eval
    dsimp only
    rw [hparse]
    have hstays := hm.weaken (Nat.zero_le _)
    cases cause with
    | malformed => exact ⟨rfl, hstays, rfl⟩
    | tooDeep => exact ⟨rfl, hstays, rfl⟩

/-- What a host is told of runs that go the same way. -/
theorem Runs.concluded (hblank : L.blank = false) {p p' : Except Stop Value × Runner} (hp : L.Runs p p')
    (text : String) :
    (Runner.concluded text p').1 = (Runner.concluded text p).1.renamed L ∧
      (Runner.concluded text p').2.machine.effects = (Runner.concluded text p).2.machine.effects ∧
      L.Heaps (Runner.concluded text p).2.machine.heap (Runner.concluded text p').2.machine.heap := by
  obtain ⟨result, r⟩ := p
  obtain ⟨result', r'⟩ := p'
  obtain ⟨hresult, hm, hrecord⟩ := hp
  dsimp only at hresult hm hrecord
  subst hresult
  cases result with
  | ok v => exact ⟨rfl, hm.effects, hm.heap⟩
  | error stop =>
    have hreport : report r'.source text r'.machine.focus stop =
        report r.source text r.machine.focus stop := by
      have hfocus : r'.machine.focus = r.machine.focus := hm.focus.trans (focus_of_placed hblank _)
      have hsource : r'.source = r.source := by rw [hrecord]
      rw [hfocus, hsource]
    refine ⟨?_, ?_, hm.heap⟩
    · show Outcome.failure stop (report r'.source text r'.machine.focus stop).1
        (report r'.source text r'.machine.focus stop).2 = _
      rw [hreport]
      rfl
    · show r'.machine.effects.push (.failed (report r'.source text r'.machine.focus stop).1) = _
      rw [hreport, hm.effects]
      rfl

end Likeness

/-! ### Runners without a host -/

/-- The machine as a script finds it: no call is active, and nothing has been
shown. -/
def Machine.cleared (m : Machine) : Machine := { m with calls := [], effects := #[], focus := none }

namespace Runner

/-- A script that has nodes is run as they are. -/
theorem handle_of_parse (r : Runner) {text : String} {nodes : List Node}
    (h : parse r.settings.room.spans text = .ok nodes) :
    r.handle text = concluded text (r.prepared.rested.runNodes nodes) := by
  rw [handle_eq, eval_of_parse _ (r.prepared_settings ▸ h)]

/-- A runner that has no host and keeps no program scope. -/
structure Alone (r : Runner) : Prop where
  program : r.program = none
  host : r.host = none
  hostNames : r.hostNames = []

namespace Alone

variable {r : Runner} (hr : r.Alone)

include hr

/-- There is nothing to bind for the next script. -/
theorem prepared_eq : r.prepared = { r with machine := { r.machine with effects := #[] } } := by
  obtain ⟨m, settings, source, root, program, builtins, host, hostNames⟩ := r
  obtain ⟨rfl, rfl⟩ : host = none ∧ hostNames = [] := ⟨hr.host, hr.hostNames⟩
  rfl

theorem handle_record_eq (text : String) :
    (r.handle text).2 = { r with machine := (r.handle text).2.machine } := by
  rw [handle_eq, hr.prepared_eq]
  have heval := eval_record { r with machine := { r.machine with effects := #[] } } text
  generalize Runner.eval _ text = p at heval
  obtain ⟨result, r'⟩ := p
  dsimp only at heval
  rw [heval]
  cases result <;> rfl

/-- A script leaves no host and no program scope behind, and the settings as they
are. -/
theorem after (text : String) :
    (r.handle text).2.Alone ∧ (r.handle text).2.settings = r.settings := by
  rw [hr.handle_record_eq text]
  exact ⟨⟨hr.program, hr.host, hr.hostNames⟩, rfl⟩

/-- **A discreet script goes the same way** on a machine that is alike. -/
theorem handle_alike {L : Likeness} (hblank : L.blank = false) {bound : Nat} {m' : Machine}
    (hm : L.Machines bound r.machine.cleared m'.cleared)
    (hroot : L.Reaches bound r.root) (hkeep : L.scope r.root = r.root) {text : String}
    (hd : ∀ nodes, parse r.settings.room.spans text = .ok nodes →
      r.prepared.rested.Discreet L.disguise nodes) :
    let p := r.handle text
    let p' := handle { r with machine := m' } text
    p'.1 = p.1.renamed L ∧ p'.2.machine.effects = p.2.machine.effects ∧
      L.Heaps p.2.machine.heap p'.2.machine.heap := by
  intro p p'
  have hr' : Alone { r with machine := m' } := ⟨hr.program, hr.host, hr.hostNames⟩
  have hp : p = concluded text (eval { r with machine := { r.machine with effects := #[] } } text) := by
    rw [← hr.prepared_eq]
    rfl
  have hp' : p' = concluded text (eval { r with machine := { m' with effects := #[] } } text) := by
    show concluded text (eval (prepared { r with machine := m' }) text) = _
    rw [hr'.prepared_eq]
  rw [hr.prepared_eq] at hd
  rw [hp, hp']
  exact (Likeness.Machines.eval (r := { r with machine := { r.machine with effects := #[] } }) hblank
    hr.program hm hroot hkeep hd).concluded hblank text

/-- **No script changes the functions of the standard library.** -/
theorem functions_stay (hstandard : r.machine.heap.Standard) (text : String) :
    r.machine.heap.functions.toList <+: (r.handle text).2.machine.heap.functions.toList := by
  let L : Likeness := ⟨false, true, .refl, .refl, .refl, .refl, r.machine.heap.functions⟩
  have hplain : L.Plain := ⟨⟨rfl, rfl, rfl, rfl⟩, rfl⟩
  have hm : L.Machines 0 r.machine.cleared r.machine.cleared :=
    hplain.machines (fun f g hg => L.fits_of_not_foreign (hstandard f g hg)) List.prefix_rfl
  have hdiscreet (nodes : List Node) (_ : parse r.settings.room.spans text = .ok nodes) :
      r.prepared.rested.Discreet L.disguise nodes := hplain.discreet _ _ nodes _
  exact (hr.handle_alike rfl hm (.inl hplain.toStill) rfl hdiscreet).2.2.fixed

end Alone

/-! ### A new runner -/

/-- What is known of a new runner: there is the root and no other scope, no
array, and no operation from outside the standard library. -/
structure New (r : Runner) : Prop extends r.Alone where
  root : r.root = ⟨0⟩
  scopes : r.machine.heap.scopes.size = 1
  arrays : r.machine.heap.arrays.size = 0
  standard : r.machine.heap.Standard
  session : Policy.allocation.Session r

theorem lone_settings (settings : Settings) (source : String) :
    (lone settings source).settings = settings := create_settings settings source false #[] none

theorem plain_spans : plain.settings.room.spans = Room.usual.spans := by
  rw [plain, lone_settings]

theorem lone_eq (settings : Settings) (source : String) :
    let l := library #[]
    let p := l.2.heap.newScope none l.1
    lone settings source = ⟨{ l.2 with heap := p.2 }, settings, source, p.1, none, l.1, none, []⟩ := by
  unfold lone
  rw [create_eq]
  unfold unbound
  generalize library #[] = l
  rfl

/-- The library is made without a scope and without an array. -/
theorem library_size : (library #[]).2.heap.scopes.size = 0 ∧ (library #[]).2.heap.arrays.size = 0 := by
  decide +kernel

theorem lone_new (settings : Settings) (source : String) : (lone settings source).New := by
  have hsession {P : Policy} [P.Nests] (hclosed : ∀ s, ¬P.closed s) : P.Session (lone settings source) := by
    unfold lone
    exact Policy.session_create settings source false (by simp) (.inl rfl)
      fun s hs => absurd hs (hclosed s)
  have hstandard : (lone settings source).machine.heap.Standard := by
    have hconfined : (Policy.confined (· = .tooLarge)).Session (lone settings source) :=
      hsession fun _ => id
    exact hconfined.holds.heap.standard id
  have hallocation : Policy.allocation.Session (lone settings source) := hsession fun _ => id
  obtain ⟨hscopes, harrays⟩ := library_size
  rw [lone_eq] at hstandard hallocation ⊢
  generalize library #[] = l at hscopes harrays hstandard hallocation
  refine ⟨⟨rfl, rfl, rfl⟩, congrArg ScopeRef.mk hscopes, ?_, harrays, hstandard, hallocation⟩
  show (l.2.heap.scopes.push _).size = 1
  rw [Array.size_push, hscopes]

/-! ### One script after another -/

/-- The runner with the random source in another state. -/
def withSeed (r : Runner) (seed : UInt64) : Runner := { r with machine := { r.machine with seed } }

/-- The names of the root and the dicts of a runner are as they were before. -/
structure SameLibrary (r r' : Runner) : Prop where
  root : r'.machine.heap.bindings r.root = r.machine.heap.bindings r.root
  dicts : ∀ d, d.index < r.machine.heap.dicts.size → r'.machine.heap.dict d = r.machine.heap.dict d

/-- A runner's run of a script goes the same way whatever numbers of scopes
templates show. -/
def DiscreetOn (r : Runner) (text : String) : Prop :=
  ∀ (number : ScopeRef → Nat) (nodes : List Node), parse r.settings.room.spans text = .ok nodes →
    r.prepared.rested.Discreet ⟨id, number, true⟩ nodes

theorem Alone.handle_grows {r : Runner} (hr : r.Alone) {P : Policy} [P.Nests] [P.Empties] (hsession : P.Session r)
    {text : String} (htext : P.text text) :
    r.machine.heap.Grows P.closed P.emptying (r.handle text).2.machine.heap := by
  have hgrows := (hsession.prepared.eval htext).grows
  rw [hr.prepared_eq] at hgrows
  rw [handle_eq, hr.prepared_eq]
  generalize Runner.eval _ text = p at hgrows
  obtain ⟨result, r'⟩ := p
  cases result <;> exact hgrows

end Runner

theorem prefix_of_getD {α : Type} {a a' : Array α} (d : α) (hle : a.size ≤ a'.size)
    (h : ∀ i < a.size, a'.getD i d = a.getD i d) : a.toList <+: a'.toList := by
  refine List.prefix_iff_getElem?.mpr fun i hi => ?_
  have hi' : i < a'.size := Nat.lt_of_lt_of_le hi hle
  have hentry := h i hi
  rw [Array.getD_eq_getD_getElem?, Array.getD_eq_getD_getElem?, Array.getElem?_eq_getElem hi,
    Array.getElem?_eq_getElem hi'] at hentry
  rw [Array.getElem?_toList, Array.getElem?_eq_getElem hi']
  exact congrArg some hentry

namespace Runner.New

variable {r : Runner} (hr : r.New)

include hr

/-- There is no scope around the root. -/
theorem parent : (r.machine.heap.scope r.root).parent = none := by
  have hwell : r.machine.heap.WellFormed := Policy.allocation_admits.mp hr.session.holds.heap
  cases hparent : (r.machine.heap.scope r.root).parent with
  | none => rfl
  | some p =>
    have hinside := hwell.inside r.root p hparent
    rw [hr.root] at hinside
    exact absurd hinside (Nat.not_lt_zero _)

/-- **After a script that leaves the library as it was, the heap begins with the
heap of the new runner.** -/
theorem begins {text : String} (h : r.SameLibrary (r.handle text).2) :
    r.machine.heap.Begins (r.handle text).2.machine.heap := by
  have hgrows := hr.handle_grows hr.session (Policy.text_of_literal (fun _ _ => trivial) text)
  have hfunctions := hr.functions_stay hr.standard text
  generalize (r.handle text).2 = used at h hgrows hfunctions
  refine ⟨prefix_of_getD ⟨[], none⟩ hgrows.extend.scopes fun i hi => ?_, ?_,
    prefix_of_getD [] hgrows.extend.dicts fun i hi => h.dicts ⟨i⟩ hi, hfunctions⟩
  · obtain rfl : i = 0 := by
      rw [hr.scopes] at hi
      omega
    have hbindings := h.root
    have hparent : (used.machine.heap.scope r.root).parent = (r.machine.heap.scope r.root).parent := by
      rcases hgrows.each r.root (by rw [hr.root, hr.scopes]; exact Nat.one_pos) with hkept | ⟨-, hemptied⟩
      · exact hkept.parent
      · rw [hemptied.parent, hr.parent]
    rw [hr.root] at hbindings hparent
    show Scope.mk (used.machine.heap.bindings ⟨0⟩) (used.machine.heap.scope ⟨0⟩).parent =
      r.machine.heap.scope ⟨0⟩
    rw [hbindings, hparent]
    rfl
  · rw [List.eq_nil_of_length_eq_zero hr.arrays]
    exact List.nil_prefix

theorem isolated {first second : String} (h : r.SameLibrary (r.handle first).2)
    (hdiscreet : (r.withSeed (r.handle first).2.machine.seed).DiscreetOn second) :
    let used := (r.handle first).2
    let fresh := r.withSeed used.machine.seed
    ∃ L : Likeness, L.blank = false ∧
      (used.handle second).1 = (fresh.handle second).1.renamed L ∧
      (used.handle second).2.machine.effects = (fresh.handle second).2.machine.effects ∧
      L.Heaps (fresh.handle second).2.machine.heap (used.handle second).2.machine.heap := by
  intro used fresh
  let L := Likeness.onward r.machine.heap used.machine.heap
  have hwell : r.machine.heap.WellFormed := Policy.allocation_admits.mp hr.session.holds.heap
  have hscopes : 0 < r.machine.heap.scopes.size := by
    rw [hr.scopes]
    exact Nat.one_pos
  have hheaps : L.Heaps r.machine.heap used.machine.heap :=
    (hr.begins h).heaps hwell hscopes hr.standard
  have hroot : r.root.index < r.machine.heap.scopes.size := by rwa [hr.root]
  have hm : L.Machines r.machine.heap.scopes.size fresh.machine.cleared used.machine.cleared :=
    ⟨hheaps, Nat.le_refl _, rfl, rfl, rfl, by rintro ⟨⟩, rfl⟩
  have hfresh : fresh.Alone := ⟨hr.program, hr.host, hr.hostNames⟩
  have hused : used = { fresh with machine := used.machine } := hr.handle_record_eq first
  have hplace : L.position = id := funext (L.position_of_placed rfl)
  have hdisguise : L.disguise = ⟨id, fun s => (L.scope s).index, true⟩ := by
    rw [Likeness.disguise, hplace]
  have halike := hfresh.handle_alike rfl hm (.inr hroot) (Likeness.onward_scope hroot)
    fun nodes hnodes => by
      rw [hdisguise]
      exact hdiscreet _ nodes hnodes
  rw [← hused] at halike
  exact ⟨L, rfl, halike⟩

end Runner.New

/-- **Runs are isolated.** Let a script run on a new runner without a host and
leave the names of the root and the dicts of the library as they were. Then
another script, if no template gives away the number of a scope, ends as on a new
runner: with the same failure and message, or with the same value up to the names
of references, and with the same effects. -/
theorem runs_are_isolated (settings : Settings) (source first second : String) :
    let fresh := Runner.lone settings source
    let used := (fresh.handle first).2
    let fresh' := fresh.withSeed used.machine.seed
    fresh.SameLibrary used → fresh'.DiscreetOn second →
      ∃ L : Likeness, L.blank = false ∧
        (used.handle second).1 = (fresh'.handle second).1.renamed L ∧
        (used.handle second).2.machine.effects = (fresh'.handle second).2.machine.effects ∧
        L.Heaps (fresh'.handle second).2.machine.heap (used.handle second).2.machine.heap :=
  fun hsame hdiscreet => (Runner.lone_new settings source).isolated hsame hdiscreet

/-- A script that makes an array. -/
def makesArray : List Node :=
  [.span ⟨some 1, some 1, 0⟩ .bracket [.quoted ⟨some 1, some 2, 1⟩ "'a'"]]

theorem tokens_makesArray : tokens "['a']" = some [⟨⟨1, 1, 0⟩, .opening .bracket⟩,
    ⟨⟨1, 2, 1⟩, .quoted ['\'', 'a', '\'']⟩, ⟨⟨1, 5, 4⟩, .closing .bracket⟩] := by
  decide +kernel

theorem parse_makesArray : parse Room.usual.spans "['a']" = .ok makesArray :=
  parse_of_tokens tokens_makesArray _

namespace Runner.Alone

variable {r : Runner} (hr : r.Alone) (hsettings : r.settings = ⟨none, "", false, .usual⟩)

include hr hsettings

theorem handle_makesArray :
    (r.handle "['a']").1 = .success (.array ⟨r.machine.heap.arrays.size⟩) ∧
      (r.handle "['a']").2.machine.heap =
        ((r.machine.heap.newScope (some r.root) []).2.newArray [.string "a"]).2 := by
  have hspans : r.settings.room.spans = Room.usual.spans := by rw [hsettings]
  rw [r.handle_of_parse (hspans ▸ parse_makesArray), hr.prepared_eq]
  obtain ⟨m, settings, source, root, program, builtins, host, hostNames⟩ := r
  obtain rfl : program = none := hr.program
  obtain rfl : settings = ⟨none, "", false, .usual⟩ := hsettings
  exact ⟨rfl, rfl⟩

theorem discreetOn_makesArray : r.DiscreetOn "['a']" := by
  intro number nodes hnodes
  rw [hsettings] at hnodes
  obtain rfl := Except.ok.inj (parse_makesArray.symm.trans hnodes)
  rw [hr.prepared_eq]
  obtain ⟨m, settings, source, root, program, builtins, host, hostNames⟩ := r
  obtain rfl : program = none := hr.program
  obtain rfl : settings = ⟨none, "", false, .usual⟩ := hsettings
  let ctx : Context := ⟨⟨m.heap.scopes.size⟩, source, ⟨none, "", false, .usual⟩⟩
  let h := (m.heap.newScope (some root) []).2
  let start : Machine := { m with heap := h, calls := [], effects := #[], focus := none }
  let finish : Machine :=
    { start with heap := (h.newArray [.string "a"]).2, focus := some ⟨some 1, some 2, 1⟩ }
  have hdisguised : (Engine.disguised ⟨id, number, true⟩ maxLevels).evaluate ctx makesArray start =
    (.ok (.array ⟨m.heap.arrays.size⟩), finish) := rfl
  have hactual : (Engine.level maxLevels).evaluate ctx makesArray start =
    (.ok (.array ⟨m.heap.arrays.size⟩), finish) := rfl
  exact hdisguised.trans hactual.symm

end Runner.Alone

theorem Runner.New.sameLibrary_makesArray {r : Runner} (hr : r.New)
    (hsettings : r.settings = ⟨none, "", false, .usual⟩) : r.SameLibrary (r.handle "['a']").2 := by
  obtain ⟨-, hheap⟩ := hr.handle_makesArray hsettings
  have hold : r.root.index ≠ r.machine.heap.scopes.size := by
    rw [hr.root, hr.scopes]
    exact Nat.zero_ne_one
  constructor
  · rw [hheap]
    show ((r.machine.heap.newScope (some r.root) []).2.scope r.root).bindings = _
    rw [Heap.scope_newScope, if_neg hold]
    rfl
  · intro d _
    rw [hheap]
    rfl

/-- It makes the first array of a new runner, wherever the random source is. -/
theorem Runner.New.first_makesArray {r : Runner} (hr : r.New)
    (hsettings : r.settings = ⟨none, "", false, .usual⟩) (seed : UInt64) :
    ((r.withSeed seed).handle "['a']").1 = .success (.array ⟨0⟩) := by
  have hfresh : (r.withSeed seed).Alone := ⟨hr.program, hr.host, hr.hostNames⟩
  have harrays : (r.withSeed seed).machine.heap.arrays.size = 0 := hr.arrays
  rw [(hfresh.handle_makesArray hsettings).1, harrays]

/-- A script that makes an array, run twice. -/
theorem runs_are_isolated_array :
    ∃ fresh used : Runner, fresh = Runner.lone ⟨none, "", false, .usual⟩ "" ∧ used = (fresh.handle "['a']").2 ∧
      fresh.SameLibrary used ∧ (fresh.withSeed used.machine.seed).DiscreetOn "['a']" ∧
      (used.handle "['a']").1 = .success (.array ⟨1⟩) ∧
      ((fresh.withSeed used.machine.seed).handle "['a']").1 = .success (.array ⟨0⟩) ∧
      ∃ L : Likeness, L.blank = false ∧ L.array ⟨0⟩ = ⟨1⟩ ∧
        L.Heaps ((fresh.withSeed used.machine.seed).handle "['a']").2.machine.heap
          (used.handle "['a']").2.machine.heap := by
  have hisolated := runs_are_isolated ⟨none, "", false, .usual⟩ "" "['a']" "['a']"
  have hnew := Runner.lone_new ⟨none, "", false, .usual⟩ ""
  have hsettings := Runner.lone_settings ⟨none, "", false, .usual⟩ ""
  refine ⟨_, _, rfl, rfl, ?_⟩
  -- From here on it does not matter how the runner is made.
  generalize Runner.lone ⟨none, "", false, .usual⟩ "" = fresh at hisolated hnew hsettings ⊢
  have hsame := hnew.sameLibrary_makesArray hsettings
  have hheap := (hnew.handle_makesArray hsettings).2
  have hrecord := hnew.handle_record_eq "['a']"
  dsimp only at hisolated
  generalize (fresh.handle "['a']").2 = used at hisolated hsame hheap hrecord ⊢
  have hfresh : (fresh.withSeed used.machine.seed).Alone := ⟨hnew.program, hnew.host, hnew.hostNames⟩
  have hused : used.Alone ∧ used.settings = ⟨none, "", false, .usual⟩ := by
    rw [hrecord]
    exact ⟨⟨hnew.program, hnew.host, hnew.hostNames⟩, hsettings⟩
  have hfirst : ((fresh.withSeed used.machine.seed).handle "['a']").1 = .success (.array ⟨0⟩) :=
    hnew.first_makesArray hsettings _
  have hsecond : (used.handle "['a']").1 = .success (.array ⟨1⟩) := by
    have harrays : used.machine.heap.arrays.size = 1 := by
      rw [hheap]
      show (fresh.machine.heap.arrays.push _).size = 1
      rw [Array.size_push, hnew.arrays]
    rw [(hused.1.handle_makesArray hused.2).1, harrays]
  have hdiscreet := hfresh.discreetOn_makesArray hsettings
  obtain ⟨L, hblank, hvalue, -, hheaps⟩ := hisolated hsame hdiscreet
  rw [hfirst, hsecond] at hvalue
  have harray : L.array ⟨0⟩ = ⟨1⟩ := (Value.array.inj (Outcome.success.inj hvalue)).symm
  exact ⟨hsame, hdiscreet, hsecond, hfirst, L, hblank, harray, hheaps⟩

/-! ### An assignment to a name of the root -/

section

open Text

/-- A word ends where the text does or at a character that may not stand in a
word. -/
theorem lexeme?_word {c : Char} {w rest : List Char} (hb : bracket? c = none) (hq : isQuote c = false)
    (hd : ¬('0' ≤ c ∧ c ≤ '9')) (hc : isWordStart c = true) (hw : ∀ d ∈ w, isWordChar d = true)
    (hrest : ∀ d ∈ rest.head?, isWordChar d = false) :
    lexeme? c (w ++ rest) = some (.word (c :: w), c :: w) := by
  have hend : rest.takeWhile isWordChar = [] := by
    cases rest with
    | nil => rfl
    | cons d rest => exact List.takeWhile_cons_of_neg (by rw [hrest d rfl]; exact Bool.false_ne_true)
  unfold lexeme?
  rw [hb]
  dsimp only
  rw [hq, if_neg Bool.false_ne_true, if_neg hd, if_pos hc, List.takeWhile_append_of_pos hw, hend,
    List.append_nil]

/-- A character of no other kind is a symbol, unless it makes one with the
next. -/
theorem lexeme?_symbol {c : Char} {rest : List Char} (hb : bracket? c = none) (hq : isQuote c = false)
    (hd : ¬('0' ≤ c ∧ c ≤ '9')) (hc : isWordChar c = false) (hs : isSpace c = false)
    (hrest : ∀ d ∈ rest.head?, isPair c d = false) :
    lexeme? c rest = some (.symbol [c], [c]) := by
  unfold lexeme?
  rw [hb]
  dsimp only
  rw [hq, if_neg Bool.false_ne_true, if_neg hd, isWordStart, hc, hs, Bool.false_and,
    if_neg Bool.false_ne_true, Bool.or_false, if_neg Bool.false_ne_true]
  cases rest with
  | nil => rfl
  | cons d rest =>
    dsimp only
    rw [hrest d rfl, if_neg Bool.false_ne_true]

theorem tokensFrom_cons (fuel : Nat) (k : Cursor) {c : Char} {cs text : List Char} {x : Lexeme}
    (hs : isSpace c = false) (hx : lexeme? c cs = some (x, text)) :
    tokensFrom (fuel + 1) k (c :: cs) =
      (tokensFrom fuel (k.advance text) ((c :: cs).drop text.length)).map (⟨k, x⟩ :: ·) := by
  rw [tokensFrom, hs, if_neg Bool.false_ne_true, hx]

theorem toNat_of_isLower {c : Char} (hc : c.isLower = true) : 97 ≤ c.toNat ∧ c.toNat ≤ 122 := by
  have hbounds : (c.val ≥ 'a'.val && c.val ≤ 'z'.val) = true := hc
  simpa [UInt32.le_iff_toNat_le] using hbounds

/-- A lower-case letter may stand in a word and start one, and is no space. -/
theorem lower_classes {c : Char} (hc : c.isLower = true) :
    isWordChar c = true ∧ isWordStart c = true ∧ isSpace c = false := by
  have hlower := toNat_of_isLower hc
  obtain ⟨hword, hdigit, hspace⟩ := ascii_classes (c := c) (by omega)
  rw [isWordStart, hword, hdigit, hspace]
  refine ⟨decide_eq_true (by omega), ?_, decide_eq_false (by omega)⟩
  rw [decide_eq_true (by omega), decide_eq_false (by omega)]
  rfl

/-- A word of lower-case letters. -/
theorem lexeme?_lower {c : Char} {w rest : List Char} (hw : (c :: w).all Char.isLower = true)
    (hrest : ∀ d ∈ rest.head?, isWordChar d = false) :
    lexeme? c (w ++ rest) = some (.word (c :: w), c :: w) := by
  rw [List.all_cons, Bool.and_eq_true, List.all_eq_true] at hw
  obtain ⟨hc, hw⟩ := hw
  have hb : bracket? c = none := by
    unfold bracket?
    split <;> first | rfl | exact absurd hc (by decide)
  have hq : isQuote c = false := by
    simp only [isQuote, Bool.or_eq_false_iff, decide_eq_false_iff_not]
    refine ⟨⟨?_, ?_⟩, ?_⟩ <;> (rintro rfl; exact absurd hc (by decide))
  have hd : ¬('0' ≤ c ∧ c ≤ '9') := by
    rintro ⟨-, hle⟩
    have hlower := (toNat_of_isLower hc).1
    have hdigit : c.toNat ≤ 57 := hle
    omega
  exact lexeme?_word hb hq hd (lower_classes hc).2.1 (fun d hd => (lower_classes (hw d hd)).1) hrest

/-- The sign of an assignment stands in no word, and is no space. -/
theorem equals_classes : isWordChar '=' = false ∧ isSpace '=' = false := by
  obtain ⟨hword, -, hspace⟩ := ascii_classes (c := '=') (by decide)
  exact ⟨hword, hspace⟩

theorem lexeme?_equals : lexeme? '=' ['t', 'r', 'u', 'e'] = some (.symbol ['='], ['=']) := by
  refine lexeme?_symbol rfl rfl (by decide) equals_classes.1 equals_classes.2 ?_
  rintro _ ⟨⟩
  rfl

theorem tokens_assignment : tokens "null=true" = some
    [⟨⟨1, 1, 0⟩, .word ['n', 'u', 'l', 'l']⟩, ⟨⟨1, 5, 4⟩, .symbol ['=']⟩,
      ⟨⟨1, 6, 5⟩, .word ['t', 'r', 'u', 'e']⟩] := by
  have hnull : lexeme? 'n' ['u', 'l', 'l', '=', 't', 'r', 'u', 'e'] =
      some (.word ['n', 'u', 'l', 'l'], ['n', 'u', 'l', 'l']) := by
    refine lexeme?_lower (w := ['u', 'l', 'l']) rfl ?_
    rintro _ ⟨⟩
    exact equals_classes.1
  have htrue : lexeme? 't' ['r', 'u', 'e'] = some (.word ['t', 'r', 'u', 'e'], ['t', 'r', 'u', 'e']) :=
    lexeme?_lower (w := ['r', 'u', 'e']) rfl (by rintro _ ⟨⟩)
  have hfirst : tokensFrom 9 .start ['n', 'u', 'l', 'l', '=', 't', 'r', 'u', 'e'] =
      (tokensFrom 8 ⟨1, 5, 4⟩ ['=', 't', 'r', 'u', 'e']).map (⟨.start, .word ['n', 'u', 'l', 'l']⟩ :: ·) :=
    tokensFrom_cons 8 .start (lower_classes rfl).2.2 hnull
  have hsecond : tokensFrom 8 ⟨1, 5, 4⟩ ['=', 't', 'r', 'u', 'e'] =
      (tokensFrom 7 ⟨1, 6, 5⟩ ['t', 'r', 'u', 'e']).map (⟨⟨1, 5, 4⟩, .symbol ['=']⟩ :: ·) :=
    tokensFrom_cons 7 ⟨1, 5, 4⟩ equals_classes.2 lexeme?_equals
  have hthird : tokensFrom 7 ⟨1, 6, 5⟩ ['t', 'r', 'u', 'e'] =
      (tokensFrom 6 ⟨1, 10, 9⟩ []).map (⟨⟨1, 6, 5⟩, .word ['t', 'r', 'u', 'e']⟩ :: ·) :=
    tokensFrom_cons 6 ⟨1, 6, 5⟩ (lower_classes rfl).2.2 htrue
  have hchars : "null=true".toList = ['n', 'u', 'l', 'l', '=', 't', 'r', 'u', 'e'] := by decide
  have hlength : "null=true".toList.length = 9 := by decide
  unfold tokens
  rw [hlength, hchars, hfirst, hsecond, hthird, tokensFrom]
  rfl

/-- The nodes of the assignment. -/
def assignsNull : List Node :=
  [.word ⟨some 1, some 1, 0⟩ "null", .symbol ⟨some 1, some 5, 4⟩ "=", .word ⟨some 1, some 6, 5⟩ "true"]

theorem parse_assignment : parse Room.usual.spans "null=true" = .ok assignsNull := by
  rw [parse_of_tokens tokens_assignment]
  rfl

/-- The node that reads the name. -/
def readsNull : List Node := [.word ⟨some 1, some 1, 0⟩ "null"]

theorem parse_null : parse Room.usual.spans "null" = .ok readsNull := by
  have hword : lexeme? 'n' ['u', 'l', 'l'] = some (.word ['n', 'u', 'l', 'l'], ['n', 'u', 'l', 'l']) :=
    lexeme?_lower (w := ['u', 'l', 'l']) rfl (by rintro _ ⟨⟩)
  have hfirst : tokensFrom 4 .start ['n', 'u', 'l', 'l'] =
      (tokensFrom 3 ⟨1, 5, 4⟩ []).map (⟨.start, .word ['n', 'u', 'l', 'l']⟩ :: ·) :=
    tokensFrom_cons 3 .start (lower_classes rfl).2.2 hword
  have htokens : tokens "null" = some [⟨.start, .word ['n', 'u', 'l', 'l']⟩] := by
    have hchars : "null".toList = ['n', 'u', 'l', 'l'] := by decide
    unfold tokens
    rw [hchars]
    exact hfirst
  rw [parse_of_tokens htokens]
  rfl

/-- Whether a script gives null. -/
def Outcome.isNull : Outcome → Bool
  | .success .null => true
  | _ => false

/-- Whether a script gives true. -/
def Outcome.isTrue : Outcome → Bool
  | .success (.bool b) => b
  | _ => false

theorem Outcome.eq_of_isNull {o : Outcome} (h : o.isNull = true) : o = .success .null := by
  cases o with
  | failure => cases h
  | success v => cases v <;> first | rfl | cases h

theorem Outcome.eq_of_isTrue {o : Outcome} (h : o.isTrue = true) : o = .success (.bool true) := by
  cases o with
  | failure => cases h
  | success v =>
    cases v
    case bool b => exact congrArg (fun b => Outcome.success (.bool b)) h
    all_goals cases h

/-- A script that gives `null`, which is a name of the root, another value
changes what the next script finds there. -/
theorem assignment_to_root_stays :
    (Runner.plain.handle "null").1 = .success .null ∧
      ((Runner.plain.handle "null=true").2.handle "null").1 = .success (.bool true) := by
  have hnew : Runner.plain.New := Runner.lone_new _ _
  obtain ⟨-, hkept⟩ := hnew.after "null=true"
  have hread : parse Runner.plain.settings.room.spans "null" = .ok readsNull := by
    rw [Runner.plain_spans]
    exact parse_null
  have hassignment : parse Runner.plain.settings.room.spans "null=true" = .ok assignsNull := by
    rw [Runner.plain_spans]
    exact parse_assignment
  have hagain : parse (Runner.plain.handle "null=true").2.settings.room.spans "null" =
      .ok readsNull := by
    rw [hkept]
    exact hread
  constructor
  · refine Outcome.eq_of_isNull ?_
    rw [Runner.plain.handle_of_parse hread]
    decide +kernel
  · refine Outcome.eq_of_isTrue ?_
    rw [Runner.handle_of_parse _ hagain, Runner.plain.handle_of_parse hassignment]
    decide +kernel

end

end RuleScript
