/-
# Scopes keep their names

Evaluation binds names in many ways: by assignment and declaration, for a
named function, for the parameters of a call, and from natives that assign in
the scope of their caller. None of them ever unbinds a name, moves one, or
changes the parent of a scope: of any machine, whatever its heap, the scopes
are only added to (`scopes_only_grow`).

The root scope of a runner gets no names at all from a program. No code runs
in it, since a program runs in a scope inside it and a function closes over
the scope that its code runs in; and what is assigned from further inside
reaches the root only where the name is bound already. This is a policy that
seals the root: no script function closes over it.

A template breaks both. It may call the initialiser of a scope, which then loses
its names and its parent, and a function leads it to the root. So a scope is kept
or emptied; it is kept in a run that goes the same way in the tame disguise, where
initialisers do nothing (`Runner.Tame`).

Key definitions: `Policy.sealing`, `Runner.Tame`.
Key theorems: `Policy.sealing_session`, `scopes_only_grow`.
-/
import RuleScript.Proofs.Policy.Session

namespace RuleScript

namespace Policy

/-- Everything may be anywhere, except that no code runs in a closed scope. -/
def sealing (closed : ScopeRef → Prop) (emptying : Prop) : Policy where
  value _ _ := True
  scope _ s := ¬closed s
  link _ _ := True
  closed := closed
  emptying := emptying
  literal _ _ := True
  foreign := True
  stop _ := True

variable {closed : ScopeRef → Prop} {emptying : Prop}

instance : (sealing closed emptying).Nests where
  value_mono _ _ := trivial
  scope_mono _ hs := hs
  scalar _ := trivial
  newArray _ _ := trivial
  newDict _ _ := trivial
  newFunction _ _ := trivial
  link _ := trivial
  not_closed hs := hs
  fault _ := trivial
  exhausted := trivial
  traced _ _ := trivial
  literal _ _ := trivial
  foreign _ _ := trivial
  newScope h _ _ hclosed hnew := Nat.lt_irrefl _ (hclosed ⟨h.scopes.size⟩ hnew)
  nest _ := trivial

instance : (sealing closed True).Empties := ⟨trivial⟩

theorem sealing_nodes (h : Heap) (nodes : List Node) : (sealing closed emptying).nodes h nodes :=
  fun n _ => n.madeOf_of_forall (fun _ => trivial) fun _ _ => trivial

theorem sealing_host (o : Host) : (sealing closed emptying).host o :=
  fun _ _ _ _ _ _ _ p _ => p.madeOf_of_forall (fun _ => .inr trivial) trivial

/-- Without closed scopes the policy holds on every machine. -/
theorem sealing_holds (m : Machine) : (sealing (fun _ => False) emptying).Holds m where
  heap := {
    items := fun _ _ _ => trivial
    dict := fun _ _ _ => trivial
    bindings := fun _ _ _ => trivial
    functions := fun _ f _ => by
      cases f with
      | script f => exact ⟨id, sealing_nodes _ _⟩
      | native f => obtain ⟨op, _, _, _, _⟩ := f; cases op <;> exact trivial
    links := fun _ _ _ => trivial
    closed := fun _ => False.elim }
  hosts := fun o _ => sealing_host o

theorem sealing_request (h : Heap) (q : Runner.Request) : (sealing closed emptying).request h q := by
  cases q with
  | runNodes nodes => exact sealing_nodes h nodes
  | eval text => exact text_of_literal (fun _ _ => trivial) text
  | handle text => exact text_of_literal (fun _ _ => trivial) text
  | rebind host => exact .inr trivial

/-- Whether scopes may be emptied does not matter for what may be where. -/
theorem sealing_holds_iff {emptying' : Prop} {m : Machine} :
    (sealing closed emptying).Holds m ↔ (sealing closed emptying').Holds m :=
  ⟨fun ⟨⟨a, b, c, d, e, f⟩, hhosts⟩ => ⟨⟨a, b, c, d, e, f⟩, hhosts⟩,
    fun ⟨⟨a, b, c, d, e, f⟩, hhosts⟩ => ⟨⟨a, b, c, d, e, f⟩, hhosts⟩⟩

theorem Session.sealing_any {emptying' : Prop} {r : Runner} (hr : (sealing closed emptying).Session r) :
    (sealing closed emptying').Session r :=
  ⟨sealing_holds_iff.mp hr.holds, hr.root, hr.program, hr.builtins, hr.host, hr.closed⟩

/-- The root of a runner stays sealed, whatever is asked of the runner. -/
theorem sealing_session (settings : Settings) (source : String) (keep : Bool) (hosts : Array Host)
    (host : Option Nat) (requests : List Runner.Request) :
    let r := (Runner.create settings source keep hosts host).serveAll requests
    (sealing (· = r.root) True).Session r := by
  intro r
  let root := (Runner.unbound settings source keep hosts host).root
  have hcreate : (sealing (· = root) True).Session (Runner.create settings source keep hosts host) :=
    session_create settings source keep (fun o _ => sealing_host o) (.inr trivial) fun _ hs => hs
  have hr : (sealing (· = root) True).Session r := hcreate.serveAll fun q _ h => sealing_request h q
  have hroot : root = r.root := hr.closed root rfl
  rwa [hroot] at hr

end Policy

/-! ### Tame runs -/

namespace Runner

/-- The names bound in the root scope of a runner, in their order. -/
def rootNames (r : Runner) : List String := (r.machine.heap.bindings r.root).names

/-- A request is served the same way where the initialisers of scopes do nothing. -/
def Tame (r : Runner) : Request → Prop
  | .runNodes nodes => r.runNodesOn (Engine.disguised .tame maxLevels) nodes = r.runNodes nodes
  | .eval text => r.evalOn (Engine.disguised .tame maxLevels) text = r.eval text
  | .handle text =>
    r.prepared.evalOn (Engine.disguised .tame maxLevels) text = r.prepared.eval text
  | .rebind _ => True

end Runner

namespace Policy.Runs

variable {emptying : Prop} {r : Runner} {p : Except Stop Value × Runner}

/-- A run leaves the names of a sealed root, or it empties the root. -/
theorem rootNames (hp : (sealing (· = r.root) emptying).Runs r p)
    (hr : r.root.index < r.machine.heap.scopes.size) :
    p.2.rootNames = r.rootNames ∨ emptying ∧ p.2.rootNames = [] := by
  have hroot : r.root = p.2.root := hp.session.closed r.root rfl
  unfold Runner.rootNames
  rw [← hroot]
  exact (hp.grows.each r.root hr).imp (·.closed rfl) (And.imp_right (·.closed rfl))

theorem rootNames_of_tame (hp : (sealing (· = r.root) False).Runs r p)
    (hr : r.root.index < r.machine.heap.scopes.size) : p.2.rootNames = r.rootNames :=
  (hp.rootNames hr).resolve_right And.left

end Policy.Runs

namespace Policy.Session

variable {r : Runner} (hr : (sealing (· = r.root) True).Session r)

include hr

theorem runNodes_tame {nodes : List Node} (htame : r.Tame (.runNodes nodes)) :
    (r.runNodes nodes).2.rootNames = r.rootNames := by
  have hobeys := (sealing (· = r.root) False).obeys_disguised (D := .tame) nofun maxLevels
  have hruns := (hr.sealing_any.runNodesOn hobeys (sealing_nodes _ nodes)).2
  rw [show r.runNodesOn _ nodes = r.runNodes nodes from htame] at hruns
  exact hruns.rootNames_of_tame hr.root

theorem eval_tame {text : String} (htame : r.Tame (.eval text)) :
    (r.eval text).2.rootNames = r.rootNames := by
  have hobeys := (sealing (· = r.root) False).obeys_disguised (D := .tame) nofun maxLevels
  have hruns := (hr.sealing_any.evalOn hobeys (text_of_literal (fun _ _ => trivial) text)).2
  rw [show r.evalOn _ text = r.eval text from htame] at hruns
  exact hruns.rootNames_of_tame hr.root

end Policy.Session

/-! ### Any evaluation -/

/-- In a tame evaluation every scope keeps its parent and its names. -/
theorem kept_of_discreet {n : Nat} {ctx : Context} {nodes : List Node} {m : Machine}
    (htame : Discreet .tame n ctx nodes m) {s : ScopeRef} (hs : s.index < m.heap.scopes.size) :
    Heap.Kept (fun _ => False) m.heap ((Engine.level n).evaluate ctx nodes m).2.heap s := by
  let P := Policy.sealing (fun _ => False) False
  have hobeys := P.obeys_disguised (D := .tame) nofun n
  have hkeeps : P.Does m ((Engine.disguised .tame n).evaluate ctx nodes) P.result :=
    hobeys.evaluate id (.of_nodes (Policy.sealing_nodes _ nodes))
  have hgrows := (hkeeps (Policy.sealing_holds m)).2.grows
  rw [show (Engine.disguised .tame n).evaluate ctx nodes m = _ from htame] at hgrows
  exact hgrows.kept id hs

/-- **Scopes only grow unless they are emptied, and programs never extend the
root.** However an evaluation of a node list ends, in whatever context, a scope of
before is still there. It has its parent, and its names are where they were, with
new ones behind them; or else it was emptied, and nothing is around it. A run of
nodes or of a text on a runner, whatever was asked of the runner before, leaves
the names of the root as they are, or else none. Nothing is emptied by what goes
the same way where initialisers do nothing. -/
theorem scopes_only_grow (n : Nat) (ctx : Context) (nodes : List Node) (m : Machine)
    (settings : Settings) (source : String) (keep : Bool) (hosts : Array Host)
    (host : Option Nat) (requests : List Runner.Request) :
    let h := ((Engine.level n).evaluate ctx nodes m).2.heap
    let r := (Runner.create settings source keep hosts host).serveAll requests
    (∀ s : ScopeRef, s.index < m.heap.scopes.size →
      let kept := (h.scope s).parent = (m.heap.scope s).parent ∧
        (m.heap.bindings s).names <+: (h.bindings s).names
      s.index < h.scopes.size ∧ (kept ∨ (h.scope s).parent = none) ∧
        (Discreet .tame n ctx nodes m → kept)) ∧
      (∀ nodes, let names := (r.runNodes nodes).2.rootNames
        (names = r.rootNames ∨ names = []) ∧ (r.Tame (.runNodes nodes) → names = r.rootNames)) ∧
      ∀ text, let names := (r.eval text).2.rootNames
        (names = r.rootNames ∨ names = []) ∧ (r.Tame (.eval text) → names = r.rootNames) := by
  intro h r
  have hr := Policy.sealing_session settings source keep hosts host requests
  refine ⟨?_, ?_, ?_⟩
  · intro s hs kept
    let P := Policy.sealing (fun _ => False) True
    have hkeeps : P.Does m ((Engine.level n).evaluate ctx nodes) P.result :=
      (P.obeys_level n).evaluate id (.of_nodes (Policy.sealing_nodes _ nodes))
    have hgrows := (hkeeps (Policy.sealing_holds m)).2.grows
    refine ⟨Nat.lt_of_lt_of_le hs hgrows.extend.scopes, ?_, fun htame => ?_⟩
    · exact (hgrows.each s hs).imp (fun hkept => ⟨hkept.parent, hkept.names⟩) (·.2.parent)
    · have hkept := kept_of_discreet htame hs
      exact ⟨hkept.parent, hkept.names⟩
  · intro nodes names
    have hruns := hr.runNodes (Policy.sealing_nodes _ nodes)
    exact ⟨(hruns.rootNames hr.root).imp_right And.right, hr.runNodes_tame⟩
  · intro text names
    have hruns := hr.eval (Policy.text_of_literal (fun _ _ => trivial) text)
    exact ⟨(hruns.rootNames hr.root).imp_right And.right, hr.eval_tame⟩

/-- The run of a value is tame. -/
theorem Runner.tame_value (r : Runner) (pos : Position) (v : Value) :
    r.Tame (.runNodes [.value pos v]) := by
  obtain ⟨n, hn⟩ := exists_levels
  unfold Runner.Tame Runner.runNodes
  rw [hn]
  rfl

/-- A capture binds its name behind the ones that are there, and the run of a value
leaves the root of a new runner. -/
theorem scopes_only_grow_capture :
    let pos : Position := ⟨some 1, some 1, 0⟩
    let ctx : Context := ⟨⟨0⟩, "", ⟨none, "", false, .usual⟩⟩
    let nodes : List Node := [.value pos (.bool true), .symbol pos "$", .word pos "b"]
    let m : Machine := { Machine.initial with heap := ⟨#[⟨[("a", .null)], none⟩], #[], #[], #[]⟩ }
    let h := ((Engine.level 1).evaluate ctx nodes m).2.heap
    let r := (Runner.create ctx.settings "" false #[] none).serveAll []
    Discreet .tame 1 ctx nodes m ∧ (h.bindings ⟨0⟩).names = ["a", "b"] ∧
      (m.heap.bindings ⟨0⟩).names <+: (h.bindings ⟨0⟩).names ∧
      (r.runNodes [.value pos (.bool true)]).2.rootNames = r.rootNames := by
  intro pos ctx nodes m h r
  have hdiscreet : Discreet .tame 1 ctx nodes m := rfl
  obtain ⟨hscopes, hnodes, -⟩ := scopes_only_grow 1 ctx nodes m ctx.settings "" false #[] none []
  exact ⟨hdiscreet, rfl, ((hscopes ⟨0⟩ Nat.one_pos).2.2 hdiscreet).2,
    (hnodes _).2 (r.tame_value pos _)⟩

/-- A template calls the initialiser of the scope that a function closes over: `x`
is bound there no more. -/
theorem templates_empty_scopes :
    let pos : Position := ⟨some 1, some 1, 0⟩
    let f : Function := .script ⟨[], [], ⟨0⟩, "", some "f", false, none⟩
    let render : Function := .native ⟨.string .render, "render", ⟨1, some 2⟩, none, none⟩
    let m : Machine := { Machine.initial with
      heap := ⟨#[⟨[("x", .null)], none⟩], #[], #[[("f", .function ⟨0⟩)]], #[f, render]⟩ }
    let nodes : List Node := [.value pos (.function ⟨1⟩), .span pos .paren
      [.quoted pos "'\x7b\x7bf.closure.__init__\x7d\x7d'", .symbol pos ",", .value pos (.dict ⟨0⟩)]]
    let h := ((Engine.level 3).evaluate ⟨⟨0⟩, "", ⟨none, "", false, .usual⟩⟩ nodes m).2.heap
    (m.heap.bindings ⟨0⟩).names = ["x"] ∧ (h.bindings ⟨0⟩).names = [] ∧
      ¬(m.heap.bindings ⟨0⟩).names <+: (h.bindings ⟨0⟩).names := by
  decide +kernel

end RuleScript
