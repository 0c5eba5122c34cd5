/-
# Layout is immaterial

Where the nodes of a program stand in its text is carried along for messages
and has no part in what the program does. To say so, positions are left out at
every depth (`Node.bare`), of the bodies of functions (`Heap.bare`) and of the
stops as well (`Stop.bare`). Programs that are the same without positions, run
on machines that are the same without positions, end the same without
positions.

There are two ways to see a position. A host may bind a native that asks for
the place of its call, so none may be on the machine (`Heap.Placeless`). And a
template that is filled from a dict with a function in it can print the nodes of
the body, with their positions (`layout_shows_in_template`). So the runs have to
be discreet: they go the same way if templates show no positions
(`Disguise.placeless`). The lines of the evaluation trace name positions too and
are left out.

Key definitions: `Stop.bare`, `Machine.bare`, `Runner.bare`,
`Heap.Placeless`, `Disguise.placeless`, `SameLayoutApart`.
Key theorems: `evaluate_bare`, `layout_is_immaterial`,
`layout_shows_in_template`.
-/
import RuleScript.Proofs.Calls.Depth
import RuleScript.Proofs.Likeness.Discretion
import RuleScript.Proofs.Source.Parsing

namespace RuleScript

/-! ### Without positions -/

/-- A function whose body has no positions. -/
def Function.bare : Function → Function
  | .script f => .script { f with body := Node.bareAll f.body }
  | .native f => .native f

/-- A call without its place. -/
def Frame.bare (f : Frame) : Frame := { f with line := none, column := none }

/-- A stop without positions: its cause and the calls that were active. -/
def Stop.bare : Stop → Stop
  | .fault f => .fault ⟨f.cause, none, none, f.source, f.trace.map (·.map Frame.bare)⟩
  | .internal e trace => .internal e (trace.map (·.map Frame.bare))
  | .exhausted trace => .exhausted (trace.map (·.map Frame.bare))

/-- A heap without positions in the bodies of its functions. -/
def Heap.bare (h : Heap) : Heap := { h with functions := h.functions.map Function.bare }

/-- A machine without positions and without its evaluation trace. -/
def Machine.bare (m : Machine) : Machine :=
  { m with
    heap := m.heap.bare
    calls := m.calls.map Frame.bare
    focus := m.focus.map fun _ => .blank
    log := #[] }

/-- A runner without positions on its machine. -/
def Runner.bare (r : Runner) : Runner := { r with machine := r.machine.bare }

/-- Whether a function asks for the place of its call. -/
def Function.asksPlace : Function → Bool
  | .native f => f.operation = .probe .callSite
  | .script _ => false

/-- No function on the heap asks for the place of its call. -/
def Heap.Placeless (h : Heap) : Prop := ∀ f ∈ h.functions, f.asksPlace = false

instance (h : Heap) : Decidable h.Placeless :=
  decidable_of_iff (∀ f ∈ h.functions.toList, f.asksPlace = false)
    (forall_congr' fun _ => imp_congr_left Array.mem_toList_iff)

/-- Templates show no positions. -/
def Disguise.placeless : Disguise := ⟨fun _ => .blank, ScopeRef.index, true⟩

/-- Two runs that differ in positions only: the same value or the same stop,
and the same effects, scopes, arrays, dicts and functions. -/
structure SameLayoutApart (p p' : Except Stop Value × Runner) : Prop where
  result : p.1.mapError Stop.bare = p'.1.mapError Stop.bare
  runner : p.2.bare = p'.2.bare

/-! ### The likeness that leaves positions out -/

namespace Likeness

/-- Positions are left out and nothing is renamed. -/
def layout : Likeness := ⟨true, true, .refl, .refl, .refl, .refl, #[]⟩

theorem layout_still : layout.Still := ⟨rfl, rfl, rfl, rfl⟩

mutual

theorem layout_node : ∀ n : Node, layout.node n = n.bare
  | .number .. => rfl
  | .word .. => rfl
  | .quoted .. => rfl
  | .symbol .. => rfl
  | .span _ d body => congrArg (Node.span .blank d) (layout_nodes body)
  | .value _ v => congrArg (Node.value .blank) (layout_still.value_eq v)

theorem layout_nodes : ∀ ns : List Node, layout.nodes ns = Node.bareAll ns
  | [] => rfl
  | n :: ns => by rw [nodes, Node.bareAll, layout_node n, layout_nodes ns]

end

theorem layout_map_node (ns : List Node) : ns.map layout.node = ns.map Node.bare :=
  List.map_congr_left fun n _ => layout_node n

theorem layout_code (f : Function) : layout.code f = f.bare := by
  cases f with
  | script f => exact congrArg (fun body => Function.script { f with body }) (layout_nodes f.body)
  | native f =>
    obtain ⟨operation, name, arity, usage, note⟩ := f
    cases operation <;> rfl

theorem layout_stop (s : Stop) : layout.stop s = s.bare := by cases s <;> rfl

theorem layout_fits {op : Operation} (hop : op ≠ .probe .callSite) : layout.Fits op := by
  cases op
  case probe p =>
    cases p
    case callSite => exact absurd rfl hop
    case document => rfl
    all_goals trivial
  case method => exact ⟨layout_still, rfl⟩
  all_goals trivial

/-- A machine reads in itself without positions. -/
theorem layout_machines {m : Machine} (hplace : m.heap.Placeless) : layout.Machines 0 m m.bare where
  heap := {
    scopes := (arenas_same_iff rfl layout_still.scopeCell_eq).mpr rfl
    arrays := (arenas_same_iff rfl layout_still.cell_eq).mpr rfl
    dicts := (arenas_same_iff rfl layout_still.table_eq).mpr rfl
    functions := by
      rw [show layout.code = Function.bare from funext layout_code]
      exact arenas_refl_iff.mpr rfl
    fits := fun r f hf => layout_fits (of_decide_eq_false (hplace _ (Array.mem_of_getElem? hf)))
    fixed := List.nil_prefix
    order := .inl layout_still }
  known := Nat.zero_le _
  calls := rfl
  effects := rfl
  focus := rfl
  hosts := fun _ => rfl
  seed := rfl

/-- And in no other machine, up to the evaluation trace. -/
theorem Machines.bare_eq {bound : Nat} {m m' : Machine} (h : layout.Machines bound m m') :
    m.bare = { m' with log := #[] } := by
  have hscopes := (arenas_same_iff rfl layout_still.scopeCell_eq).mp h.heap.scopes
  have harrays := (arenas_same_iff rfl layout_still.cell_eq).mp h.heap.arrays
  have hdicts := (arenas_same_iff rfl layout_still.table_eq).mp h.heap.dicts
  have hfunctions := arenas_refl_iff.mp h.heap.functions
  rw [show layout.code = Function.bare from funext layout_code] at hfunctions
  show _ = Machine.mk ⟨m'.heap.scopes, m'.heap.arrays, m'.heap.dicts, m'.heap.functions⟩ m'.calls
    m'.effects m'.focus #[] m'.hosts m'.seed
  rw [hscopes, harrays, hdicts, hfunctions, h.calls, h.effects, h.focus, h.hosts rfl, h.seed]
  rfl

/-- Two runs that mirror the same one. -/
theorem Ends.same {bound : Nat} {p₁ p₂ p : Except Stop Value × Machine}
    (h₁ : layout.Ends bound layout.value p₁ p) (h₂ : layout.Ends bound layout.value p₂ p) :
    p₁.1.mapError Stop.bare = p₂.1.mapError Stop.bare ∧ p₁.2.bare = p₂.2.bare := by
  cases h₁ with
  | value a hm₁ =>
    generalize hresult : (Except.ok (layout.value a) : Except Stop Value) = result at h₂
    cases h₂ with
    | value b hm₂ =>
      have hvalue := Except.ok.inj hresult
      rw [layout_still.value_eq, layout_still.value_eq] at hvalue
      exact ⟨congrArg Except.ok hvalue, hm₁.bare_eq.trans hm₂.bare_eq.symm⟩
    | stop t hm₂ => cases hresult
  | stop s hm₁ =>
    generalize hresult : (Except.error (layout.stop s) : Except Stop Value) = result at h₂
    cases h₂ with
    | value b hm₂ => cases hresult
    | stop t hm₂ =>
      have hstop := Except.error.inj hresult
      rw [layout_stop, layout_stop] at hstop
      exact ⟨congrArg Except.error hstop, hm₁.bare_eq.trans hm₂.bare_eq.symm⟩

end Likeness

/-! ### Evaluation -/

theorem Function.asksPlace_bare (f : Function) : f.bare.asksPlace = f.asksPlace := by cases f <;> rfl

/-- What a function asks for does not depend on positions. -/
theorem Heap.Placeless.of_bare {h h' : Heap} (hplace : h.Placeless) (hbare : h.bare = h'.bare) :
    h'.Placeless := by
  intro f hf
  have hfunctions : h.functions.map Function.bare = h'.functions.map Function.bare :=
    congrArg Heap.functions hbare
  have hmem : f.bare ∈ h.functions.map Function.bare := hfunctions ▸ Array.mem_map_of_mem hf
  obtain ⟨g, hg, hgf⟩ := Array.mem_map.mp hmem
  rw [← f.asksPlace_bare, ← hgf, g.asksPlace_bare]
  exact hplace g hg

/-- **Nodes that differ in positions only are evaluated alike** on machines that
differ in positions only. -/
theorem evaluate_bare {n : Nat} {ctx : Context} {m m' : Machine} {nodes nodes' : List Node}
    (hm : m.bare = m'.bare) (hplace : m.heap.Placeless)
    (hnodes : nodes.map Node.bare = nodes'.map Node.bare)
    (hd : Discreet .placeless n ctx nodes m) (hd' : Discreet .placeless n ctx nodes' m') :
    let p := (Engine.level n).evaluate ctx nodes m
    let p' := (Engine.level n).evaluate ctx nodes' m'
    p.1.mapError Stop.bare = p'.1.mapError Stop.bare ∧ p.2.bare = p'.2.bare := by
  intro p p'
  -- Both evaluations mirror the one without positions.
  have hends := (Likeness.layout_machines hplace).evaluate (.inl Likeness.layout_still) hd
  have hends' := (Likeness.layout_machines (hplace.of_bare (congrArg Machine.heap hm))).evaluate
    (.inl Likeness.layout_still) hd'
  rw [Likeness.layout_map_node, hnodes, hm] at hends
  rw [Likeness.layout_map_node] at hends'
  exact hends.same hends'

/-! ### Runs -/

namespace Runner

theorem programScope_bare (r : Runner) :
    r.bare.programScope = (r.programScope.1, r.programScope.2.bare) := by
  obtain ⟨machine, settings, source, root, program, builtins, host, hostNames⟩ := r
  cases program <;> rfl

theorem programScope_functions (r : Runner) :
    r.programScope.2.machine.heap.functions = r.machine.heap.functions := by
  unfold programScope
  cases r.program <;> rfl

/-- Where a run gave up does not matter without positions. -/
theorem settle_bare {r r' : Runner} (hsource : r.source = r'.source) {s s' : Stop}
    (hs : s.bare = s'.bare) : (r.settle s).bare = (r'.settle s').bare := by
  cases s with
  | exhausted trace =>
    cases s' with
    | exhausted trace' =>
      exact congrArg (fun source => Stop.fault ⟨.depthExceeded, none, none, source, none⟩) hsource
    | fault f => cases hs
    | internal e trace => cases hs
  | fault f =>
    cases s' with
    | fault f' => exact hs
    | internal e trace => cases hs
    | exhausted trace => cases hs
  | internal e trace =>
    cases s' with
    | internal e' trace' => exact hs
    | fault f => cases hs
    | exhausted trace => cases hs

theorem mapError_settle_bare {r r' : Runner} (hsource : r.source = r'.source) {x x' : Except Stop Value}
    (hx : x.mapError Stop.bare = x'.mapError Stop.bare) :
    (x.mapError r.settle).mapError Stop.bare = (x'.mapError r'.settle).mapError Stop.bare := by
  cases x with
  | ok v =>
    cases x' with
    | ok v' => exact hx
    | error s' => cases hx
  | error s =>
    cases x' with
    | ok v' => cases hx
    | error s' => exact congrArg Except.error (settle_bare hsource (Except.error.inj hx))

variable {r r' : Runner} {nodes nodes' : List Node}

theorem runNodes_bare (hr : r.bare = r'.bare) (hplace : r.machine.heap.Placeless)
    (hnodes : nodes.map Node.bare = nodes'.map Node.bare) (hd : r.Discreet .placeless nodes)
    (hd' : r'.Discreet .placeless nodes') :
    SameLayoutApart (r.runNodes nodes) (r'.runNodes nodes') := by
  have hprogram : (r.programScope.1, r.programScope.2.bare) =
      (r'.programScope.1, r'.programScope.2.bare) := by
    rw [← programScope_bare, ← programScope_bare, hr]
  obtain ⟨hscope, hrunner⟩ := Prod.mk.inj hprogram
  have hplace' : r.programScope.2.machine.heap.Placeless := by
    unfold Heap.Placeless
    rwa [r.programScope_functions]
  have hsource : r.programScope.2.bare.source = r'.programScope.2.bare.source := by rw [hrunner]
  have hsettings : r.programScope.2.bare.settings = r'.programScope.2.bare.settings := by rw [hrunner]
  have hctx : (⟨r.programScope.1, r.programScope.2.source, r.programScope.2.settings⟩ : Context) =
      ⟨r'.programScope.1, r'.programScope.2.source, r'.programScope.2.settings⟩ :=
    congr (congr (congrArg Context.mk hscope) hsource) hsettings
  unfold Discreet at hd'
  dsimp only at hd'
  rw [← hctx] at hd'
  have hsame := evaluate_bare (congrArg Runner.machine hrunner) hplace' hnodes hd hd'
  rw [runNodes_eq]
  unfold runNodesOn
  dsimp only at hsame ⊢
  rw [← hctx]
  generalize (Engine.level maxLevels).evaluate _ nodes _ = q,
    (Engine.level maxLevels).evaluate _ nodes' _ = q' at hsame
  obtain ⟨result, machine⟩ := q
  obtain ⟨result', machine'⟩ := q'
  obtain ⟨hresult, hmachine⟩ := hsame
  refine ⟨mapError_settle_bare ?_ hresult, ?_⟩
  · exact hsource
  · show { r.programScope.2.bare with machine := machine.bare } =
      { r'.programScope.2.bare with machine := machine'.bare }
    rw [hmachine, hrunner]

end Runner

/-- **Layout is immaterial.** Node lists that are the same without positions end
the same without positions, from runners that are the same without positions,
if no template gives a position away; and so do source texts with such nodes. -/
theorem layout_is_immaterial {r r' : Runner} (hr : r.bare = r'.bare)
    (hplace : r.machine.heap.Placeless) {nodes nodes' : List Node}
    (hnodes : nodes.map Node.bare = nodes'.map Node.bare) :
    (r.Discreet .placeless nodes → r'.Discreet .placeless nodes' →
        SameLayoutApart (r.runNodes nodes) (r'.runNodes nodes')) ∧
      ∀ text text', parse r.settings.room.spans text = .ok nodes →
        parse r'.settings.room.spans text' = .ok nodes' →
        r.rested.Discreet .placeless nodes → r'.rested.Discreet .placeless nodes' →
        SameLayoutApart (r.eval text) (r'.eval text') := by
  refine ⟨Runner.runNodes_bare hr hplace hnodes, fun text text' htext htext' hd hd' => ?_⟩
  have hrested : r.rested.bare = r'.rested.bare := by
    show { r.bare with machine := { r.bare.machine with calls := [], focus := none } } =
      { r'.bare with machine := { r'.bare.machine with calls := [], focus := none } }
    rw [hr]
  rw [r.eval_of_parse htext, r'.eval_of_parse htext']
  exact Runner.runNodes_bare hrested hplace hnodes hd hd'

/-- A runner with a function `f` that stands on a given line. -/
def runnerOn (line : Int) : Runner :=
  let f : Function :=
    .script ⟨["x"], [.word ⟨some line, some 9, 8⟩ "x"], ⟨0⟩, "", some "f", false, none⟩
  ⟨{ Machine.initial with heap := ⟨#[⟨[("f", .function ⟨0⟩)], none⟩], #[], #[], #[f]⟩ },
    ⟨none, "", false, .usual⟩, "", ⟨0⟩, some ⟨0⟩, [], none, []⟩

theorem runnerOn_bare (line line' : Int) : (runnerOn line).bare = (runnerOn line').bare := by
  simp [runnerOn, Runner.bare, Machine.bare, Heap.bare, Function.bare, Node.bareAll, Node.bare]

theorem runnerOn_placeless (line : Int) : (runnerOn line).machine.heap.Placeless := by
  simp [runnerOn, Heap.Placeless, Function.asksPlace]

/-- A call of the function on a given line. -/
def callOn (line : Int) : List Node :=
  [.word ⟨some line, some 1, 0⟩ "f",
    .span ⟨some line, some 2, 1⟩ .paren [.quoted ⟨some line, some 3, 2⟩ "'y'"]]

theorem callOn_discreet (line : Int) : (runnerOn line).Discreet .placeless (callOn line) := by
  let ctx : Context := ⟨⟨0⟩, "", ⟨none, "", false, .usual⟩⟩
  let m := (runnerOn line).machine
  let m' : Machine := { m with
    heap := (m.heap.newScope (some ⟨0⟩) [("x", .string "y")]).2
    focus := some ⟨some line, some 9, 8⟩ }
  have hdisguised : (Engine.disguised .placeless maxLevels).evaluate ctx (callOn line) m =
    (.ok (.string "y"), m') := rfl
  have hactual : (Engine.level maxLevels).evaluate ctx (callOn line) m = (.ok (.string "y"), m') := rfl
  exact hdisguised.trans hactual.symm

/-- The word `y`, which is not defined. -/
theorem wordOn_discreet (line : Int) (pos : Position) :
    (runnerOn line).Discreet .placeless [.word pos "y"] := by
  let ctx : Context := ⟨⟨0⟩, "", ⟨none, "", false, .usual⟩⟩
  let m := (runnerOn line).machine
  let stop : Stop := .fault ⟨.undefinedVariable "y", pos.line, pos.column, "", none⟩
  have hdisguised : (Engine.disguised .placeless maxLevels).evaluate ctx [.word pos "y"] m =
    (.error stop, { m with focus := some pos }) := rfl
  have hactual : (Engine.level maxLevels).evaluate ctx [.word pos "y"] m =
    (.error stop, { m with focus := some pos }) := rfl
  exact hdisguised.trans hactual.symm

/-- A call on another line, of a function that stands there, and a text that
starts on the next line and fails. -/
theorem layout_is_immaterial_call :
    (∀ line, ((runnerOn line).runNodes (callOn line)).1 = .ok (.string "y")) ∧
      SameLayoutApart ((runnerOn 1).runNodes (callOn 1)) ((runnerOn 7).runNodes (callOn 7)) ∧
      SameLayoutApart ((runnerOn 1).eval "y") ((runnerOn 7).eval "\n y") := by
  have hcall := layout_is_immaterial (runnerOn_bare 1 7) (runnerOn_placeless 1)
    (show (callOn 1).map Node.bare = (callOn 7).map Node.bare from rfl)
  refine ⟨fun line => rfl, hcall.1 (callOn_discreet 1) (callOn_discreet 7), ?_⟩
  have htokens : tokens "y" = some [⟨⟨1, 1, 0⟩, .word ['y']⟩] := by decide +kernel
  have htokens' : tokens "\n y" = some [⟨⟨2, 2, 2⟩, .word ['y']⟩] := by decide +kernel
  have htext : parse Room.usual.spans "y" = .ok [.word ⟨some 1, some 1, 0⟩ "y"] :=
    parse_of_tokens htokens _
  have htext' : parse Room.usual.spans "\n y" = .ok [.word ⟨some 2, some 2, 2⟩ "y"] :=
    parse_of_tokens htokens' _
  have hword := layout_is_immaterial (runnerOn_bare 1 7) (runnerOn_placeless 1)
    (show [Node.word ⟨some 1, some 1, 0⟩ "y"].map Node.bare =
      [Node.word ⟨some 2, some 2, 2⟩ "y"].map Node.bare from rfl)
  exact hword.2 "y" "\n y" htext htext' (wordOn_discreet 1 _) (wordOn_discreet 7 _)

/-! ### Templates see positions -/

/-- Whether a run gives a text. -/
def givesText (text : String) : Except Stop Value → Bool
  | .ok (.string t) => t == text
  | _ => false

theorem eq_of_givesText {text : String} {x : Except Stop Value} (h : givesText text x = true) :
    x = .ok (.string text) := by
  cases x with
  | error s => cases h
  | ok v =>
    cases v
    case string t => rw [eq_of_beq h]
    all_goals cases h

/-- The program `String.render('{{f.body}}', {'f': @(){null}})`, with `null` in a
given column. -/
def rendersBody (column : Int) : List Node :=
  let p : Position := ⟨some 1, some 1, 0⟩
  [.word p "String", .symbol p ".", .word p "render", .span p .paren
    [.quoted p "'\x7b\x7bf.body\x7d\x7d'", .symbol p ",", .span p .brace
      [.quoted p "'f'", .symbol p ":", .symbol p "@", .span p .paren [],
        .span p .brace [.word ⟨some 1, some column, column - 1⟩ "null"]]]]

/-- A template that prints the nodes of a function's body tells apart where they
stand. -/
theorem layout_shows_in_template :
    Runner.plain.machine.heap.Placeless ∧
      (rendersBody 39).map Node.bare = (rendersBody 40).map Node.bare ∧
      (Runner.plain.runNodes (rendersBody 39)).1 =
        .ok (.string "[WordNode(line=1, column=39, offset=38, text='null')]") ∧
      (Runner.plain.runNodes (rendersBody 40)).1 =
        .ok (.string "[WordNode(line=1, column=40, offset=39, text='null')]") ∧
      ¬SameLayoutApart (Runner.plain.runNodes (rendersBody 39))
        (Runner.plain.runNodes (rendersBody 40)) := by
  have hplace : Runner.plain.machine.heap.Placeless := by decide +kernel
  have hnodes : (rendersBody 39).map Node.bare = (rendersBody 40).map Node.bare := rfl
  have hshown : (Runner.plain.runNodes (rendersBody 39)).1 =
      .ok (.string "[WordNode(line=1, column=39, offset=38, text='null')]") :=
    eq_of_givesText (by decide +kernel)
  have hmoved : (Runner.plain.runNodes (rendersBody 40)).1 =
      .ok (.string "[WordNode(line=1, column=40, offset=39, text='null')]") :=
    eq_of_givesText (by decide +kernel)
  refine ⟨hplace, hnodes, hshown, hmoved, fun hsame => ?_⟩
  have hresult := hsame.result
  rw [hshown, hmoved] at hresult
  exact absurd (Value.string.inj (Except.ok.inj hresult)) (by decide)

end RuleScript
