/-
# Runs that give nothing away

The second of two machines that are alike does what the first does in disguise
(`Engine.disguised`): whatever a template would show of where nodes stand and of
the numbers of scopes, it shows as it is on the second machine. A run is
discreet if it goes the same way in disguise, so that no template gives away
what is disguised (`Discreet`). Then it goes the same way on the second machine.

Key definitions: `Likeness.Enters`, `Runner.lone`, `Runner.rested`.
Key theorems: `Likeness.engines_disguised`, `Likeness.Machines.evaluate`.
-/
import RuleScript.Proofs.Likeness.Disguise
import RuleScript.Proofs.Likeness.Evaluation

namespace RuleScript

/-! ### The engine mirrors the one in disguise -/

namespace Likeness

variable {L : Likeness}

/-- A function that a call may enter: code over a scope that is within reach, or
an operation that may be there. -/
structure Enters (L : Likeness) (bound : Nat) (f : Function) : Prop where
  script : ∀ g, f = .script g → L.Reaches bound g.scope
  native : ∀ g, f = .native g → L.Fits g.operation

theorem Engines.callBody {e e' : Engine} (he : L.Engines e e') {bound : Nat} {ctx : Context}
    (hr : L.Reaches bound ctx.scope) {f : Function} (hf : L.Enters bound f) (args : List Node)
    (pos : Position) :
    L.Mirrors bound L.value (L.disguise.callBody e ctx f args pos)
      (RuleScript.callBody e' (L.context ctx) (L.code f) (args.map L.node) (L.position pos)) := by
  cases f with
  | script g => exact he.callScript hr (hf.script g rfl) args pos
  | native g =>
    have hs : L.Sites bound ⟨e, ctx, pos⟩ ⟨e', L.context ctx, L.position pos⟩ := ⟨he, hr, rfl, rfl⟩
    exact (he.evaluateArguments hr args pos).bind fun values =>
      hs.callNative_disguised values (hf.native g rfl)

theorem frame_callFrame (ctx : Context) (f : Function) (pos : Position) :
    callFrame (L.context ctx) (L.code f) (L.position pos) = L.frame (callFrame ctx f pos) := by
  unfold callFrame frame
  rw [L.name?_code]
  unfold position coordinate
  cases L.blank <;> rfl

theorem Mirrors.callThrough {bound : Nat} {ctx : Context} (hr : L.Reaches bound ctx.scope)
    {body body' : Function → Eval Value} (ref : FunctionRef) (pos : Position)
    (hbody : ∀ {bound : Nat} {f : Function}, L.Reaches bound ctx.scope → L.Enters bound f →
      L.Mirrors bound L.value (body f) (body' (L.code f))) :
    L.Mirrors bound L.value (RuleScript.callThrough ctx ref pos body)
      (RuleScript.callThrough (L.context ctx) (L.function ref) (L.position pos) body') := by
  intro m m' hm
  have hget {α : Type} (machine : Machine) (f : Machine → Eval α) :
      (get >>= f) machine = f machine machine := rfl
  have hsettings : (L.context ctx).settings = ctx.settings := rfl
  unfold RuleScript.callThrough
  rw [hget, hget, hm.calls, List.length_map, hsettings, hm.heap.function?]
  split
  · exact Mirrors.fail ctx pos _ hm
  · cases hf : m.heap.function? ref with
    | none => exact Mirrors.fail ctx pos _ hm
    | some f =>
      -- All the scopes of the machine are known here, so the one that the function closes over is.
      have henters : L.Enters m.heap.scopes.size f := by
        constructor
        · rintro g rfl
          exact hm.heap.order.imp_right fun ho => ho.closure ref g hf
        · rintro g rfl
          exact hm.heap.fits ref g hf
      have hactive := hbody (hr.mono hm.known) henters
      dsimp only [Option.map_some]
      rw [frame_callFrame]
      exact (hactive.withFrame hm.all).weaken hm.known

/-- **The engine mirrors the one in disguise**, at every level. -/
theorem engines_disguised (L : Likeness) : ∀ n : Nat,
    L.Engines (Engine.disguised L.disguise n) (Engine.level n)
  | 0 => ⟨fun _ _ => .throw rfl, fun _ _ _ _ => .throw rfl⟩
  | n + 1 => ⟨fun hr nodes => (engines_disguised L n).evaluateList hr nodes,
      fun hr f args pos => .callThrough hr f pos fun hr henters =>
        (engines_disguised L n).callBody hr henters args pos⟩

/-- **A discreet run goes the same way on a machine that is alike.** -/
theorem Machines.evaluate {bound n : Nat} {ctx : Context} {nodes : List Node} {m m' : Machine}
    (hm : L.Machines bound m m') (hr : L.Reaches bound ctx.scope)
    (hd : Discreet L.disguise n ctx nodes m) :
    L.Ends bound L.value ((Engine.level n).evaluate ctx nodes m)
      ((Engine.level n).evaluate (L.context ctx) (nodes.map L.node) m') := by
  rw [← hd]
  exact (L.engines_disguised n).evaluate hr nodes hm

/-- Where nothing differs there is nothing to give away. -/
theorem Plain.discreet (h : L.Plain) (n : Nat) (ctx : Context) (nodes : List Node) (m : Machine) :
    Discreet L.disguise n ctx nodes m := by
  unfold Discreet
  rw [h.disguise_eq, Engine.disguised_plain]

end Likeness

/-! ### Runs -/

namespace Runner

/-- A new runner that has no host and keeps no program scope. -/
def lone (settings : Settings) (source : String) : Runner := create settings source false #[] none

/-- Such a runner without limits. -/
def plain : Runner := lone ⟨none, "", false, .usual⟩ ""

/-- The runner as a run of a source text finds it: no call is active. -/
def rested (r : Runner) : Runner :=
  { r with machine := { r.machine with calls := [], focus := none } }

/-- A source text that has nodes is run as they are. -/
theorem eval_of_parse (r : Runner) {text : String} {nodes : List Node}
    (h : parse r.settings.room.spans text = .ok nodes) :
    r.eval text = r.rested.runNodes nodes := by
  unfold eval
  dsimp only
  rw [h]
  rfl

end Runner

end RuleScript
