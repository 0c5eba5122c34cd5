/-
# Engines in disguise

A template can look into a function of the language: it shows where the nodes of
the body stand, it names the scope around a scope by its number, and it calls the
initialiser of a scope, which empties the scope. Nothing else that a program does
can show one of these two, or make a scope lose its names.

The engine in disguise fills templates in a disguise (`Engine.disguised`), and a
run is discreet for a disguise if it goes the same way in it (`Discreet`): what is
disguised plays no part in the run. In the tame disguise initialisers do nothing
(`Disguise.tame`), so a run that is discreet for it empties no scope to any effect.

Key definitions: `Disguise.run`, `Disguise.callNative`, `Engine.disguised`, `Discreet`,
`Disguise.tame`, `Runner.Discreet`.
Key theorems: `Disguise.callNative_plain`, `Engine.disguised_plain`.
-/
import RuleScript.Runner.Session

namespace RuleScript

namespace Disguise

/-- Templates show what is there, but the initialisers of scopes do nothing. -/
def tame : Disguise := ⟨id, ScopeRef.index, false⟩

variable (D : Disguise)

/-- Run an operation; a template is filled in disguise. -/
def run (s : Site) (args : List Value) (op : Operation) : Eval Product :=
  if op = .string .render then s.renderTemplate D args else op.run s args

/-- Call a native function (`RuleScript.callNative`), in disguise. -/
def callNative (s : Site) (f : NativeFunction) (args : List Value) : Eval Value := do
  if f.arity.admits args.length then
    let product ← Eval.guarded s.ctx s.pos (D.run s args f.operation)
    s.receive (f.operation.host? (← get)) product
  else
    s.fail (.wrongArity ((Function.native f).name?.getD "function") f.arity args.length)

/-- What a call does while it is active (`RuleScript.callBody`), in disguise. -/
def callBody (e : Engine) (ctx : Context) (f : Function) (args : List Node) (pos : Position) :
    Eval Value :=
  match f with
  | .script g => callScript e ctx g args pos
  | .native g => do
    let values ← evaluateArguments e ctx args pos
    D.callNative ⟨e, ctx, pos⟩ g values

end Disguise

/-- Call a function, given what the call does while it is active. -/
def callThrough (ctx : Context) (ref : FunctionRef) (pos : Position) (body : Function → Eval Value) :
    Eval Value := do
  let m ← get
  if !ctx.settings.admitsCall m.calls.length then Eval.fail ctx pos .depthExceeded
  else
    match m.heap.function? ref with
    | none => Eval.fail ctx pos (.notCallable "function")
    | some f => Eval.withFrame (callFrame ctx f pos) (body f)

theorem callFunction_eq (e : Engine) (ctx : Context) (ref : FunctionRef) (args : List Node)
    (pos : Position) :
    callFunction e ctx ref args pos = callThrough ctx ref pos fun f => callBody e ctx f args pos := rfl

/-- The level above an engine, in disguise. -/
def Engine.nextIn (D : Disguise) (e : Engine) : Engine where
  evaluate := evaluateList e
  call ctx ref args pos := callThrough ctx ref pos fun f => D.callBody e ctx f args pos

/-- The engine with `n` levels, in disguise. -/
def Engine.disguised (D : Disguise) : Nat → Engine
  | 0 => .exhausted
  | n + 1 => (Engine.disguised D n).nextIn D

/-- The evaluation of nodes goes the same way in disguise: it gives nothing away
of what is disguised. -/
def Discreet (D : Disguise) (n : Nat) (ctx : Context) (nodes : List Node) (m : Machine) : Prop :=
  (Engine.disguised D n).evaluate ctx nodes m = (Engine.level n).evaluate ctx nodes m

/-- A runner's run of nodes goes the same way in disguise. -/
def Runner.Discreet (r : Runner) (D : Disguise) (nodes : List Node) : Prop :=
  let p := r.programScope
  RuleScript.Discreet D maxLevels ⟨p.1, p.2.source, p.2.settings⟩ nodes p.2.machine

/-! ### No disguise -/

namespace Disguise

theorem run_plain (s : Site) (args : List Value) (op : Operation) :
    plain.run s args op = op.run s args := by
  unfold run
  split
  · rename_i hop
    rw [hop]
    rfl
  · rfl

theorem callNative_plain (s : Site) (f : NativeFunction) (args : List Value) :
    plain.callNative s f args = RuleScript.callNative s f args := by
  unfold callNative RuleScript.callNative
  rw [run_plain]

theorem callBody_plain (e : Engine) (ctx : Context) (f : Function) (args : List Node)
    (pos : Position) : plain.callBody e ctx f args pos = RuleScript.callBody e ctx f args pos := by
  cases f with
  | script g => rfl
  | native g =>
    unfold callBody RuleScript.callBody
    simp only [callNative_plain]

end Disguise

theorem Engine.nextIn_plain (e : Engine) : e.nextIn .plain = e.next := by
  unfold nextIn next
  simp only [Disguise.callBody_plain, ← callFunction_eq]

/-- Without a disguise it is the engine itself. -/
theorem Engine.disguised_plain : ∀ n : Nat, Engine.disguised .plain n = Engine.level n
  | 0 => rfl
  | n + 1 => by rw [Engine.disguised, disguised_plain n, nextIn_plain, Engine.level]

end RuleScript
