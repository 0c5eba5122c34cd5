/-
# Blocks run in place

A block behind a call becomes a function that closes over the scope of the
call and is run there, without a scope of its own. So a native that runs the
block does what the statements of the block do where the call stands
(`invoke_block_keeps`), and a loop that asks one block and runs another does
what a loop over their statements does (`runRounds_blocks`). The difference is
in the active calls, and so in the trace of a stop; the twin `Twin.apart` lets
them differ.

The functions of the blocks are on the heap, but nothing refers to them. A
realm that hides them (`Realm.lent`) keeps them as they were made, round
after round.

Key definitions: `blockOf`, `blockValue`, `rounds`, `Heap.lend`,
`Realm.lent`, `Twin.apart`.
Key theorems: `Realm.lent_admits`, `Realm.Keeps.enter`,
`Realm.invoke_block_keeps`, `Realm.runRounds_blocks`.
-/
import RuleScript.Proofs.Realm.Evaluation
import RuleScript.Proofs.Values.Copy

namespace RuleScript

/-! ### Blocks -/

/-- The function of a block in a context. -/
def blockOf (ctx : Context) (body : List Node) : Function :=
  .script ⟨[], body, ctx.scope, ctx.source, none, true, none⟩

/-- The value of a block: that of its statements, or null if they give none. -/
def blockValue (e : Engine) (ctx : Context) (body : List Node) : Eval Value := orNull (e.evaluate ctx body)

/-- A loop over statements: evaluate the condition, stop if it is false,
evaluate the body, and again. -/
def rounds (e : Engine) (ctx : Context) (condition body : List Node) (pos : Position) :
    (fuel : Nat) → Eval Unit
  | 0 => throw (.exhausted none)
  | fuel + 1 => do
    match ← e.evaluate ctx condition with
    | .bool true => do
      let _ ← e.evaluate ctx body
      rounds e ctx condition body pos fuel
    | .bool false => return ()
    | _ => Eval.fail ctx pos (.expected "a boolean from the loop condition")

/-- A round asks for the value of one block and runs another. -/
theorem rounds_succ (e : Engine) (ctx : Context) (condition body : List Node) (pos : Position)
    (fuel : Nat) : rounds e ctx condition body pos (fuel + 1) = (do
      match ← blockValue e ctx condition with
      | .bool true => do
        let _ ← blockValue e ctx body
        rounds e ctx condition body pos fuel
      | .bool false => return ()
      | _ => Eval.fail ctx pos (.expected "a boolean from the loop condition")) := by
  have hbody (k : Eval Unit) :
      (blockValue e ctx body >>= fun _ => k) = e.evaluate ctx body >>= fun _ => k := by
    unfold blockValue orNull
    rw [bind_assoc]
    congr 1
    funext v
    cases v <;> exact pure_bind _ _
  rw [rounds]
  simp only [hbody]
  unfold blockValue orNull
  rw [bind_assoc]
  congr 1
  funext v
  cases v <;> simp only [pure_bind]

/-- A call of a block without arguments. -/
theorem callScript_block (e : Engine) (ctx : Context) (body : List Node) (pos : Position) :
    callScript e ctx ⟨[], body, ctx.scope, ctx.source, none, true, none⟩ [] pos =
      blockValue e ctx body := by
  have hctx : ctx.within ctx.scope ctx.source = ctx := by
    unfold Context.within
    split <;> rfl
  show orNull (e.evaluate (ctx.within ctx.scope ctx.source) body) = blockValue e ctx body
  rw [hctx]
  rfl

/-- A native that runs a block without arguments, where any number of calls may
be active. -/
theorem invoke_block {n : Nat} {ctx : Context} (hdepth : ctx.settings.maxDepth = none) {m : Machine}
    {f : FunctionRef} {body : List Node} (hf : m.heap.function? f = some (blockOf ctx body))
    (pos : Position) :
    Site.invoke ⟨Engine.level (n + 1), ctx, pos⟩ f [] m =
      Eval.withFrame (callFrame ctx (blockOf ctx body) pos) (blockValue (Engine.level n) ctx body) m := by
  have hadmits : ctx.settings.admitsCall m.calls.length = true := by
    unfold Settings.admitsCall
    rw [hdepth]
  have hcall : Site.invoke ⟨Engine.level (n + 1), ctx, pos⟩ f [] m =
      callFunction (Engine.level n) ctx f [] pos m := by
    have hfound : Eval.onHeap (·.function? f) m = (.ok (some (blockOf ctx body)), m) :=
      congrArg (fun o => (Except.ok o, m)) hf
    exact Eval.bind_run_ok hfound _
  have hentered : callFunction (Engine.level n) ctx f [] pos m = _ :=
    callBy_entered Eval.withFrame (Engine.level n) hf hadmits [] pos
  rw [hcall, hentered]
  exact congrArg (fun x => Eval.withFrame _ x m) (callScript_block (Engine.level n) ctx body pos)

/-! ### Functions that nothing refers to -/

/-- The heap with further functions. -/
def Heap.lend (h : Heap) (fs : List Function) : Heap := { h with functions := h.functions ++ fs.toArray }

namespace Heap

variable (h : Heap) (fs : List Function)

theorem newFunction_eq_lend (f : Function) : (h.newFunction f).2 = h.lend [f] := by
  simp [lend, newFunction]

theorem lend_newFunction (f : Function) : ((h.lend fs).newFunction f).2 = h.lend (fs ++ [f]) := by
  simp [lend, newFunction]

theorem lend_size : (h.lend fs).functions.size = h.functions.size + fs.length := by
  simp [lend]

theorem lend_function?_lent (i : Nat) : (h.lend fs).function? ⟨h.functions.size + i⟩ = fs[i]? := by
  show (h.functions ++ fs.toArray)[h.functions.size + i]? = fs[i]?
  rw [Array.getElem?_append_right (Nat.le_add_right ..), Nat.add_sub_cancel_left]
  exact List.getElem?_toArray

theorem lend_function?_old {r : FunctionRef} (hr : r.index < h.functions.size) :
    (h.lend fs).function? r = h.function? r := Array.getElem?_append_left hr

end Heap

namespace Realm

/-- The realm of all but the functions that were added to a heap. -/
def lent (h : Heap) (fs : List Function) : Realm where
  scope _ := True
  array _ := True
  dict _ := True
  function r := r.index < h.functions.size ∨ (h.lend fs).functions.size ≤ r.index
  place _ := True
  site _ := True
  place_of_site := id
  original := h.lend fs

section Hidden

variable {h h' : Heap} {fs : List Function}

theorem lent_value {v : Value} (hv : h.Allocated v) : (lent h fs).value v := by
  cases v
  case function r => exact .inl hv
  all_goals exact trivial

theorem lent_term {n : Node} (hn : h.AllocatedNode n) : (lent h fs).Term n := by
  induction hn with
  | number pos _ => exact .number _ _ trivial
  | word pos text => exact .word text trivial
  | quoted pos raw => exact .quoted raw trivial
  | symbol pos text => exact .symbol text trivial
  | span pos d _ ih => exact .span d trivial ih
  | value pos hv => exact .value trivial (lent_value hv)

/-- **What is added to a well-formed heap can be hidden.** -/
theorem lent_admits (hh : h.WellFormed) : (lent h fs).Admits (h.lend fs) where
  items {r} _ v hv := lent_value (hh.items r v hv)
  dict {r} _ p hp := lent_value (hh.dict r p hp)
  bindings {s} _ p hp := lent_value (hh.bindings s p hp)
  parent _ _ := trivial
  functions {r f} hr hf := by
    rcases hr with hr | hr
    · rw [h.lend_function?_old fs hr] at hf
      have hcode := hh.functions r f hf
      cases f with
      | script g => exact ⟨trivial, fun n hn => lent_term (hcode.2 n hn)⟩
      | native g =>
        show (lent h fs).operation g.operation
        unfold Heap.AllocatedFunction at hcode
        dsimp only at hcode
        generalize g.operation = op at hcode
        cases op
        case loop c limit => exact .inl hcode
        all_goals exact trivial
    · rw [Heap.function?, Array.getElem?_eq_none hr] at hf
      cases hf
  freeScope _ _ := trivial
  freeArray _ _ := trivial
  freeDict _ _ := trivial
  freeFunction _ hr := .inr hr
  keptScope _ hs := absurd trivial hs
  keptArray _ hr := absurd trivial hr
  keptDict _ hr := absurd trivial hr
  keptFunction _ _ := rfl

/-- A hidden function stays as it was made. -/
theorem Admits.function?_lent (hh : (lent h fs).Admits h') {i : Nat} {f : Function}
    (hi : fs[i]? = some f) : h'.function? ⟨h.functions.size + i⟩ = some f := by
  have hlt : i < fs.length := (List.getElem?_eq_some_iff.mp hi).1
  have hhidden : ¬(lent h fs).function ⟨h.functions.size + i⟩ := by
    rintro (hold | hnew)
    · exact absurd hold (by simp)
    · rw [h.lend_size] at hnew
      exact absurd hnew (by simp; omega)
  exact (hh.keptFunction _ hhidden).trans ((h.lend_function?_lent fs i).trans hi)

end Hidden

end Realm

/-! ### Calls apart -/

/-- Two runs with different calls active. -/
def Twin.apart : Twin := ⟨False, False, (· = ·), False⟩

instance : Twin.apart.Started := ⟨id⟩

theorem Twin.apart_echoes : Twin.apart.Echoes := by
  rintro E _ text rfl
  rfl

namespace Realm

variable {R : Realm}

/-- A call that is active in the one run only. -/
theorem Keeps.enter {α : Type} {post : α → Prop} {x y : Eval α} {frame : Frame} (hframe : R.frame frame)
    (hx : R.Keeps .apart x y post) : R.Keeps .apart (Eval.withFrame frame x) y post := by
  intro m m' hm hb
  have hin : R.Holds { m with calls := frame :: m.calls } :=
    ⟨hm.heap, hm.hosts, List.forall_mem_cons.mpr ⟨hframe, hm.calls⟩, hm.focus⟩
  have hbin : Twin.apart.Beside { m with calls := frame :: m.calls } m' :=
    ⟨hb.heap, hb.hosts, hb.seed, False.elim, False.elim, hb.effects, hb.idle⟩
  have hout {m : Machine} (hm : R.Holds m) : R.Holds (Eval.popFrame m) :=
    ⟨hm.heap, hm.hosts, fun f hf => hm.calls f (List.mem_of_mem_tail hf), hm.focus⟩
  have hbout {m m' : Machine} (hb : Twin.apart.Beside m m') : Twin.apart.Beside (Eval.popFrame m) m' :=
    ⟨hb.heap, hb.hosts, hb.seed, False.elim, False.elim, hb.effects, hb.idle⟩
  have hends := hx hin hbin
  unfold Eval.withFrame
  generalize x _ = r, y m' = r' at hends
  cases hends with
  | value hm hb ha => exact .value (hout hm) (hbout hb) ha
  | stop hm hb hs hss hfired =>
    refine .stop (hout hm) (hbout hb) (stop_traced hs hm.calls) ⟨?_, False.elim⟩ ?_
    · rw [Stop.untraced_traced, hss.untraced]
    · rw [Stop.untraced_traced]
      exact hfired

section Lent

variable {n : Nat} {ctx : Context} (hdepth : ctx.settings.maxDepth = none) {h : Heap} {fs : List Function}

include hdepth

theorem blockValue_keeps {body : List Node} (hbody : ∀ k ∈ body, h.AllocatedNode k) :
    (lent h fs).Does .apart (blockValue (Engine.level n) ctx body) (lent h fs).value := by
  have he : (lent h fs).Engines .apart (Engine.level n) (Engine.level n) :=
    engines_level Twin.apart_echoes n
  refine (he.evaluate ⟨trivial, .inr hdepth⟩ fun k hk => lent_term (hbody k hk)).bind fun v hv => ?_
  split
  · exact .pure trivial
  · exact .pure hv

/-- **A block that is called does what its statements do in place.** -/
theorem invoke_block_keeps {i : Nat} {body : List Node} (hi : fs[i]? = some (blockOf ctx body))
    (hbody : ∀ k ∈ body, h.AllocatedNode k) (pos : Position) :
    (lent h fs).Keeps .apart (Site.invoke ⟨Engine.level (n + 1), ctx, pos⟩ ⟨h.functions.size + i⟩ [])
      (blockValue (Engine.level n) ctx body) (lent h fs).value := by
  intro m m' hm hb
  rw [invoke_block hdepth (hm.heap.function?_lent hi) pos]
  exact (blockValue_keeps hdepth hbody).enter ⟨pos, trivial, rfl, rfl⟩ hm hb

/-- **A loop over blocks does what the loop over their statements does.** -/
theorem runRounds_blocks {i j : Nat} {condition body : List Node}
    (hi : fs[i]? = some (blockOf ctx condition)) (hj : fs[j]? = some (blockOf ctx body))
    (hcondition : ∀ k ∈ condition, h.AllocatedNode k) (hbody : ∀ k ∈ body, h.AllocatedNode k)
    (pos : Position) : ∀ (fuel : Nat) (count : Int), (lent h fs).Keeps .apart
      (runRounds ⟨Engine.level (n + 1), ctx, pos⟩ ⟨h.functions.size + i⟩ ⟨h.functions.size + j⟩ none fuel count)
      (do rounds (Engine.level n) ctx condition body pos fuel; return .value .null) (· = .value .null)
  | 0, _ => .exhausted
  | fuel + 1, count => by
    rw [rounds_succ, bind_assoc]
    unfold runRounds
    refine (invoke_block_keeps hdepth hi hcondition pos).bind fun v hv => ?_
    match v with
    | .bool false => exact .pure rfl
    | .bool true =>
      rw [bind_assoc]
      exact (invoke_block_keeps hdepth hj hbody pos).bind fun _ _ =>
        runRounds_blocks hi hj hcondition hbody pos fuel (count + 1)
    | .absent | .null | .number _ | .string _ | .array _ | .dict _ | .function _ =>
      exact .fail trivial ctx _

end Lent

end Realm

end RuleScript
