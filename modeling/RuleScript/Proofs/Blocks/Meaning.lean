/-
# What `if` and `while` mean

An `if` whose condition holds does what the statements of its block do where
it stands: it leaves the same scopes, arrays and dicts, shows the same, and
fails alike (`Inlines`). What the statements give comes back as a copy, and an
internal error comes back as a fault of the `if`, as from any native. An `if`
whose condition does not hold does nothing. A `while` does what a loop over
the statements of its blocks does (`loopInPlace`).

The statements are compared on a heap that has the functions of the blocks as
well (`Machine.lending`). Nothing refers to them, so that on a heap with
nothing but the standard library the statements do the same without them; what
they make is only numbered otherwise.

Key definitions: `ControlReady`, `SameButCalls`, `Inlines`.
Key theorems: `Eval.Leads.ends`, `Likeness.lending_machines`,
`blocks_run_in_place`.
-/
import RuleScript.Proofs.Blocks.Control
import RuleScript.Proofs.Likeness.Isolation
import RuleScript.Proofs.Values.Results

namespace RuleScript

/-! ### In place -/

/-- A machine with further functions on its heap. -/
def Machine.lending (m : Machine) (fs : List Function) : Machine := { m with heap := m.heap.lend fs }

/-- The statements of a block in the place of its `if`, and what the `if`
makes of them. -/
def branchInPlace (e : Engine) (s : Site) (body : List Node) : Eval Value := do
  let v ← Eval.guarded s.ctx s.pos (blockValue e s.ctx body)
  s.receive none (.value v)

/-- A loop over the statements of two blocks, and what the `while` makes of
it. -/
def loopInPlace (e : Engine) (ctx : Context) (condition body : List Node) (pos : Position) :
    Eval Value := do
  Eval.guarded ctx pos (rounds e ctx condition body pos maxRounds)
  return .null

theorem callNative_branch (s : Site) (block : FunctionRef) :
    callNative s (branchNative true) [.function block] = (do
      let v ← Eval.guarded s.ctx s.pos (s.invoke block [])
      s.receive none (.value v)) := by
  have hcall : callNative s (branchNative true) [.function block] = (do
      let product ← Eval.guarded s.ctx s.pos (do return .value (← s.invoke block []))
      s.receive none product) := rfl
  rw [hcall, Eval.guarded_return, bind_assoc]
  simp only [pure_bind]

theorem callNative_loop (s : Site) (condition body : FunctionRef) :
    callNative s (loopNative condition) [.function body] = (do
      let product ← Eval.guarded s.ctx s.pos (runRounds s condition body none maxRounds 0)
      s.receive none product) := rfl

namespace Realm

section Lent

variable {n : Nat} {ctx : Context} (hdepth : ctx.settings.maxDepth = none) {h : Heap} {fs : List Function}

include hdepth

/-- A branch that is given a block does what the statements do in place. -/
theorem branch_keeps {i : Nat} {body : List Node} (hi : fs[i]? = some (blockOf ctx body))
    (hbody : ∀ k ∈ body, h.AllocatedNode k) (pos : Position) :
    (lent h fs).Keeps .apart
      (callNative ⟨Engine.level (n + 1), ctx, pos⟩ (branchNative true) [.function ⟨h.functions.size + i⟩])
      (branchInPlace (Engine.level n) ⟨Engine.level (n + 1), ctx, pos⟩ body) (lent h fs).value := by
  rw [callNative_branch]
  refine ((invoke_block_keeps hdepth hi hbody pos).guarded trivial ctx).bind fun v hv => ?_
  exact receive_keeps trivial none (product_value hv)

/-- A loop that is given its blocks does what the loop over the statements
does. -/
theorem loop_keeps {i j : Nat} {condition body : List Node}
    (hi : fs[i]? = some (blockOf ctx condition)) (hj : fs[j]? = some (blockOf ctx body))
    (hcondition : ∀ k ∈ condition, h.AllocatedNode k) (hbody : ∀ k ∈ body, h.AllocatedNode k)
    (pos : Position) :
    (lent h fs).Keeps .apart
      (callNative ⟨Engine.level (n + 1), ctx, pos⟩ (loopNative ⟨h.functions.size + i⟩)
        [.function ⟨h.functions.size + j⟩])
      (loopInPlace (Engine.level n) ctx condition body pos) (· = .null) := by
  rw [callNative_loop, loopInPlace]
  generalize maxRounds = fuel
  have hrounds : (lent h fs).Keeps .apart (Eval.guarded ctx pos _) (Eval.guarded ctx pos _) _ :=
    (runRounds_blocks (n := n) hdepth hi hj hcondition hbody pos fuel 0).guarded trivial ctx
  rw [Eval.guarded_return ctx pos _ fun _ => Product.value .null] at hrounds
  have hreceive (x : Eval Unit) : (x >>= fun _ => pure Value.null) =
      (x >>= fun _ => pure (Product.value .null)) >>= Site.receive ⟨Engine.level (n + 1), ctx, pos⟩ none := by
    rw [bind_assoc]
    rfl
  rw [hreceive]
  refine hrounds.bind ?_
  rintro _ rfl
  exact .pure rfl

end Lent

end Realm

/-! ### From the call to the block -/

section Ends

variable {α : Type} {m : Machine} {fs : List Function}

open Realm in
/-- Where the way to a call has led, the hidden functions are as they were made. -/
theorem Machine.Arrives.holds {m₁ : Machine} (h : m.Arrives (m.heap.lend fs) m₁)
    (hheap : m.heap.WellFormed) (hhosts : ∀ o ∈ m.hosts, o.Honest) : (lent m.heap fs).Holds m₁ where
  heap := h.heap ▸ lent_admits hheap
  hosts o ho := host_of_honest (hhosts o (h.hosts ▸ ho))
  calls f _ := ⟨⟨f.line, f.column, 0⟩, trivial, rfl, rfl⟩
  focus _ _ := trivial

/-- A computation that goes on as one that keeps to the realm ends as the
computation beside that one does. -/
theorem Eval.Leads.ends {x y z : Eval α} {post : α → Prop} (hx : x.Leads m (m.heap.lend fs) y)
    (hheap : m.heap.WellFormed) (hhosts : ∀ o ∈ m.hosts, o.Honest)
    (hy : (Realm.lent m.heap fs).Keeps .apart y z post) :
    (Realm.lent m.heap fs).Ends .apart post (x m) (z (m.lending fs)) := by
  obtain ⟨m₁, harrives, hrun⟩ := hx
  have hbeside : Twin.apart.Beside m₁ (m.lending fs) :=
    ⟨harrives.heap.symm, harrives.hosts.symm, harrives.seed.symm, False.elim, False.elim,
      harrives.effects, harrives.fired⟩
  rw [hrun]
  exact hy (harrives.holds hheap hhosts) hbeside

end Ends

/-- Two runs that end alike but for the calls that were active. -/
structure SameButCalls (q q' : Except Stop Value × Machine) : Prop where
  result : q'.1.mapError Stop.untraced = q.1.mapError Stop.untraced
  heap : q'.2.heap = q.2.heap
  effects : q'.2.effects = q.2.effects
  hosts : q'.2.hosts = q.2.hosts
  seed : q'.2.seed = q.2.seed

theorem SameButCalls.of_ends {R : Realm} {post : Value → Prop} {q q' : Except Stop Value × Machine}
    (h : R.Ends .apart post q' q) : SameButCalls q q' := by
  cases h with
  | value _ hb _ => exact ⟨rfl, hb.heap.symm, hb.effects, hb.hosts.symm, hb.seed.symm⟩
  | stop _ hb _ hss _ =>
    exact ⟨congrArg Except.error hss.untraced.symm, hb.heap.symm, hb.effects, hb.hosts.symm, hb.seed.symm⟩

namespace SameButCalls

variable {q q' : Except Stop Value × Machine} (h : SameButCalls q q')

include h

theorem ok {v : Value} (hv : q.1 = .ok v) : q'.1 = .ok v := by
  have hresult := h.result
  rw [hv] at hresult
  cases hq : q'.1 with
  | ok w =>
    rw [hq] at hresult
    exact hresult
  | error s =>
    rw [hq] at hresult
    cases hresult

theorem error {s : Stop} (hs : q.1 = .error s) : ∃ s', q'.1 = .error s' ∧ s'.untraced = s.untraced := by
  have hresult := h.result
  rw [hs] at hresult
  cases hq : q'.1 with
  | ok w =>
    rw [hq] at hresult
    cases hresult
  | error s' =>
    rw [hq] at hresult
    exact ⟨s', rfl, Except.error.inj hresult⟩

end SameButCalls

/-! ### What an `if` makes of its block -/

/-- A stop that leaves a native: an internal error becomes a fault at its
call. -/
def Stop.guardedAt (ctx : Context) (pos : Position) : Stop → Stop
  | .internal e _ => .fault (.raisedAt (.host .range e.message) (some pos) ctx.source)
  | s => s

/-- A value, or null if there is none. -/
def Value.orNull : Value → Value
  | .absent => .null
  | v => v

/-- How an `if` at a position ends (`q'`) whose statements end as `q` in its
place. -/
structure Inlines (ctx : Context) (pos : Position) (q q' : Except Stop Value × Machine) : Prop where
  /-- All that the statements leave is there, and nothing but a copy is new. -/
  heap : q.2.heap.Adds q'.2.heap
  effects : q'.2.effects = q.2.effects
  hosts : q'.2.hosts = q.2.hosts
  seed : q'.2.seed = q.2.seed
  plain : ∀ v, q.1 = .ok v → v.isAggregate = false → q'.1 = .ok v.orNull
  /-- An array or a dict that is not cyclic is copied, if the host has frames enough. -/
  copied : ∀ v, q.1 = .ok v → v.isAggregate = true → (∃ deep, v.copiable q.2.heap deep = true) →
    (∃ w, q'.1 = .ok w ∧ Copied q.2.heap q'.2.heap v w) ∨
      v.copiable q.2.heap ctx.settings.room.frames = false ∧ ∃ trace, q'.1 = .error (.exhausted trace)
  stop : ∀ s, q.1 = .error s → ∃ s', q'.1 = .error s' ∧ s'.untraced = (s.guardedAt ctx pos).untraced

theorem guarded_blockValue_ok {e : Engine} {ctx : Context} {body : List Node} {m m₁ : Machine}
    {v : Value} (h : e.evaluate ctx body m = (.ok v, m₁)) (pos : Position) :
    Eval.guarded ctx pos (blockValue e ctx body) m = (.ok v.orNull, m₁) := by
  refine guarded_ok ?_
  rw [blockValue, orNull, Eval.bind_run_ok h]
  cases v <;> rfl

theorem guarded_blockValue_error {e : Engine} {ctx : Context} {body : List Node} {m m₁ : Machine}
    {s : Stop} (h : e.evaluate ctx body m = (.error s, m₁)) (pos : Position) :
    Eval.guarded ctx pos (blockValue e ctx body) m = (.error (s.guardedAt ctx pos), m₁) := by
  have hblock : blockValue e ctx body m = (.error s, m₁) := Eval.bind_run_error h _
  unfold Eval.guarded
  rw [hblock]
  cases s <;> rfl

/-- What is handed back of a value that is no array or dict. -/
theorem receive_plain (s : Site) {v : Value} (hv : v.isAggregate = false) :
    s.receive none (.value v) = pure v.orNull := by
  cases v <;> first | rfl | cases hv

/-- An array or a dict that is not cyclic is copied, if the host has frames enough. -/
theorem receive_aggregate (s : Site) {v : Value} {m : Machine} (hm : m.heap.WellFormed)
    (hv : m.heap.Allocated v) (hagg : v.isAggregate = true) {deep : Nat}
    (hdeep : v.copiable m.heap deep = true) :
    (∃ w h, s.receive none (.value v) m = (.ok w, { m with heap := h }) ∧ Copied m.heap h v w) ∨
      v.copiable m.heap s.frames = false ∧
        (s.receive none (.value v) m).1 = .error (.exhausted none) := by
  have hcopy : s.receive none (.value v) = s.copyValue s.frames v := by
    cases v <;> first | rfl | cases hagg
  rcases (receive_handsBack s none hm hv).copied_or_refused hagg with
    ⟨w, h, hrun, -, hcopied⟩ | ⟨hrefused, stop, m', hrun⟩
  · exact .inl ⟨w, h, hrun, hcopied⟩
  · have hexhausts := copyValue_exhausts hm s s.frames deep hv hdeep m (.refl _) stop
    rw [← hcopy, hrun] at hexhausts
    rw [hrun, hexhausts rfl]
    exact .inr ⟨hrefused, rfl⟩

/-- **What an `if` makes of the statements of its block.** -/
theorem SameButCalls.inlines {e : Engine} {s : Site} {body : List Node} {m : Machine}
    {q' : Except Stop Value × Machine} (hsound : SoundEnd (e.evaluate s.ctx body m))
    (h : SameButCalls (branchInPlace e s body m) q') :
    Inlines s.ctx s.pos (e.evaluate s.ctx body m) q' := by
  rcases hrun : e.evaluate s.ctx body m with ⟨stop | v, m₁⟩
  · have hplace : branchInPlace e s body m = (.error (stop.guardedAt s.ctx s.pos), m₁) :=
      Eval.bind_run_error (guarded_blockValue_error hrun s.pos) _
    rw [hplace] at h
    exact {
      heap := h.heap ▸ .refl _
      effects := h.effects
      hosts := h.hosts
      seed := h.seed
      plain := by rintro _ ⟨⟩
      copied := by rintro _ ⟨⟩
      stop := by rintro _ ⟨⟩; exact h.error rfl }
  · have hplace : branchInPlace e s body m = s.receive none (.value v.orNull) m₁ :=
      Eval.bind_run_ok (guarded_blockValue_ok hrun s.pos) _
    rw [hrun] at hsound
    rw [hplace] at h
    obtain ⟨h', hmachine, hadds⟩ := (receive_adding s none v.orNull).adds m₁
    have hheap : q'.2.heap = h' := by rw [h.heap, hmachine]
    refine {
      heap := hheap ▸ hadds
      effects := by rw [h.effects, hmachine]
      hosts := by rw [h.hosts, hmachine]
      seed := by rw [h.seed, hmachine]
      plain := ?_
      copied := ?_
      stop := by rintro _ ⟨⟩ }
    · rintro _ ⟨⟩ hplain
      refine h.ok ?_
      have horNull : v.orNull.isAggregate = false ∧ v.orNull.orNull = v.orNull := by
        cases v <;> first | exact ⟨rfl, rfl⟩ | cases hplain
      rw [receive_plain s horNull.1, horNull.2]
      rfl
    · rintro _ ⟨⟩ hagg ⟨deep, hdeep⟩
      have horNull : v.orNull = v := by cases v <;> first | rfl | cases hagg
      rw [horNull] at h
      rcases receive_aggregate s hsound.heap (hsound.value v rfl) hagg hdeep with
        ⟨w, hw, hreceive, hcopied⟩ | ⟨hrefused, hreceive⟩
      · rw [hreceive] at h
        exact .inl ⟨w, h.ok rfl, h.heap ▸ hcopied⟩
      · obtain ⟨stop, hstop, huntraced⟩ := h.error hreceive
        refine .inr ⟨hrefused, ?_⟩
        cases stop with
        | exhausted trace => exact ⟨trace, hstop⟩
        | fault | internal => cases huntraced

/-! ### The functions of the blocks -/

theorem Heap.extends_lend (h : Heap) (fs : List Function) : h.Extends (h.lend fs) :=
  ⟨Nat.le_refl _, Nat.le_refl _, Nat.le_refl _, by rw [h.lend_size]; exact Nat.le_add_right ..⟩

/-- A well-formed heap stays so with further functions that refer to nothing
but what is there. -/
theorem Heap.WellFormed.lend {h : Heap} (hh : h.WellFormed) {fs : List Function}
    (hfs : ∀ f ∈ fs, h.AllocatedFunction f) : (h.lend fs).WellFormed := by
  have hext := h.extends_lend fs
  refine Policy.allocation_admits.mp ((Policy.allocation_admits.mpr hh).update hext (fun _ _ => .inl)
    (fun _ _ => .inl) (fun _ _ => .inl) (fun r f hf => ?_) fun _ _ => .inl)
  by_cases hr : r.index < h.functions.size
  · exact .inl (h.lend_function?_old fs hr ▸ hf)
  · obtain ⟨i, hi⟩ := Nat.exists_eq_add_of_le (Nat.le_of_not_lt hr)
    obtain rfl : r = ⟨h.functions.size + i⟩ := congrArg FunctionRef.mk hi
    rw [h.lend_function?_lent] at hf
    have hallocated := hfs f (List.mem_of_getElem? hf)
    exact .inr (Policy.function_mono hext (Policy.allocation_function.mpr hallocated))

/-- An evaluation leaves a well-formed heap, and gives an allocated value. -/
theorem Machine.Sound.evaluate {ctx : Context} {nodes : List Node} {m : Machine} (h : m.Sound ctx nodes)
    (hhosts : ∀ o ∈ m.hosts, o.Honest) (n : Nat) : SoundEnd ((Engine.level n).evaluate ctx nodes m) := by
  have hm : Policy.allocation.Holds m :=
    ⟨Policy.allocation_admits.mpr h.heap, fun o ho => (hhosts o ho).allocation⟩
  obtain ⟨-, hend⟩ := (Policy.allocation.obeys_level n).evaluate h.scope (.of_nodes h.nodes) hm
  exact ⟨Policy.allocation_admits.mp hend.holds.heap,
    fun v hv => Policy.allocated_of_result (hend.value v hv)⟩

namespace Likeness

variable {m : Machine} {ctx : Context} (hscope : m.heap.HasScope ctx.scope) (fs : List Function)

/-- No scope is renamed, and no position left out. -/
theorem lending_disguise : (onward m.heap (m.heap.lend fs)).disguise = .plain := by
  have hplace : (onward m.heap (m.heap.lend fs)).position = id := funext (position_of_placed _ rfl)
  have hnumber : (fun s => ((onward m.heap (m.heap.lend fs)).scope s).index) = ScopeRef.index := by
    funext s
    show (if s.index < m.heap.scopes.size then s.index else
      s.index + (m.heap.scopes.size - m.heap.scopes.size)) = s.index
    rw [Nat.sub_self, Nat.add_zero, ite_self]
  rw [disguise, hplace, hnumber]
  rfl

include hscope

/-- **A machine reads in the one with further functions.** -/
theorem lending_machines (hheap : m.heap.WellFormed) (hstandard : m.heap.Standard) :
    (onward m.heap (m.heap.lend fs)).Machines m.heap.scopes.size m (m.lending fs) where
  heap := by
    have hbegins : m.heap.Begins (m.heap.lend fs) :=
      ⟨List.prefix_rfl, List.prefix_rfl, List.prefix_rfl, by rw [Heap.lend, Array.toList_append]; exact List.prefix_append ..⟩
    exact hbegins.heaps hheap (Nat.lt_of_le_of_lt (Nat.zero_le _) hscope) hstandard
  known := Nat.le_refl _
  calls := (frames_of_placed rfl m.calls).symm
  effects := rfl
  focus := (focus_of_placed rfl m.focus).symm
  hosts := by rintro ⟨⟩
  seed := rfl

/-- Statements do the same there. -/
theorem lending_evaluate {nodes : List Node} (hnodes : ∀ k ∈ nodes, m.heap.AllocatedNode k) (n : Nat) :
    let L := onward m.heap (m.heap.lend fs)
    L.Mirrors m.heap.scopes.size L.value ((Engine.level n).evaluate ctx nodes)
      ((Engine.level n).evaluate ctx nodes) := by
  intro L
  have hengines : L.Engines (Engine.level n) (Engine.level n) := by
    have hdisguised := L.engines_disguised n
    rwa [lending_disguise, Engine.disguised_plain] at hdisguised
  have hcontext : L.context ctx = ctx := congrArg (Context.mk · ctx.source ctx.settings) (onward_scope hscope)
  have hsame : nodes.map L.node = nodes :=
    (List.map_congr_left fun k hk => node_of_madeOf rfl (fun _ => onward_value) (hnodes k hk)).trans
      (List.map_id nodes)
  have hmirrors := hengines.evaluate (.inr hscope) nodes
  rwa [hcontext, hsame] at hmirrors

section Loop

variable {condition body : List Node} (hcondition : ∀ k ∈ condition, m.heap.AllocatedNode k)
  (hbody : ∀ k ∈ body, m.heap.AllocatedNode k) (n : Nat) (pos : Position)

include hcondition hbody

theorem lending_rounds : ∀ fuel : Nat,
    (onward m.heap (m.heap.lend fs)).Mirrors m.heap.scopes.size id
      (rounds (Engine.level n) ctx condition body pos fuel)
      (rounds (Engine.level n) ctx condition body pos fuel)
  | 0 => .throw rfl
  | fuel + 1 => by
    refine (lending_evaluate hscope fs hcondition n).bind fun v => ?_
    have hfail : (onward m.heap (m.heap.lend fs)).Mirrors m.heap.scopes.size (id : Unit → Unit)
        (Eval.fail ctx pos (.expected "a boolean from the loop condition"))
        (Eval.fail ctx pos (.expected "a boolean from the loop condition")) := .fail ctx pos _
    match v with
    | .bool true =>
      exact (lending_evaluate hscope fs hbody n).bind fun _ => lending_rounds fuel
    | .bool false => exact .pure ()
    | .absent | .null | .number _ | .string _ | .array _ | .dict _ | .function _ => exact hfail

/-- So does a loop over them. -/
theorem lending_loop :
    let L := onward m.heap (m.heap.lend fs)
    L.Mirrors m.heap.scopes.size L.value (loopInPlace (Engine.level n) ctx condition body pos)
      (loopInPlace (Engine.level n) ctx condition body pos) := by
  intro L m₁ m₁' hm
  have hguarded := (lending_rounds hscope fs hcondition hbody n pos maxRounds hm).guarded ctx pos
  have hcontext : L.context ctx = ctx := congrArg (Context.mk · ctx.source ctx.settings) (onward_scope hscope)
  rw [hcontext, position_of_placed _ rfl] at hguarded
  exact hguarded.bind fun _ => .pure Value.null

end Loop

end Likeness

/-! ### Conclusion -/

/-- A context in which `if`, `while`, `true` and `false` are what the library
says, and in which nothing limits calls and rounds. -/
structure ControlReady (ctx : Context) (m : Machine) : Prop where
  heap : m.heap.WellFormed
  hosts : ∀ o ∈ m.hosts, o.Honest
  scope : m.heap.HasScope ctx.scope
  depth : ctx.settings.maxDepth = none
  rounds : ctx.settings.loopLimit = ""
  branch : ∃ f g, m.heap.Resolves ctx.scope .branch f g
  repeating : ∃ f g, m.heap.Resolves ctx.scope .repeating f g
  yes : m.heap.read? ctx.scope "true" = some (.bool true)
  no : m.heap.read? ctx.scope "false" = some (.bool false)

namespace ControlReady

variable {ctx : Context} {m : Machine} (hm : ControlReady ctx m) (n : Nat)

include hm

theorem if_true {body : List Node} (hbody : ∀ k ∈ body, m.heap.AllocatedNode k) (p₁ p₂ p₃ p₄ : Position) :
    Inlines ctx p₄ ((Engine.level n).evaluate ctx body (m.lending (ifFunctions ctx true body)))
      ((Engine.level (n + 3)).evaluate ctx (ifNodes "true" body p₁ p₂ p₃ p₄) m) := by
  obtain ⟨f, g, hif⟩ := hm.branch
  have hleads := evaluate_if (n := n) hm.depth hif hm.yes body p₁ p₂ p₃ p₄
  have hends := hleads.ends hm.heap hm.hosts
    ((Realm.branch_keeps hm.depth (i := 1) rfl hbody p₄).enter ⟨p₄, trivial, rfl, rfl⟩)
  have hfunctions : ∀ f ∈ ifFunctions ctx true body, m.heap.AllocatedFunction f :=
    List.forall_mem_cons.mpr ⟨trivial, List.forall_mem_singleton.mpr ⟨hm.scope, hbody⟩⟩
  have hext : m.heap.Extends (m.heap.lend (ifFunctions ctx true body)) :=
    m.heap.extends_lend _
  have hsound : (m.lending (ifFunctions ctx true body)).Sound ctx body :=
    ⟨hm.heap.lend hfunctions, hm.scope, fun k hk => Policy.node_mono (P := .allocation) hext (hbody k hk)⟩
  exact (SameButCalls.of_ends hends).inlines (s := ⟨Engine.level (n + 1), ctx, p₄⟩)
    (hsound.evaluate hm.hosts n)

theorem if_false (body : List Node) (p₁ p₂ p₃ p₄ : Position) :
    ∃ m', m.Arrives (m.heap.lend (ifFunctions ctx false body)) m' ∧
      (Engine.level (n + 3)).evaluate ctx (ifNodes "false" body p₁ p₂ p₃ p₄) m = (.ok .null, m') := by
  obtain ⟨f, g, hif⟩ := hm.branch
  exact evaluate_if (n := n) hm.depth hif hm.no body p₁ p₂ p₃ p₄

theorem while_loop {condition body : List Node} (hcondition : ∀ k ∈ condition, m.heap.AllocatedNode k)
    (hbody : ∀ k ∈ body, m.heap.AllocatedNode k) (p₁ p₂ p₃ : Position) :
    SameButCalls (loopInPlace (Engine.level n) ctx condition body p₃
        (m.lending (whileFunctions ctx m.heap condition body)))
      ((Engine.level (n + 3)).evaluate ctx (whileNodes condition body p₁ p₂ p₃) m) := by
  obtain ⟨f, g, hwhile⟩ := hm.repeating
  have hleads := evaluate_while (n := n) hm.depth hm.rounds hwhile condition body p₁ p₂ p₃
  exact .of_ends (hleads.ends hm.heap hm.hosts
    ((Realm.loop_keeps hm.depth (i := 0) (j := 2) rfl rfl hcondition hbody p₃).enter
      ⟨p₃, trivial, rfl, rfl⟩))

end ControlReady

/-- **`if` and `while` run their blocks in place.** Where they are the
library's, an `if` whose condition holds does what its statements do in the
scope of the `if`: it leaves what they leave, shows what they show, hands back
a copy of their value, and stops where they stop, with the same fault, or with
one of its own for an internal error. An `if` whose condition does not hold
changes nothing. A `while` evaluates its condition there, gives null if that is
false, faults if it is no boolean, and otherwise evaluates its body there and
starts over. The functions of the blocks, which are on the heap meanwhile, make
no difference to the statements. -/
theorem blocks_run_in_place (n : Nat) (ctx : Context) (m : Machine) (hm : ControlReady ctx m) :
    (∀ body p₁ p₂ p₃ p₄, (∀ k ∈ body, m.heap.AllocatedNode k) →
      Inlines ctx p₄ ((Engine.level n).evaluate ctx body (m.lending (ifFunctions ctx true body)))
        ((Engine.level (n + 3)).evaluate ctx (ifNodes "true" body p₁ p₂ p₃ p₄) m)) ∧
    (∀ body p₁ p₂ p₃ p₄, ∃ m', m.Arrives (m.heap.lend (ifFunctions ctx false body)) m' ∧
      (Engine.level (n + 3)).evaluate ctx (ifNodes "false" body p₁ p₂ p₃ p₄) m = (.ok .null, m')) ∧
    (∀ condition body p₁ p₂ p₃, (∀ k ∈ condition, m.heap.AllocatedNode k) →
      (∀ k ∈ body, m.heap.AllocatedNode k) →
      SameButCalls (loopInPlace (Engine.level n) ctx condition body p₃
          (m.lending (whileFunctions ctx m.heap condition body)))
        ((Engine.level (n + 3)).evaluate ctx (whileNodes condition body p₁ p₂ p₃) m)) ∧
    (m.heap.Standard → ∀ fs,
      let L := Likeness.onward m.heap (m.heap.lend fs)
      (∀ body, (∀ k ∈ body, m.heap.AllocatedNode k) →
        L.Ends m.heap.scopes.size L.value ((Engine.level n).evaluate ctx body m)
          ((Engine.level n).evaluate ctx body (m.lending fs))) ∧
      ∀ condition body pos, (∀ k ∈ condition, m.heap.AllocatedNode k) →
        (∀ k ∈ body, m.heap.AllocatedNode k) →
        L.Ends m.heap.scopes.size L.value (loopInPlace (Engine.level n) ctx condition body pos m)
          (loopInPlace (Engine.level n) ctx condition body pos (m.lending fs))) := by
  refine ⟨fun body p₁ p₂ p₃ p₄ hbody => hm.if_true n hbody p₁ p₂ p₃ p₄, hm.if_false n,
    fun condition body p₁ p₂ p₃ hcondition hbody => hm.while_loop n hcondition hbody p₁ p₂ p₃, ?_⟩
  intro hstandard fs L
  have hmachines := Likeness.lending_machines hm.scope fs hm.heap hstandard
  exact ⟨fun body hbody => Likeness.lending_evaluate hm.scope fs hbody n hmachines,
    fun condition body pos hcondition hbody =>
      Likeness.lending_loop hm.scope fs hcondition hbody n pos hmachines⟩

/-- The names `if`, `while`, `true` and `false`, and nothing else. -/
def controlMachine : Machine := { Machine.initial with
  heap := ⟨#[⟨[("if", .function ⟨0⟩), ("while", .function ⟨1⟩), ("true", .bool true),
    ("false", .bool false)], none⟩], #[], #[],
    #[.native ⟨.core .branch, "if", .exactly 1, none, none⟩,
      .native ⟨.core .repeating, "while", .exactly 1, none, none⟩]⟩ }

/-- The only scope of that machine. -/
def controlContext : Context := ⟨⟨0⟩, "", ⟨none, "", false, .usual⟩⟩

theorem controlMachine_wellFormed : controlMachine.heap.WellFormed where
  items := by rintro r v ⟨⟩
  dict := by rintro r p ⟨⟩
  bindings := by
    rintro ⟨_ | i⟩ p hp
    · change p ∈ [_, _, _, _] at hp
      simp only [List.mem_cons, List.not_mem_nil, or_false] at hp
      rcases hp with rfl | rfl | rfl | rfl
      · exact Nat.zero_lt_two
      · exact Nat.one_lt_two
      · trivial
      · trivial
    · cases hp
  functions := by
    rintro ⟨_ | _ | i⟩ f hf
    · cases hf
      trivial
    · cases hf
      trivial
    · cases hf
  inside := by rintro ⟨_ | i⟩ p ⟨⟩

theorem controlMachine_ready : ControlReady controlContext controlMachine where
  heap := controlMachine_wellFormed
  hosts := by rintro o ⟨⟨⟩⟩
  scope := Nat.zero_lt_one
  depth := rfl
  rounds := rfl
  branch := ⟨⟨0⟩, _, rfl, rfl, rfl, rfl⟩
  repeating := ⟨⟨1⟩, _, rfl, rfl, rfl, rfl⟩
  yes := rfl
  no := rfl

/-- An assignment in the blocks of an `if` that holds, of one that does not, and
of a `while` that stops at once. -/
theorem blocks_run_in_place_assignment :
    let pos : Position := ⟨some 1, some 1, 0⟩
    let body : List Node := [.word pos "x", .symbol pos "=", .quoted pos "'a'"]
    let run (nodes : List Node) := (Engine.level (2 + 3)).evaluate controlContext nodes controlMachine
    (run (ifNodes "true" body pos pos pos pos)).2.heap.read? ⟨0⟩ "x" = some (.string "a") ∧
      (run (ifNodes "false" body pos pos pos pos)).2.heap.read? ⟨0⟩ "x" = none ∧
      (run (whileNodes [.word pos "false"] body pos pos pos)).1 = .ok .null ∧
      (run (whileNodes [.word pos "false"] body pos pos pos)).2.heap.read? ⟨0⟩ "x" = none := by
  intro pos body run
  have hbody : ∀ k ∈ body, controlMachine.heap.AllocatedNode k := by
    refine List.forall_mem_cons.mpr ⟨.word _ _, List.forall_mem_cons.mpr ⟨.symbol _ _, ?_⟩⟩
    exact List.forall_mem_singleton.mpr (.quoted _ _)
  have hword : ∀ k ∈ [Node.word pos "false"], controlMachine.heap.AllocatedNode k :=
    List.forall_mem_singleton.mpr (.word _ _)
  obtain ⟨htrue, hfalse, hwhile, -⟩ := blocks_run_in_place 2 controlContext controlMachine controlMachine_ready
  refine ⟨?_, ?_, ?_⟩
  · rw [(htrue body pos pos pos pos hbody).heap.read?]
    rfl
  · obtain ⟨m', harrives, hrun⟩ := hfalse body pos pos pos pos
    replace hrun : run (ifNodes "false" body pos pos pos pos) = (.ok .null, m') := hrun
    rw [hrun, harrives.heap]
    rfl
  · have hloop := hwhile [.word pos "false"] body pos pos pos hword hbody
    have hmax : maxRounds = maxRounds - 1 + 1 := rfl
    rw [loopInPlace, hmax] at hloop
    exact ⟨hloop.ok rfl, by rw [hloop.heap]; rfl⟩

end RuleScript
