/-
# The calls of an `if` and a `while`

`if` and `while` are natives, and a block behind a call is an argument. An
`if` is two calls: `if` itself hands back a branch, and the branch is given
the block. A `while` is two calls as well, with a block each. On the way to the
second call nothing happens but that these functions are made (`evaluate_if`,
`evaluate_while`).

Key definitions: `Eval.Leads`, `Heap.Resolves`, `ifNodes`, `whileNodes`.
Key theorems: `evaluate_if`, `evaluate_while`.
-/
import RuleScript.Proofs.Blocks.Inlining
import RuleScript.Proofs.Reduction.Operand

namespace RuleScript

/-! ### The way to a call -/

/-- A machine that differs from another in its heap and in what is noted
only. Something has fired on it. -/
structure Machine.Arrives (m : Machine) (h : Heap) (m' : Machine) : Prop where
  heap : m'.heap = h
  calls : m'.calls = m.calls
  effects : m'.effects = m.effects
  hosts : m'.hosts = m.hosts
  seed : m'.seed = m.seed
  fired : m'.focus ≠ none

theorem Machine.Arrives.trans {m m₁ m₂ : Machine} {h₁ h₂ : Heap} (h : m.Arrives h₁ m₁)
    (h' : m₁.Arrives h₂ m₂) : m.Arrives h₂ m₂ :=
  ⟨h'.heap, h'.calls.trans h.calls, h'.effects.trans h.effects, h'.hosts.trans h.hosts,
    h'.seed.trans h.seed, h'.fired⟩

namespace Eval

variable {α β : Type}

/-- A computation goes on as another one, with the heap `h`. -/
def Leads (x : Eval α) (m : Machine) (h : Heap) (y : Eval α) : Prop := ∃ m', m.Arrives h m' ∧ x m = y m'

namespace Leads

variable {m : Machine} {h h' : Heap} {x y z : Eval α}

theorem of_eq (hm : m.focus ≠ none) (hxy : x m = y m) : x.Leads m m.heap y :=
  ⟨m, ⟨rfl, rfl, rfl, rfl, rfl, hm⟩, hxy⟩

theorem trans (hxy : x.Leads m h y) (hyz : ∀ m', m.Arrives h m' → y.Leads m' h' z) : x.Leads m h' z := by
  obtain ⟨m₁, harrives, hrun⟩ := hxy
  obtain ⟨m₂, harrives', hrun'⟩ := hyz m₁ harrives
  exact ⟨m₂, harrives.trans harrives', hrun.trans hrun'⟩

theorem bind (hx : x.Leads m h y) (f : α → Eval β) : (x >>= f).Leads m h (y >>= f) := by
  obtain ⟨m', harrives, hrun⟩ := hx
  refine ⟨m', harrives, ?_⟩
  rw [Eval.bind_run, Eval.bind_run, hrun]

/-- A computation that gives a value, and what comes after it. -/
theorem andThen {a : β} {w : Eval β} {k : β → Eval α} (hw : w.Leads m h (pure a))
    (hk : ∀ m', m.Arrives h m' → (k a).Leads m' h' z) : (w >>= k).Leads m h' z :=
  (hw.bind k).trans fun m' harrives => by
    rw [pure_bind]
    exact hk m' harrives

theorem fire (ctx : Context) (what name : String) (pos : Position) (x : Eval α) :
    (Eval.fire ctx what name pos >>= fun _ => x).Leads m m.heap x := by
  unfold Eval.fire Eval.note
  cases ctx.settings.tracing
  all_goals
    refine ⟨_, ?_, rfl⟩
    exact ⟨rfl, rfl, rfl, rfl, rfl, by rintro ⟨⟩⟩

theorem newFunction (hm : m.focus ≠ none) (f : Function) :
    (Eval.newFunction f).Leads m (m.heap.newFunction f).2 (pure (.function ⟨m.heap.functions.size⟩)) :=
  ⟨{ m with heap := (m.heap.newFunction f).2 }, ⟨rfl, rfl, rfl, rfl, rfl, hm⟩, rfl⟩

theorem readVariable (hm : m.focus ≠ none) {ctx : Context} {name : String} {v : Value}
    (hread : m.heap.read? ctx.scope name = some v) (pos : Position) :
    (RuleScript.readVariable ctx pos name).Leads m m.heap (pure v) := by
  refine of_eq hm ?_
  have hfound : Eval.onHeap (·.read? ctx.scope name) m = (.ok (some v), m) :=
    congrArg (fun o => (Except.ok o, m)) hread
  exact Eval.bind_run_ok hfound _

theorem withFrame {frame : Frame} (hx : x.Leads { m with calls := frame :: m.calls } h y) :
    (Eval.withFrame frame x).Leads m h (Eval.withFrame frame y) := by
  obtain ⟨m', harrives, hrun⟩ := hx
  refine ⟨{ m' with calls := m.calls },
    ⟨harrives.heap, rfl, harrives.effects, harrives.hosts, harrives.seed, harrives.fired⟩, ?_⟩
  have hpushed : { m' with calls := frame :: m.calls } = m' := by
    rw [← show m'.calls = frame :: m.calls from harrives.calls]
  unfold Eval.withFrame
  rw [hrun]
  dsimp only
  rw [hpushed]

end Leads

/-- What is returned does not matter for a guard. -/
theorem guarded_return (ctx : Context) (pos : Position) (x : Eval α) (f : α → β) :
    Eval.guarded ctx pos (do return f (← x)) = do return f (← Eval.guarded ctx pos x) := by
  funext m
  rw [Eval.bind_run]
  unfold Eval.guarded
  rw [Eval.bind_run]
  rcases x m with ⟨s | a, m'⟩
  · cases s <;> rfl
  · rfl

end Eval

open Eval (Leads)

section Calls

variable {n : Nat} {ctx : Context} {m : Machine}

/-- One word as the argument of a call. -/
theorem evaluateArguments_word {name : String} {v : Value} (hread : m.heap.read? ctx.scope name = some v)
    (hv : v ≠ .absent) (p pos : Position) :
    (evaluateArguments (Engine.level (n + 1)) ctx [.word p name] pos).Leads m m.heap (pure [v]) := by
  have hevaluate : ((Engine.level (n + 1)).evaluate ctx [.word p name]).Leads m m.heap (pure v) := by
    show (evaluateList (Engine.level n) ctx [Primary.node (.word p name)]).Leads m m.heap (pure v)
    rw [evaluateList_primary _ ctx rfl]
    refine (Leads.fire ..).trans fun m' hm' => ?_
    have hread' := Leads.readVariable hm'.fired (hm'.heap ▸ hread) p
    rwa [hm'.heap] at hread'
  have hvalue : (evaluateValue (Engine.level (n + 1)) ctx [.word p name] p).Leads m m.heap (pure v) := by
    refine hevaluate.andThen fun m' hm' => ?_
    rw [← hm'.heap]
    refine .of_eq hm'.fired ?_
    cases v <;> first | rfl | contradiction
  refine hvalue.andThen fun m' hm' => ?_
  rw [← hm'.heap]
  exact .of_eq hm'.fired rfl

/-- One value as the argument of a call. -/
theorem evaluateArguments_value (p pos : Position) (f : FunctionRef) :
    evaluateArguments (Engine.level (n + 1)) ctx [.value p (.function f)] pos = pure [.function f] := by
  have hevaluate : (Engine.level (n + 1)).evaluate ctx [.value p (.function f)] = pure (.function f) := by
    show (reduce (Engine.level n) ctx [.value p (.function f)] >>= pure) = _
    rw [reduce_value, bind_pure]
  have hvalue : evaluateValue (Engine.level (n + 1)) ctx [.value p (.function f)] p = pure (.function f) := by
    unfold evaluateValue
    rw [hevaluate]
    rfl
  show (do
    let v ← evaluateValue (Engine.level (n + 1)) ctx [.value p (.function f)] p
    return v :: (← pure [])) = _
  rw [hvalue]
  rfl

variable (hdepth : ctx.settings.maxDepth = none)

include hdepth

/-- A call of a native function leads to the native, with the call active. -/
theorem call_leads {f : FunctionRef} {g : NativeFunction} (hf : m.heap.function? f = some (.native g))
    {args : List Node} {values : List Value} {pos : Position}
    (hargs : (evaluateArguments (Engine.level (n + 1)) ctx args pos).Leads
      { m with calls := callFrame ctx (.native g) pos :: m.calls } m.heap (pure values)) :
    ((Engine.level (n + 2)).call ctx f args pos).Leads m m.heap
      (Eval.withFrame (callFrame ctx (.native g) pos)
        (callNative ⟨Engine.level (n + 1), ctx, pos⟩ g values)) := by
  have hadmits : ctx.settings.admitsCall m.calls.length = true := by
    unfold Settings.admitsCall
    rw [hdepth]
  have hentered : (Engine.level (n + 2)).call ctx f args pos m = _ :=
    callBy_entered Eval.withFrame (Engine.level (n + 1)) hf hadmits args pos
  have hbody := (hargs.bind (callNative ⟨Engine.level (n + 1), ctx, pos⟩ g)).withFrame
  rw [pure_bind] at hbody
  obtain ⟨m', harrives, hrun⟩ := hbody
  exact ⟨m', harrives, hentered.trans hrun⟩

/-- A block behind a function becomes a function, and the call has it as its
argument. -/
theorem invokeBlock_leads (hm : m.focus ≠ none) {f : FunctionRef} {g : NativeFunction}
    (hf : m.heap.function? f = some (.native g)) (p pos : Position) (body : List Node) :
    ((Redex.invokeBlock (.function f) p body pos).run (Engine.level (n + 2)) ctx).Leads m
      (m.heap.newFunction (blockOf ctx body)).2
      (Eval.withFrame (callFrame ctx (.native g) pos)
        (callNative ⟨Engine.level (n + 1), ctx, pos⟩ g [.function ⟨m.heap.functions.size⟩])) := by
  show (Eval.newFunction (blockOf ctx body) >>= fun block =>
    (Engine.level (n + 2)).call ctx f [.value pos block] pos).Leads m _ _
  refine (Leads.newFunction hm _).andThen fun m' hm' => ?_
  have hf' : m'.heap.function? f = some (.native g) := by
    rw [hm'.heap, Heap.function?_newFunction, if_neg, hf]
    exact Nat.ne_of_lt (Array.getElem?_eq_some_iff.mp hf).1
  rw [← hm'.heap]
  refine call_leads hdepth hf' ?_
  rw [evaluateArguments_value]
  exact .of_eq hm'.fired rfl

end Calls

/-! ### `if` and `while` -/

/-- A name of the library is bound to its own function. -/
structure Heap.Resolves (h : Heap) (scope : ScopeRef) (op : CoreOp) (f : FunctionRef)
    (g : NativeFunction) : Prop where
  read : h.read? scope op.signature.name = some (.function f)
  function : h.function? f = some (.native g)
  operation : g.operation = .core op
  arity : g.arity = op.signature.arity

/-- What `if` hands back. -/
def branchNative (condition : Bool) : NativeFunction :=
  ⟨.branch condition, "branch", .exactly 1, "branch(callback)", none⟩

/-- What `while` hands back if there is no limit on the rounds. -/
def loopNative (condition : FunctionRef) : NativeFunction :=
  ⟨.loop condition none, "loop", .exactly 1, "loop(callback)", none⟩

/-- The nodes of an `if` whose condition is a word. -/
def ifNodes (word : String) (body : List Node) (p₁ p₂ p₃ p₄ : Position) : List Node :=
  [.word p₁ "if", .span p₂ .paren [.word p₃ word], .span p₄ .brace body]

/-- The nodes of a `while`. -/
def whileNodes (condition body : List Node) (p₁ p₂ p₃ : Position) : List Node :=
  [.word p₁ "while", .span p₂ .brace condition, .span p₃ .brace body]

/-- The functions that an `if` makes. -/
def ifFunctions (ctx : Context) (condition : Bool) (body : List Node) : List Function :=
  [.native (branchNative condition), blockOf ctx body]

/-- The functions that a `while` makes on a heap. -/
def whileFunctions (ctx : Context) (h : Heap) (condition body : List Node) : List Function :=
  [blockOf ctx condition, .native (loopNative ⟨h.functions.size⟩), blockOf ctx body]

section Front

variable {n : Nat} {ctx : Context} {m : Machine} {f : FunctionRef} {g : NativeFunction}

theorem callNative_if (hm : m.focus ≠ none) (hg : g.operation = .core .branch)
    (harity : g.arity = CoreOp.branch.signature.arity) (s : Site) (condition : Bool) :
    (callNative s g [.bool condition]).Leads m (m.heap.newFunction (.native (branchNative condition))).2
      (pure (.function ⟨m.heap.functions.size⟩)) := by
  obtain ⟨op, name, arity, usage, note⟩ := g
  obtain rfl : op = .core .branch := hg
  obtain rfl : arity = .exactly 1 := harity
  exact ⟨{ m with heap := (m.heap.newFunction (.native (branchNative condition))).2 },
    ⟨rfl, rfl, rfl, rfl, rfl, hm⟩, rfl⟩

theorem callNative_while (hm : m.focus ≠ none) (hg : g.operation = .core .repeating)
    (harity : g.arity = CoreOp.repeating.signature.arity) {s : Site} (hlimit : s.ctx.settings.loopLimit = "")
    (condition : FunctionRef) :
    (callNative s g [.function condition]).Leads m (m.heap.newFunction (.native (loopNative condition))).2
      (pure (.function ⟨m.heap.functions.size⟩)) := by
  obtain ⟨op, name, arity, usage, note⟩ := g
  obtain rfl : op = .core .repeating := hg
  obtain rfl : arity = .exactly 1 := harity
  have hnone : loopLimit s = pure none := by
    unfold loopLimit
    rw [hlimit]
    rfl
  refine ⟨{ m with heap := (m.heap.newFunction (.native (loopNative condition))).2 },
    ⟨rfl, rfl, rfl, rfl, rfl, hm⟩, ?_⟩
  simp only [callNative, Operation.run, CoreOp.run, hnone, pure_bind]
  rfl

/-- The last access of an operand gives the value of the whole. -/
theorem Leads.last {h : Heap} {x y : Eval Value} (hx : x.Leads m h y) (e : Engine) (ctx : Context)
    (pos : Position) : (x >>= fun v => reduce e ctx (Operand.ofValue pos v []).nodes).Leads m h y := by
  have hvalue (v : Value) : reduce e ctx (Operand.ofValue pos v []).nodes = pure v := reduce_value e ctx pos v
  simpa only [hvalue, bind_pure] using hx

variable (hdepth : ctx.settings.maxDepth = none)

include hdepth

/-- **An `if` leads to its branch, which is given the block.** -/
theorem evaluate_if (hif : m.heap.Resolves ctx.scope .branch f g) {word : String} {condition : Bool}
    (hword : m.heap.read? ctx.scope word = some (.bool condition)) (body : List Node)
    (p₁ p₂ p₃ p₄ : Position) :
    ((Engine.level (n + 3)).evaluate ctx (ifNodes word body p₁ p₂ p₃ p₄)).Leads m
      (m.heap.lend (ifFunctions ctx condition body))
      (Eval.withFrame (callFrame ctx (.native (branchNative condition)) p₄)
        (callNative ⟨Engine.level (n + 1), ctx, p₄⟩ (branchNative condition)
          [.function ⟨m.heap.functions.size + 1⟩])) := by
  let o : Operand := ⟨.word p₁ "if", [.span p₂ .paren [.word p₃ word], .span p₄ .brace body]⟩
  have hlist : (Engine.level (n + 3)).evaluate ctx (ifNodes word body p₁ p₂ p₃ p₄) =
      reduce (Engine.level (n + 2)) ctx o.nodes >>= pure := rfl
  rw [hlist, bind_pure, reduce_step_alone _ ctx (o := o) rfl]
  refine (Leads.fire ..).trans fun m₁ h₁ => ?_
  rw [← h₁.heap] at hif hword ⊢
  refine (Leads.readVariable h₁.fired hif.read p₁).andThen fun m₂ h₂ => ?_
  rw [← h₂.heap] at hif hword ⊢
  rw [reduce_step_alone _ ctx (o := .ofValue _ (.function f) _) rfl]
  refine (Leads.fire ..).trans fun m₃ h₃ => ?_
  rw [← h₃.heap] at hif hword ⊢
  have hcall : ((Engine.level (n + 2)).call ctx f [.word p₃ word] p₂).Leads m₃
      (m₃.heap.newFunction (.native (branchNative condition))).2
      (pure (.function ⟨m₃.heap.functions.size⟩)) := by
    have hargs := evaluateArguments_word (n := n)
      (m := { m₃ with calls := callFrame ctx (.native g) p₂ :: m₃.calls }) hword (by rintro ⟨⟩) p₃ p₂
    refine (call_leads hdepth hif.function hargs).trans fun m₄ h₄ => ?_
    rw [← h₄.heap]
    exact (callNative_if (m := { m₄ with calls := callFrame ctx (.native g) p₂ :: m₄.calls }) h₄.fired
      hif.operation hif.arity _ condition).withFrame
  refine hcall.andThen fun m₄ h₄ => ?_
  rw [reduce_step_alone _ ctx (o := .ofValue _ (.function ⟨m₃.heap.functions.size⟩) _) rfl]
  refine (Leads.fire ..).trans fun m₅ h₅ => ?_
  have hheap : m₅.heap = m₃.heap.lend [.native (branchNative condition)] := by
    rw [h₅.heap, h₄.heap, Heap.newFunction_eq_lend]
  have hbranch : m₅.heap.function? ⟨m₃.heap.functions.size⟩ = some (.native (branchNative condition)) := by
    rw [hheap]
    exact m₃.heap.lend_function?_lent _ 0
  have hlast := Leads.last (invokeBlock_leads (n := n) hdepth h₅.fired hbranch p₁ p₄ body)
    (Engine.level (n + 2)) ctx p₁
  rw [hheap, Heap.lend_newFunction, Heap.lend_size] at hlast
  exact hlast

/-- **A `while` leads to its loop, which is given the second block.** -/
theorem evaluate_while (hlimit : ctx.settings.loopLimit = "")
    (hwhile : m.heap.Resolves ctx.scope .repeating f g) (condition body : List Node)
    (p₁ p₂ p₃ : Position) :
    ((Engine.level (n + 3)).evaluate ctx (whileNodes condition body p₁ p₂ p₃)).Leads m
      (m.heap.lend (whileFunctions ctx m.heap condition body))
      (Eval.withFrame (callFrame ctx (.native (loopNative ⟨m.heap.functions.size⟩)) p₃)
        (callNative ⟨Engine.level (n + 1), ctx, p₃⟩ (loopNative ⟨m.heap.functions.size⟩)
          [.function ⟨m.heap.functions.size + 2⟩])) := by
  let o : Operand := ⟨.word p₁ "while", [.span p₂ .brace condition, .span p₃ .brace body]⟩
  have hlist : (Engine.level (n + 3)).evaluate ctx (whileNodes condition body p₁ p₂ p₃) =
      reduce (Engine.level (n + 2)) ctx o.nodes >>= pure := rfl
  rw [hlist, bind_pure, reduce_step_alone _ ctx (o := o) rfl]
  refine (Leads.fire ..).trans fun m₁ h₁ => ?_
  rw [← h₁.heap] at hwhile ⊢
  refine (Leads.readVariable h₁.fired hwhile.read p₁).andThen fun m₂ h₂ => ?_
  rw [← h₂.heap] at hwhile ⊢
  rw [reduce_step_alone _ ctx (o := .ofValue _ (.function f) _) rfl]
  refine (Leads.fire ..).trans fun m₃ h₃ => ?_
  rw [← h₃.heap] at hwhile ⊢
  let loop : Function := .native (loopNative ⟨m₃.heap.functions.size⟩)
  have hcall : ((Redex.invokeBlock (.function f) p₁ condition p₂).run (Engine.level (n + 2)) ctx).Leads m₃
      (m₃.heap.lend [blockOf ctx condition, loop]) (pure (.function ⟨m₃.heap.functions.size + 1⟩)) := by
    refine (invokeBlock_leads hdepth h₃.fired hwhile.function p₁ p₂ condition).trans fun m₄ h₄ => ?_
    have hmade := (callNative_while (m := { m₄ with calls := callFrame ctx (.native g) p₂ :: m₄.calls })
      (s := ⟨Engine.level (n + 1), ctx, p₂⟩) h₄.fired hwhile.operation hwhile.arity hlimit
      ⟨m₃.heap.functions.size⟩).withFrame
    dsimp only at hmade
    rw [h₄.heap, m₃.heap.newFunction_eq_lend, Heap.lend_newFunction, Heap.lend_size] at hmade
    exact hmade
  refine hcall.andThen fun m₄ h₄ => ?_
  rw [reduce_step_alone _ ctx (o := .ofValue _ (.function ⟨m₃.heap.functions.size + 1⟩) _) rfl]
  refine (Leads.fire ..).trans fun m₅ h₅ => ?_
  have hheap : m₅.heap = m₃.heap.lend [blockOf ctx condition, loop] := h₅.heap.trans h₄.heap
  have hloop : m₅.heap.function? ⟨m₃.heap.functions.size + 1⟩ = some loop := by
    rw [hheap]
    exact m₃.heap.lend_function?_lent _ 1
  have hlast := Leads.last (invokeBlock_leads (n := n) hdepth h₅.fired hloop p₁ p₃ body)
    (Engine.level (n + 2)) ctx p₁
  rw [hheap, Heap.lend_newFunction, Heap.lend_size] at hlast
  exact hlast

end Front

end RuleScript
