/-
# Natives hand back copies

What a native operation yields is made a value of the language on its way to
the caller. Scalars and functions come through as they are. An array or a dict
does not, even where the operation yields one that was there before: the caller
gets a copy, fresh at every depth, or nothing if the host has not frames enough. So
the result is not the value that the operation yielded, and writing to the one
is not seen in the other (`callNative_handsBack`, `HandsBack.handsCopy`).

Some natives only pass a value on: `get` reads a name, `ifElse` and the branch
of an `if` give what a callback returns (`Passes`). For each of them the
operation yields that very value, and the caller gets a copy. A script sees
this: where a name is bound to an array or a dict, `get('name') == name` is
false (`evaluate_getEquals`).

Key definitions: `CallReady`, `Yields`, `HandsBack`, `Passes`, `getEquals`.
Key theorems: `callNative_handsBack`, `HandsBack.handsCopy`, `Passes.yields`,
`evaluate_getEquals`, `natives_hand_back_copies`.
-/
import RuleScript.Proofs.Reduction.Precedence
import RuleScript.Proofs.Values.Copy

namespace RuleScript

/-! ### The natives of the library -/

/-- An operation as the function that a root scope binds. -/
def Signature.native (s : Signature) (op : Operation) : NativeFunction := ⟨op, s.name, s.arity, s.usage, none⟩

/-- A core operation as a function. -/
def CoreOp.native (op : CoreOp) : NativeFunction := op.signature.native (.core op)

/-- An array operation as a function. -/
def ArrayOp.native (op : ArrayOp) : NativeFunction := op.signature.native (.array op)

/-- A string operation as a function. -/
def StringOp.native (op : StringOp) : NativeFunction := op.signature.native (.string op)

/-- A dict operation as a function. -/
def DictOp.native (op : DictOp) : NativeFunction := op.signature.native (.dict op)

/-! ### What a native hands back -/

/-- A call of a native function with evaluated arguments that may be made. -/
structure CallReady (ctx : Context) (f : NativeFunction) (args : List Value) (m : Machine) : Prop where
  heap : m.heap.WellFormed
  hosts : ∀ o ∈ m.hosts, o.Honest
  scope : m.heap.HasScope ctx.scope
  function : m.heap.AllocatedFunction (.native f)
  values : ∀ v ∈ args, m.heap.Allocated v
  arity : f.arity.admits args.length = true

/-- The operation of a native function yields a value, on the engine with `n`
levels. -/
def Yields (n : Nat) (ctx : Context) (pos : Position) (f : NativeFunction) (args : List Value)
    (m : Machine) (v : Value) (m₁ : Machine) : Prop :=
  Eval.guarded ctx pos (f.operation.run ⟨Engine.level n, ctx, pos⟩ args) m = (.ok (.value v), m₁)

/-- What becomes of a value that an operation yields, with so many frames to copy it. -/
inductive HandsBack (frames : Nat) (v : Value) (m : Machine) : Except Stop Value × Machine → Prop
  | nothing (hv : v = .absent) : HandsBack frames v m (.ok .null, m)
  | same (hv : v ≠ .absent) (hagg : v.isAggregate = false) : HandsBack frames v m (.ok v, m)
  | copy (hagg : v.isAggregate = true) (hcopiable : v.copiable m.heap frames = true)
    {w : Value} {h : Heap} (hadds : m.heap.Adds h) (hcopied : Copied m.heap h v w) :
    HandsBack frames v m (.ok w, { m with heap := h })
  | refused (hagg : v.isAggregate = true)
    (hdeep : v.copiable m.heap frames = false) (s : Stop) (m' : Machine) :
    HandsBack frames v m (.error s, m')

/-- An array or a dict, and what the caller gets in its place: a copy that is
not the original, and a write to it changes nothing that was there. -/
structure HandsCopy (v : Value) (m : Machine) (w : Value) (m' : Machine) : Prop where
  copied : Copied m.heap m'.heap v w
  distinct : w.strictEq v = false
  apart : ∀ h, m'.heap.Writes w h → m.heap.Adds h

namespace HandsBack

variable {frames : Nat} {v w : Value} {m m₂ : Machine} {r : Except Stop Value × Machine}

/-- An array or a dict is copied, or there are not frames enough for it. -/
theorem copied_or_refused (hr : HandsBack frames v m r) (hagg : v.isAggregate = true) :
    (∃ w h, r = (.ok w, { m with heap := h }) ∧ m.heap.Adds h ∧ Copied m.heap h v w) ∨
      v.copiable m.heap frames = false ∧ ∃ s m', r = (.error s, m') := by
  cases hr with
  | nothing hv => rw [hv] at hagg; cases hagg
  | same _ hagg' => rw [hagg'] at hagg; cases hagg
  | copy _ _ hadds hcopied => exact .inl ⟨_, _, rfl, hadds, hcopied⟩
  | refused _ hdeep s m' => exact .inr ⟨hdeep, s, m', rfl⟩

theorem exists_ok (hr : HandsBack frames v m r) (hagg : v.isAggregate = true)
    (hcopiable : v.copiable m.heap frames = true) : ∃ w m₂, r = (.ok w, m₂) := by
  rcases hr.copied_or_refused hagg with ⟨w, h, hrun, -, -⟩ | ⟨hdeep, -⟩
  · exact ⟨w, _, hrun⟩
  · rw [hdeep] at hcopiable
    cases hcopiable

/-- **The caller gets another array or dict**, and what is written to it does
not change what was there. -/
theorem handsCopy (hr : HandsBack frames v m (.ok w, m₂)) (hv : m.heap.Allocated v)
    (hagg : v.isAggregate = true) : HandsCopy v m w m₂ := by
  rcases hr.copied_or_refused hagg with ⟨_, h, ⟨⟩, hadds, hcopied⟩ | ⟨-, s, m', ⟨⟩⟩
  exact ⟨hcopied, hcopied.not_strictEq hv hagg, fun h hw => hcopied.apart hagg hadds hw⟩

/-- **The caller gets the value itself unless it is an array or a dict.** -/
theorem returns_iff (hr : HandsBack frames v m r) (hv : m.heap.Allocated v) (hpresent : v ≠ .absent) :
    (∃ m₂, r = (.ok v, m₂)) ↔ v.isAggregate = false := by
  constructor
  · rintro ⟨m₂, rfl⟩
    by_contra hagg
    rw [Bool.not_eq_false] at hagg
    have hdistinct := (hr.handsCopy hv hagg).distinct
    rw [Value.strictEq_self hagg] at hdistinct
    cases hdistinct
  · intro hagg
    cases hr with
    | nothing hv => exact absurd hv hpresent
    | same => exact ⟨m, rfl⟩
    | copy hagg' => rw [hagg] at hagg'; cases hagg'
    | refused hagg' => rw [hagg] at hagg'; cases hagg'

end HandsBack

theorem receive_handsBack (s : Site) (host : Option (Nat × Host)) {v : Value} {m : Machine}
    (hm : m.heap.WellFormed) (hv : m.heap.Allocated v) :
    HandsBack s.frames v m (s.receive host (.value v) m) := by
  have hcopying := copyValue_copying hm s s.frames (.refl _) hv
  have haggregate (hagg : v.isAggregate = true) :
      HandsBack s.frames v m (s.copyValue s.frames v m) := by
    unfold Copying at hcopying
    split at hcopying
    · rename_i hcopiable
      obtain ⟨w, h, hrun, hadds, hcopied⟩ := hcopying
      rw [hrun]
      exact .copy hagg hcopiable hadds hcopied
    · rename_i hdeep
      obtain ⟨stop, m', hrun⟩ := hcopying
      rw [hrun]
      exact .refused hagg (Bool.eq_false_iff.mpr hdeep) stop m'
  cases v with
  | absent => exact .nothing rfl
  | array r => exact haggregate rfl
  | dict r => exact haggregate rfl
  | null | bool | number | string | function => exact .same (by rintro ⟨⟩) rfl

section Calls

variable {n : Nat} {ctx : Context} {pos : Position} {f : NativeFunction} {args : List Value}
  {m m₁ : Machine} {v : Value}

/-- The heap is well-formed when the operation is done, and what it yields is
made of allocated values. -/
theorem product_sound (hr : CallReady ctx f args m) {p : Product}
    (hp : Eval.guarded ctx pos (f.operation.run ⟨Engine.level n, ctx, pos⟩ args) m = (.ok p, m₁)) :
    m₁.heap.WellFormed ∧ p.MadeOf m₁.heap.Allocated True := by
  have hm : Policy.allocation.Holds m :=
    ⟨Policy.allocation_admits.mpr hr.heap, fun o ho => (hr.hosts o ho).allocation⟩
  have hf : Policy.allocation.relaxed.operation m.heap f.operation :=
    Policy.allocation_function.mpr hr.function
  have hrun := Operation.run_keeps (P := Policy.allocation.relaxed) pos
    (Policy.allocation.obeys_level n).relax hr.scope hr.values hf fun _ => trivial
  obtain ⟨-, hend⟩ := hrun.guarded ctx pos hm
  rw [hp] at hend
  have hproduct : Policy.allocation.product m₁.heap p := hend.value p rfl
  exact ⟨Policy.allocation_admits.mp hend.holds.heap,
    hproduct.imp (fun _ hv => Policy.allocated_of_result hv) id⟩

/-- A value that an operation yields is allocated. -/
theorem yields_sound (hr : CallReady ctx f args m) (hv : Yields n ctx pos f args m v m₁) :
    m₁.heap.WellFormed ∧ m₁.heap.Allocated v := by
  obtain ⟨hheap, hproduct⟩ := product_sound hr hv
  cases hproduct with
  | value hv => exact ⟨hheap, hv⟩

/-- When the operation of a native is done, its product is made a value. -/
theorem callNative_guarded {s : Site} {p : Product} (hadmits : f.arity.admits args.length = true)
    (h : Eval.guarded s.ctx s.pos (f.operation.run s args) m = (.ok p, m₁)) :
    callNative s f args m = s.receive (f.operation.host? m₁) p m₁ := by
  unfold callNative
  rw [if_pos hadmits, Eval.bind_run_ok h]
  rfl

/-- **What a native hands back of the value that its operation yields.** -/
theorem callNative_handsBack (hr : CallReady ctx f args m) (hv : Yields n ctx pos f args m v m₁) :
    HandsBack ctx.settings.room.frames v m₁ (callNative ⟨Engine.level n, ctx, pos⟩ f args m) := by
  obtain ⟨hheap, halloc⟩ := yields_sound hr hv
  have hcall : callNative ⟨Engine.level n, ctx, pos⟩ f args m =
      Site.receive ⟨Engine.level n, ctx, pos⟩ (f.operation.host? m₁) (.value v) m₁ :=
    callNative_guarded hr.arity hv
  rw [hcall]
  exact receive_handsBack ⟨Engine.level n, ctx, pos⟩ _ hheap halloc

/-! ### Natives that pass a value on -/

theorem guarded_ok {α : Type} {act : Eval α} {a : α} (h : act m = (.ok a, m₁)) :
    Eval.guarded ctx pos act m = (.ok a, m₁) := by
  unfold Eval.guarded
  rw [h]

theorem callNative_of_ok {s : Site} {p : Product} (hadmits : f.arity.admits args.length = true)
    (h : f.operation.run s args m = (.ok p, m₁)) :
    callNative s f args m = s.receive (f.operation.host? m₁) p m₁ :=
  callNative_guarded hadmits (guarded_ok h)

/-- The natives that pass a value on, with their arguments, the value and the
machine on which they have it: `get` has what the name is bound to, `ifElse`
what the chosen branch returns, and an `if` whose condition holds what its
block returns. -/
inductive Passes (s : Site) (m : Machine) : Operation → List Value → Value → Machine → Prop
  | get {name : String} {v : Value} (hread : m.heap.read? s.ctx.scope name = some v) :
    Passes s m (.core .get) [.string name] v m
  | choose (c : Bool) (yes no : FunctionRef) {v : Value} {m₁ : Machine}
    (hcall : s.invoke (if c then yes else no) [] m = (.ok v, m₁)) :
    Passes s m (.core .choose) [.bool c, .function yes, .function no] v m₁
  | branch (block : FunctionRef) {v : Value} {m₁ : Machine}
    (hcall : s.invoke block [] m = (.ok v, m₁)) :
    Passes s m (.branch true) [.function block] v m₁

/-- The value that a native passes on is what its operation yields. -/
theorem Passes.yields (h : Passes ⟨Engine.level n, ctx, pos⟩ m f.operation args v m₁) :
    Yields n ctx pos f args m v m₁ := by
  refine guarded_ok ?_
  generalize f.operation = op at h ⊢
  cases h with
  | @get name _ hread =>
    have hlook : Eval.onHeap (·.read? ctx.scope name) m = (.ok (some v), m) := by
      rw [← hread]
      rfl
    simp only [Operation.run, CoreOp.run, List.getD_cons_zero, Site.string, pure_bind]
    rw [Eval.bind_run_ok hlook]
    rfl
  | choose c yes no hcall => exact Eval.bind_run_ok hcall _
  | branch block hcall => exact Eval.bind_run_ok hcall _

end Calls

/-! ### As a script sees it -/

/-- A computation that gives a value, with the same hosts and active calls
afterwards. -/
def Eval.Gives {α : Type} (x : Eval α) (m : Machine) (post : α → Heap → Prop) : Prop :=
  ∃ a m', x m = (.ok a, m') ∧ post a m'.heap ∧ m'.hosts = m.hosts ∧ m'.calls = m.calls

namespace Eval.Gives

variable {α β : Type} {x : Eval α} {m : Machine} {post : α → Heap → Prop}

theorem pure {a : α} (ha : post a m.heap) : Gives (pure a) m post := ⟨a, m, rfl, ha, rfl, rfl⟩

theorem bind {f : α → Eval β} {post' : β → Heap → Prop} (hx : x.Gives m post)
    (hf : ∀ a (m' : Machine), post a m'.heap → m'.hosts = m.hosts → m'.calls = m.calls →
      (f a).Gives m' post') : (x >>= f).Gives m post' := by
  obtain ⟨a, m₁, hrun, ha, hhosts, hcalls⟩ := hx
  obtain ⟨b, m₂, hrun', hb, hhosts', hcalls'⟩ := hf a m₁ ha hhosts hcalls
  exact ⟨b, m₂, (Eval.bind_run_ok hrun f).trans hrun', hb, hhosts'.trans hhosts,
    hcalls'.trans hcalls⟩

theorem of_eq {y : Eval α} (h : x m = y m) (hy : y.Gives m post) : x.Gives m post := by
  unfold Eval.Gives
  rwa [h]

theorem fire (ctx : Context) (what name : String) (pos : Position) :
    (Eval.fire ctx what name pos).Gives m fun _ h => h = m.heap :=
  ⟨(), Eval.fire_run ctx what name pos m⟩

theorem readVariable {ctx : Context} {name : String} {v : Value} (pos : Position)
    (h : m.heap.read? ctx.scope name = some v) :
    (readVariable ctx pos name).Gives m fun w h => w = v ∧ h = m.heap := by
  refine ⟨v, m, ?_, ⟨rfl, rfl⟩, rfl, rfl⟩
  have hlook : Eval.onHeap (·.read? ctx.scope name) m = (.ok (some v), m) := by
    rw [← h]
    rfl
  unfold RuleScript.readVariable
  rw [Eval.bind_run_ok hlook]
  rfl

theorem withFrame {frame : Frame} (hx : x.Gives { m with calls := frame :: m.calls } post) :
    (Eval.withFrame frame x).Gives m post := by
  obtain ⟨a, m', hrun, ha, hhosts, hcalls⟩ := hx
  refine ⟨a, Eval.popFrame m', ?_, ha, hhosts, ?_⟩
  · unfold Eval.withFrame
    rw [hrun]
  · show m'.calls.tail = m.calls
    rw [hcalls]
    rfl

end Eval.Gives

open Eval (Gives)

/-- The text between the quotes of a quoted name. -/
theorem unquote_quoted (name : String) : unquote ("'" ++ name ++ "'") = name := by
  have hraw : ("'" ++ name ++ "'").toList = '\'' :: (name.toList ++ ['\'']) := by simp
  unfold unquote
  rw [hraw]
  simp

/-- One string literal as the argument of a call. -/
theorem evaluateArguments_quoted (n : Nat) (ctx : Context) (p pos : Position) (raw : String)
    {m : Machine} : (evaluateArguments (Engine.level (n + 1)) ctx [.quoted p raw] pos).Gives m
      fun args h => args = [.string (unquote raw)] ∧ h = m.heap := by
  have hevaluate : ((Engine.level (n + 1)).evaluate ctx [.quoted p raw]).Gives m
      fun v h => v = .string (unquote raw) ∧ h = m.heap := by
    show (evaluateList (Engine.level n) ctx [Primary.node (.quoted p raw)]).Gives m _
    rw [evaluateList_primary _ ctx rfl]
    exact (Gives.fire ..).bind fun _ m' hheap _ _ => .pure ⟨rfl, hheap⟩
  have hvalue : (evaluateValue (Engine.level (n + 1)) ctx [.quoted p raw] p).Gives m
      fun v h => v = .string (unquote raw) ∧ h = m.heap := by
    refine hevaluate.bind fun v m' hv _ _ => ?_
    obtain ⟨rfl, hheap⟩ := hv
    exact .pure ⟨rfl, hheap⟩
  refine hvalue.bind fun v m' hv _ _ => ?_
  obtain ⟨rfl, hheap⟩ := hv
  exact .pure ⟨rfl, hheap⟩

section Script

variable {n : Nat} {ctx : Context} {m : Machine} {g : FunctionRef} {f : NativeFunction}
  {name : String} {v : Value}

/-- A call of a native function with one string literal. -/
theorem call_native_quoted (hg : m.heap.function? g = some (.native f))
    (hadmits : ctx.settings.admitsCall m.calls.length = true) (p pos : Position)
    {post : Value → Heap → Prop} (hcall : ∀ m' : Machine, m'.heap = m.heap → m'.hosts = m.hosts →
      (callNative ⟨Engine.level (n + 1), ctx, pos⟩ f [.string name]).Gives m' post) :
    ((Engine.level (n + 2)).call ctx g [.quoted p ("'" ++ name ++ "'")] pos).Gives m post := by
  refine .of_eq (callBy_entered Eval.withFrame (Engine.level (n + 1)) hg hadmits _ pos) ?_
  refine .withFrame ((evaluateArguments_quoted ..).bind fun args m' hargs hhosts _ => ?_)
  obtain ⟨rfl, hheap⟩ := hargs
  rw [unquote_quoted]
  exact hcall m' hheap hhosts

/-- What `get` hands back of a name that is bound to a value: the value itself,
or a copy. -/
def GetsBack (h : Heap) (v w : Value) (h' : Heap) : Prop :=
  h.Adds h' ∧ if v.isAggregate then Copied h h' v w else w = v

theorem GetsBack.strictEq {h h' : Heap} {v w : Value} (hback : GetsBack h v w h')
    (hv : h.Allocated v) : w.strictEq v = (!v.isAggregate && v.strictEq v) := by
  obtain ⟨-, hback⟩ := hback
  cases hagg : v.isAggregate with
  | true =>
    rw [hagg] at hback
    exact Copied.not_strictEq hback hv hagg
  | false =>
    rw [hagg] at hback
    obtain rfl : w = v := hback
    rfl

/-- A machine on which a name is bound to a value that `get` can hand back, and
the function `get` under its own name. -/
structure GetReady (ctx : Context) (g : FunctionRef) (f : NativeFunction) (name : String) (v : Value)
    (m : Machine) : Prop where
  ready : CallReady ctx f [.string name] m
  get : m.heap.read? ctx.scope "get" = some (.function g)
  function : m.heap.function? g = some (.native f)
  operation : f.operation = .core .get
  bound : m.heap.read? ctx.scope name = some v
  present : v ≠ .absent
  copiable : v.isAggregate = true → v.copiable m.heap ctx.settings.room.frames = true

/-- Only the heap and the hosts matter. -/
theorem GetReady.on {m' : Machine} (hm : GetReady ctx g f name v m) (hheap : m'.heap = m.heap)
    (hhosts : m'.hosts = m.hosts) : GetReady ctx g f name v m' := by
  obtain ⟨⟨h₁, h₂, h₃, h₄, h₅, h₆⟩, h₇, h₈, h₉, h₁₀, h₁₁, h₁₂⟩ := hm
  rw [← hheap] at h₁ h₃ h₄ h₅ h₇ h₈ h₁₀ h₁₂
  rw [← hhosts] at h₂
  exact ⟨⟨h₁, h₂, h₃, h₄, h₅, h₆⟩, h₇, h₈, h₉, h₁₀, h₁₁, h₁₂⟩

theorem GetReady.yields (hm : GetReady ctx g f name v m) (pos : Position) :
    Yields n ctx pos f [.string name] m v m :=
  Passes.yields (hm.operation ▸ .get hm.bound)

theorem callNative_get (hm : GetReady ctx g f name v m) (pos : Position) :
    (callNative ⟨Engine.level n, ctx, pos⟩ f [.string name]).Gives m (GetsBack m.heap v) := by
  have hback := callNative_handsBack hm.ready (hm.yields (n := n) pos)
  unfold Eval.Gives
  generalize callNative _ f _ m = r at hback ⊢
  cases hback with
  | nothing hv => exact absurd hv hm.present
  | same _ hagg => exact ⟨v, m, rfl, ⟨.refl _, by rw [hagg]; rfl⟩, rfl, rfl⟩
  | copy hagg _ hadds hcopied =>
    exact ⟨_, _, rfl, ⟨hadds, by rw [hagg]; exact hcopied⟩, rfl, rfl⟩
  | refused hagg hdeep => exact absurd (hm.copiable hagg) (by rw [hdeep]; decide)

/-- `get('name')` as an operand. -/
def getOperand (name : String) (get span quoted : Position) : Operand :=
  ⟨.word get "get", [.span span .paren [.quoted quoted ("'" ++ name ++ "'")]]⟩

theorem reduce_getOperand (hm : GetReady ctx g f name v m)
    (hadmits : ctx.settings.admitsCall m.calls.length = true) (p₁ p₂ p₃ : Position) :
    (reduce (Engine.level (n + 2)) ctx (getOperand name p₁ p₂ p₃).nodes).Gives m
      (GetsBack m.heap v) := by
  rw [reduce_step_alone _ ctx (o := getOperand name p₁ p₂ p₃) rfl]
  refine (Gives.fire ..).bind fun _ m₁ hm₁ hhosts₁ hcalls₁ => ?_
  have hready₁ := hm.on hm₁ hhosts₁
  refine (Gives.readVariable p₁ hready₁.get).bind fun w m₂ hw hhosts₂ hcalls₂ => ?_
  obtain ⟨rfl, hm₂⟩ := hw
  have hready₂ := hready₁.on hm₂ hhosts₂
  rw [reduce_step_alone _ ctx (o := .ofValue _ (.function g) _) rfl]
  refine (Gives.fire ..).bind fun _ m₃ hm₃ hhosts₃ hcalls₃ => ?_
  have hready₃ := hready₂.on hm₃ hhosts₃
  have hheap : m₃.heap = m.heap := hm₃.trans (hm₂.trans hm₁)
  have hcalls : m₃.calls = m.calls := hcalls₃.trans (hcalls₂.trans hcalls₁)
  have hcall : ((Engine.level (n + 2)).call ctx g [.quoted p₃ ("'" ++ name ++ "'")] p₂).Gives m₃
      (GetsBack m.heap v) := by
    refine call_native_quoted hready₃.function (hcalls ▸ hadmits) p₃ p₂ fun m' hm' hhosts' => ?_
    have hget := callNative_get (n := n + 1) (hready₃.on hm' hhosts') p₂
    rwa [hm', hheap] at hget
  refine Gives.bind hcall fun w m₄ hback _ _ => ?_
  show (reduce _ ctx [.value _ w]).Gives m₄ _
  rw [reduce_value]
  exact .pure hback

theorem reduce_word (e : Engine) (pos : Position) (h : m.heap.read? ctx.scope name = some v) :
    (reduce e ctx [.word pos name]).Gives m fun w h => w = v ∧ h = m.heap := by
  have hstep := reduce_step_alone e ctx (o := ⟨.word pos name, []⟩) rfl
  refine .of_eq (congrFun hstep m) ((Gives.fire ..).bind fun _ m₁ hm₁ _ _ => ?_)
  refine (Gives.readVariable pos (hm₁ ▸ h)).bind fun w m₂ hw _ _ => ?_
  show (reduce e ctx [.value pos w]).Gives m₂ _
  rw [reduce_value]
  exact .pure ⟨hw.1, hw.2.trans hm₁⟩

/-- Two operands with `==` between them. -/
def equation {α : Type} (l : α) (pos : Position) (r : α) : Chain α := ⟨l, [(⟨pos, .equal, rfl⟩, r)]⟩

theorem reduce_equation (e : Engine) (ctx : Context) (l r : Position × Value) (pos : Position)
    (h : Heap) : Eval.Mirrors h (reduce e ctx ((equation l pos r).nodes valueNode))
      (some (.bool (l.2.strictEq r.2))) := by
  let t : Expression := .binary ⟨pos, .equal, rfl⟩ (.leaf l.1 l.2) (.leaf r.1 r.2)
  have hlevel : Operator.equal.level ≤ 12 := by decide
  have ht : t.Fits 12 := ⟨hlevel, trivial, trivial⟩
  exact Expression.reduce_mirrors ht

/-- The operands of `get('name') == name`. -/
def getOperands (name : String) (p₁ p₂ p₃ p₄ p₅ : Position) : Chain Operand :=
  equation (getOperand name p₁ p₂ p₃) p₄ ⟨.word p₅ name, []⟩

/-- The nodes of `get('name') == name`. -/
def getEquals (name : String) (p₁ p₂ p₃ p₄ p₅ : Position) : List Node :=
  [.word p₁ "get", .span p₂ .paren [.quoted p₃ ("'" ++ name ++ "'")], .symbol p₄ "==", .word p₅ name]

theorem evaluate_getOperands (hm : GetReady ctx g f name v m)
    (hadmits : ctx.settings.admitsCall m.calls.length = true) (p₁ p₂ p₃ p₄ p₅ : Position) :
    ((getOperands name p₁ p₂ p₃ p₄ p₅).mapM (Operand.evaluate (Engine.level (n + 2)) ctx)).Gives m
      fun c h => ∃ w, c = equation (p₁, w) p₄ (p₅, v) ∧ GetsBack m.heap v w h := by
  simp only [getOperands, equation, Chain.mapM, Operand.evaluate, List.mapM_cons, List.mapM_nil,
    bind_assoc, pure_bind]
  refine Gives.bind (reduce_getOperand hm hadmits p₁ p₂ p₃) fun w m₁ hback _ _ => ?_
  have hbound : m₁.heap.read? ctx.scope name = some v := (hback.1.read? _ _).trans hm.bound
  refine Gives.bind (reduce_word _ p₅ hbound) fun u m₂ hu _ _ => ?_
  obtain ⟨rfl, hm₂⟩ := hu
  exact .pure ⟨w, rfl, hm₂ ▸ hback⟩

/-- **`get('name') == name` does not hold of an array or a dict**, and of any
other value it holds if the value is equal to itself. -/
theorem evaluate_getEquals (hm : GetReady ctx g f name v m)
    (hadmits : ctx.settings.admitsCall m.calls.length = true) (p₁ p₂ p₃ p₄ p₅ : Position) :
    ∃ m', (Engine.level (n + 3)).evaluate ctx (getEquals name p₁ p₂ p₃ p₄ p₅) m =
      (.ok (.bool (!v.isAggregate && v.strictEq v)), m') := by
  have hlist : (Engine.level (n + 3)).evaluate ctx (getEquals name p₁ p₂ p₃ p₄ p₅) =
      reduce (Engine.level (n + 2)) ctx
        ((getOperands name p₁ p₂ p₃ p₄ p₅).nodes Operand.nodes) >>= pure := rfl
  obtain ⟨_, m₁, hoperands, ⟨w, rfl, hback⟩, -, -⟩ :=
    evaluate_getOperands (n := n) hm hadmits p₁ p₂ p₃ p₄ p₅
  obtain ⟨m₂, hrun, -⟩ :=
    reduce_equation (Engine.level (n + 2)) ctx (p₁, w) (p₅, v) p₄ m₁.heap m₁ rfl
  have hv : m.heap.Allocated v := (yields_sound hm.ready (hm.yields (n := n) p₂)).2
  refine ⟨m₂, ?_⟩
  rw [hlist, bind_pure, reduce_chain, Eval.bind_run_ok hoperands, ← hback.strictEq hv]
  exact hrun

end Script

/-- **Natives hand back copies.** Where the operation of a native yields a
value, the caller gets that value unless it is an array or a dict. Of an array
or a dict the caller gets a copy if the host has frames enough for it, and never the
array or dict itself. `get`, `ifElse` and `if` are such natives: what they yield is
the very value that a name is bound to, or that a branch returned. So in a
script `get('name') == name` is false for every name that is bound to an array
or a dict; for any other value it compares the value with itself. -/
theorem natives_hand_back_copies (n : Nat) (ctx : Context) (m : Machine) :
    (∀ {pos f args v m₁}, CallReady ctx f args m → Yields n ctx pos f args m v m₁ → v ≠ .absent →
      let r := callNative ⟨Engine.level n, ctx, pos⟩ f args m
      ((∃ m₂, r = (.ok v, m₂)) ↔ v.isAggregate = false) ∧
      (v.isAggregate = true →
        (v.copiable m₁.heap ctx.settings.room.frames = true → ∃ w m₂, r = (.ok w, m₂)) ∧
        ∀ w m₂, r = (.ok w, m₂) → HandsCopy v m₁ w m₂)) ∧
    (∀ {pos f args v m₁}, Passes ⟨Engine.level n, ctx, pos⟩ m f.operation args v m₁ →
      Yields n ctx pos f args m v m₁) ∧
    ∀ {g f name v}, GetReady ctx g f name v m →
      ctx.settings.admitsCall m.calls.length = true → ∀ p₁ p₂ p₃ p₄ p₅, ∃ m',
      (Engine.level (n + 3)).evaluate ctx (getEquals name p₁ p₂ p₃ p₄ p₅) m =
        (.ok (.bool (!v.isAggregate && v.strictEq v)), m') := by
  refine ⟨?_, Passes.yields, evaluate_getEquals⟩
  intro pos f args v m₁ hr hv hpresent r
  have hback : HandsBack ctx.settings.room.frames v m₁ r := callNative_handsBack hr hv
  have halloc : m₁.heap.Allocated v := (yields_sound hr hv).2
  refine ⟨hback.returns_iff halloc hpresent, fun hagg => ⟨hback.exists_ok hagg, ?_⟩⟩
  intro w m₂ hrun
  rw [hrun] at hback
  exact hback.handsCopy halloc hagg

/-- A native `get`. -/
def getNative : NativeFunction := ⟨.core .get, "get", .exactly 1, none, none⟩

/-- The name `x` is bound to `[1]`, and `get` to the native. -/
def oneArray : Machine := { Machine.initial with
  heap := ⟨#[⟨[("get", .function ⟨0⟩), ("x", .array ⟨0⟩)], none⟩], #[⟨[.number 1], 0⟩], #[],
    #[.native getNative]⟩ }

/-- The only scope of that machine. -/
def oneArrayContext : Context := ⟨⟨0⟩, "", ⟨none, "", false, .usual⟩⟩

theorem oneArray_wellFormed : oneArray.heap.WellFormed where
  items := by
    rintro ⟨_ | i⟩ v hv
    · obtain rfl : v = .number 1 := List.mem_singleton.mp hv
      trivial
    · cases hv
  dict := by
    rintro r p ⟨⟩
  bindings := by
    rintro ⟨_ | i⟩ p hp
    · rcases List.mem_pair.mp hp with rfl | rfl
      · exact Nat.zero_lt_one
      · exact Nat.zero_lt_one
    · cases hp
  functions := by
    rintro ⟨_ | i⟩ f hf
    · cases hf
      trivial
    · cases hf
  inside := by
    rintro ⟨_ | i⟩ p ⟨⟩

theorem oneArray_ready : GetReady oneArrayContext ⟨0⟩ getNative "x" (.array ⟨0⟩) oneArray := by
  have hcall : CallReady oneArrayContext getNative [.string "x"] oneArray := by
    refine ⟨oneArray_wellFormed, ?_, Nat.zero_lt_one, trivial, ?_, rfl⟩
    · rintro o ⟨⟨⟩⟩
    · exact List.forall_mem_singleton.mpr trivial
  exact ⟨hcall, rfl, rfl, rfl, rfl, by rintro ⟨⟩, fun _ => rfl⟩

theorem natives_hand_back_copies_array :
    let pos : Position := ⟨some 1, some 1, 0⟩
    ∃ w m₂, callNative ⟨Engine.level 0, oneArrayContext, pos⟩ getNative [.string "x"] oneArray =
      (.ok w, m₂) ∧ HandsCopy (.array ⟨0⟩) oneArray w m₂ := by
  intro pos
  obtain ⟨hcalls, hpass, -⟩ := natives_hand_back_copies 0 oneArrayContext oneArray
  have hyields : Yields 0 oneArrayContext pos getNative [.string "x"] oneArray (.array ⟨0⟩) oneArray :=
    hpass (.get oneArray_ready.bound)
  obtain ⟨hok, hcopy⟩ := (hcalls oneArray_ready.ready hyields (by rintro ⟨⟩)).2 rfl
  obtain ⟨w, m₂, hrun⟩ := hok rfl
  exact ⟨w, m₂, hrun, hcopy w m₂ hrun⟩

/-- `get('x') == x` is false there. -/
theorem get_array_not_itself :
    let pos : Position := ⟨some 1, some 1, 0⟩
    ∃ m', (Engine.level 3).evaluate oneArrayContext (getEquals "x" pos pos pos pos pos) oneArray =
      (.ok (.bool false), m') :=
  evaluate_getEquals oneArray_ready rfl _ _ _ _ _

end RuleScript
