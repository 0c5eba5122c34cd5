/-
# Operators are applied by precedence

A reduction builds no tree. It looks for the operator with the lowest priority
in the whole buffer, the leftmost of several, replaces it and its operands by
a value, and looks again; and the priority of a plus or a minus depends on the
node to its left, which may have changed in between. Still the value is that
of the tree of the buffer (`Formula.reduce_computes_tree`).

What carries the proof: in the buffer of a tree that keeps to precedence, the
operator that is found has values for its operands, so it stands at the bottom
of the tree, and applying it leaves the buffer of a smaller tree with the same
value (`Expression.exists_contraction`). Operators are not applied in the order
in which a tree is evaluated, so of several operands of a wrong kind another
one may be met first; but it is met on both sides or on neither.

Key definitions: `Eval.Mirrors`, `Tightest`, `Expression.applications`,
`Contracts`.
Key theorems: `Expression.exists_contraction`, `Expression.reduce_mirrors`,
`Formula.reduce_computes_tree`.
-/
import RuleScript.Proofs.Reduction.Expression

namespace RuleScript

/-! ### Computations that mirror an option -/

namespace Eval

/-- On a heap, a computation ends as an option says: it returns what the
option holds, or it stops with a fault of typing. The heap stays. -/
def Mirrors {α : Type} (h : Heap) (x : Eval α) : Option α → Prop
  | some a => ∀ m, m.heap = h → ∃ m', x m = (.ok a, m') ∧ m'.heap = h
  | none => ∀ m, m.heap = h → ∃ fault m', x m = (.error (.fault fault), m') ∧ m'.heap = h ∧
      fault.cause.kind = .typing

namespace Mirrors

variable {α β : Type} {h : Heap}

theorem pure (a : α) : Mirrors h (pure a) (some a) := fun m hm => ⟨m, rfl, hm⟩

theorem fail {c : Cause} (hc : c.kind = .typing) (ctx : Context) (pos : Position) :
    Mirrors h (fail ctx pos c : Eval α) none := fun m hm => ⟨_, m, rfl, hm, hc⟩

theorem bind {x : Eval α} {f : α → Eval β} {g : α → Option β} : ∀ {o : Option α}, Mirrors h x o →
    (∀ a, o = some a → Mirrors h (f a) (g a)) → Mirrors h (x >>= f) (o.bind g)
  | none, hx, _ => by
    intro m hm
    obtain ⟨fault, m', hr, hm', hk⟩ := hx m hm
    exact ⟨fault, m', bind_run_error hr f, hm', hk⟩
  | some a, hx, hf => by
    have hfa := hf a rfl
    show Mirrors h (x >>= f) (g a)
    cases hg : g a with
    | none =>
      intro m hm
      obtain ⟨m₁, hr, hm₁⟩ := hx m hm
      rw [hg] at hfa
      rw [bind_run_ok hr]
      exact hfa m₁ hm₁
    | some b =>
      intro m hm
      obtain ⟨m₁, hr, hm₁⟩ := hx m hm
      rw [hg] at hfa
      rw [bind_run_ok hr]
      exact hfa m₁ hm₁

theorem map {x : Eval α} {o : Option α} (hx : Mirrors h x o) (f : α → β) :
    Mirrors h (do return f (← x)) (o.map f) := by
  rw [Option.map_eq_bind]
  exact hx.bind fun a _ => pure (f a)

theorem fire (ctx : Context) (what name : String) (pos : Position) :
    Mirrors h (fire ctx what name pos) (some ()) := by
  intro m hm
  unfold Eval.fire note
  split
  · exact ⟨_, rfl, hm⟩
  · exact ⟨_, rfl, hm⟩

/-- A computation that mirrors an option returns exactly what the option
holds. -/
theorem returns_iff {x : Eval α} {m : Machine} (a : α) : ∀ {o : Option α}, Mirrors m.heap x o →
    ((x m).1 = .ok a ↔ o = some a)
  | none, hx => by
    obtain ⟨fault, m', hr, -⟩ := hx m rfl
    simp [hr]
  | some b, hx => by
    obtain ⟨m', hr, -⟩ := hx m rfl
    simp [hr]

theorem faults_iff {x : Eval α} {m : Machine} : ∀ {o : Option α}, Mirrors m.heap x o →
    ((∃ fault, (x m).1 = .error (.fault fault) ∧ fault.cause.kind = .typing) ↔ o = none)
  | none, hx => by
    obtain ⟨fault, m', hr, -, hk⟩ := hx m rfl
    simp only [hr, iff_true]
    exact ⟨fault, rfl, hk⟩
  | some b, hx => by
    obtain ⟨m', hr, -⟩ := hx m rfl
    simp [hr]

end Mirrors
end Eval

open Eval (Mirrors)

/-! ### The tightest operator of a list -/

/-- An operator of a list that is found first: the ones to its left are
looser, and none to its right is tighter. -/
def Tightest (as : List Application) (a : Application) : Prop :=
  ∃ xs ys, as = xs ++ a :: ys ∧ (∀ x ∈ xs, a.priority < x.priority) ∧
    ∀ y ∈ ys, a.priority ≤ y.priority

namespace Tightest

variable {as bs : List Application} {a : Application}

theorem singleton (a : Application) : Tightest [a] a := ⟨[], [], rfl, by simp, by simp⟩

theorem le (h : Tightest as a) : ∀ x ∈ as, a.priority ≤ x.priority := by
  obtain ⟨xs, ys, rfl, hxs, hys⟩ := h
  intro x hx
  rcases List.mem_append.mp hx with hx | hx
  · exact Nat.le_of_lt (hxs x hx)
  · rcases List.mem_cons.mp hx with rfl | hx
    · exact Nat.le_refl _
    · exact hys x hx

theorem append_right (h : Tightest as a) (hb : ∀ b ∈ bs, a.priority ≤ b.priority) :
    Tightest (as ++ bs) a := by
  obtain ⟨xs, ys, rfl, hxs, hys⟩ := h
  refine ⟨xs, ys ++ bs, by simp, hxs, fun y hy => ?_⟩
  rcases List.mem_append.mp hy with hy | hy
  · exact hys y hy
  · exact hb y hy

theorem append_left (h : Tightest bs a) (ha : ∀ x ∈ as, a.priority < x.priority) :
    Tightest (as ++ bs) a := by
  obtain ⟨xs, ys, rfl, hxs, hys⟩ := h
  refine ⟨as ++ xs, ys, by simp, fun x hx => ?_, hys⟩
  rcases List.mem_append.mp hx with hx | hx
  · exact ha x hx
  · exact hxs x hx

theorem cons (h : Tightest as a) {b : Application} (hb : a.priority < b.priority) :
    Tightest (b :: as) a := by
  refine append_left h (fun x hx => ?_ : ∀ x ∈ [b], _)
  obtain rfl := List.mem_singleton.mp hx
  exact hb

end Tightest

theorem foldl_tighter_of_le : ∀ (ys : List Application) (a : Application),
    (∀ y ∈ ys, a.priority ≤ y.priority) → ys.foldl Application.tighter a = a
  | [], _, _ => rfl
  | y :: ys, a, h => by
    have hay : Application.tighter a y = a :=
      if_neg (Nat.not_lt.mpr (h y List.mem_cons_self))
    rw [List.foldl_cons, hay]
    exact foldl_tighter_of_le ys a fun y hy => h y (List.mem_cons_of_mem _ hy)

theorem foldl_tighter_of_lt : ∀ (xs : List Application) (b a : Application),
    a.priority < b.priority → (∀ x ∈ xs, a.priority < x.priority) →
    (xs ++ [a]).foldl Application.tighter b = a
  | [], _, _, hb, _ => if_pos hb
  | x :: xs, b, a, hb, hxs => by
    refine foldl_tighter_of_lt xs _ a ?_ fun x hx => hxs x (List.mem_cons_of_mem _ hx)
    unfold Application.tighter
    split
    · exact hxs x List.mem_cons_self
    · exact hb

/-- The search finds the tightest operator. -/
theorem Application.find?_of_tightest {buffer : List Node} {a : Application}
    (h : Tightest (allFrom [] buffer) a) : find? buffer = some a := by
  obtain ⟨xs, ys, has, hxs, hys⟩ := h
  unfold find?
  cases xs with
  | nil =>
    rw [has]
    exact congrArg some (foldl_tighter_of_le ys a hys)
  | cons x xs =>
    have hx : (xs ++ [a]).foldl tighter x = a :=
      foldl_tighter_of_lt xs x a (hxs x List.mem_cons_self)
        fun x hx => hxs x (List.mem_cons_of_mem _ hx)
    rw [has]
    show some ((xs ++ a :: ys).foldl tighter x) = some a
    rw [List.append_cons, List.foldl_append, hx, foldl_tighter_of_le ys a hys]

/-! ### The operators of a tree -/

theorem Operator.ofSymbol?_symbol (op : Operator) : Operator.ofSymbol? op.symbol = some op := by
  cases op <;> decide

namespace Expression

/-- The operators of a tree from left to right, in a buffer that has more
nodes before it, last first, and after it. -/
def applications (before after : List Node) : Expression → List Application
  | .leaf .. => []
  | .unary s t => ⟨s.op, before, s.pos, t.nodes ++ after⟩ :: t.applications (s.node :: before) after
  | .binary j l r =>
    l.applications before (j.node :: (r.nodes ++ after)) ++
      ⟨j.op, l.nodes.reverse ++ before, j.pos, r.nodes ++ after⟩ ::
        r.applications (j.node :: (l.nodes.reverse ++ before)) after

theorem allFrom_nodes : ∀ (t : Expression) (before after : List Node),
    Application.allFrom before (t.nodes ++ after) =
      t.applications before after ++ Application.allFrom (t.nodes.reverse ++ before) after
  | .leaf pos v, before, after => rfl
  | .unary s t, before, after => by
    have ih := allFrom_nodes t (s.node :: before) after
    simp only [nodes, List.cons_append, Sign.node, Application.allFrom, Operator.ofSymbol?_symbol]
    simp only [applications, List.cons_append, List.reverse_cons, List.append_assoc,
      List.nil_append]
    exact congrArg _ ih
  | .binary j l r, before, after => by
    have hl := allFrom_nodes l before (j.node :: (r.nodes ++ after))
    have hr := allFrom_nodes r (j.node :: (l.nodes.reverse ++ before)) after
    simp only [nodes, List.append_assoc, List.cons_append]
    rw [hl]
    simp only [applications, List.append_assoc, List.cons_append, List.reverse_append,
      List.reverse_cons, List.nil_append]
    rw [← hr]
    simp only [Joint.node, Application.allFrom, Operator.ofSymbol?_symbol]

/-- A tree ends with a value. -/
theorem isUnaryPosition_nodes : ∀ (t : Expression) (before : List Node),
    isUnaryPosition (t.nodes.reverse ++ before).head? = false
  | .leaf .., _ => rfl
  | .unary s t, before => by
    simpa [nodes] using isUnaryPosition_nodes t (s.node :: before)
  | .binary j l r, before => by
    simpa [nodes] using isUnaryPosition_nodes r (j.node :: (l.nodes.reverse ++ before))

theorem isRaw_nodes : ∀ (t : Expression), ∀ n ∈ t.nodes, n.isRaw = false
  | .leaf .., n, hn => by
    obtain rfl := List.mem_singleton.mp hn
    rfl
  | .unary s t, n, hn => by
    rcases List.mem_cons.mp hn with rfl | hn
    · rfl
    · exact isRaw_nodes t n hn
  | .binary j l r, n, hn => by
    rcases List.mem_append.mp hn with hn | hn
    · exact isRaw_nodes l n hn
    · rcases List.mem_cons.mp hn with rfl | hn
      · rfl
      · exact isRaw_nodes r n hn

/-- How many operators a tree has. -/
def size : Expression → Nat
  | .leaf .. => 0
  | .unary _ t => t.size + 1
  | .binary _ l r => l.size + r.size + 1

end Expression

/-! ### Applying an operator to values -/

section Application

variable {h : Heap} (e : Engine) (ctx : Context) (a : Application)

theorem numberOf_mirrors (side : String) (v : Value) (n : Node) :
    Mirrors h (a.numberOf ctx side (v, n)) v.number? := by
  cases v
  case number => exact .pure _
  all_goals exact .fail rfl _ _

theorem boolOf_mirrors (side : String) (v : Value) (n : Node) :
    Mirrors h (a.boolOf ctx side (v, n)) v.bool? := by
  cases v
  case bool => exact .pure _
  all_goals exact .fail rfl _ _

theorem operand_value {side : List Node} {pos : Position} {v : Value} {rest : List Node}
    (hs : side = .value pos v :: rest) : a.operand e ctx side = pure (v, .value pos v) := by
  subst hs
  rfl

variable {pl pr : Position} {l r : Value} {before after : List Node}

theorem operands_values (hb : a.before = .value pl l :: before)
    (ha : a.after = .value pr r :: after) :
    a.operands e ctx = pure ((l, .value pl l), (r, .value pr r)) := by
  unfold Application.operands
  rw [operand_value e ctx a hb, operand_value e ctx a ha]
  rfl

/-- Plus and minus between two values. -/
theorem applyPlusMinus_between (hb : a.before = .value pl l :: before)
    (ha : a.after = .value pr r :: after) (sign : Float → Float) (op : Float → Float → Float) :
    Mirrors h (a.applyPlusMinus e ctx sign op)
      ((do return Value.number (op (← l.number?) (← r.number?))).map a.between) := by
  have hu : isUnaryPosition a.before.head? = false := by rw [hb]; rfl
  -- the right operand is checked first, which makes no difference to the option
  have hopt : (do return Value.number (op (← l.number?) (← r.number?))).map a.between =
      r.number?.bind fun y => l.number?.bind fun x => some (a.between (.number (op x y))) := by
    cases l.number? <;> cases r.number? <;> rfl
  unfold Application.applyPlusMinus
  rw [hopt, operand_value e ctx a ha, operand_value e ctx a hb, hu]
  refine (numberOf_mirrors ctx a _ _ _).bind fun y _ => ?_
  exact (numberOf_mirrors ctx a _ _ _).bind fun x _ => .pure _

/-- An operator between two values. -/
theorem run_between (hop : a.operator.isBinary = true) (hb : a.before = .value pl l :: before)
    (ha : a.after = .value pr r :: after) :
    Mirrors h (a.run e ctx) ((a.operator.combine? l r).map a.between) := by
  have hand := operands_values e ctx a hb ha
  unfold Application.run Operator.combine?
  cases hn : a.operator.onNumbers? with
  | some f =>
    have hopt : (do return f (← l.number?) (← r.number?)).map a.between =
        l.number?.bind fun x => r.number?.bind fun y => some (a.between (f x y)) := by
      cases l.number? <;> cases r.number? <;> rfl
    dsimp only
    rw [hand, hopt]
    refine (numberOf_mirrors ctx a _ _ _).bind fun x _ => ?_
    exact (numberOf_mirrors ctx a _ _ _).bind fun y _ => .pure _
  | none =>
    cases hf : a.operator.onBools? with
    | some f =>
      have hopt : (do return Value.bool (f (← l.bool?) (← r.bool?))).map a.between =
          l.bool?.bind fun x => r.bool?.bind fun y => some (a.between (.bool (f x y))) := by
        cases l.bool? <;> cases r.bool? <;> rfl
      dsimp only
      rw [hand, hopt]
      refine (boolOf_mirrors ctx a _ _ _).bind fun x _ => ?_
      exact (boolOf_mirrors ctx a _ _ _).bind fun y _ => .pure _
    | none =>
      cases hkind : a.operator
      case plus => exact applyPlusMinus_between e ctx a hb ha _ _
      case minus => exact applyPlusMinus_between e ctx a hb ha _ _
      case equal | notEqual =>
        simp only [hand]
        exact .pure _
      all_goals simp_all [Operator.isBinary, Operator.onNumbers?, Operator.onBools?]

theorem applyPlusMinus_leading (hb : isUnaryPosition a.before.head? = true)
    (ha : a.after = .value pr r :: after) (sign : Float → Float) (op : Float → Float → Float) :
    Mirrors h (a.applyPlusMinus e ctx sign op)
      ((do return Value.number (sign (← r.number?))).map a.leading) := by
  have hopt : (do return Value.number (sign (← r.number?))).map a.leading =
      r.number?.map fun y => a.leading (.number (sign y)) := by
    cases r.number? <;> rfl
  unfold Application.applyPlusMinus
  rw [hopt, operand_value e ctx a ha, hb]
  exact (numberOf_mirrors ctx a _ _ _).map _

theorem applyHash_value (ha : a.after = .value pr r :: after) :
    Mirrors h (a.applyHash e ctx) (some (a.leading (.string (r.shown h)))) := by
  intro m hm
  refine ⟨m, ?_, hm⟩
  unfold Application.applyHash
  rw [ha, ← hm]
  rfl

/-- An operator in front of a value. -/
theorem run_leading (hop : a.operator.isSign = true) (hb : isUnaryPosition a.before.head? = true)
    (ha : a.after = .value pr r :: after) :
    Mirrors h (a.run e ctx) ((a.operator.lead? h r).map a.leading) := by
  unfold Application.run
  cases hkind : a.operator
  case not =>
    have hopt : (Operator.not.lead? h r).map a.leading =
        r.bool?.map fun b => a.leading (.bool !b) := by
      unfold Operator.lead?
      cases r.bool? <;> rfl
    simp only [Operator.onNumbers?, Operator.onBools?]
    rw [operand_value e ctx a ha, hopt]
    exact (boolOf_mirrors ctx a _ _ _).map _
  case hash => exact applyHash_value e ctx a ha
  case plus => exact applyPlusMinus_leading e ctx a hb ha _ _
  case minus => exact applyPlusMinus_leading e ctx a hb ha _ _
  all_goals simp_all [Operator.isSign]

end Application

/-! ### One step on the buffer of a tree -/

section Reduction

variable (e : Engine) (ctx : Context) (h : Heap)

/-- Applying an operator in the buffer of a tree leaves the buffer of a
smaller tree that keeps to the same levels and has the same value; or an
operand has the wrong kind, and then the tree has no value. -/
def Contracts (level : Nat) (t : Expression) (before after : List Node) (a : Application) : Prop :=
  a.priority ≤ level ∧ ∃ next : Option Expression,
    Mirrors h (a.run e ctx) (next.map fun t' => before.reverse ++ (t'.nodes ++ after)) ∧
      t.eval h = next.bind (·.eval h) ∧ ∀ t', next = some t' → t'.Fits level ∧ t'.size < t.size

variable {e ctx h}

/-- A step in the left operand is a step of the tree. -/
theorem Contracts.left {j : Joint} {l r : Expression} {level : Nat} {before after : List Node}
    {a : Application} (hl : Contracts e ctx h j.op.level l before (j.node :: (r.nodes ++ after)) a)
    (hj : j.op.level ≤ level) (hr : r.Fits (j.op.level - 1)) :
    Contracts e ctx h level (.binary j l r) before after a := by
  obtain ⟨hp, next, hrun, heval, hnext⟩ := hl
  refine ⟨Nat.le_trans hp hj, next.map fun l' => .binary j l' r, ?_, ?_, ?_⟩
  · simpa [Expression.nodes, Function.comp_def] using hrun
  · cases next <;> simp_all [Expression.eval]
  · rintro t' ht
    obtain ⟨l', rfl, rfl⟩ := Option.map_eq_some_iff.mp ht
    obtain ⟨hfits, hsize⟩ := hnext l' rfl
    exact ⟨⟨hj, hfits, hr⟩, by simp only [Expression.size]; omega⟩

/-- A step in the right operand is a step of the tree. -/
theorem Contracts.right {j : Joint} {l r : Expression} {level : Nat} {before after : List Node}
    {a : Application}
    (hr : Contracts e ctx h (j.op.level - 1) r (j.node :: (l.nodes.reverse ++ before)) after a)
    (hj : j.op.level ≤ level) (hl : l.Fits j.op.level) :
    Contracts e ctx h level (.binary j l r) before after a := by
  obtain ⟨hp, next, hrun, heval, hnext⟩ := hr
  refine ⟨by omega, next.map fun r' => .binary j l r', ?_, ?_, ?_⟩
  · simpa [Expression.nodes, Function.comp_def] using hrun
  · cases next <;> simp_all [Expression.eval]
  · rintro t' ht
    obtain ⟨r', rfl, rfl⟩ := Option.map_eq_some_iff.mp ht
    obtain ⟨hfits, hsize⟩ := hnext r' rfl
    exact ⟨⟨hj, hl, hfits⟩, by simp only [Expression.size]; omega⟩

/-- A step behind a sign is a step of the tree. -/
theorem Contracts.behind {s : Sign} {t : Expression} {level : Nat} {before after : List Node}
    {a : Application} (ht : Contracts e ctx h 1 t (s.node :: before) after a) (hlevel : 2 ≤ level) :
    Contracts e ctx h level (.unary s t) before after a := by
  obtain ⟨hp, next, hrun, heval, hnext⟩ := ht
  refine ⟨by omega, next.map (.unary s), ?_, ?_, ?_⟩
  · simpa [Expression.nodes, Function.comp_def] using hrun
  · cases next <;> simp_all [Expression.eval]
  · rintro t' ht
    obtain ⟨u, rfl, rfl⟩ := Option.map_eq_some_iff.mp ht
    obtain ⟨hfits, hsize⟩ := hnext u rfl
    exact ⟨⟨hlevel, hfits⟩, by simp only [Expression.size]; omega⟩

/-- An operator between two values is a step of its tree. -/
theorem contracts_between (j : Joint) (pl pr : Position) (l r : Value) {level : Nat}
    (hj : j.op.level ≤ level) (before after : List Node) :
    Contracts e ctx h level (.binary j (.leaf pl l) (.leaf pr r)) before after
      ⟨j.op, .value pl l :: before, j.pos, .value pr r :: after⟩ := by
  refine ⟨hj, (j.op.combine? l r).map (.leaf j.pos), ?_, ?_, ?_⟩
  · have hrun := run_between (h := h) e ctx ⟨j.op, .value pl l :: before, j.pos, .value pr r :: after⟩
      j.binary rfl rfl
    rw [Option.map_map]
    exact hrun
  · cases hc : j.op.combine? l r <;> simp [Expression.eval, hc]
  · rintro t' ht
    obtain ⟨w, -, rfl⟩ := Option.map_eq_some_iff.mp ht
    exact ⟨trivial, by simp [Expression.size]⟩

/-- A sign in front of a value is a step of its tree. -/
theorem contracts_leading (s : Sign) (pos : Position) (v : Value) {level : Nat} (hlevel : 2 ≤ level)
    {before : List Node} (hb : isUnaryPosition before.head? = true) (after : List Node) :
    Contracts e ctx h level (.unary s (.leaf pos v)) before after
      ⟨s.op, before, s.pos, .value pos v :: after⟩ := by
  refine ⟨?_, (s.op.lead? h v).map (.leaf s.pos), ?_, ?_, ?_⟩
  · rw [Application.priority, hb, Operator.priority_of_isSign s.sign]
    exact hlevel
  · have hrun := run_leading (h := h) e ctx ⟨s.op, before, s.pos, .value pos v :: after⟩ s.sign hb rfl
    rw [Option.map_map]
    exact hrun
  · cases hc : s.op.lead? h v <;> simp [Expression.eval, hc]
  · rintro t' ht
    obtain ⟨w, -, rfl⟩ := Option.map_eq_some_iff.mp ht
    exact ⟨trivial, by simp [Expression.size]⟩

variable (e ctx h) in
/-- **The tightest operator of a tree contracts it.** On the left of an
operator nothing is looser, so a step there comes first; on the right
everything is tighter. -/
theorem Expression.exists_contraction : ∀ (t : Expression) {level : Nat}, t.Fits level →
    ∀ (before after : List Node), isUnaryPosition before.head? = true →
    (∃ pos v, t = .leaf pos v) ∨
      ∃ a, Tightest (t.applications before after) a ∧ Contracts e ctx h level t before after a
  | .leaf pos v, _, _, _, _, _ => .inl ⟨pos, v, rfl⟩
  | .unary s t, level, ⟨hlevel, ht⟩, before, after, hb => by
    refine .inr ?_
    have hsign : (⟨s.op, before, s.pos, t.nodes ++ after⟩ : Application).priority = 2 := by
      rw [Application.priority, hb, Operator.priority_of_isSign s.sign]
    rcases exists_contraction t ht (s.node :: before) after rfl with ⟨pos, v, rfl⟩ | ⟨a, ha, hc⟩
    · exact ⟨_, .singleton _, contracts_leading s pos v hlevel hb after⟩
    · have := hc.1
      exact ⟨a, ha.cons (by omega), hc.behind hlevel⟩
  | .binary j l r, level, ⟨hlevel, hl, hr⟩, before, after, hb => by
    refine .inr ?_
    have hjoint : (⟨j.op, l.nodes.reverse ++ before, j.pos, r.nodes ++ after⟩ : Application).priority =
        j.op.level := by
      rw [Application.priority, isUnaryPosition_nodes]
      rfl
    have hpos := (Operator.level_of_isBinary j.binary).1
    have hleft := exists_contraction l hl before (j.node :: (r.nodes ++ after)) hb
    have hright := exists_contraction r hr (j.node :: (l.nodes.reverse ++ before)) after rfl
    unfold applications
    rcases hleft with ⟨pl, vl, rfl⟩ | ⟨a, ha, hca⟩
    · rcases hright with ⟨pr, vr, rfl⟩ | ⟨b, hb', hcb⟩
      · exact ⟨_, .singleton _, contracts_between j pl pr vl vr hlevel before after⟩
      · have := hcb.1
        exact ⟨b, hb'.cons (by omega), hcb.right hlevel hl⟩
    · rcases hright with ⟨pr, vr, rfl⟩ | ⟨b, hb', hcb⟩
      · refine ⟨a, ha.append_right fun x hx => ?_, hca.left hlevel hr⟩
        obtain rfl := List.mem_singleton.mp hx
        exact Nat.le_trans hca.1 (Nat.le_of_eq hjoint.symm)
      · -- both operands can make a step: the tighter comes first, else the left
        have hb_lt := hcb.1
        have ha_le := hca.1
        by_cases hab : b.priority < a.priority
        · refine ⟨b, (hb'.cons (by omega)).append_left fun x hx => ?_, hcb.right hlevel hl⟩
          exact Nat.lt_of_lt_of_le hab (ha.le x hx)
        · refine ⟨a, ha.append_right fun x hx => ?_, hca.left hlevel hr⟩
          rcases List.mem_cons.mp hx with rfl | hx
          · omega
          · exact Nat.le_trans (Nat.not_lt.mp hab) (hb'.le x hx)

/-! ### The whole reduction -/

/-- A step of a reduction to which no rule applies applies the operator that is
found. -/
theorem reduceStep_mirrors {b : List Node} {a : Application} {o : Option (List Node)}
    (hb : Match.find? b = none) (ha : Application.find? b = some a) (hrun : Mirrors h (a.run e ctx) o) :
    Mirrors h (reduceStep e ctx b) (o.map some) := by
  unfold reduceStep applyRule applyOperator
  rw [hb, ha]
  exact (Mirrors.fire ctx _ _ _).bind (g := fun _ => o.map some) fun _ _ => hrun.map some

theorem Expression.reduce_mirrors_of_size (level : Nat) : ∀ (size : Nat) (t : Expression),
    t.size ≤ size → t.Fits level → Mirrors h (reduce e ctx t.nodes) (t.eval h)
  | size, t, hsize, ht => by
    rcases t.exists_contraction e ctx h ht [] [] rfl with
      ⟨pos, v, rfl⟩ | ⟨a, ha, -, next, hrun, heval, hnext⟩
    · show Mirrors h (reduce e ctx [.value pos v]) (some v)
      rw [reduce_value]
      exact .pure v
    · have hfind : Application.find? t.nodes = some a := by
        have hall := t.allFrom_nodes [] []
        simp only [List.append_nil, Application.allFrom] at hall
        exact Application.find?_of_tightest (hall ▸ ha)
      have hstep := reduceStep_mirrors (Match.find?_eq_none t.isRaw_nodes) hfind hrun
      rw [reduce_eq, heval]
      cases next with
      | none => exact hstep.bind (g := fun _ => none) (by rintro _ ⟨⟩)
      | some t' =>
        obtain ⟨hfits, hlt⟩ := hnext t' rfl
        refine hstep.bind (g := fun _ => t'.eval h) ?_
        rintro _ ⟨⟩
        simp only [List.reverse_nil, List.nil_append, List.append_nil]
        obtain ⟨k, rfl⟩ : ∃ k, size = k + 1 := ⟨size - 1, by omega⟩
        exact reduce_mirrors_of_size level k t' (by omega) hfits

/-- **A tree that keeps to precedence reduces to its value.** -/
theorem Expression.reduce_mirrors {t : Expression} {level : Nat} (ht : t.Fits level) :
    Mirrors h (reduce e ctx t.nodes) (t.eval h) :=
  reduce_mirrors_of_size level t.size t (Nat.le_refl _) ht

end Reduction

/-- **Operators compute the precedence tree.** The tree of a formula groups
`**` first, then signs, then the levels of the operator table, all to the
left, and has the nodes of the formula. Reducing the formula returns a value
if and only if the tree has that value, and stops with a fault of typing if
and only if the tree has none, as an operand has the wrong kind. -/
theorem Formula.reduce_computes_tree (e : Engine) (ctx : Context) (f : Formula) (m : Machine) :
    (f.tree.Fits 12 ∧ f.tree.nodes = f.nodes) ∧
      (∀ w, (reduce e ctx f.nodes m).1 = .ok w ↔ f.tree.eval m.heap = some w) ∧
      ((∃ fault, (reduce e ctx f.nodes m).1 = .error (.fault fault) ∧
          fault.cause.kind = .typing) ↔ f.tree.eval m.heap = none) := by
  have hm : Mirrors m.heap (reduce e ctx f.nodes) (f.tree.eval m.heap) := by
    rw [← f.tree_nodes]
    exact Expression.reduce_mirrors f.tree_fits
  exact ⟨⟨f.tree_fits, f.tree_nodes⟩, fun w => hm.returns_iff w, hm.faults_iff⟩

end RuleScript
