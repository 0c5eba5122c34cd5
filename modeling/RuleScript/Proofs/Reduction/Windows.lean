/-
# Where a step of a reduction reads and writes

A step replaces a window of the buffer by one value (`Splices`). The window of
a rule is as wide as the rule, and what the rule takes is in it: the rule would
fit the window with nothing around it (`Rule.redex?_window`). The window of an
operator is the operator with an operand on each side, or with the operand
behind it, or, for an assignment, with the name and everything behind
(`Application.left`, `Application.right`).

The operators read their neighbours by what stands on the two sides of them. They
are given here a second time, on a buffer that is read and written by index,
as an editor of a buffer would do it. An index may then lie in front of the
first node or behind the last one, and what is done there is left open
(`off`). Whatever it is, the operators do the same (`Application.runAt_eq`),
those included that stop after they have read an operand. So no index that is
used lies outside of the buffer.

Key definitions: `Splices`, `nodeAt`, `spliceAt`, `Application.runAt`,
`Application.Takes`.
Key theorems: `Rule.redex?_window`, `Match.find?_window`,
`Match.splices_result`, `Application.runAt_eq`, `Application.run_takes`.
-/
import RuleScript.Proofs.Policy.Evaluation

namespace RuleScript

open Eval (Returns fail onHeap modifyHeap)

/-! ### Windows -/

/-- A window of a buffer is replaced by one value. The window is not empty, lies
inside of the buffer, and holds a node that is no value; the nodes outside of
it stay. -/
structure Splices (b : List Node) (start width : Nat) (b' : List Node) : Prop where
  nonempty : 0 < width
  inside : start + width ≤ b.length
  raw : ∃ n ∈ (b.drop start).take width, n.isValue = false
  result : ∃ pos v, b' = b.take start ++ .value pos v :: b.drop (start + width)

theorem Splices.rewrites {b b' : List Node} {start width : Nat} (h : Splices b start width b') :
    Rewrites b b' := by
  obtain ⟨pos, v, rfl⟩ := h.result
  have hsplit : b = b.take start ++ ((b.drop start).take width ++ b.drop (start + width)) := by
    rw [← List.drop_drop, List.take_append_drop, List.take_append_drop]
  exact ⟨_, _, _, pos, v, hsplit, rfl, h.raw⟩

/-! ### The windows of rules -/

namespace Rule

variable {before : Option Node} {nodes : List Node} {x : Redex}

theorem width_pos (r : Rule) : 0 < r.width := by cases r <;> decide

theorem two_le_length_of_sign {text : String} (h : signNumber? text before nodes = some x ∨
    signWord? text before nodes = some x ∨ signParen? text before nodes = some x) :
    2 ≤ nodes.length := by
  obtain ⟨n, k, rest, rfl, -⟩ := exists_of_sign h
  simp

/-- A rule that fits finds all its nodes. -/
theorem width_le_length {r : Rule} (h : r.redex? before nodes = some x) : r.width ≤ nodes.length := by
  cases r
  case negativeNumber | positiveNumber => exact two_le_length_of_sign (.inl h)
  case negativeWord | positiveWord => exact two_le_length_of_sign (.inr (.inl h))
  case negativeParenthesis | positiveParenthesis => exact two_le_length_of_sign (.inr (.inr h))
  all_goals
    simp only [redex?] at h
    split at h
    · simp [width]
    · cases h

/-- A sign is unary at the front of its window. -/
theorem signed?_take {text : String} {rest : List Node} (h : signed? text before nodes = some rest)
    (k : Nat) : signed? text none (nodes.take (k + 1)) = some (rest.take k) := by
  unfold signed? at h
  split at h
  · split at h
    · rename_i hsign
      obtain rfl := Option.some.inj h
      have hsymbol := (Bool.and_eq_true_iff.mp hsign).1
      simp [signed?, hsymbol, isUnaryPosition]
    · cases h
  · cases h

theorem signNumber?_window {text : String} (h : signNumber? text before nodes = some x) :
    signNumber? text none (nodes.take 2) = some x := by
  unfold signNumber? at h
  split at h
  · rename_i hs
    rw [signNumber?, signed?_take hs 1]
    exact h
  · cases h

theorem signWord?_window {text : String} (h : signWord? text before nodes = some x) :
    signWord? text none (nodes.take 2) = some x := by
  unfold signWord? at h
  split at h
  · rename_i hs
    rw [signWord?, signed?_take hs 1]
    split at h
    · cases h
    · exact h
  · cases h

theorem signParen?_window {text : String} (h : signParen? text before nodes = some x) :
    signParen? text none (nodes.take 2) = some x := by
  unfold signParen? at h
  split at h
  · rename_i hs
    rw [signParen?, signed?_take hs 1]
    split at h
    · cases h
    · exact h
  · cases h

/-- **A rule takes what it takes from its window alone.** -/
theorem redex?_window {r : Rule} (h : r.redex? before nodes = some x) :
    r.redex? none (nodes.take r.width) = some x := by
  cases r
  case negativeNumber | positiveNumber => exact signNumber?_window h
  case negativeWord | positiveWord => exact signWord?_window h
  case negativeParenthesis | positiveParenthesis => exact signParen?_window h
  case word =>
    simp only [redex?] at h
    split at h
    · split at h
      · exact h
      · cases h
    · cases h
  all_goals
    simp only [redex?] at h
    split at h
    · exact h
    · cases h

end Rule

namespace Match

/-- Where a match stands in its buffer, and what it takes there. -/
theorem find?_stands {b : List Node} {r : Match} (h : find? b = some r) :
    ∃ nodes, b = r.before ++ nodes ∧ r.rule.width ≤ nodes.length ∧
      r.after = nodes.drop r.rule.width ∧ (∃ n ∈ nodes.take r.rule.width, n.isRaw = true) ∧
      r.rule.redex? none (nodes.take r.rule.width) = some r.redex := by
  obtain ⟨n, rest, prev, hb, hredex, hafter⟩ := findFrom?_redex? h
  exact ⟨n :: rest, hb, Rule.width_le_length hredex, hafter, Rule.exists_raw hredex,
    Rule.redex?_window hredex⟩

/-- A rule finds all its nodes in the buffer, and takes from them alone. -/
theorem find?_window {b : List Node} {r : Match} (h : find? b = some r) :
    r.before.length + r.rule.width ≤ b.length ∧
      r.rule.redex? none ((b.drop r.before.length).take r.rule.width) = some r.redex := by
  obtain ⟨nodes, rfl, hwidth, -, -, hredex⟩ := find?_stands h
  rw [List.length_append, List.drop_left]
  exact ⟨Nat.add_le_add_left hwidth _, hredex⟩

theorem splices_result {b : List Node} {r : Match} (h : find? b = some r) (v : Value) :
    Splices b r.before.length r.rule.width (r.result v) := by
  obtain ⟨hinside, -⟩ := find?_window h
  obtain ⟨nodes, rfl, -, hafter, ⟨n, hn, hraw⟩, -⟩ := find?_stands h
  refine ⟨r.rule.width_pos, hinside, ⟨n, ?_, Node.isValue_of_isRaw hraw⟩, r.pos, v, ?_⟩
  · rwa [List.drop_left]
  · rw [← List.drop_drop, List.take_left, List.drop_left, ← hafter]
    rfl

end Match

/-! ### Buffers by index -/

section Indices

variable (off : ∀ α : Type, Eval α) (b : List Node)

/-- The node of a buffer at an index. -/
def nodeAt (i : Int) : Eval Node :=
  if i < 0 then off Node else (b[i.toNat]?).elim (off Node) pure

/-- A buffer with the nodes of a window replaced by one node. -/
def spliceAt (start : Int) (width : Nat) (n : Node) : Eval (List Node) :=
  if start < 0 ∨ b.length < start + width then off (List Node)
  else pure (b.take start.toNat ++ n :: b.drop (start.toNat + width))

namespace Application

variable (e : Engine) (ctx : Context) (a : Application)

/-- Where an operator stands in its buffer. -/
def index : Int := a.before.length

/-- The operand at an index, unless that is known to lie outside. -/
def operandAt (i : Int) : Eval (Value × Node) :=
  if i < 0 ∨ b.length ≤ i then fail ctx a.pos (.missingOperand a.operator.symbol)
  else do
    let n ← nodeAt off b i
    return (← evaluateNode e ctx n, n)

/-- An operator between two operands, which are evaluated before either is
checked. -/
def betweenAt (compute : Value × Node → Value × Node → Eval Value) : Eval (List Node) := do
  let l ← a.operandAt off b e ctx (a.index - 1)
  let r ← a.operandAt off b e ctx (a.index + 1)
  let v ← compute l r
  spliceAt off b (a.index - 1) 3 (.value a.pos v)

/-- Whether a sign at its index is unary. -/
def unaryAt : Eval Bool :=
  if a.index = 0 then pure true else Node.isSymbol <$> nodeAt off b (a.index - 1)

/-- Plus or minus. -/
def plusMinusAt (sign : Float → Float) (op : Float → Float → Float) : Eval (List Node) := do
  let y ← a.numberOf ctx "right" (← a.operandAt off b e ctx (a.index + 1))
  if ← a.unaryAt off b then spliceAt off b a.index 2 (.value a.pos (.number (sign y)))
  else
    let x ← a.numberOf ctx "left" (← a.operandAt off b e ctx (a.index - 1))
    spliceAt off b (a.index - 1) 3 (.value a.pos (.number (op x y)))

/-- Negation of a truth value. -/
def notAt : Eval (List Node) := do
  let t ← a.boolOf ctx "right" (← a.operandAt off b e ctx (a.index + 1))
  spliceAt off b a.index 2 (.value a.pos (.bool !t))

/-- A word or value as a string. -/
def hashAt : Eval (List Node) :=
  if b.length ≤ a.index + 1 then fail ctx a.pos .missingWord
  else do
    match ← nodeAt off b (a.index + 1) with
    | .word _ text => spliceAt off b a.index 2 (.value a.pos (.string text))
    | n => do
      let v ← evaluateNode e ctx n
      let text := v.shown (← onHeap id)
      spliceAt off b a.index 2 (.value a.pos (.string text))

/-- An assignment, which takes everything behind it. -/
def assignAt : Eval (List Node) :=
  if a.index = 0 then fail ctx a.pos .missingName
  else do
    match ← nodeAt off b (a.index - 1) with
    | .word pos name => do
      let v ← evaluateValue e ctx (b.drop (a.index + 1).toNat) a.pos
      modifyHeap (·.assign ctx.scope name v)
      spliceAt off b (a.index - 1) (b.length - a.before.length + 1) (.value pos v)
    | n => fail ctx n.pos .nameNotWord

/-- An operator applied to the nodes around its index. -/
def runAt : Eval (List Node) :=
  match a.operator.onNumbers?, a.operator.onBools? with
  | some f, _ => a.betweenAt off b e ctx fun l r => do
    let x ← a.numberOf ctx "left" l
    let y ← a.numberOf ctx "right" r
    return f x y
  | none, some f => a.betweenAt off b e ctx fun l r => do
    let x ← a.boolOf ctx "left" l
    let y ← a.boolOf ctx "right" r
    return .bool (f x y)
  | none, none =>
    match a.operator with
    | .plus => a.plusMinusAt off b e ctx id (· + ·)
    | .minus => a.plusMinusAt off b e ctx (- ·) (· - ·)
    | .not => a.notAt off b e ctx
    | .equal => a.betweenAt off b e ctx fun l r => return .bool (l.1.strictEq r.1)
    | .notEqual => a.betweenAt off b e ctx fun l r => return .bool !(l.1.strictEq r.1)
    | .assign => a.assignAt off b e ctx
    | _ => a.hashAt off b e ctx

end Application

/-! ### No index lies outside -/

theorem spliceAt_window (left window right : List Node) (n : Node) :
    spliceAt off (left ++ (window ++ right)) left.length window.length n =
      pure (left ++ n :: right) := by
  have hinside : ¬((left.length : Int) < 0 ∨
      ((left ++ (window ++ right)).length : Int) < left.length + window.length) := by
    simp only [List.length_append]
    omega
  rw [spliceAt, if_neg hinside, Int.toNat_natCast, List.take_left, ← List.drop_drop, List.drop_left,
    List.drop_left]

namespace Application

/-- An operator does nothing behind an operand that is missing. -/
theorem operand_missing (e : Engine) (ctx : Context) (a : Application) {β : Type}
    (f : Value × Node → Eval β) :
    a.operand e ctx [] >>= f = fail ctx a.pos (.missingOperand a.operator.symbol) := rfl

/-- An operator stands in a buffer, with its nodes on its two sides. -/
def StandsIn (a : Application) (b : List Node) : Prop :=
  ∃ text, b = a.before.reverse ++ .symbol a.pos text :: a.after

variable {off b} {a : Application} (hb : a.StandsIn b) (e : Engine) (ctx : Context)

include hb

theorem length_eq : b.length = a.before.length + (a.after.length + 1) := by
  obtain ⟨text, rfl⟩ := hb
  simp

theorem nodeAt_before : nodeAt off b (a.index - 1) = a.before.head?.elim (off Node) pure := by
  obtain ⟨text, rfl⟩ := hb
  obtain ⟨op, before, pos, after⟩ := a
  cases before with
  | nil => rfl
  | cons k rest =>
    have hindex : (⟨op, k :: rest, pos, after⟩ : Application).index - 1 = rest.length := by
      simp [index]
    rw [hindex, nodeAt, if_neg (by omega)]
    simp

theorem nodeAt_behind : nodeAt off b (a.index + 1) = a.after.head?.elim (off Node) pure := by
  obtain ⟨text, rfl⟩ := hb
  have hindex : (a.index + 1).toNat = a.before.reverse.length + 1 := by
    simp only [index, List.length_reverse]
    omega
  rw [nodeAt, if_neg (by unfold index; omega), hindex, List.getElem?_append_right (by omega)]
  cases a.after <;> simp

theorem operandAt_before :
    a.operandAt off b e ctx (a.index - 1) = a.operand e ctx a.before := by
  have hlength := length_eq hb
  unfold operandAt
  cases hbefore : a.before with
  | nil => rw [if_pos (by simp [index, hbefore])]; rfl
  | cons k rest =>
    rw [if_neg (by simp only [index, hbefore, List.length_cons] at hlength ⊢; omega),
      nodeAt_before hb, hbefore]
    rfl

theorem operandAt_behind :
    a.operandAt off b e ctx (a.index + 1) = a.operand e ctx a.after := by
  have hlength := length_eq hb
  unfold operandAt
  cases hafter : a.after with
  | nil => rw [if_pos (by simp only [index, hafter, List.length_nil] at hlength ⊢; omega)]; rfl
  | cons k rest =>
    rw [if_neg (by simp only [index, hafter, List.length_cons] at hlength ⊢; omega),
      nodeAt_behind hb, hafter]
    rfl

theorem spliceAt_between (hbefore : a.before ≠ []) (hafter : a.after ≠ []) (v : Value) :
    spliceAt off b (a.index - 1) 3 (.value a.pos v) = pure (a.between v) := by
  obtain ⟨text, rfl⟩ := hb
  obtain ⟨op, before, pos, after⟩ := a
  obtain ⟨k, before, rfl⟩ := List.exists_cons_of_ne_nil hbefore
  obtain ⟨n, after, rfl⟩ := List.exists_cons_of_ne_nil hafter
  have hwindow := spliceAt_window off before.reverse [k, .symbol pos text, n] after (.value pos v)
  simpa [index, between] using hwindow

theorem spliceAt_leading (hafter : a.after ≠ []) (v : Value) :
    spliceAt off b a.index 2 (.value a.pos v) = pure (a.leading v) := by
  obtain ⟨text, rfl⟩ := hb
  obtain ⟨op, before, pos, after⟩ := a
  obtain ⟨n, after, rfl⟩ := List.exists_cons_of_ne_nil hafter
  have hwindow := spliceAt_window off before.reverse [.symbol pos text, n] after (.value pos v)
  simpa [index, leading] using hwindow

theorem drop_behind : b.drop (a.index + 1).toNat = a.after := by
  obtain ⟨text, rfl⟩ := hb
  have hindex : (a.index + 1).toNat = (a.before.reverse ++ [Node.symbol a.pos text]).length := by
    simp only [index, List.length_append, List.length_reverse, List.length_singleton]
    omega
  have hsplit : a.before.reverse ++ Node.symbol a.pos text :: a.after =
      a.before.reverse ++ [Node.symbol a.pos text] ++ a.after := List.append_cons ..
  rw [hindex, hsplit, List.drop_left]

theorem spliceAt_assign {k : Node} {rest : List Node} (hbefore : a.before = k :: rest) (n : Node) :
    spliceAt off b (a.index - 1) (b.length - (k :: rest).length + 1) n =
      pure (rest.reverse ++ [n]) := by
  obtain ⟨text, rfl⟩ := hb
  obtain ⟨op, before, pos, after⟩ := a
  obtain rfl : before = k :: rest := hbefore
  have hwindow := spliceAt_window off rest.reverse (k :: .symbol pos text :: after) [] n
  have hwidth : ((k :: rest).reverse ++ .symbol pos text :: after).length - (k :: rest).length + 1 =
      (k :: .symbol pos text :: after).length := by
    simp only [List.length_append, List.length_reverse, List.length_cons]
    omega
  rw [hwidth]
  simpa [index] using hwindow

theorem betweenAt_eq (compute : Value × Node → Value × Node → Eval Value) :
    a.betweenAt off b e ctx compute = (do
      let (l, r) ← a.operands e ctx
      let v ← compute l r
      return a.between v) := by
  unfold betweenAt operands
  simp only [operandAt_before hb, operandAt_behind hb, bind_assoc, pure_bind]
  by_cases hbefore : a.before = []
  · simp only [hbefore, operand_missing]
  by_cases hafter : a.after = []
  · simp only [hafter, operand_missing]
  · simp only [spliceAt_between hb hbefore hafter]

theorem unaryAt_eq : a.unaryAt off b = pure (isUnaryPosition a.before.head?) := by
  unfold unaryAt
  rw [nodeAt_before hb]
  cases hbefore : a.before with
  | nil => rw [if_pos (by simp [index, hbefore])]; rfl
  | cons k rest => rw [if_neg (by simp only [index, hbefore, List.length_cons]; omega)]; rfl

theorem plusMinusAt_eq (sign : Float → Float) (op : Float → Float → Float) :
    a.plusMinusAt off b e ctx sign op = a.applyPlusMinus e ctx sign op := by
  unfold plusMinusAt applyPlusMinus
  rw [operandAt_behind hb, operandAt_before hb, unaryAt_eq hb]
  by_cases hafter : a.after = []
  · simp only [hafter, operand_missing]
  simp only [pure_bind]
  by_cases hunary : isUnaryPosition a.before.head? = true
  · simp only [if_pos hunary, spliceAt_leading hb hafter]
  · have hbefore : a.before ≠ [] := by
      intro hnil
      rw [hnil] at hunary
      exact hunary rfl
    simp only [if_neg hunary, spliceAt_between hb hbefore hafter]

theorem notAt_eq : a.notAt off b e ctx = (do
    let t ← a.boolOf ctx "right" (← a.operand e ctx a.after)
    return a.leading (.bool !t)) := by
  unfold notAt
  rw [operandAt_behind hb]
  by_cases hafter : a.after = []
  · simp only [hafter, operand_missing]
  · simp only [spliceAt_leading hb hafter]

theorem hashAt_eq : a.hashAt off b e ctx = a.applyHash e ctx := by
  have hlength := length_eq hb
  unfold hashAt applyHash
  cases hafter : a.after with
  | nil => rw [if_pos (by simp only [index, hafter, List.length_nil] at hlength ⊢; omega)]
  | cons n rest =>
    have hne : a.after ≠ [] := by
      rw [hafter]
      exact List.cons_ne_nil n rest
    have hleading (v : Value) : spliceAt off b a.index 2 (.value a.pos v) = pure (a.leading v) :=
      spliceAt_leading hb hne v
    rw [if_neg (by simp only [index, hafter, List.length_cons] at hlength ⊢; omega),
      nodeAt_behind hb, hafter, List.head?_cons, Option.elim_some, pure_bind]
    cases n with
    | word _ text => exact hleading _
    | _ => simp only [hleading]

theorem assignAt_eq : a.assignAt off b e ctx = a.applyAssign e ctx := by
  unfold assignAt applyAssign
  cases hbefore : a.before with
  | nil => rw [if_pos (by simp [index, hbefore])]
  | cons k rest =>
    rw [if_neg (by simp only [index, hbefore, List.length_cons]; omega), nodeAt_before hb, hbefore,
      List.head?_cons, Option.elim_some, pure_bind]
    cases k with
    | word pos name =>
      simp only [drop_behind hb, spliceAt_assign hb hbefore]
    | _ => rfl

/-- **An operator that is applied by index never leaves its buffer.** -/
theorem runAt_eq : a.runAt off b e ctx = a.run e ctx := by
  unfold runAt run
  cases hnumbers : a.operator.onNumbers? with
  | some f => simp only [betweenAt_eq hb, bind_assoc, pure_bind]
  | none =>
    cases hbools : a.operator.onBools? with
    | some f => simp only [betweenAt_eq hb, bind_assoc, pure_bind]
    | none =>
      cases hop : a.operator
      case plus | minus => exact plusMinusAt_eq hb e ctx _ _
      case not => exact notAt_eq hb e ctx
      case equal | notEqual => simp only [betweenAt_eq hb, pure_bind]
      case assign => exact assignAt_eq hb e ctx
      all_goals exact hashAt_eq hb e ctx

end Application

end Indices

/-! ### The windows of operators -/

namespace Application

/-- How many nodes an operator takes on its left. -/
def left (a : Application) : Nat :=
  match a.operator with
  | .not | .hash => 0
  | .plus | .minus => if isUnaryPosition a.before.head? then 0 else 1
  | _ => 1

/-- How many nodes an operator takes on its right. -/
def right (a : Application) : Nat :=
  match a.operator with
  | .assign => a.after.length
  | _ => 1

/-- The window of an operator, with its own node in it, is replaced by a
value. -/
def Takes (a : Application) (b b' : List Node) : Prop :=
  ∃ start, start + a.left = a.before.length ∧ Splices b start (a.left + 1 + a.right) b'

theorem Takes.rewrites {a : Application} {b b' : List Node} (h : a.Takes b b') : Rewrites b b' := by
  obtain ⟨start, -, hsplices⟩ := h
  exact hsplices.rewrites

variable {off : ∀ α : Type, Eval α} (hoff : ∀ α, Eval.Fails (off α)) {b : List Node} {a : Application}
  (hb : a.StandsIn b) (e : Engine) (ctx : Context)

include hb

theorem getElem?_index : ∃ text, b[a.before.length]? = some (.symbol a.pos text) := by
  obtain ⟨text, rfl⟩ := hb
  exact ⟨text, by simp⟩

include hoff

/-- What is spliced at the window of an operator has its node in it. -/
theorem spliceAt_takes {start : Int} {width : Nat} (hstart : start = a.index - a.left)
    (hwidth : width = a.left + 1 + a.right) (pos : Position) (v : Value) :
    Returns (a.Takes b) (spliceAt off b start width (.value pos v)) := by
  unfold spliceAt
  split
  · intro m b' m' h
    exact (hoff _ m b' m' h).elim
  · rename_i hinside
    obtain ⟨text, hsymbol⟩ := getElem?_index hb
    have hindex : a.index = a.before.length := rfl
    -- The operator's own node is behind the nodes that it takes on its left.
    have hfirst : start.toNat + a.left = a.before.length := by omega
    refine .pure ⟨start.toNat, hfirst, by omega, by omega, ⟨.symbol a.pos text, ?_, rfl⟩, pos, v, ?_⟩
    · have hmem : ((b.drop start.toNat).take (a.left + 1 + a.right))[a.left]? =
          some (.symbol a.pos text) := by
        rw [List.getElem?_take_of_lt (by omega), List.getElem?_drop, hfirst, hsymbol]
      exact List.mem_of_getElem? hmem
    · rw [hwidth]

theorem betweenAt_takes (hleft : a.left = 1) (hright : a.right = 1)
    (compute : Value × Node → Value × Node → Eval Value) :
    Returns (a.Takes b) (a.betweenAt off b e ctx compute) :=
  .bind fun _ => .bind fun _ => .bind fun _ =>
    spliceAt_takes hoff hb (by rw [hleft]; rfl) (by rw [hleft, hright]) _ _

theorem plusMinusAt_takes (hleft : a.left = if isUnaryPosition a.before.head? then 0 else 1)
    (hright : a.right = 1) (sign : Float → Float) (op : Float → Float → Float) :
    Returns (a.Takes b) (a.plusMinusAt off b e ctx sign op) := by
  unfold plusMinusAt
  rw [unaryAt_eq hb]
  refine .bind fun _ => .bind fun _ => ?_
  rw [pure_bind]
  split
  · rename_i hunary
    rw [if_pos hunary] at hleft
    exact spliceAt_takes hoff hb (by rw [hleft]; simp) (by rw [hleft, hright]) _ _
  · rename_i hunary
    rw [if_neg hunary] at hleft
    exact .bind fun _ => .bind fun _ =>
      spliceAt_takes hoff hb (by rw [hleft]; rfl) (by rw [hleft, hright]) _ _

theorem notAt_takes (hleft : a.left = 0) (hright : a.right = 1) :
    Returns (a.Takes b) (a.notAt off b e ctx) :=
  .bind fun _ => .bind fun _ =>
    spliceAt_takes hoff hb (by rw [hleft]; simp) (by rw [hleft, hright]) _ _

theorem hashAt_takes (hleft : a.left = 0) (hright : a.right = 1) :
    Returns (a.Takes b) (a.hashAt off b e ctx) := by
  have hsplice (v : Value) : Returns (a.Takes b) (spliceAt off b a.index 2 (.value a.pos v)) :=
    spliceAt_takes hoff hb (by rw [hleft]; simp) (by rw [hleft, hright]) a.pos v
  unfold hashAt
  split
  · exact .fail _ _ _
  · refine .bind fun n => ?_
    split
    · exact hsplice _
    · exact .bind fun _ => .bind fun _ => hsplice _

theorem assignAt_takes (hleft : a.left = 1) (hright : a.right = a.after.length) :
    Returns (a.Takes b) (a.assignAt off b e ctx) := by
  have hlength := length_eq hb
  unfold assignAt
  split
  · exact .fail _ _ _
  · refine .bind fun n => ?_
    split
    · refine .bind fun v => .bind fun _ => spliceAt_takes hoff hb (by rw [hleft]; rfl) ?_ _ v
      omega
    · exact .fail _ _ _

theorem runAt_takes : Returns (a.Takes b) (a.runAt off b e ctx) := by
  unfold runAt
  cases hop : a.operator
  case plus | minus =>
    exact plusMinusAt_takes hoff hb e ctx (by simp only [left, hop]) (by simp only [right, hop]) _ _
  case not => exact notAt_takes hoff hb e ctx (by simp only [left, hop]) (by simp only [right, hop])
  case hash => exact hashAt_takes hoff hb e ctx (by simp only [left, hop]) (by simp only [right, hop])
  case assign =>
    exact assignAt_takes hoff hb e ctx (by simp only [left, hop]) (by simp only [right, hop])
  all_goals
    exact betweenAt_takes hoff hb e ctx (by simp only [left, hop]) (by simp only [right, hop]) _

omit hoff

/-- **An operator that is applied replaces its window.** -/
theorem run_takes : Returns (a.Takes b) (a.run e ctx) := by
  -- An index outside of the buffer stops the operator, so it returns no other buffer there.
  let off : ∀ α : Type, Eval α := fun _ => throw (.exhausted none)
  have hstops : ∀ α, Eval.Fails (off α) := by
    rintro α m b' m' ⟨⟩
  have htakes : Returns (a.Takes b) (a.runAt off b e ctx) := runAt_takes hstops hb e ctx
  rwa [runAt_eq hb] at htakes

end Application

end RuleScript
