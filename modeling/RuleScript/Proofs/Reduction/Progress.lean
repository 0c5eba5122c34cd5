/-
# A reduction makes progress

Every step of a reduction, by a rule or by an operator, replaces a window of
the buffer by one value, and the window holds a node that is no value
(`Rewrites`, `reduceStep_returns`). So the number of nodes that are no values
goes down with every step, and a reduction that is given at least as many
steps as there are such nodes never runs out of them: `reduce` is a step and
then `reduce` again (`reduce_eq`), with no count of steps left.

Key definitions: `Rewrites`, `openNodes`, `Node.isRaw`.
Key theorems: `Rule.exists_raw`, `reduceStep_returns`, `reduce_eq`.
-/
import RuleScript.Proofs.Computation
import RuleScript.Reduction.Evaluate

namespace RuleScript

open Eval (Returns)

/-- A window of a buffer that holds more than values is replaced by one
value. -/
def Rewrites (b b' : List Node) : Prop :=
  ∃ left window right pos v, b = left ++ (window ++ right) ∧ b' = left ++ .value pos v :: right ∧
    ∃ n ∈ window, n.isValue = false

/-- How many nodes of a buffer are no values. -/
def openNodes (b : List Node) : Nat := b.countP (!·.isValue)

theorem openNodes_le_length (b : List Node) : openNodes b ≤ b.length := List.countP_le_length

theorem openNodes_cons (n : Node) (b : List Node) :
    openNodes (n :: b) = openNodes b + if n.isValue then 0 else 1 := by
  unfold openNodes
  rw [List.countP_cons]
  cases n.isValue <;> rfl

theorem openNodes_symbol (pos : Position) (text : String) (b : List Node) :
    openNodes (.symbol pos text :: b) = openNodes b + 1 := openNodes_cons ..

theorem Rewrites.openNodes_lt {b b' : List Node} (h : Rewrites b b') :
    openNodes b' < openNodes b := by
  obtain ⟨left, window, right, pos, v, rfl, rfl, n, hn, hv⟩ := h
  have hw : 0 < openNodes window := List.countP_pos_iff.mpr ⟨n, hn, by simp [hv]⟩
  have hvalue : openNodes (.value pos v :: right) = openNodes right :=
    List.countP_cons_of_neg (by simp [Node.isValue])
  unfold openNodes at *
  rw [List.countP_append, List.countP_append, List.countP_append, hvalue]
  omega

/-! ### Rules -/

/-- Whether a node still has to be read by a rule: it is neither a value nor a
symbol. -/
def Node.isRaw : Node → Bool
  | .symbol .. | .value .. => false
  | _ => true

theorem Node.isValue_of_isRaw {n : Node} (h : n.isRaw = true) : n.isValue = false := by
  cases n <;> first | rfl | cases h

namespace Rule

theorem signed?_eq_some {text : String} {before : Option Node} {nodes rest : List Node}
    (h : signed? text before nodes = some rest) : ∃ n, nodes = n :: rest := by
  unfold signed? at h
  split at h
  · split at h <;> simp_all
  · cases h

/-- Behind a sign that a rule fits stands what it is applied to. -/
theorem exists_of_sign {text : String} {before : Option Node} {nodes : List Node} {x : Redex}
    (h : signNumber? text before nodes = some x ∨ signWord? text before nodes = some x ∨
      signParen? text before nodes = some x) :
    ∃ n k rest, nodes = n :: k :: rest ∧ k.isRaw = true := by
  rcases h with h | h | h
  all_goals
    simp only [signNumber?, signWord?, signParen?] at h
    split at h
    · rename_i hs
      obtain ⟨n, rfl⟩ := signed?_eq_some hs
      exact ⟨n, _, _, rfl, rfl⟩
    · cases h

theorem exists_raw_of_sign {text : String} {before : Option Node} {nodes : List Node} {x : Redex}
    (h : signNumber? text before nodes = some x ∨ signWord? text before nodes = some x ∨
      signParen? text before nodes = some x) : ∃ n ∈ nodes.take 2, n.isRaw = true := by
  obtain ⟨n, k, rest, rfl, hraw⟩ := exists_of_sign h
  exact ⟨k, by simp, hraw⟩

/-- Every rule reads a node that is neither a value nor a symbol. -/
theorem exists_raw {r : Rule} {before : Option Node} {nodes : List Node} {x : Redex}
    (h : r.redex? before nodes = some x) : ∃ n ∈ nodes.take r.width, n.isRaw = true := by
  cases r
  case negativeNumber | positiveNumber => exact exists_raw_of_sign (.inl h)
  case negativeWord | positiveWord => exact exists_raw_of_sign (.inr (.inl h))
  case negativeParenthesis | positiveParenthesis => exact exists_raw_of_sign (.inr (.inr h))
  all_goals
    simp only [redex?] at h
    split at h
    · simp [width, Node.isRaw]
    · cases h

end Rule

namespace Match

theorem redex?_of_here? {before : Option Node} {nodes : List Node} {r : Rule} {x : Redex}
    (h : here? before nodes = some (r, x)) : r.redex? before nodes = some x := by
  obtain ⟨r', -, hr⟩ := List.exists_of_findSome?_eq_some h
  obtain ⟨x', hx, he⟩ := Option.map_eq_some_iff.mp hr
  obtain ⟨rfl, rfl⟩ := Prod.mk.inj he
  exact hx

/-- A match splits its buffer at a window that a rule reads. -/
theorem findFrom?_window : ∀ {nodes before : List Node} {m : Match},
    findFrom? before nodes = some m → ∃ window,
      before.reverse ++ nodes = m.before ++ (window ++ m.after) ∧ ∃ n ∈ window, n.isRaw = true
  | [], _, _, h => by cases h
  | n :: rest, before, m, h => by
    unfold findFrom? at h
    split at h
    · rename_i rule redex hhere
      obtain rfl := Option.some.inj h
      refine ⟨(n :: rest).take rule.width, ?_, Rule.exists_raw (redex?_of_here? hhere)⟩
      rw [List.take_append_drop]
    · obtain ⟨window, hw, hraw⟩ := findFrom?_window h
      exact ⟨window, by simpa using hw, hraw⟩

/-- Values and symbols alone match no rule, whatever is on their left. -/
theorem findFrom?_eq_none : ∀ {nodes : List Node}, (∀ n ∈ nodes, n.isRaw = false) →
    ∀ before : List Node, findFrom? before nodes = none
  | [], _, _ => rfl
  | n :: rest, h, before => by
    have hhere : here? before.head? (n :: rest) = none := by
      cases hhere : here? before.head? (n :: rest) with
      | none => rfl
      | some p =>
        obtain ⟨k, hk, hraw⟩ := Rule.exists_raw (redex?_of_here? hhere)
        rw [h k (List.mem_of_mem_take hk)] at hraw
        cases hraw
    rw [findFrom?, hhere]
    exact findFrom?_eq_none (fun k hk => h k (List.mem_cons_of_mem _ hk)) _

theorem find?_eq_none {buffer : List Node} (h : ∀ n ∈ buffer, n.isRaw = false) :
    find? buffer = none :=
  findFrom?_eq_none h []

theorem rewrites_result {buffer : List Node} {m : Match} (h : find? buffer = some m) (v : Value) :
    Rewrites buffer (m.result v) := by
  obtain ⟨window, hw, n, hn, hraw⟩ := findFrom?_window h
  exact ⟨m.before, window, m.after, m.pos, v, by simpa using hw, rfl, n, hn,
    Node.isValue_of_isRaw hraw⟩

end Match

/-! ### Operators -/

theorem Operator.symbol_of_ofSymbol? {text : String} {op : Operator}
    (h : Operator.ofSymbol? text = some op) : op.symbol = text := by
  have hfound := List.find?_some h
  exact beq_iff_eq.mp hfound

namespace Application

/-- An operator of a buffer splits it. -/
theorem mem_allFrom : ∀ {nodes before : List Node} {a : Application}, a ∈ allFrom before nodes →
    before.reverse ++ nodes = a.before.reverse ++ .symbol a.pos a.operator.symbol :: a.after
  | [], _, _, h => by simp [allFrom] at h
  | n :: rest, before, a, h => by
    have later {a : Application} (h : a ∈ allFrom (n :: before) rest) :
        before.reverse ++ n :: rest =
          a.before.reverse ++ .symbol a.pos a.operator.symbol :: a.after := by
      have hsplit := mem_allFrom h
      simpa using hsplit
    unfold allFrom at h
    split at h
    · split at h
      · rename_i hop
        rcases List.mem_cons.mp h with rfl | h
        · rw [Operator.symbol_of_ofSymbol? hop]
        · exact later h
      · exact later h
    · exact later h

theorem foldl_tighter_mem : ∀ (rest : List Application) (a : Application),
    rest.foldl tighter a ∈ a :: rest
  | [], a => by simp
  | b :: rest, a => by
    have hab : tighter a b = a ∨ tighter a b = b := by unfold tighter; split <;> simp
    rw [List.foldl_cons]
    rcases List.mem_cons.mp (foldl_tighter_mem rest (tighter a b)) with h | h
    · rw [h]
      rcases hab with hab | hab <;> simp [hab]
    · exact List.mem_cons_of_mem _ (List.mem_cons_of_mem _ h)

/-- The operator that is applied splits its buffer. -/
theorem find?_window {buffer : List Node} {a : Application} (h : find? buffer = some a) :
    ∃ text, buffer = a.before.reverse ++ .symbol a.pos text :: a.after := by
  unfold find? at h
  split at h
  · cases h
  · rename_i b rest hall
    obtain rfl := Option.some.inj h
    have hmem : rest.foldl tighter b ∈ allFrom [] buffer := hall ▸ foldl_tighter_mem rest b
    exact ⟨_, mem_allFrom hmem⟩

theorem rewrites_between (a : Application) (text : String) (v : Value) :
    Rewrites (a.before.reverse ++ .symbol a.pos text :: a.after) (a.between v) := by
  refine ⟨(a.before.drop 1).reverse, (a.before.take 1).reverse ++ .symbol a.pos text :: a.after.take 1,
    a.after.drop 1, a.pos, v, ?_, rfl, .symbol a.pos text, by simp, rfl⟩
  rw [← List.append_assoc, ← List.append_assoc, ← List.reverse_append, List.take_append_drop,
    List.append_assoc, List.cons_append, List.take_append_drop]

theorem rewrites_leading (a : Application) (text : String) (v : Value) :
    Rewrites (a.before.reverse ++ .symbol a.pos text :: a.after) (a.leading v) := by
  refine ⟨a.before.reverse, .symbol a.pos text :: a.after.take 1, a.after.drop 1, a.pos, v, ?_, rfl,
    .symbol a.pos text, by simp, rfl⟩
  rw [List.cons_append, List.take_append_drop]

variable (e : Engine) (ctx : Context)

theorem applyPlusMinus_returns (a : Application) (text : String) (sign : Float → Float)
    (op : Float → Float → Float) :
    Returns (Rewrites (a.before.reverse ++ .symbol a.pos text :: a.after))
      (a.applyPlusMinus e ctx sign op) := by
  refine .bind fun _ => .bind fun _ => ?_
  split
  · exact .pure (a.rewrites_leading text _)
  · exact .bind fun _ => .bind fun _ => .pure (a.rewrites_between text _)

theorem applyHash_returns (a : Application) (text : String) :
    Returns (Rewrites (a.before.reverse ++ .symbol a.pos text :: a.after)) (a.applyHash e ctx) := by
  unfold applyHash
  split
  · exact .fail _ _ _
  · exact .pure (a.rewrites_leading text _)
  · exact .bind fun _ => .bind fun _ => .pure (a.rewrites_leading text _)

/-- Assignment takes its name and everything on the right. -/
theorem applyAssign_returns (a : Application) (text : String) :
    Returns (Rewrites (a.before.reverse ++ .symbol a.pos text :: a.after)) (a.applyAssign e ctx) := by
  unfold applyAssign
  split
  · exact .fail _ _ _
  · rename_i pos name rest hb
    refine .bind fun v => .bind fun _ => .pure ?_
    exact ⟨rest.reverse, .word pos name :: .symbol a.pos text :: a.after, [], pos, v, by simp [hb],
      rfl, _, List.mem_cons_self, rfl⟩
  · exact .fail _ _ _

theorem run_returns (a : Application) (text : String) :
    Returns (Rewrites (a.before.reverse ++ .symbol a.pos text :: a.after)) (a.run e ctx) := by
  have between v := Returns.pure (a.rewrites_between text v)
  unfold run
  split
  · exact .bind fun _ => .bind fun _ => .bind fun _ => between _
  · exact .bind fun _ => .bind fun _ => .bind fun _ => between _
  · split
    · exact a.applyPlusMinus_returns e ctx text _ _
    · exact a.applyPlusMinus_returns e ctx text _ _
    · exact .bind fun _ => .bind fun _ => .pure (a.rewrites_leading text _)
    · exact .bind fun _ => between _
    · exact .bind fun _ => between _
    · exact a.applyAssign_returns e ctx text
    · exact a.applyHash_returns e ctx text

end Application

/-! ### The reduction -/

section Reduction

variable (e : Engine) (ctx : Context)

theorem applyRule_returns (b : List Node) :
    Returns (fun o => ∀ b', o = some b' → Rewrites b b') (applyRule e ctx b) := by
  unfold applyRule
  split
  · exact .pure (by simp)
  · rename_i m hm
    refine .bind fun _ => .bind fun v => .pure ?_
    rintro _ ⟨⟩
    exact Match.rewrites_result hm v

theorem applyOperator_returns (b : List Node) :
    Returns (fun o => ∀ b', o = some b' → Rewrites b b') (applyOperator e ctx b) := by
  unfold applyOperator
  split
  · exact .pure (by simp)
  · rename_i a ha
    obtain ⟨text, rfl⟩ := Application.find?_window ha
    refine .bind fun _ => .bind_of (a.run_returns e ctx text) fun b' hb => .pure ?_
    rintro _ ⟨⟩
    exact hb

/-- A step of a reduction rewrites its buffer. -/
theorem reduceStep_returns (b : List Node) :
    Returns (fun o => ∀ b', o = some b' → Rewrites b b') (reduceStep e ctx b) := by
  refine .bind_of (applyRule_returns e ctx b) fun o ho => ?_
  cases o with
  | some b' => exact .pure ho
  | none => exact applyOperator_returns e ctx b

/-- Nothing applies to values alone. -/
theorem reduceStep_of_openNodes_eq_zero {b : List Node} (h : openNodes b = 0) :
    reduceStep e ctx b = pure none := by
  have hvalue : ∀ n ∈ b, n.isValue = true := by
    intro n hn
    have := List.countP_eq_zero.mp h n hn
    simpa using this
  have hraw : ∀ n ∈ b, n.isRaw = false := by
    intro n hn
    have := hvalue n hn
    cases n <;> first | rfl | cases this
  have hop : Application.find? b = none := by
    cases hf : Application.find? b with
    | none => rfl
    | some a =>
      obtain ⟨text, rfl⟩ := Application.find?_window hf
      have := hvalue (.symbol a.pos text) (by simp)
      cases this
  unfold reduceStep applyRule applyOperator
  rw [Match.find?_eq_none hraw, hop]
  rfl

/-- Two reductions that have enough steps are one. -/
theorem reduceFor_eq_reduceFor : ∀ (n k : Nat) (b : List Node), openNodes b ≤ n → openNodes b ≤ k →
    reduceFor e ctx n b = reduceFor e ctx k b
  | 0, 0, _, _, _ => rfl
  | 0, k + 1, b, hn, _ => by
    rw [reduceFor, reduceFor, reduceStep_of_openNodes_eq_zero e ctx (Nat.le_zero.mp hn), pure_bind]
  | n + 1, 0, b, _, hk => by
    rw [reduceFor, reduceFor, reduceStep_of_openNodes_eq_zero e ctx (Nat.le_zero.mp hk), pure_bind]
  | n + 1, k + 1, b, hn, hk => by
    rw [reduceFor, reduceFor]
    refine Eval.bind_congr_of_returns (reduceStep_returns e ctx b) fun o ho => ?_
    cases o with
    | none => rfl
    | some b' =>
      have := (ho b' rfl).openNodes_lt
      exact reduceFor_eq_reduceFor n k b' (by omega) (by omega)

/-- **A reduction is a step and then a reduction again.** -/
theorem reduce_eq (b : List Node) :
    reduce e ctx b = reduceStep e ctx b >>= fun
      | some b' => reduce e ctx b'
      | none => finish ctx b := by
  have hb := openNodes_le_length b
  rw [reduce, reduceFor_eq_reduceFor e ctx b.length (b.length + 1) b hb (by omega), reduceFor]
  refine Eval.bind_congr_of_returns (reduceStep_returns e ctx b) fun o ho => ?_
  cases o with
  | none => rfl
  | some b' =>
    have := (ho b' rfl).openNodes_lt
    exact reduceFor_eq_reduceFor e ctx b.length b'.length b' (by omega) (openNodes_le_length b')

variable {e ctx}

/-- A rule fires. -/
theorem reduce_of_rule {b : List Node} {r : Match} (hb : Match.find? b = some r) :
    reduce e ctx b = (do
      Eval.fire ctx "RULE" r.rule.name r.pos
      let v ← r.redex.run e ctx
      reduce e ctx (r.result v)) := by
  rw [reduce_eq, reduceStep, applyRule, hb]
  simp only [bind_assoc, pure_bind]

/-- No rule fits, and an operator is applied. -/
theorem reduce_of_operator {b : List Node} {a : Application} (hb : Match.find? b = none)
    (ha : Application.find? b = some a) : reduce e ctx b = (do
      Eval.fire ctx "OP" a.operator.symbol a.pos
      let b' ← a.run e ctx
      reduce e ctx b') := by
  rw [reduce_eq, reduceStep, applyRule, hb, applyOperator, ha]
  simp only [bind_assoc, pure_bind]

/-- Nothing applies. -/
theorem reduce_of_nothing {b : List Node} (hb : Match.find? b = none) (ha : Application.find? b = none) :
    reduce e ctx b = finish ctx b := by
  rw [reduce_eq, reduceStep, applyRule, hb, applyOperator, ha]
  simp only [pure_bind]

end Reduction

end RuleScript
