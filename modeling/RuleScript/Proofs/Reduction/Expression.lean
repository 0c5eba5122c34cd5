/-
# Expressions by precedence

Values with operators between them, each value perhaps with a sign in front,
stand for an expression tree: chains of `**` bind tightest, then a sign takes
the whole chain of `**` on its right, then come the levels of the operator
table from 3 to 12, and on every level operators group to the left. This
module says which tree that is, without a word on how a buffer is reduced:
`Formula.tree` groups level by level, `Expression.Fits` is the rule a tree
must keep to, and the tree of a formula keeps to it and spells the formula
(`Formula.tree_fits`, `Formula.tree_nodes`).

`Expression.eval` is the value of a tree. It has none when an operand has the
wrong kind.

Key definitions: `Expression`, `Expression.Fits`, `Expression.eval`,
`Formula`, `Formula.tree`.
Key theorems: `Formula.tree_fits`, `Formula.tree_nodes`.
-/
import RuleScript.Proofs.Reduction.Operand

namespace RuleScript

/-! ### What operators compute -/

/-- The number of a value that is one. -/
def Value.number? : Value → Option Float
  | .number x => some x
  | _ => none

/-- The truth value of a value that is one. -/
def Value.bool? : Value → Option Bool
  | .bool b => some b
  | _ => none

namespace Operator

/-- The value of an operator between two values; none if one of them has the
wrong kind. -/
def combine? (op : Operator) (l r : Value) : Option Value :=
  match op.onNumbers?, op.onBools? with
  | some f, _ => do return f (← l.number?) (← r.number?)
  | none, some f => do return .bool (f (← l.bool?) (← r.bool?))
  | none, none =>
    match op with
    | .plus => do return .number ((← l.number?) + (← r.number?))
    | .minus => do return .number ((← l.number?) - (← r.number?))
    | .equal => some (.bool (l.strictEq r))
    | .notEqual => some (.bool !(l.strictEq r))
    | _ => none

/-- Whether an operator may stand in front of its only operand. -/
def isSign : Operator → Bool
  | .not | .hash | .plus | .minus => true
  | _ => false

/-- The value of an operator in front of a value; none if the value has the
wrong kind. -/
def lead? (h : Heap) (op : Operator) (v : Value) : Option Value :=
  match op with
  | .not => do return .bool !(← v.bool?)
  | .hash => some (.string (v.shown h))
  | .plus => do return .number (← v.number?)
  | .minus => do return .number (-(← v.number?))
  | _ => none

/-- The level of an operator between two operands. -/
def level (op : Operator) : Nat := op.priority false

theorem level_of_isBinary {op : Operator} (h : op.isBinary = true) :
    1 ≤ op.level ∧ op.level ≤ 12 ∧ (op ≠ .power → 2 < op.level) := by
  revert h
  cases op <;> decide

theorem priority_of_isSign {op : Operator} (h : op.isSign = true) : op.priority true = 2 := by
  revert h
  cases op <;> decide

end Operator

/-- A sign in front of an operand, with the position of its symbol. -/
structure Sign where
  pos : Position
  op : Operator
  sign : op.isSign = true

/-- The symbol of a sign. -/
def Sign.node (s : Sign) : Node := .symbol s.pos s.op.symbol

/-! ### Trees -/

/-- An expression tree. -/
inductive Expression where
  | leaf (pos : Position) (v : Value)
  | unary (s : Sign) (arg : Expression)
  | binary (j : Joint) (left right : Expression)

namespace Expression

/-- The nodes of a tree from left to right. -/
def nodes : Expression → List Node
  | .leaf pos v => [.value pos v]
  | .unary s arg => s.node :: arg.nodes
  | .binary j l r => l.nodes ++ j.node :: r.nodes

/-- The value of a tree; none if an operand has the wrong kind. -/
def eval (h : Heap) : Expression → Option Value
  | .leaf _ v => some v
  | .unary s arg => do s.op.lead? h (← arg.eval h)
  | .binary j l r => do j.op.combine? (← l.eval h) (← r.eval h)

/-- Whether a tree may stand where operators up to a level group: on its left
an operator takes what binds at least as tight, on its right only what binds
tighter, and a sign takes a chain of `**`. -/
def Fits : Nat → Expression → Prop
  | _, .leaf .. => True
  | n, .unary _ arg => 2 ≤ n ∧ arg.Fits 1
  | n, .binary j l r => j.op.level ≤ n ∧ l.Fits j.op.level ∧ r.Fits (j.op.level - 1)

theorem Fits.mono {n k : Nat} (hnk : n ≤ k) : ∀ {t : Expression}, t.Fits n → t.Fits k
  | .leaf .., _ => trivial
  | .unary .., ⟨h, harg⟩ => ⟨Nat.le_trans h hnk, harg⟩
  | .binary .., ⟨h, hl, hr⟩ => ⟨Nat.le_trans h hnk, hl, hr⟩

/-- A tree with a sign in front, if there is one. -/
def signed : Option Sign → Expression → Expression
  | some s, t => .unary s t
  | none, t => t

end Expression

/-! ### Formulas -/

/-- A value, perhaps with a sign in front. -/
structure Signed where
  sign : Option Sign
  pos : Position
  value : Value

namespace Signed

/-- The nodes of a signed value. -/
def nodes (x : Signed) : List Node := (x.sign.map Sign.node).toList ++ [.value x.pos x.value]

/-- The value as a tree. -/
def leaf (x : Signed) : Expression := .leaf x.pos x.value

end Signed

/-- Signed values with operators between them, and no sign right behind a
`**`. -/
structure Formula where
  chain : Chain Signed
  unsigned : ∀ p ∈ chain.rest, p.1.op = .power → p.2.sign = none

/-- The buffer of a formula. -/
def Formula.nodes (f : Formula) : List Node := f.chain.nodes Signed.nodes

/-- Group the chains of `**`; `sign` stands in front of the chain that `t`
begins. -/
def groupPowers (sign : Option Sign) (t : Expression) : List (Joint × Signed) → Chain Expression
  | [] => ⟨.signed sign t, []⟩
  | (j, x) :: rest =>
    if j.op = .power then groupPowers sign (.binary j t x.leaf) rest
    else
      let c := groupPowers x.sign x.leaf rest
      ⟨.signed sign t, (j, c.first) :: c.rest⟩

/-- Group the operators of one level to the left; `t` is the group so far. -/
def groupLevel (level : Nat) (t : Expression) : List (Joint × Expression) → Chain Expression
  | [] => ⟨t, []⟩
  | (j, u) :: rest =>
    if j.op.level = level then groupLevel level (.binary j t u) rest
    else
      let c := groupLevel level u rest
      ⟨t, (j, c.first) :: c.rest⟩

/-- Group level by level. -/
def groupLevels (c : Chain Expression) (levels : List Nat) : Chain Expression :=
  levels.foldl (fun c level => groupLevel level c.first c.rest) c

/-- A formula grouped up to a level: `**` first, then signs, then the levels
from 3 on. -/
@[irreducible] def Formula.groupedTo (f : Formula) (level : Nat) : Chain Expression :=
  groupLevels (groupPowers f.chain.first.sign f.chain.first.leaf f.chain.rest)
    (List.range' 3 (level - 2))

/-- The tree of a formula: everything up to level 12 is grouped. -/
def Formula.tree (f : Formula) : Expression := (f.groupedTo 12).first

example (p : Position) (a b c : Value) :
    let minus : Sign := ⟨p, .minus, rfl⟩
    let power : Joint := ⟨p, .power, rfl⟩
    let times : Joint := ⟨p, .times, rfl⟩
    let f : Formula := ⟨⟨⟨some minus, p, a⟩, [(power, ⟨none, p, b⟩), (times, ⟨none, p, c⟩)]⟩, by simp⟩
    f.tree = .binary times (.unary minus (.binary power (.leaf p a) (.leaf p b))) (.leaf p c) := by
  cbv

/-! ### The tree of a formula keeps to precedence and spells the formula -/

/-- The buffer of a chain of trees. -/
abbrev Chain.spelled (c : Chain Expression) : List Node := c.nodes Expression.nodes

/-- A chain of trees whose operators up to a level are grouped. -/
def Grouped (level : Nat) (c : Chain Expression) : Prop :=
  c.first.Fits level ∧ ∀ p ∈ c.rest, p.2.Fits level ∧ level < p.1.op.level

theorem spelled_cons (t : Expression) (j : Joint) (c : Chain Expression) :
    (⟨t, (j, c.first) :: c.rest⟩ : Chain Expression).spelled = t.nodes ++ j.node :: c.spelled := by
  simp [Chain.spelled, Chain.nodes, Chain.tailNodes]

theorem tailNodes_cons {α : Type} (nodes : α → List Node) (j : Joint) (x : α)
    (rest : List (Joint × α)) :
    Chain.tailNodes nodes ((j, x) :: rest) = j.node :: (nodes x ++ Chain.tailNodes nodes rest) := rfl

theorem fits_signed {t : Expression} (h : t.Fits 1) : ∀ sign, (Expression.signed sign t).Fits 2
  | some _ => ⟨Nat.le_refl 2, h⟩
  | none => h.mono (by omega)

/-- The nodes of a sign that may be missing. -/
def signNodes (sign : Option Sign) : List Node := (sign.map Sign.node).toList

theorem nodes_signed (t : Expression) : ∀ sign,
    (Expression.signed sign t).nodes = signNodes sign ++ t.nodes
  | some _ => rfl
  | none => rfl

theorem groupPowers_spec : ∀ (rest : List (Joint × Signed)) (sign : Option Sign) (t : Expression),
    t.Fits 1 → (∀ p ∈ rest, p.1.op = .power → p.2.sign = none) →
    Grouped 2 (groupPowers sign t rest) ∧
      (groupPowers sign t rest).spelled = signNodes sign ++ (t.nodes ++ Chain.tailNodes Signed.nodes rest)
  | [], sign, t, ht, _ => by
    refine ⟨⟨fits_signed ht sign, by simp [groupPowers]⟩, ?_⟩
    simp [groupPowers, Chain.spelled, Chain.nodes, Chain.tailNodes, nodes_signed]
  | (j, x) :: rest, sign, t, ht, hrest => by
    have hrest' : ∀ p ∈ rest, p.1.op = .power → p.2.sign = none :=
      fun p hp => hrest p (List.mem_cons_of_mem _ hp)
    unfold groupPowers
    split
    · rename_i hj
      have hx : x.sign = none := hrest (j, x) List.mem_cons_self hj
      have hlevel : j.op.level = 1 := by rw [hj]; rfl
      have hfits : (Expression.binary j t x.leaf).Fits 1 :=
        ⟨Nat.le_of_eq hlevel, by rw [hlevel]; exact ht, trivial⟩
      obtain ⟨hg, hs⟩ := groupPowers_spec rest sign (.binary j t x.leaf) hfits hrest'
      refine ⟨hg, ?_⟩
      rw [hs, tailNodes_cons]
      simp [Expression.nodes, Signed.nodes, Signed.leaf, hx]
    · rename_i hj
      obtain ⟨⟨hfirst, htail⟩, hs⟩ := groupPowers_spec rest x.sign x.leaf trivial hrest'
      refine ⟨⟨fits_signed ht sign, ?_⟩, ?_⟩
      · intro p hp
        rcases List.mem_cons.mp hp with rfl | hp
        · exact ⟨hfirst, (Operator.level_of_isBinary j.binary).2.2 hj⟩
        · exact htail p hp
      · rw [spelled_cons, hs, nodes_signed, tailNodes_cons]
        simp [Signed.nodes, Signed.leaf, Expression.nodes, signNodes]

/-- One level is grouped on top of the level below. -/
theorem groupLevel_spec (level : Nat) : ∀ (rest : List (Joint × Expression)) (t : Expression),
    t.Fits (level + 1) → (∀ p ∈ rest, p.2.Fits level ∧ level < p.1.op.level) →
    Grouped (level + 1) (groupLevel (level + 1) t rest) ∧
      (groupLevel (level + 1) t rest).spelled = t.nodes ++ Chain.tailNodes Expression.nodes rest
  | [], t, ht, _ => ⟨⟨ht, by simp [groupLevel]⟩, rfl⟩
  | (j, u) :: rest, t, ht, hrest => by
    obtain ⟨hu, hlt⟩ := hrest (j, u) List.mem_cons_self
    have hrest' : ∀ p ∈ rest, p.2.Fits level ∧ level < p.1.op.level :=
      fun p hp => hrest p (List.mem_cons_of_mem _ hp)
    unfold groupLevel
    split
    · rename_i hj
      have hfits : (Expression.binary j t u).Fits (level + 1) :=
        ⟨Nat.le_of_eq hj, by rw [hj]; exact ht, by rw [hj]; exact hu⟩
      obtain ⟨hg, hs⟩ := groupLevel_spec level rest (.binary j t u) hfits hrest'
      refine ⟨hg, ?_⟩
      rw [hs, tailNodes_cons]
      simp [Expression.nodes]
    · rename_i hj
      obtain ⟨⟨hfirst, htail⟩, hs⟩ := groupLevel_spec level rest u (hu.mono (by omega)) hrest'
      refine ⟨⟨ht, ?_⟩, ?_⟩
      · intro p hp
        rcases List.mem_cons.mp hp with rfl | hp
        · exact ⟨hfirst, by simp only at hlt ⊢; omega⟩
        · exact htail p hp
      · rw [spelled_cons, hs, tailNodes_cons]

/-- Level after level is grouped, and the nodes stay. -/
theorem groupLevels_spec : ∀ (count level : Nat) (c : Chain Expression), Grouped level c →
    Grouped (level + count) (groupLevels c (List.range' (level + 1) count)) ∧
      (groupLevels c (List.range' (level + 1) count)).spelled = c.spelled
  | 0, _, _, hc => ⟨hc, rfl⟩
  | count + 1, level, c, hc => by
    obtain ⟨hg, hs⟩ := groupLevel_spec level c.rest c.first (hc.1.mono (by omega)) hc.2
    obtain ⟨hg', hs'⟩ := groupLevels_spec count (level + 1) _ hg
    rw [List.range'_succ]
    refine ⟨?_, hs'.trans hs⟩
    rw [show level + (count + 1) = level + 1 + count by omega]
    exact hg'

namespace Formula

theorem grouped_groupedTo (f : Formula) (level : Nat) (h : 2 ≤ level) :
    Grouped level (f.groupedTo level) ∧ (f.groupedTo level).spelled = f.nodes := by
  obtain ⟨hg, hs⟩ := groupPowers_spec f.chain.rest f.chain.first.sign f.chain.first.leaf trivial
    f.unsigned
  obtain ⟨hg', hs'⟩ := groupLevels_spec (level - 2) 2 _ hg
  rw [Nat.add_sub_cancel' h] at hg'
  unfold groupedTo
  refine ⟨hg', hs'.trans ?_⟩
  rw [hs]
  simp [nodes, Chain.nodes, Signed.nodes, Signed.leaf, Expression.nodes, signNodes]

/-- The tree of a formula keeps to precedence. -/
theorem tree_fits (f : Formula) : f.tree.Fits 12 :=
  (f.grouped_groupedTo 12 (by omega)).1.1

/-- The tree of a formula spells the formula. -/
theorem tree_nodes (f : Formula) : f.tree.nodes = f.nodes := by
  obtain ⟨⟨-, hrest⟩, hs⟩ := f.grouped_groupedTo 12 (by omega)
  -- no operator is looser than level 12, so everything is in one tree
  have hnil : (f.groupedTo 12).rest = [] := by
    refine List.eq_nil_iff_forall_not_mem.mpr fun p hp => ?_
    have h1 := (hrest p hp).2
    have h2 := (Operator.level_of_isBinary p.1.binary).2.1
    omega
  rw [← hs, Chain.spelled, Chain.nodes, hnil]
  simp [Chain.tailNodes, tree]

end Formula

end RuleScript
