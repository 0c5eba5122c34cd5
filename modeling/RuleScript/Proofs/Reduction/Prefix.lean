/-
# Signs in a row

In front of a value stand signs, one or several. All of them bind equally
tight, so the leftmost is applied first, and its operand is the node behind
it. One sign alone is applied to the value. Of several, the first finds a sign
where a value is due, and a symbol is no operand: the reduction stops at the
second sign, whatever the value and whether or not applying the signs from the
innermost outward would make sense. Only brackets let signs follow each other.

Key definitions: `leadAll?`.
Key theorems: `reduce_signs_stops`, `signs_do_not_stack`.
-/
import RuleScript.Proofs.Reduction.Precedence
import RuleScript.Runner.Session

namespace RuleScript

open Application (allFrom)

/-- The value of signs in front of a value, the innermost applied first. -/
def leadAll? (h : Heap) (signs : List Sign) (v : Value) : Option Value :=
  signs.foldr (fun s o => o.bind (s.op.lead? h)) (some v)

theorem Operator.two_le_priority_of_isSign {op : Operator} (h : op.isSign = true) (unary : Bool) :
    2 ≤ op.priority unary := by
  revert h
  cases op <;> cases unary <;> decide

/-- The operators of a row of signs are its signs. -/
theorem isSign_of_mem_allFrom (pos : Position) (v : Value) : ∀ (signs : List Sign) (before : List Node),
    ∀ a ∈ allFrom before (signs.map Sign.node ++ [.value pos v]), a.operator.isSign = true
  | [], before, a, ha => by cases ha
  | s :: signs, before, a, ha => by
    have ih := isSign_of_mem_allFrom pos v signs (s.node :: before) a
    simp only [List.map_cons, List.cons_append, Sign.node, allFrom, Operator.ofSymbol?_symbol] at ha ih
    rcases List.mem_cons.mp ha with rfl | ha
    · exact s.sign
    · exact ih ha

/-- The first of a row of signs is found first. -/
theorem find?_signs (s : Sign) (signs : List Sign) (pos : Position) (v : Value) :
    Application.find? ((s :: signs).map Sign.node ++ [.value pos v]) =
      some ⟨s.op, [], s.pos, signs.map Sign.node ++ [.value pos v]⟩ := by
  have hall : allFrom [] ((s :: signs).map Sign.node ++ [.value pos v]) =
      ⟨s.op, [], s.pos, signs.map Sign.node ++ [.value pos v]⟩ ::
        allFrom [s.node] (signs.map Sign.node ++ [.value pos v]) := by
    simp only [List.map_cons, List.cons_append, Sign.node, allFrom, Operator.ofSymbol?_symbol]
  refine Application.find?_of_tightest ⟨[], _, hall, by simp, fun b hb => ?_⟩
  have hfirst : s.op.priority true = 2 := Operator.priority_of_isSign s.sign
  have hother := Operator.two_le_priority_of_isSign (isSign_of_mem_allFrom pos v signs _ b hb)
    (isUnaryPosition b.before.head?)
  exact Nat.le_trans (Nat.le_of_eq hfirst) hother

section Reduction

variable (e : Engine) (ctx : Context)

/-- A symbol is no operand of a sign. -/
theorem run_before_sign {a : Application} (hop : a.operator.isSign = true) {s : Sign} {rest : List Node}
    (hafter : a.after = s.node :: rest) :
    a.run e ctx = Eval.fail ctx s.pos (.unexpected s.node.describe) := by
  have hoperand : a.operand e ctx a.after = Eval.fail ctx s.pos (.unexpected s.node.describe) := by
    rw [hafter]
    rfl
  unfold Application.run
  cases hkind : a.operator
  case not =>
    simp only [Operator.onNumbers?, Operator.onBools?]
    rw [hoperand]
    rfl
  case hash =>
    simp only [Operator.onNumbers?, Operator.onBools?, Application.applyHash, hafter]
    rfl
  case plus | minus =>
    simp only [Operator.onNumbers?, Operator.onBools?, Application.applyPlusMinus]
    rw [hoperand]
    rfl
  all_goals simp_all [Operator.isSign]

theorem isRaw_signs (signs : List Sign) (pos : Position) (v : Value) :
    ∀ n ∈ signs.map Sign.node ++ [.value pos v], n.isRaw = false := by
  intro n hn
  rcases List.mem_append.mp hn with hn | hn
  · obtain ⟨s, -, rfl⟩ := List.mem_map.mp hn
    rfl
  · obtain rfl := List.mem_singleton.mp hn
    rfl

/-- Two signs or more: the reduction stops at the second. -/
theorem reduce_signs_stops (s s' : Sign) (more : List Sign) (pos : Position) (v : Value) :
    reduce e ctx ((s :: s' :: more).map Sign.node ++ [.value pos v]) = (do
      Eval.fire ctx "OP" s.op.symbol s.pos
      Eval.fail ctx s'.pos (.unexpected s'.node.describe)) := by
  have hrun := run_before_sign e ctx
    (a := ⟨s.op, [], s.pos, (s' :: more).map Sign.node ++ [.value pos v]⟩) s.sign rfl
  rw [reduce_of_operator (Match.find?_eq_none (isRaw_signs _ pos v)) (find?_signs ..)]
  congr 1; funext _
  rw [hrun]
  rfl

/-- One sign is applied. -/
theorem reduce_sign (h : Heap) (s : Sign) (pos : Position) (v : Value) :
    Eval.Mirrors h (reduce e ctx [s.node, .value pos v]) (s.op.lead? h v) := by
  have hfits : (Expression.unary s (.leaf pos v)).Fits 2 := ⟨Nat.le_refl 2, trivial⟩
  exact Expression.reduce_mirrors hfits

end Reduction

/-- **One sign is applied to the value behind it; several do not stack.**
Reducing a row of signs in front of a value returns the value of applying them
if there is at most one, and returns nothing if there are two or more: then
the reduction stops at the second sign, as a symbol that is not expected, with
the heap as it was. -/
theorem signs_do_not_stack (e : Engine) (ctx : Context) (signs : List Sign) (pos : Position) (v : Value)
    (m : Machine) :
    (∀ w, (reduce e ctx (signs.map Sign.node ++ [.value pos v]) m).1 = .ok w ↔
      signs.length ≤ 1 ∧ leadAll? m.heap signs v = some w) ∧
    (∀ s s' more, signs = s :: s' :: more →
      ∃ fault m', reduce e ctx (signs.map Sign.node ++ [.value pos v]) m = (.error (.fault fault), m') ∧
        fault.cause = .unexpected ("symbol \"" ++ s'.op.symbol ++ "\"") ∧
        fault.cause.kind = .syntactic ∧ fault.line = s'.pos.line ∧ fault.column = s'.pos.column ∧
        m'.heap = m.heap) := by
  have hstops (s s' : Sign) (more : List Sign) : ∃ m',
      reduce e ctx ((s :: s' :: more).map Sign.node ++ [.value pos v]) m =
        (.error (.fault (.raisedAt (.unexpected s'.node.describe) (some s'.pos) ctx.source)), m') ∧
        m'.heap = m.heap := by
    obtain ⟨m', hfire, hheap, -⟩ := Eval.fire_run ctx "OP" s.op.symbol s.pos m
    exact ⟨m', by rw [reduce_signs_stops, Eval.bind_run_ok hfire]; rfl, hheap⟩
  refine ⟨fun w => ?_, ?_⟩
  · match signs with
    | [] =>
      have hvalue : reduce e ctx ([].map Sign.node ++ [.value pos v]) = pure v := reduce_value e ctx pos v
      rw [hvalue]
      exact ⟨fun h => ⟨Nat.zero_le 1, congrArg some (Except.ok.inj h)⟩,
        fun h => congrArg Except.ok (Option.some.inj h.2)⟩
    | [s] =>
      have hone := (reduce_sign e ctx m.heap s pos v).returns_iff w
      simpa [leadAll?] using hone
    | s :: s' :: more =>
      obtain ⟨m', hrun, -⟩ := hstops s s' more
      rw [hrun]
      simp
  · rintro s s' more rfl
    obtain ⟨m', hrun, hheap⟩ := hstops s s' more
    exact ⟨_, m', hrun, rfl, rfl, rfl, rfl, hheap⟩

/-- Applying `!` twice to a truth value gives the truth value, and `! ! true`
does not reduce. -/
theorem negations_do_not_stack :
    let outer : Sign := ⟨⟨some 1, some 1, 0⟩, .not, rfl⟩
    let inner : Sign := ⟨⟨some 1, some 2, 1⟩, .not, rfl⟩
    let ctx : Context := ⟨⟨0⟩, "main", ⟨none, "", false, .usual⟩⟩
    leadAll? Heap.empty [outer, inner] (.bool true) = some (.bool true) ∧
      (reduce (Engine.level maxLevels) ctx
        ([outer, inner].map Sign.node ++ [.value ⟨some 1, some 3, 2⟩ (.bool true)]) Machine.initial).1 =
        .error (.fault ⟨.unexpected "symbol \"!\"", some 1, some 2, "main", none⟩) := by
  intro outer inner ctx
  refine ⟨rfl, ?_⟩
  rw [reduce_signs_stops]
  rfl

end RuleScript
