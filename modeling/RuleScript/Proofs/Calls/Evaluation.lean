/-
# Evaluation agrees on engines that agree

If two engines agree on nested evaluation and on calls, then so does
everything that evaluation does with them: the rules, the operators, the
reduction of a buffer, statement lists, and what a call does while it is
active. So two ways to carry out a program are in step level by level as soon
as they are in step around a call.

Key definitions: `callBy`.
Key theorems: `callBody_agree`, `Redex.run_agree`, `Application.run_agree`,
`evaluateList_agree`, `callBy_agree`.
-/
import RuleScript.Proofs.Calls.Coupling
import RuleScript.Reduction.Evaluate

namespace RuleScript

open Eval (Local)
open Coupling Coupling.Agree

/-! ### What calls nothing -/

section Local

variable (ctx : Context)

instance (pos : Position) (text suffix : String) : Local (evaluateLiteral ctx pos text suffix) := by
  unfold evaluateLiteral
  split <;> infer_instance

instance (pos : Position) (name : String) : Local (readVariable ctx pos name) := by
  refine .andThen fun v => ?_
  split <;> infer_instance

instance parameterNames_local (pos : Position) : ∀ parts, Local (parameterNames ctx pos parts)
  | [] => inferInstanceAs (Local (pure []))
  | part :: rest => by
    have := parameterNames_local pos rest
    unfold parameterNames
    split <;> infer_instance

theorem parameterNames_withLimit (limit : Option Int) (pos : Position) : ∀ parts,
    parameterNames ctx pos parts = parameterNames (ctx.withLimit limit) pos parts
  | [] => rfl
  | part :: rest => by
    have ih := parameterNames_withLimit limit pos rest
    unfold parameterNames
    split
    · rw [ih]
    · rfl
    · rfl

instance (v : Value) (pos : Position) : Local (expectFunction ctx v pos) := by
  unfold expectFunction
  split <;> infer_instance

instance {α : Type} (xs : List α) (index : Float) (pos : Position) :
    Local (elementAt ctx xs index pos) := by
  unfold elementAt
  dsimp only
  split <;> infer_instance

instance (a : Application) (side : String) (p : Value × Node) : Local (a.numberOf ctx side p) := by
  unfold Application.numberOf
  split <;> infer_instance

instance (a : Application) (side : String) (p : Value × Node) : Local (a.boolOf ctx side p) := by
  unfold Application.boolOf
  split <;> infer_instance

instance (b : List Node) : Local (finish ctx b) := by
  unfold finish
  split
  · infer_instance
  · split <;> infer_instance

end Local

section Evaluation

variable {C : Coupling} {e e' : Engine} (he : Alike C e e') {ctx : Context} {limit : Option Int}
  (hl : C.limits ctx.settings.maxDepth limit)

include he hl

/-! ### Nested expressions -/

theorem evaluateValue_agree (nodes : List Node) (pos : Position) :
    C.Agree (evaluateValue e ctx nodes pos) (evaluateValue e' (ctx.withLimit limit) nodes pos) := by
  cases nodes with
  | nil => exact of_local (Eval.fail ctx pos .noExpression)
  | cons n rest =>
    refine (he.evaluate ctx hl (n :: rest)).bind fun v => ?_
    cases v <;> exact of_local _

theorem evaluateNode_agree (n : Node) :
    C.Agree (evaluateNode e ctx n) (evaluateNode e' (ctx.withLimit limit) n) := by
  cases n
  case value pos v => exact of_local (pure v)
  case symbol pos text => exact of_local (Eval.fail ctx pos _)
  all_goals
    simp only [evaluateNode]
    exact evaluateValue_agree he hl _ _

theorem evaluateParts_agree (pos : Position) (missing : Cause) : ∀ parts : List (List Node),
    C.Agree (evaluateParts e ctx pos missing parts)
      (evaluateParts e' (ctx.withLimit limit) pos missing parts)
  | [] => of_local (pure [])
  | [] :: _ => of_local (Eval.fail ctx pos missing)
  | (n :: part) :: rest => by
    refine (evaluateValue_agree he hl _ _).bind fun v => ?_
    exact (evaluateParts_agree pos missing rest).then_return _

theorem evaluateArguments_agree (args : List Node) (pos : Position) :
    C.Agree (evaluateArguments e ctx args pos) (evaluateArguments e' (ctx.withLimit limit) args pos) :=
  evaluateParts_agree he hl pos _ _

/-! ### Calls -/

theorem callScript_agree (f : ScriptFunction) (args : List Node) (pos : Position) :
    C.Agree (callScript e ctx f args pos) (callScript e' (ctx.withLimit limit) f args pos) := by
  refine (evaluateArguments_agree he hl args pos).bind fun values => ite (of_local _) ?_
  refine ite ((of_local _).bind fun scope => ?_) ((of_local _).bind fun scope => ?_)
  all_goals
    refine (he.evaluate (ctx.within scope f.source) hl f.body).bind fun v => ?_
    cases v <;> exact of_local _

/-- **What a call does while it is active agrees.** -/
theorem callBody_agree (f : Function) (args : List Node) (pos : Position) :
    C.Agree (callBody e ctx f args pos) (callBody e' (ctx.withLimit limit) f args pos) := by
  cases f with
  | script g => exact callScript_agree he hl g args pos
  | native g =>
    exact (evaluateArguments_agree he hl args pos).bind fun values =>
      callNative_agree he hl pos values g

/-! ### Rules -/

theorem applySign_agree (negative : Bool) (operand : SignOperand) :
    C.Agree (applySign e ctx negative operand)
      (applySign e' (ctx.withLimit limit) negative operand) := by
  have hoperand : C.Agree (signOperand e ctx operand)
      (signOperand e' (ctx.withLimit limit) operand) := by
    cases operand with
    | number pos text suffix => exact (of_local (evaluateLiteral ctx pos text suffix)).then_return _
    | word pos name => exact (of_local (readVariable ctx pos name)).then_return _
    | paren pos body => exact (evaluateValue_agree he hl body pos).then_return _
  refine hoperand.bind fun p => ?_
  obtain ⟨v, pos⟩ := p
  cases v <;> exact of_local _

theorem applyIndex_agree (target : Value) (body : List Node) (pos : Position) :
    C.Agree (applyIndex e ctx target body pos)
      (applyIndex e' (ctx.withLimit limit) target body pos) := by
  refine (evaluateValue_agree he hl body pos).bind fun index => ?_
  cases target
  case array r =>
    refine (of_local _).bind fun xs => Agree.bind ?_ fun i => of_local (elementAt ctx xs i pos)
    cases index <;> exact of_local _
  case string s =>
    refine Agree.bind ?_ fun i => (of_local (elementAt ctx s.toList i pos)).then_return _
    cases index <;> exact of_local _
  case dict d =>
    cases index
    case string key =>
      refine (of_local _).bind fun table => ?_
      split <;> exact of_local _
    all_goals exact of_local (Eval.fail ctx pos _)
  all_goals exact of_local (Eval.fail ctx pos _)

theorem evaluateEntries_agree (pos : Position) : ∀ (entries : List (List Node)) (t : Table Value),
    C.Agree (evaluateEntries e ctx pos entries t)
      (evaluateEntries e' (ctx.withLimit limit) pos entries t)
  | [], t => of_local (pure t)
  | entry :: rest, t => by
    unfold evaluateEntries
    split
    · exact of_local (Eval.fail ctx _ _)
    · refine (evaluateValue_agree he hl _ _).bind fun k => ?_
      cases k
      case string key =>
        exact (evaluateValue_agree he hl _ _).bind fun v => evaluateEntries_agree pos rest _
      all_goals exact of_local (Eval.fail ctx _ _)

/-- **Rules agree.** -/
theorem Redex.run_agree (x : Redex) : C.Agree (x.run e ctx) (x.run e' (ctx.withLimit limit)) := by
  cases x with
  | function name paramsPos params body =>
    refine (of_eq (parameterNames_withLimit ctx limit paramsPos _)).bind fun names => ?_
    refine (of_local _).bind fun f => ?_
    cases name <;> exact of_local _
  | wordString text => exact of_local (pure _)
  | declaration name pos body =>
    exact (evaluateValue_agree he hl body pos).bind fun v => of_local _
  | capture v name => exact (of_local (Eval.modifyHeap _)).bind fun _ => of_local (pure v)
  | member target dot key keyPos =>
    cases target
    case dict d =>
      refine (of_local (Eval.onHeap (·.dict d))).bind fun table => ?_
      split <;> exact of_local _
    all_goals exact of_local (Eval.fail ctx dot _)
  | invoke callee calleePos args pos =>
    exact (of_local _).bind fun f => he.call ctx hl f args pos
  | invokeBlock callee calleePos block pos =>
    exact (of_local _).bind fun f => (of_local _).bind fun callback => he.call ctx hl f _ pos
  | index target body pos => exact applyIndex_agree he hl target body pos
  | sign negative operand => exact applySign_agree he hl negative operand
  | number pos text suffix => exact of_local (evaluateLiteral ctx pos text suffix)
  | word pos name => exact of_local (readVariable ctx pos name)
  | quoted raw => exact of_local (pure _)
  | paren pos body => exact evaluateValue_agree he hl body pos
  | array pos body => exact (evaluateParts_agree he hl pos _ _).bind fun items => of_local _
  | dict pos body => exact (evaluateEntries_agree he hl pos _ _).bind fun table => of_local _

theorem applyRule_agree (b : List Node) :
    C.Agree (applyRule e ctx b) (applyRule e' (ctx.withLimit limit) b) := by
  unfold applyRule
  split
  · exact of_local _
  · refine (of_local _).bind fun _ => ?_
    exact (Redex.run_agree he hl _).then_return _

/-! ### Operators -/

namespace Application

variable (a : Application)

theorem operand_agree (side : List Node) :
    C.Agree (a.operand e ctx side) (a.operand e' (ctx.withLimit limit) side) := by
  cases side with
  | nil => exact of_local (Eval.fail ctx a.pos _)
  | cons n _ => exact (evaluateNode_agree he hl n).then_return _

theorem operands_agree :
    C.Agree (a.operands e ctx) (a.operands e' (ctx.withLimit limit)) := by
  refine (operand_agree he hl a a.before).bind fun l => ?_
  exact (operand_agree he hl a a.after).then_return _

theorem applyPlusMinus_agree (sign : Float → Float) (op : Float → Float → Float) :
    C.Agree (a.applyPlusMinus e ctx sign op) (a.applyPlusMinus e' (ctx.withLimit limit) sign op) := by
  refine (operand_agree he hl a a.after).bind fun r => ?_
  refine (of_local (a.numberOf ctx "right" r)).bind fun y => ite (of_local _) ?_
  refine (operand_agree he hl a a.before).bind fun l => ?_
  exact (of_local (a.numberOf ctx "left" l)).then_return _

theorem applyHash_agree : C.Agree (a.applyHash e ctx) (a.applyHash e' (ctx.withLimit limit)) := by
  unfold applyHash
  split
  · exact of_local (Eval.fail ctx a.pos _)
  · exact of_local _
  · exact (evaluateNode_agree he hl _).bind fun v => of_local _

theorem applyAssign_agree :
    C.Agree (a.applyAssign e ctx) (a.applyAssign e' (ctx.withLimit limit)) := by
  unfold applyAssign
  split
  · exact of_local (Eval.fail ctx a.pos _)
  · exact (evaluateValue_agree he hl _ _).bind fun v => of_local _
  · exact of_local (Eval.fail ctx _ _)

/-- **Operators agree.** -/
theorem run_agree : C.Agree (a.run e ctx) (a.run e' (ctx.withLimit limit)) := by
  have hands := operands_agree he hl a
  unfold run
  split
  · refine hands.bind fun p => ?_
    refine (of_local (a.numberOf ctx "left" p.1)).bind fun x => ?_
    exact (of_local (a.numberOf ctx "right" p.2)).then_return _
  · refine hands.bind fun p => ?_
    refine (of_local (a.boolOf ctx "left" p.1)).bind fun x => ?_
    exact (of_local (a.boolOf ctx "right" p.2)).then_return _
  · split
    · exact applyPlusMinus_agree he hl a _ _
    · exact applyPlusMinus_agree he hl a _ _
    · refine (operand_agree he hl a a.after).bind fun r => ?_
      exact (of_local (a.boolOf ctx "right" r)).then_return _
    · exact hands.then_return _
    · exact hands.then_return _
    · exact applyAssign_agree he hl a
    · exact applyHash_agree he hl a

end Application

theorem applyOperator_agree (b : List Node) :
    C.Agree (applyOperator e ctx b) (applyOperator e' (ctx.withLimit limit) b) := by
  unfold applyOperator
  split
  · exact of_local _
  · refine (of_local _).bind fun _ => ?_
    exact (Application.run_agree he hl _).then_return _

/-! ### Statements -/

theorem reduceStep_agree (b : List Node) :
    C.Agree (reduceStep e ctx b) (reduceStep e' (ctx.withLimit limit) b) := by
  refine (applyRule_agree he hl b).bind fun o => ?_
  cases o with
  | some b' => exact of_local _
  | none => exact applyOperator_agree he hl b

theorem reduceFor_agree : ∀ (steps : Nat) (b : List Node),
    C.Agree (reduceFor e ctx steps b) (reduceFor e' (ctx.withLimit limit) steps b)
  | 0, b => of_local (finish ctx b)
  | steps + 1, b => by
    refine (reduceStep_agree he hl b).bind fun o => ?_
    cases o with
    | some b' => exact reduceFor_agree steps b'
    | none => exact of_local (finish ctx b)

theorem evaluateStatement_agree (statement : List Node) :
    C.Agree (evaluateStatement e ctx statement)
      (evaluateStatement e' (ctx.withLimit limit) statement) := by
  cases statement with
  | nil => exact of_local (pure Value.absent)
  | cons n rest => exact reduceFor_agree he hl _ (n :: rest)

theorem evaluateStatements_agree : ∀ (statements : List (List Node)) (last : Value),
    C.Agree (evaluateStatements e ctx last statements)
      (evaluateStatements e' (ctx.withLimit limit) last statements)
  | [], last => of_local (pure last)
  | s :: rest, _ =>
    (evaluateStatement_agree he hl s).bind fun v => evaluateStatements_agree rest v

/-- **Statement lists agree.** -/
theorem evaluateList_agree (nodes : List Node) :
    C.Agree (evaluateList e ctx nodes) (evaluateList e' (ctx.withLimit limit) nodes) :=
  evaluateStatements_agree he hl _ _

end Evaluation

/-! ### Around a call -/

/-- A call that is entered in a given way; `callFunction` enters by
`Eval.withFrame`. -/
def callBy (enter : Frame → Eval Value → Eval Value) (e : Engine) (ctx : Context) (ref : FunctionRef)
    (args : List Node) (pos : Position) : Eval Value := do
  let m ← get
  if !ctx.settings.admitsCall m.calls.length then Eval.fail ctx pos .depthExceeded
  else
    match m.heap.function? ref with
    | none => Eval.fail ctx pos (.notCallable "function")
    | some f => enter (callFrame ctx f pos) (callBody e ctx f args pos)

/-- How a call is refused that would go too deep. -/
def refusal (ctx : Context) (pos : Position) : Stop :=
  .fault (.raisedAt .depthExceeded (some pos) ctx.source)

/-- Calls agree if they agree once they are entered, and if a call that one
run refuses is refused by the other as well, or puts it out of step. -/
theorem callBy_agree {C : Coupling} {enter enter' : Frame → Eval Value → Eval Value} {e e' : Engine}
    {ctx : Context} {limit : Option Int} (ref : FunctionRef) (args : List Node) (pos : Position)
    (hadmits : ctx.settings.admitsCall C.calls.length = true →
      (ctx.withLimit limit).settings.admitsCall C.calls.length = true)
    (hrefuses : ctx.settings.admitsCall C.calls.length = false →
      (ctx.withLimit limit).settings.admitsCall C.calls.length = false ∨ C.lost (refusal ctx pos))
    (henter : ctx.settings.admitsCall C.calls.length = true → ∀ f,
      C.Agree (enter (callFrame ctx f pos) (callBody e ctx f args pos))
        (enter' (callFrame ctx f pos) (callBody e' (ctx.withLimit limit) f args pos))) :
    C.Agree (callBy enter e ctx ref args pos)
      (callBy enter' e' (ctx.withLimit limit) ref args pos) := by
  intro m hm
  have hget {α : Type} (f : Machine → Eval α) : (get >>= f) m = f m m := rfl
  unfold callBy
  rw [hget, hget, hm]
  cases h : ctx.settings.admitsCall C.calls.length with
  | true =>
    rw [hadmits h]
    cases m.heap.function? ref with
    | none => exact of_local (Eval.fail ctx pos _) m hm
    | some f => exact henter h f m hm
  | false =>
    rcases hrefuses h with h' | hlost
    · rw [h']
      exact of_local (Eval.fail ctx pos .depthExceeded) m hm
    · exact .lost m _ hlost

end RuleScript
