/-
# Reductions that concur

Two buffers may be reduced in different orders or at different places and still
have the same value. The runs then fire at different positions, so the place in
focus and the evaluation trace differ, and if they stop, they may stop for
different reasons. They concur if from machines that differ in no more than that
they end with the same value or both with a stop, on such machines again
(`Concurs`). The second run may be lost, if it stops in a way for which nothing
is promised.

A rule, an operator and a whole reduction concur with themselves, since what is
in focus is only shown, never read (`Redex.run_concurs`,
`Application.run_concurs`, `reduce_concurs`). For buffers that are not the same,
there is a step lemma for a rule that fires in both (`Concurs.of_rule`) and one
for an operator (`Concurs.of_operator`).

Key definitions: `Near`, `Concur`, `Concurs`, `SameOperand`, `SameOutcome`.
Key theorems: `Concurs.bind`, `reduce_concurs`, `Concurs.of_rule`,
`run_concurs_of_operands`, `Concur.outcome`, `reduce_succ_concurs`.
-/
import RuleScript.Proofs.Calls.Levels
import RuleScript.Proofs.Realm.Evaluation
import RuleScript.Proofs.Reduction.Neighbours

namespace RuleScript

open Eval (Returns)

/-! ### The judgement -/

/-- Two machines that differ in no more than the place in focus and the
evaluation trace, once something has fired. -/
def Near (m m' : Machine) : Prop := Twin.unfocused.started.Beside m m'

section Judgement

variable {α β γ δ : Type}

/-- How two runs end that concur: with values that are related or both with a
stop, on machines that are near each other. If the second is `lost`, nothing is
said of the first. -/
inductive Concur (lost : Stop → Prop) (rel : α → β → Prop) :
    Except Stop α × Machine → Except Stop β × Machine → Prop
  | value {a : α} {b : β} {m m' : Machine} (hab : rel a b) (hm : Near m m') :
    Concur lost rel (.ok a, m) (.ok b, m')
  | stop {s s' : Stop} {m m' : Machine} (hm : Near m m') : Concur lost rel (.error s, m) (.error s', m')
  | lost {r : Except Stop α × Machine} {s : Stop} {m : Machine} (hs : lost s) :
    Concur lost rel r (.error s, m)

/-- Two computations concur: from near machines they end alike. -/
def Concurs (lost : Stop → Prop) (rel : α → β → Prop) (x : Eval α) (y : Eval β) : Prop :=
  ∀ ⦃m m' : Machine⦄, Near m m' → Concur lost rel (x m) (y m')

theorem near_fire_left (ctx : Context) (what name : String) (pos : Position) {m m' : Machine}
    (hm : Near m m') : ∃ m₁, Eval.fire ctx what name pos m = (.ok (), m₁) ∧ Near m₁ m' := by
  unfold Eval.fire Eval.note
  cases ctx.settings.tracing <;>
    exact ⟨_, rfl, hm.heap, hm.hosts, hm.seed, hm.calls, False.elim, hm.effects, by rintro ⟨⟩⟩

theorem near_fire_right (ctx : Context) (what name : String) (pos : Position) {m m' : Machine}
    (hm : Near m m') : ∃ m₁, Eval.fire ctx what name pos m' = (.ok (), m₁) ∧ Near m m₁ := by
  unfold Eval.fire Eval.note
  cases ctx.settings.tracing <;>
    exact ⟨_, rfl, hm.heap, hm.hosts, hm.seed, hm.calls, False.elim, hm.effects, hm.idle⟩

variable {lost : Stop → Prop} {rel : α → β → Prop} {x : Eval α} {y : Eval β}

/-- What follows two runs that concur concurs, if it does where they get to. -/
theorem Concur.bind {rel' : γ → δ → Prop} {f : α → Eval γ} {g : β → Eval δ} {m m' : Machine}
    (hxy : Concur lost rel (x m) (y m'))
    (hf : ∀ {a b m₁ m₁'}, rel a b → Near m₁ m₁' → x m = (.ok a, m₁) → y m' = (.ok b, m₁') →
      Concur lost rel' (f a m₁) (g b m₁')) :
    Concur lost rel' ((x >>= f) m) ((y >>= g) m') := by
  rw [Eval.bind_run, Eval.bind_run]
  generalize x m = r, y m' = r' at hxy hf
  cases hxy with
  | value hab hm => exact hf hab hm rfl rfl
  | stop hm => exact .stop hm
  | @lost r s m hs => exact .lost hs

namespace Concurs

theorem pure {a : α} {b : β} (h : rel a b) : Concurs lost rel (pure a) (pure b) :=
  fun _ _ hm => .value h hm

theorem bind {rel' : γ → δ → Prop} {f : α → Eval γ} {g : β → Eval δ} (hx : Concurs lost rel x y)
    (hf : ∀ a b, rel a b → Concurs lost rel' (f a) (g b)) : Concurs lost rel' (x >>= f) (y >>= g) :=
  fun _ _ hm => (hx hm).bind fun hab hm _ _ => hf _ _ hab hm

theorem fire_left (ctx : Context) (what name : String) (pos : Position) (h : Concurs lost rel x y) :
    Concurs lost rel (Eval.fire ctx what name pos >>= fun _ => x) y := by
  intro m m' hm
  obtain ⟨m₁, hleft, hm₁⟩ := near_fire_left ctx what name pos hm
  rw [Eval.bind_run_ok hleft]
  exact h hm₁

theorem fire_right (ctx : Context) (what name : String) (pos : Position) (h : Concurs lost rel x y) :
    Concurs lost rel x (Eval.fire ctx what name pos >>= fun _ => y) := by
  intro m m' hm
  obtain ⟨m₁, hright, hm₁⟩ := near_fire_right ctx what name pos hm
  rw [Eval.bind_run_ok hright]
  exact h hm₁

theorem fire (ctx : Context) (what name what' name' : String) (pos pos' : Position)
    (h : Concurs lost rel x y) :
    Concurs lost rel (Eval.fire ctx what name pos >>= fun _ => x)
      (Eval.fire ctx what' name' pos' >>= fun _ => y) :=
  (h.fire_right ctx what' name' pos').fire_left ctx what name pos

theorem fail (ctx ctx' : Context) (pos pos' : Position) (c c' : Cause) :
    Concurs lost rel (Eval.fail ctx pos c) (Eval.fail ctx' pos' c') := fun _ _ hm => .stop hm

/-- Two computations that fail together concur if the second does with itself. -/
theorem of_failTogether {x y : Eval β} {same : β → β → Prop} (h : Eval.FailTogether x y)
    (hy : Concurs lost same y y) {rel : β → β → Prop} : Concurs lost rel x y := by
  intro m m' hm
  obtain ⟨s, s', m₁, hx, hstop⟩ := h m
  have hself := hy hm
  rw [hstop] at hself
  rw [hx]
  generalize y m' = r at hself
  cases hself with
  | stop hm => exact .stop hm
  | lost hs => exact .lost hs

theorem returns {P : α → Prop} {Q : β → Prop} (h : Concurs lost rel x y) (hx : Returns P x)
    (hy : Returns Q y) : Concurs lost (fun a b => rel a b ∧ P a ∧ Q b) x y := by
  intro m m' hm
  have hxy := h hm
  cases hrun : x m with | mk r m₁ =>
  cases hrun' : y m' with | mk r' m₁' =>
  rw [hrun, hrun'] at hxy
  cases hxy with
  | value hab hm => exact .value ⟨hab, hx _ _ _ hrun, hy _ _ _ hrun'⟩ hm
  | stop hm => exact .stop hm
  | lost hs => exact .lost hs

theorem of_keeps {post : α → Prop} {x y : Eval α}
    (h : Realm.everything.Keeps Twin.unfocused.started x y post) : Concurs lost (· = ·) x y := by
  intro m m' hm
  have hxy := h (Realm.everything_holds m) hm
  generalize x m = r, y m' = r' at hxy
  cases hxy with
  | value _ hm _ => exact .value rfl hm
  | stop _ hm => exact .stop hm

end Concurs

end Judgement

/-! ### What concurs with itself -/

section Level

variable {lost : Stop → Prop} (n : Nat) (ctx : Context)

theorem everything_runs : Realm.everything.Runs Twin.unfocused.started ctx := ⟨trivial, .inl trivial⟩

theorem everything_redex (x : Redex) : Realm.everything.redex x := by
  have hterms := Realm.everything_terms
  have hvalue (v : Value) : Realm.everything.value v := Realm.Unfenced.value v
  cases x
  case sign _ operand =>
    cases operand
    case paren pos body => exact ⟨trivial, hterms body⟩
    all_goals trivial
  case declaration _ _ body | paren _ body | array _ body | dict _ body => exact ⟨trivial, hterms body⟩
  case function _ _ params body => exact ⟨trivial, hterms params, hterms body⟩
  case capture v _ => exact hvalue v
  case member v _ _ _ => exact ⟨hvalue v, trivial, trivial⟩
  case invoke v _ body _ | invokeBlock v _ body _ => exact ⟨hvalue v, trivial, hterms body, trivial⟩
  case index v body _ => exact ⟨hvalue v, hterms body, trivial⟩
  all_goals trivial

theorem Redex.run_concurs (x : Redex) :
    Concurs lost (· = ·) (x.run (Engine.level n) ctx) (x.run (Engine.level n) ctx) :=
  .of_keeps (Realm.Redex.run_keeps (Realm.engines_level Twin.unfocused_echoes n) (everything_runs ctx)
    (everything_redex x))

theorem Application.run_concurs (a : Application) :
    Concurs lost (· = ·) (a.run (Engine.level n) ctx) (a.run (Engine.level n) ctx) :=
  .of_keeps (Realm.Application.run_keeps (Realm.engines_level Twin.unfocused_echoes n) (everything_runs ctx)
    ⟨Realm.everything_terms _, trivial, Realm.everything_terms _⟩)

theorem evaluateNode_concurs (k : Node) :
    Concurs lost (· = ·) (evaluateNode (Engine.level n) ctx k) (evaluateNode (Engine.level n) ctx k) :=
  .of_keeps (Realm.evaluateNode_keeps (Realm.engines_level Twin.unfocused_echoes n) (everything_runs ctx)
    (Realm.everything_terms [k] k List.mem_cons_self))

/-- **A reduction concurs with itself.** -/
theorem reduce_concurs (b : List Node) :
    Concurs lost (· = ·) (reduce (Engine.level n) ctx b) (reduce (Engine.level n) ctx b) :=
  .of_keeps (Realm.reduceFor_keeps (T := Twin.unfocused.started)
    (Realm.engines_level Twin.unfocused_echoes n) (everything_runs ctx) b.length
    (Realm.everything_terms b))

theorem evaluateStatement_concurs (s : List Node) :
    Concurs lost (· = ·) (evaluateStatement (Engine.level n) ctx s)
      (evaluateStatement (Engine.level n) ctx s) :=
  .of_keeps (Realm.evaluateStatement_keeps (T := Twin.unfocused.started)
    (Realm.engines_level Twin.unfocused_echoes n) (everything_runs ctx) (Realm.everything_terms s))

theorem evaluateStatements_concurs (statements : List (List Node)) (last : Value) :
    Concurs lost (· = ·) (evaluateStatements (Engine.level n) ctx last statements)
      (evaluateStatements (Engine.level n) ctx last statements) :=
  .of_keeps (Realm.evaluateStatements_keeps (T := Twin.unfocused.started)
    (Realm.engines_level Twin.unfocused_echoes n) (everything_runs ctx)
    (fun b _ => Realm.everything_terms b) (Realm.Unfenced.value last))

theorem modifyHeap_concurs (f : Heap → Heap) : Concurs lost (· = ·) (Eval.modifyHeap f) (Eval.modifyHeap f) :=
  fun _ _ hm => .value rfl (hm.onHeap f)

/-- A reduction on one level less concurs, or it gives up. -/
theorem reduce_succ_concurs (hlost : ∀ s, Stop.GivesUp s → lost s) (b : List Node) :
    Concurs lost (· = ·) (reduce (Engine.level (n + 1)) ctx b) (reduce (Engine.level n) ctx b) := by
  intro m m' hm
  have hmore : Concur lost (· = ·) (reduce (Engine.level (n + 1)) ctx b m)
      (reduce (Engine.level (n + 1)) ctx b m') := reduce_concurs (n + 1) ctx b hm
  have hends := reduce_succ_ends n ctx b m'
  generalize reduce (Engine.level n) ctx b m' = r, reduce (Engine.level (n + 1)) ctx b m' = r' at hmore hends
  cases hends with
  | value a _ => exact hmore
  | @stop s s' m₁ _ hs =>
    obtain rfl : s = s' := hs
    exact hmore
  | lost m₁ r hs => exact .lost (hlost _ hs)

end Level

/-! ### Operands -/

section Operands

variable {lost : Stop → Prop} {n : Nat} {ctx : Context}

/-- Operands with the same value. -/
def SameOperand (l r : Value × Node) : Prop := l.1 = r.1

theorem operand_concurs (a a' : Application) (side : List Node) :
    Concurs lost SameOperand (a.operand (Engine.level n) ctx side) (a'.operand (Engine.level n) ctx side) := by
  cases side with
  | nil => exact .fail ctx ctx a.pos a'.pos _ _
  | cons k rest => exact (evaluateNode_concurs n ctx k).bind fun v w h => .pure h

theorem operand_concurs_value (a a' : Application) (p p' : Position) (v : Value) (rest rest' : List Node) :
    Concurs lost SameOperand (a.operand (Engine.level n) ctx (.value p v :: rest))
      (a'.operand (Engine.level n) ctx (.value p' v :: rest')) := .pure rfl

theorem numberOf_concurs (a a' : Application) (side side' : String) {l r : Value × Node}
    (h : SameOperand l r) : Concurs lost (· = ·) (a.numberOf ctx side l) (a'.numberOf ctx side' r) := by
  obtain ⟨v, k⟩ := l
  obtain ⟨w, k'⟩ := r
  obtain rfl : v = w := h
  cases v
  case number x => exact .pure rfl
  all_goals exact .fail ctx ctx _ _ _ _

theorem boolOf_concurs (a a' : Application) (side side' : String) {l r : Value × Node}
    (h : SameOperand l r) : Concurs lost (· = ·) (a.boolOf ctx side l) (a'.boolOf ctx side' r) := by
  obtain ⟨v, k⟩ := l
  obtain ⟨w, k'⟩ := r
  obtain rfl : v = w := h
  cases v
  case bool x => exact .pure rfl
  all_goals exact .fail ctx ctx _ _ _ _

/-- **An operator whose operands have the same values has the same value**,
wherever they stand. -/
theorem run_concurs_of_operands {a a' : Application} (hop : a'.operator = a.operator)
    (hne : a.operator ≠ .assign)
    (hbefore : Concurs lost SameOperand (a.operand (Engine.level n) ctx a.before)
      (a'.operand (Engine.level n) ctx a'.before))
    (hafter : Concurs lost SameOperand (a.operand (Engine.level n) ctx a.after)
      (a'.operand (Engine.level n) ctx a'.after))
    (hunary : isUnaryPosition a'.before.head? = isUnaryPosition a.before.head?)
    (hbetween : ∀ v, a.between v = a'.between v)
    (hleading : a.operator.isBinary = false ∨ isUnaryPosition a.before.head? = true →
      ∀ v, a.leading v = a'.leading v)
    (hhash : a.operator = .hash → Concurs lost (· = ·) (a.applyHash (Engine.level n) ctx)
      (a'.applyHash (Engine.level n) ctx)) :
    Concurs lost (· = ·) (a.run (Engine.level n) ctx) (a'.run (Engine.level n) ctx) := by
  have hands : Concurs lost (fun l r => SameOperand l.1 r.1 ∧ SameOperand l.2 r.2)
      (a.operands (Engine.level n) ctx) (a'.operands (Engine.level n) ctx) :=
    hbefore.bind fun l l' hl => hafter.bind fun r r' hr => .pure ⟨hl, hr⟩
  have hsum (sign : Float → Float) (op : Float → Float → Float) :
      Concurs lost (· = ·) (a.applyPlusMinus (Engine.level n) ctx sign op)
        (a'.applyPlusMinus (Engine.level n) ctx sign op) := by
    refine hafter.bind fun r r' hr => (numberOf_concurs a a' _ _ hr).bind ?_
    rintro y _ rfl
    rw [hunary]
    split
    · rename_i hhead
      exact .pure (hleading (.inr hhead) _)
    · refine hbefore.bind fun l l' hl => (numberOf_concurs a a' _ _ hl).bind ?_
      rintro x _ rfl
      exact .pure (hbetween _)
  unfold Application.run
  rw [hop]
  cases hkind : a.operator
  case assign => exact absurd hkind hne
  case hash => exact hhash hkind
  case plus | minus => exact hsum _ _
  case not =>
    refine hafter.bind fun r r' hr => (boolOf_concurs a a' _ _ hr).bind ?_
    rintro b _ rfl
    exact .pure (hleading (.inl (by rw [hkind]; rfl)) _)
  case equal | notEqual =>
    refine hands.bind ?_
    rintro ⟨⟨l, _⟩, r, _⟩ ⟨⟨l', _⟩, r', _⟩ ⟨hl, hr⟩
    obtain rfl : l = l' := hl
    obtain rfl : r = r' := hr
    exact .pure (hbetween _)
  case and | or =>
    refine hands.bind fun l r h => (boolOf_concurs a a' _ _ h.1).bind ?_
    rintro x _ rfl
    refine (boolOf_concurs a a' _ _ h.2).bind ?_
    rintro y _ rfl
    exact .pure (hbetween _)
  all_goals
    refine hands.bind fun l r h => (numberOf_concurs a a' _ _ h.1).bind ?_
    rintro x _ rfl
    refine (numberOf_concurs a a' _ _ h.2).bind ?_
    rintro y _ rfl
    exact .pure (hbetween _)

end Operands

/-! ### Statement lists -/

theorem splitOnFrom_front (text : String) : ∀ nodes part : List Node,
    ∃ (parts : List (List Node)) (part' : List Node), ∀ more,
      Node.splitOnFrom text part (nodes ++ more) = parts ++ Node.splitOnFrom text part' more
  | [], part => ⟨[], part, fun _ => rfl⟩
  | n :: nodes, part => by
    by_cases hn : n.isSymbolText text = true
    · obtain ⟨parts, part', h⟩ := splitOnFrom_front text nodes []
      exact ⟨part.reverse :: parts, part', fun more => by simp [Node.splitOnFrom, hn, h]⟩
    · obtain ⟨parts, part', h⟩ := splitOnFrom_front text nodes (n :: part)
      exact ⟨parts, part', fun more => by simp [Node.splitOnFrom, hn, h]⟩

theorem splitOnFrom_back (text : String) : ∀ nodes : List Node,
    ∃ (rest : List Node) (parts : List (List Node)), ∀ part,
      Node.splitOnFrom text part nodes = (part.reverse ++ rest) :: parts := by
  intro nodes
  induction nodes with
  | nil => exact ⟨[], [], fun part => by simp [Node.splitOnFrom]⟩
  | cons n nodes ih =>
    by_cases hn : n.isSymbolText text = true
    · exact ⟨[], Node.splitOnFrom text [] nodes, fun part => by simp [Node.splitOnFrom, hn]⟩
    · obtain ⟨rest, parts, h⟩ := ih
      exact ⟨n :: rest, parts, fun part => by simp [Node.splitOnFrom, hn, h]⟩

/-- A value is part of one statement of a statement list. The statements do not
depend on its position. -/
theorem splitOn_around (text : String) (front back : List Node) :
    ∃ (parts : List (List Node)) (left right : List Node) (parts' : List (List Node)), ∀ p v,
      Node.splitOn text (front ++ .value p v :: back) = parts ++ (left ++ .value p v :: right) :: parts' := by
  obtain ⟨parts, part, hfront⟩ := splitOnFrom_front text front []
  obtain ⟨right, parts', hback⟩ := splitOnFrom_back text back
  refine ⟨parts, part.reverse, right, parts', fun p v => ?_⟩
  have hsplit : Node.splitOn text (front ++ .value p v :: back) =
      Node.splitOnFrom text [] (front ++ .value p v :: back) := by cases front <;> rfl
  rw [hsplit, hfront]
  simp [Node.splitOnFrom, Node.isSymbolText, hback]

section Statements

variable {lost : Stop → Prop} {n : Nat} {ctx : Context}

/-- Two statement lists that differ in one statement. -/
theorem evaluateStatements_around {s s' : List Node}
    (h : Concurs lost (· = ·) (evaluateStatement (Engine.level n) ctx s) (evaluateStatement (Engine.level n) ctx s'))
    (behind : List (List Node)) : ∀ (front : List (List Node)) (last : Value),
    Concurs lost (· = ·) (evaluateStatements (Engine.level n) ctx last (front ++ s :: behind))
      (evaluateStatements (Engine.level n) ctx last (front ++ s' :: behind))
  | [], _ => by
    refine h.bind ?_
    rintro v _ rfl
    exact evaluateStatements_concurs n ctx behind v
  | t :: front, _ => by
    refine (evaluateStatement_concurs n ctx t).bind ?_
    rintro v _ rfl
    exact evaluateStatements_around h behind front v

theorem evaluateValue_concurs {e : Engine} {nodes nodes' : List Node} (hne : nodes ≠ []) (hne' : nodes' ≠ [])
    (h : Concurs lost (· = ·) (e.evaluate ctx nodes) (e.evaluate ctx nodes')) (pos pos' : Position) :
    Concurs lost (· = ·) (evaluateValue e ctx nodes pos) (evaluateValue e ctx nodes' pos') := by
  obtain ⟨k, rest, rfl⟩ := List.exists_cons_of_ne_nil hne
  obtain ⟨k', rest', rfl⟩ := List.exists_cons_of_ne_nil hne'
  refine Concurs.bind h ?_
  rintro v _ rfl
  cases v
  case absent => exact .fail ctx ctx _ _ _ _
  all_goals exact .pure rfl

end Statements

/-! ### Steps -/

/-- Two runs with the same outcome: the same value or a stop of both, and the
same heap. -/
structure SameOutcome (r r' : Except Stop Value × Machine) : Prop where
  value : r.1.toOption = r'.1.toOption
  heap : r.2.heap = r'.2.heap

section Steps

variable {lost : Stop → Prop} {rel : Value → Value → Prop} {e : Engine} {n : Nat} {ctx : Context}

/-- Two buffers in which rules fire that concur. -/
theorem Concurs.of_rule {b b' : List Node} {r r' : Match} {same : Value → Value → Prop}
    (hb : Match.find? b = some r) (hb' : Match.find? b' = some r')
    (hrun : Concurs lost same (r.redex.run e ctx) (r'.redex.run e ctx))
    (h : ∀ v v', same v v' → Concurs lost rel (reduce e ctx (r.result v)) (reduce e ctx (r'.result v'))) :
    Concurs lost rel (reduce e ctx b) (reduce e ctx b') := by
  rw [reduce_of_rule hb, reduce_of_rule hb']
  exact .fire ctx _ _ _ _ _ _ (hrun.bind h)

/-- Two buffers in which operators are applied that concur and leave one
buffer. -/
theorem Concurs.of_operator {b b' : List Node} {a a' : Application} (hb : Match.find? b = none)
    (hb' : Match.find? b' = none) (ha : Application.find? b = some a) (ha' : Application.find? b' = some a')
    (hrun : Concurs lost (· = ·) (a.run (Engine.level n) ctx) (a'.run (Engine.level n) ctx)) :
    Concurs lost (· = ·) (reduce (Engine.level n) ctx b) (reduce (Engine.level n) ctx b') := by
  rw [reduce_of_operator hb ha, reduce_of_operator hb' ha']
  refine .fire ctx _ _ _ _ _ _ (hrun.bind ?_)
  rintro c _ rfl
  exact reduce_concurs n ctx c

/-- **A run that concurs with a reduction has its outcome**, whatever is in focus
at first: the same value or a stop where it stops, and the same heap, unless it
is lost. -/
theorem Concur.outcome {b : List Node} {y : Eval Value} {m : Machine}
    (h : ∀ m₀, Near m₀ m → Concur lost (· = ·) (reduce (Engine.level n) ctx b m₀) (y m)) :
    SameOutcome (reduce (Engine.level n) ctx b m) (y m) ∨ ∃ s m', y m = (.error s, m') ∧ lost s := by
  -- the first run is compared with one that has something in focus, and that with the second
  have hkeeps : Realm.everything.Keeps Twin.unfocused (reduce (Engine.level n) ctx b)
      (reduce (Engine.level n) ctx b) Realm.everything.value :=
    Realm.reduceFor_keeps (Realm.engines_level Twin.unfocused_echoes n) ⟨trivial, .inl trivial⟩ b.length
      (Realm.everything_terms b)
  have hbeside : Twin.unfocused.Beside m { m with focus := some ⟨none, none, 0⟩ } :=
    ⟨rfl, rfl, rfl, fun _ => rfl, False.elim, rfl, fun _ => trivial⟩
  have hfocus := hkeeps (Realm.everything_holds m) hbeside
  have hxy := h { m with focus := some ⟨none, none, 0⟩ }
    ⟨rfl, rfl, rfl, fun _ => rfl, False.elim, rfl, by rintro ⟨⟩⟩
  generalize reduce (Engine.level n) ctx b m = r at hfocus ⊢
  generalize reduce (Engine.level n) ctx b _ = r₁, y m = r₂ at hfocus hxy ⊢
  cases hfocus with
  | value _ hb _ =>
    cases hxy with
    | value hab hm => exact .inl ⟨congrArg some hab, hb.heap.symm.trans hm.heap.symm⟩
    | lost hs => exact .inr ⟨_, _, rfl, hs⟩
  | stop _ hb =>
    cases hxy with
    | stop hm => exact .inl ⟨rfl, hb.heap.symm.trans hm.heap.symm⟩
    | lost hs => exact .inr ⟨_, _, rfl, hs⟩

end Steps

end RuleScript
