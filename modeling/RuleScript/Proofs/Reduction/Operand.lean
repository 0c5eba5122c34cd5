/-
# A buffer of operands reduces operand by operand

An operand is a primary node (a number, a word, a string, a value or a
bracketed span) with the accesses behind it: members and further spans. A
chain is one operand or several, with operators between them. The buffer of a
chain is searched as a whole at every step, and any rule may look at the
neighbours of a node; still no rule reads across an operator, and none fires
in an operand before the operands to its left are values. So reducing a chain
is the same as reducing its operands from left to right, each on its own, and
then reducing the chain of their values (`reduce_chain`).

What carries the proof: as long as an operand is no value, the leftmost match
of the buffer is at the operand's first node and is the one the operand has on
its own (`find?_operand`), because to its left there are only values and
operators (`settled`), and perhaps nodes in front of the chain that a search
passes over (`IsLeft`).

Key definitions: `Joint`, `Chain`, `Operand`, `Operand.step?`, `IsLeft`.
Key theorems: `find?_operand`, `reduce_operand`, `reduce_behind`,
`reduce_chain`.
-/
import RuleScript.Proofs.Reduction.Progress

namespace RuleScript

/-! ### Chains -/

/-- Whether an operator stands between two operands. Assignment does not
count: a name stands on its left. -/
def Operator.isBinary : Operator → Bool
  | .not | .hash | .assign => false
  | _ => true

theorem Operator.symbol_notMem {op : Operator} (h : op.isBinary = true) :
    op.symbol ∉ ["@", "#", "$", ".", "="] := by
  revert h
  cases op <;> decide

/-- An operator between two operands, with the position of its symbol. -/
structure Joint where
  pos : Position
  op : Operator
  binary : op.isBinary = true

/-- The symbol of a joint. -/
def Joint.node (j : Joint) : Node := .symbol j.pos j.op.symbol

/-- One or more things with operators between them. -/
structure Chain (α : Type) where
  first : α
  rest : List (Joint × α)

namespace Chain

variable {α β : Type}

/-- The nodes of what follows the first member of a chain. -/
def tailNodes (nodes : α → List Node) (rest : List (Joint × α)) : List Node :=
  rest.flatMap fun p => p.1.node :: nodes p.2

/-- The buffer of a chain whose members have the given nodes. -/
def nodes (nodes : α → List Node) (c : Chain α) : List Node :=
  nodes c.first ++ tailNodes nodes c.rest

/-- Compute on the members of a chain from left to right, up to the first
stop. -/
def mapM (f : α → Eval β) (c : Chain α) : Eval (Chain β) := do
  let first ← f c.first
  let rest ← c.rest.mapM fun p => do return (p.1, ← f p.2)
  return ⟨first, rest⟩

end Chain

/-! ### Operands -/

/-- The brackets of the language. -/
inductive Bracket where
  | paren
  | bracket
  | brace
deriving DecidableEq

/-- The delimiter of a bracket. -/
def Bracket.delimiter : Bracket → Delimiter
  | .paren => .paren
  | .bracket => .bracket
  | .brace => .brace

/-- The node an operand starts with. -/
inductive Primary where
  | number (pos : Position) (text suffix : String)
  | word (pos : Position) (name : String)
  | quoted (pos : Position) (raw : String)
  | value (pos : Position) (v : Value)
  | span (pos : Position) (kind : Bracket) (body : List Node)

/-- A primary as a node. -/
def Primary.node : Primary → Node
  | .number pos text suffix => .number pos text suffix
  | .word pos name => .word pos name
  | .quoted pos raw => .quoted pos raw
  | .value pos v => .value pos v
  | .span pos kind body => .span pos kind.delimiter body

/-- What may be applied to a primary: a member access, or a span, which calls
or indexes. -/
inductive Access where
  | member (dot pos : Position) (key : String)
  | span (pos : Position) (kind : Bracket) (body : List Node)

/-- The nodes of an access. -/
def Access.nodes : Access → List Node
  | .member dot pos key => [.symbol dot ".", .word pos key]
  | .span pos kind body => [.span pos kind.delimiter body]

/-- A primary with the accesses behind it. -/
structure Operand where
  head : Primary
  accesses : List Access

namespace Operand

/-- The nodes of an operand. -/
def nodes (o : Operand) : List Node := o.head.node :: o.accesses.flatMap Access.nodes

/-- The position of an operand's first node. -/
def pos (o : Operand) : Position := o.head.node.pos

/-- An operand whose head is a value. -/
def ofValue (pos : Position) (v : Value) (accesses : List Access) : Operand :=
  ⟨.value pos v, accesses⟩

/-- The rule that fires next in an operand, its redex, and the accesses that
are left; none in a value that nothing is applied to. -/
def step? : Operand → Option (Rule × Redex × List Access)
  | ⟨.number pos text suffix, rest⟩ => some (.number, .number pos text suffix, rest)
  | ⟨.word pos name, rest⟩ => some (.word, .word pos name, rest)
  | ⟨.quoted _ raw, rest⟩ => some (.glob, .quoted raw, rest)
  | ⟨.span pos .paren body, rest⟩ => some (.parenthesis, .paren pos body, rest)
  | ⟨.span pos .bracket body, rest⟩ => some (.array, .array pos body, rest)
  | ⟨.span pos .brace body, rest⟩ => some (.dict, .dict pos body, rest)
  | ⟨.value _ _, []⟩ => none
  | ⟨.value _ v, .member dot pos key :: rest⟩ => some (.member, .member v dot key pos, rest)
  | ⟨.value vp v, .span pos .paren body :: rest⟩ => some (.invoke, .invoke v vp body pos, rest)
  | ⟨.value vp v, .span pos .brace body :: rest⟩ =>
    some (.invokeCallback, .invokeBlock v vp body pos, rest)
  | ⟨.value _ v, .span pos .bracket body :: rest⟩ => some (.index, .index v body pos, rest)

end Operand

theorem Operand.value_or_step (o : Operand) :
    (∃ pos v, o = .ofValue pos v o.accesses) ∨
      ∃ rule redex, o.step? = some (rule, redex, o.accesses) := by
  obtain ⟨head, accesses⟩ := o
  cases head with
  | value pos v => exact .inl ⟨pos, v, rfl⟩
  | span pos kind body => cases kind <;> exact .inr ⟨_, _, rfl⟩
  | _ => exact .inr ⟨_, _, rfl⟩

/-! ### Where the next rule fires -/

/-- Whether a node may stand before an operand: the start of the buffer, or a
symbol behind which a word is no name. -/
def IsOpening (before : Option Node) : Prop :=
  before = none ∨ ∃ pos text, before = some (.symbol pos text) ∧ text ∉ ["@", "#", "$", "."]

/-- Whether nodes may follow an operand: none, or an operator first. -/
def IsClosing (after : List Node) : Prop := after = [] ∨ ∃ (j : Joint) (rest : List Node), after = j.node :: rest

/-- Values, each with the operator behind it. -/
def settled (done : List ((Position × Value) × Joint)) : List Node :=
  done.flatMap fun d => [.value d.1.1 d.1.2, d.2.node]

/-- No rule starts at a value in front of an operator. -/
theorem here?_value_joint (before : Option Node) (pos : Position) (v : Value) (j : Joint)
    (rest : List Node) : Match.here? before (.value pos v :: j.node :: rest) = none := by
  have hj := Operator.symbol_notMem j.binary
  simp only [List.mem_cons, not_or] at hj
  obtain ⟨-, -, hdollar, hdot, -⟩ := hj
  simp only [Match.here?, List.findSome?_eq_none_iff]
  intro r _
  rw [Option.map_eq_none_iff]
  cases r
  case assignmentDollar | member =>
    simp only [Rule.redex?, Joint.node]
    split
    · simp_all
    · rfl
  all_goals
    simp [Rule.redex?, Joint.node, Rule.signNumber?, Rule.signWord?, Rule.signParen?, Rule.signed?,
      Node.isSymbolText]

/-- No rule starts at an operator behind a value. -/
theorem here?_joint (pos : Position) (v : Value) (j : Joint) (rest : List Node) :
    Match.here? (some (.value pos v)) (j.node :: rest) = none := by
  have hj := Operator.symbol_notMem j.binary
  simp only [List.mem_cons, not_or] at hj
  obtain ⟨hat, hhash, -⟩ := hj
  simp only [Match.here?, List.findSome?_eq_none_iff]
  intro r _
  rw [Option.map_eq_none_iff]
  cases r
  case functionNamed | functionAnonymous | wordString =>
    simp only [Rule.redex?, Joint.node]
    split
    · simp_all
    · rfl
  all_goals
    simp [Rule.redex?, Joint.node, Rule.signNumber?, Rule.signWord?, Rule.signParen?, Rule.signed?,
      isUnaryPosition, Node.isSymbol]

/-- A search passes over values and the operators behind them. -/
theorem findFrom?_settled : ∀ (done : List ((Position × Value) × Joint)) (before rest : List Node),
    Match.findFrom? before (settled done ++ rest) =
      Match.findFrom? ((settled done).reverse ++ before) rest
  | [], _, _ => rfl
  | ((pos, v), j) :: done, before, rest => by
    have ih := findFrom?_settled done (j.node :: .value pos v :: before) rest
    show Match.findFrom? before (.value pos v :: j.node :: (settled done ++ rest)) = _
    rw [Match.findFrom?, here?_value_joint]
    show Match.findFrom? (.value pos v :: before) (j.node :: (settled done ++ rest)) = _
    rw [Match.findFrom?, List.head?_cons, here?_joint]
    simpa [settled] using ih

/-- A search of `left ++ rest` finds no rule in `left`. -/
def PassedOver (left rest : List Node) : Prop :=
  Match.find? (left ++ rest) = Match.findFrom? left.reverse rest

/-- What may stand to the left of a chain of operands: a search passes over it
when it comes to a value. -/
structure IsLeft (left : List Node) : Prop where
  opening : IsOpening left.reverse.head?
  passes : ∀ pos v rest, PassedOver left (.value pos v :: rest)

theorem IsLeft.nil : IsLeft [] := ⟨.inl rfl, fun _ _ _ => rfl⟩

section Left

variable {left : List Node} (hl : IsLeft left)

include hl

theorem IsLeft.isOpening_settled (done : List ((Position × Value) × Joint)) :
    IsOpening ((settled done).reverse ++ left.reverse).head? := by
  rcases List.eq_nil_or_concat done with rfl | ⟨init, d, rfl⟩
  · exact hl.opening
  · have hd := Operator.symbol_notMem d.2.binary
    simp only [List.mem_cons, not_or] at hd
    exact .inr ⟨d.2.pos, d.2.op.symbol, by simp [settled, Joint.node], by simp [hd]⟩

/-- Behind values, a search comes to what follows them. -/
theorem IsLeft.find?_settled (done : List ((Position × Value) × Joint)) {rest : List Node}
    (hfirst : done = [] → PassedOver left rest) :
    Match.find? (left ++ (settled done ++ rest)) =
      Match.findFrom? ((settled done).reverse ++ left.reverse) rest := by
  cases done with
  | nil => exact hfirst rfl
  | cons d done =>
    rw [← findFrom?_settled (d :: done) left.reverse rest]
    exact hl.passes d.1.1 d.1.2 (d.2.node :: (settled done ++ rest))

end Left

/-- A word behind an opening, and that no assignment follows, is read as a
variable. -/
theorem isReference_of_opening {before : Option Node} (hb : IsOpening before) {after : List Node}
    (ha : ∀ n ∈ after.head?, n.isSymbolText "=" = false) : isReference before after = true := by
  rcases hb with rfl | ⟨pos, text, rfl, htext⟩
  · cases after with
    | nil => rfl
    | cons n rest => simp [isReference, ha n rfl]
  · simp only [List.mem_cons, List.not_mem_nil, or_false, not_or] at htext
    obtain ⟨hat, hhash, hdollar, hdot⟩ := htext
    cases after with
    | nil => simp [isReference, hat, hhash, hdollar, hdot]
    | cons n rest => simp [isReference, ha n rfl, hat, hhash, hdollar, hdot]

/-- Whether nodes may follow an operand. Only a word that nothing is applied to
is read by what follows it. -/
def Operand.Precedes (o : Operand) (after : List Node) : Prop :=
  ∀ pos name, o = ⟨.word pos name, []⟩ → IsClosing after

theorem IsClosing.precedes {after : List Node} (h : IsClosing after) (o : Operand) : o.Precedes after :=
  fun _ _ _ => h

theorem Operand.ofValue_precedes (pos : Position) (v : Value) (accesses : List Access) (after : List Node) :
    (ofValue pos v accesses).Precedes after := by
  rintro _ _ ⟨⟩

/-- No assignment sign comes right behind a word that is read. -/
theorem Operand.Precedes.head? {pos : Position} {name : String} {accesses : List Access} {after : List Node}
    (ha : Operand.Precedes ⟨.word pos name, accesses⟩ after) :
    ∀ n ∈ (accesses.flatMap Access.nodes ++ after).head?, n.isSymbolText "=" = false := by
  intro n hn
  cases accesses with
  | nil =>
    rcases ha pos name rfl with rfl | ⟨j, tail, rfl⟩
    · cases hn
    · obtain rfl : j.node = n := by simpa using hn
      have hj := Operator.symbol_notMem j.binary
      simp only [List.mem_cons, not_or] at hj
      simp [Joint.node, Node.isSymbolText, hj.2.2.2.2.1]
  | cons a accesses =>
    cases a with
    | member dot pos key =>
      obtain rfl : .symbol dot "." = n := by simpa [Access.nodes] using hn
      simp [Node.isSymbolText]
    | span pos kind body =>
      obtain rfl : .span pos kind.delimiter body = n := by simpa [Access.nodes] using hn
      rfl

theorem here?_word {before : Option Node} (hb : IsOpening before) {after : List Node}
    (ha : ∀ n ∈ after.head?, n.isSymbolText "=" = false) (pos : Position) (name : String) :
    Match.here? before (.word pos name :: after) = some (.word, .word pos name) := by
  have hassign : Rule.assignmentEqual.redex? before (.word pos name :: after) = none := by
    simp only [Rule.redex?]
    split
    · rename_i h
      obtain ⟨-, rfl⟩ := List.cons.inj h
      have := ha _ rfl
      simp_all [Node.isSymbolText]
    · rfl
  have hword : Rule.word.redex? before (.word pos name :: after) = some (.word pos name) := by
    simp [Rule.redex?, isReference_of_opening hb ha]
  simp only [Match.here?, Rule.table, List.findSome?_cons, hassign, hword]
  rfl

/-- The rule that fires at the front of an operand does not depend on what is
around it. -/
theorem Operand.here?_nodes {o : Operand} {rule : Rule} {redex : Redex} {rest : List Access}
    (h : o.step? = some (rule, redex, rest)) {before : Option Node} (hb : IsOpening before)
    {after : List Node} (ha : o.Precedes after) :
    Match.here? before (o.nodes ++ after) = some (rule, redex) ∧
      (o.nodes ++ after).drop rule.width = rest.flatMap Access.nodes ++ after := by
  obtain ⟨head, accesses⟩ := o
  unfold Operand.step? at h
  split at h
  case h_2 pos name accesses' heq =>
    cases heq
    cases h
    exact ⟨here?_word hb ha.head? pos name, rfl⟩
  case h_7 => cases h
  all_goals
    rename_i heq
    cases heq
    cases h
    exact ⟨rfl, rfl⟩

/-- **An operand's next rule is the buffer's.** With values and operators on
the left, the leftmost match is at the front of the operand. -/
theorem find?_operand {o : Operand} {rule : Rule} {redex : Redex} {rest : List Access}
    (h : o.step? = some (rule, redex, rest)) {left : List Node} (hl : IsLeft left)
    (done : List ((Position × Value) × Joint)) {after : List Node} (ha : o.Precedes after)
    (hfirst : done = [] → PassedOver left (o.nodes ++ after)) :
    Match.find? (left ++ (settled done ++ (o.nodes ++ after))) =
      some ⟨rule, redex, left ++ settled done, o.pos, rest.flatMap Access.nodes ++ after⟩ := by
  obtain ⟨hhere, hdrop⟩ := Operand.here?_nodes h (hl.isOpening_settled done) ha
  rw [hl.find?_settled done hfirst]
  have hcons : o.nodes ++ after = o.head.node :: (o.accesses.flatMap Access.nodes ++ after) := rfl
  rw [hcons] at hhere hdrop ⊢
  rw [Match.findFrom?, hhere]
  simp only [hdrop, List.reverse_append, List.reverse_reverse]
  rfl

/-! ### Reducing operand by operand -/

section Reduction

variable (e : Engine) (ctx : Context)

theorem reduce_value (pos : Position) (v : Value) : reduce e ctx [.value pos v] = pure v := by
  rw [reduce_eq, reduceStep_of_openNodes_eq_zero e ctx rfl, pure_bind]
  rfl

/-- The next rule of an operand fires, in any buffer. -/
theorem reduce_step {o : Operand} {rule : Rule} {redex : Redex} {rest : List Access}
    (h : o.step? = some (rule, redex, rest)) {left : List Node} (hl : IsLeft left)
    (done : List ((Position × Value) × Joint)) {after : List Node} (ha : o.Precedes after)
    (hfirst : done = [] → PassedOver left (o.nodes ++ after)) :
    reduce e ctx (left ++ (settled done ++ (o.nodes ++ after))) = (do
      Eval.fire ctx "RULE" rule.name o.pos
      let v ← redex.run e ctx
      reduce e ctx (left ++ (settled done ++ ((Operand.ofValue o.pos v rest).nodes ++ after)))) := by
  rw [reduce_of_rule (find?_operand h hl done ha hfirst)]
  simp only [Match.result, List.append_assoc]
  rfl

theorem reduce_step_alone {o : Operand} {rule : Rule} {redex : Redex} {rest : List Access}
    (h : o.step? = some (rule, redex, rest)) :
    reduce e ctx o.nodes = (do
      Eval.fire ctx "RULE" rule.name o.pos
      let v ← redex.run e ctx
      reduce e ctx (Operand.ofValue o.pos v rest).nodes) := by
  have := reduce_step e ctx h .nil [] (IsClosing.precedes (.inl rfl) o) fun _ => rfl
  simpa only [settled, List.flatMap_nil, List.nil_append, List.append_nil] using this

/-- A program of one primary is its rule. -/
theorem evaluateList_primary {p : Primary} {rule : Rule} {redex : Redex}
    (h : (Operand.mk p []).step? = some (rule, redex, [])) :
    evaluateList e ctx [p.node] =
      Eval.fire ctx "RULE" rule.name p.node.pos >>= fun _ => redex.run e ctx := by
  have hlist : evaluateList e ctx [p.node] = reduce e ctx [p.node] >>= pure := by
    cases p <;> rfl
  rw [hlist, bind_pure]
  refine (reduce_step_alone e ctx h).trans ?_
  congr 1; funext _
  show (redex.run e ctx >>= fun v => reduce e ctx [.value _ v]) = redex.run e ctx
  simp only [reduce_value, bind_pure]

section Left

variable {left : List Node} (hl : IsLeft left)

include hl

/-- An operand with a value in front reduces on its own: one access after the
other. -/
theorem reduce_ofValue (done : List ((Position × Value) × Joint)) (after : List Node) (pos : Position) : ∀ (accesses : List Access) (v : Value),
    reduce e ctx (left ++ (settled done ++ ((Operand.ofValue pos v accesses).nodes ++ after))) =
      reduce e ctx (Operand.ofValue pos v accesses).nodes >>= fun w =>
        reduce e ctx (left ++ (settled done ++ .value pos w :: after))
  | [], v => by
    show _ = reduce e ctx [.value pos v] >>= _
    rw [reduce_value, pure_bind]
    rfl
  | a :: accesses, v => by
    obtain ⟨rule, redex, h⟩ : ∃ rule redex,
        (Operand.ofValue pos v (a :: accesses)).step? = some (rule, redex, accesses) := by
      rcases a with _ | ⟨_, _ | _ | _, _⟩ <;> exact ⟨_, _, rfl⟩
    have hafter := Operand.ofValue_precedes pos v (a :: accesses) after
    rw [reduce_step e ctx h hl done hafter fun _ => hl.passes pos v _, reduce_step_alone e ctx h]
    simp only [bind_assoc]
    congr 1; funext _; congr 1; funext w
    exact reduce_ofValue done after pos accesses w

/-- **An operand reduces on its own.** -/
theorem reduce_operand (o : Operand) (done : List ((Position × Value) × Joint))
    {after : List Node} (ha : o.Precedes after) (hfirst : done = [] → PassedOver left (o.nodes ++ after)) :
    reduce e ctx (left ++ (settled done ++ (o.nodes ++ after))) =
      reduce e ctx o.nodes >>= fun v =>
        reduce e ctx (left ++ (settled done ++ .value o.pos v :: after)) := by
  rcases o.value_or_step with ⟨pos, v, ho⟩ | ⟨rule, redex, hs⟩
  · rw [ho]
    exact reduce_ofValue e ctx hl done after pos o.accesses v
  · rw [reduce_step e ctx hs hl done ha hfirst, reduce_step_alone e ctx hs]
    simp only [bind_assoc, reduce_ofValue e ctx hl done after]

end Left

/-- The value of an operand, at the position of its first node. -/
def Operand.evaluate (o : Operand) : Eval (Position × Value) := do
  return (o.pos, ← reduce e ctx o.nodes)

/-- The node that carries a value at a position. -/
def valueNode (p : Position × Value) : List Node := [.value p.1 p.2]

theorem isClosing_tailNodes {α : Type} (nodes : α → List Node) (rest : List (Joint × α)) :
    IsClosing (Chain.tailNodes nodes rest) := by
  cases rest with
  | nil => exact .inl rfl
  | cons p rest => exact .inr ⟨p.1, _, rfl⟩

theorem settled_concat (done : List ((Position × Value) × Joint)) (p : Position × Value) (j : Joint)
    (rest : List Node) :
    settled (done ++ [(p, j)]) ++ rest = settled done ++ .value p.1 p.2 :: j.node :: rest := by
  simp [settled]

/-- Operands behind values that are settled: each is reduced in its turn. -/
theorem reduce_tail {left : List Node} (hl : IsLeft left) : ∀ (rest : List (Joint × Operand))
    (o : Operand) (done : List ((Position × Value) × Joint)),
    (done = [] → PassedOver left (o.nodes ++ Chain.tailNodes Operand.nodes rest)) →
    reduce e ctx (left ++ (settled done ++ (o.nodes ++ Chain.tailNodes Operand.nodes rest))) = (do
      let p ← o.evaluate e ctx
      let ps ← rest.mapM fun q => do return (q.1, ← q.2.evaluate e ctx)
      reduce e ctx (left ++ (settled done ++ (valueNode p ++ Chain.tailNodes valueNode ps))))
  | [], o, done, hfirst => by
    rw [reduce_operand e ctx hl o done ((isClosing_tailNodes _ _).precedes o) hfirst]
    simp only [Operand.evaluate, bind_assoc, pure_bind, List.mapM_nil]
    rfl
  | (j, o') :: rest, o, done, hfirst => by
    rw [reduce_operand e ctx hl o done ((isClosing_tailNodes _ _).precedes o) hfirst]
    simp only [Operand.evaluate, bind_assoc, pure_bind, List.mapM_cons]
    congr 1; funext v
    have ih := reduce_tail hl rest o' (done ++ [((o.pos, v), j)]) (by simp)
    rw [settled_concat] at ih
    simp only [settled_concat, Operand.evaluate, bind_assoc, pure_bind] at ih
    exact ih

/-- A chain of operands behind nodes that a search passes over: the operands
are reduced in their turn. -/
theorem reduce_behind {left : List Node} (hl : IsLeft left) (c : Chain Operand)
    (hfirst : PassedOver left (c.nodes Operand.nodes)) :
    reduce e ctx (left ++ c.nodes Operand.nodes) = (do
      let values ← c.mapM (Operand.evaluate e ctx)
      reduce e ctx (left ++ values.nodes valueNode)) := by
  have h := reduce_tail e ctx hl c.rest c.first [] fun _ => hfirst
  simp only [Chain.mapM, bind_assoc, pure_bind]
  exact h

end Reduction

/-- **Compositionality of reduction.** Reducing a chain of operands is
reducing the operands one after another from left to right, each as a buffer
of its own and up to the first stop, and then reducing the chain of their
values, each at the position of its operand's first node: the same result,
and the same machine in the end. -/
theorem reduce_chain (e : Engine) (ctx : Context) (c : Chain Operand) :
    reduce e ctx (c.nodes Operand.nodes) = (do
      let values ← c.mapM (Operand.evaluate e ctx)
      reduce e ctx (values.nodes valueNode)) := by
  exact reduce_behind e ctx .nil c rfl

end RuleScript
