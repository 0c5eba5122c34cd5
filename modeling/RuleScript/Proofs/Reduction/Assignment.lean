/-
# Chains of assignments

In `x = y = e` nothing is looked up and nothing applied in front of `e`: the
rules pass over a name that `=` follows, and `=` binds looser than every other
operator. So the expression is reduced first, as it is on its own
(`reduce_targets_chain`, `reduce_targets_expression`). Then the first `=` is
applied; it evaluates all that is on its right one level down, where the next
`=` is the first, and so on to the value, and the names are assigned on the way
back (`reduce_targets_value`). As many levels are used up as there are names.

There is one more way to assign. A statement that ends in a name, `=` and a
single parenthesis ends in a declaration, a rule of its own, which assigns the
value of the parenthesis and has no value itself. With one name that is the
whole statement. With more there is nothing left to assign to the others, and
the statement fails.

Key definitions: `Target`, `assignment`.
Key theorems: `IsLeft.targets`, `reduce_targets_expression`,
`reduce_targets_value`, `assignment_chains`.
-/
import RuleScript.Proofs.Heap.Assignment
import RuleScript.Proofs.Realm.Evaluation
import RuleScript.Proofs.Reduction.Precedence
import RuleScript.Runner.Session

namespace RuleScript

open Application (allFrom)
open Eval (bind_run_ok bind_run_error)

/-- A name that is assigned to, with the positions of the name and of its
`=`. -/
structure Target where
  pos : Position
  name : String
  sign : Position

namespace Target

/-- The nodes of a target. -/
def nodes (t : Target) : List Node := [.word t.pos t.name, .symbol t.sign "="]

/-- The nodes of targets, one after the other. -/
def allNodes (ts : List Target) : List Node := ts.flatMap nodes

/-- The names of targets. -/
def names (ts : List Target) : List String := ts.map (·.name)

end Target

/-- The statement that assigns an expression to targets. -/
def assignment (ts : List Target) (c : Chain Operand) : List Node :=
  Target.allNodes ts ++ c.nodes Operand.nodes

/-- A single parenthesis. -/
def IsParenthesis (nodes : List Node) : Prop := ∃ pos body, nodes = [.span pos .paren body]

/-! ### Rules pass over targets -/

/-- No rule starts at a name that is assigned to, unless it is declared. -/
theorem here?_target {before : Option Node} (t : Target) {rest : List Node} (hrest : ¬IsParenthesis rest) :
    Match.here? before (.word t.pos t.name :: .symbol t.sign "=" :: rest) = none := by
  simp only [Match.here?, List.findSome?_eq_none_iff]
  intro r _
  rw [Option.map_eq_none_iff]
  cases r
  case assignmentEqual =>
    simp only [Rule.redex?]
    split
    · rename_i heq
      obtain ⟨-, -, rfl⟩ : _ ∧ _ ∧ rest = _ := by simpa using heq
      exact absurd ⟨_, _, rfl⟩ hrest
    · rfl
  all_goals
    simp [Rule.redex?, Rule.signNumber?, Rule.signWord?, Rule.signParen?, Rule.signed?, Node.isSymbolText,
      isReference]

/-- No rule starts at an `=`. -/
theorem here?_equals (before : Option Node) (pos : Position) (rest : List Node) :
    Match.here? before (.symbol pos "=" :: rest) = none := by
  simp only [Match.here?, List.findSome?_eq_none_iff]
  intro r _
  rw [Option.map_eq_none_iff]
  cases r
  case functionNamed | functionAnonymous | wordString =>
    simp only [Rule.redex?]
    split
    · rename_i heq
      obtain ⟨⟨-, rfl⟩, -⟩ : (_ ∧ "=" = _) ∧ _ := by simpa using heq
      simp
    · rfl
  all_goals
    simp [Rule.redex?, Rule.signNumber?, Rule.signWord?, Rule.signParen?, Rule.signed?, Node.isSymbolText]

theorem findFrom?_targets {rest : List Node} (hrest : ¬IsParenthesis rest) : ∀ (ts : List Target)
    (before : List Node), Match.findFrom? before (Target.allNodes ts ++ rest) =
      Match.findFrom? ((Target.allNodes ts).reverse ++ before) rest
  | [], _ => rfl
  | t :: ts, before => by
    have ih := findFrom?_targets hrest ts (.symbol t.sign "=" :: .word t.pos t.name :: before)
    have hmore : ¬IsParenthesis (Target.allNodes ts ++ rest) := by
      cases ts with
      | nil => exact hrest
      | cons t' ts =>
        rintro ⟨pos, body, heq⟩
        cases heq
    show Match.findFrom? before (.word t.pos t.name :: .symbol t.sign "=" :: (Target.allNodes ts ++ rest)) = _
    rw [Match.findFrom?, here?_target t hmore]
    show Match.findFrom? (.word t.pos t.name :: before) (.symbol t.sign "=" :: (Target.allNodes ts ++ rest)) = _
    rw [Match.findFrom?, here?_equals]
    simpa [Target.allNodes, Target.nodes] using ih

theorem find?_targets (ts : List Target) {rest : List Node} (hrest : ¬IsParenthesis rest) :
    PassedOver (Target.allNodes ts) rest := by
  have h := findFrom?_targets hrest ts []
  rwa [List.append_nil] at h

theorem head?_targets (ts : List Target) :
    (Target.allNodes ts).reverse.head? = none ∨
      ∃ pos, (Target.allNodes ts).reverse.head? = some (.symbol pos "=") := by
  rcases List.eq_nil_or_concat ts with rfl | ⟨init, t, rfl⟩
  · exact .inl rfl
  · exact .inr ⟨t.sign, by simp [Target.allNodes, Target.nodes]⟩

/-- **Targets may stand to the left of operands.** -/
theorem IsLeft.targets (ts : List Target) : IsLeft (Target.allNodes ts) where
  opening := by
    rcases head?_targets ts with h | ⟨pos, h⟩
    · exact .inl h
    · exact .inr ⟨pos, "=", h, by simp⟩
  passes pos v rest := find?_targets ts (by rintro ⟨_, _, heq⟩; cases heq)

/-! ### The expression is reduced first -/

/-- The operators of targets are assignments. -/
theorem allFrom_targets (rest : List Node) : ∀ (ts : List Target) (before : List Node),
    ∃ as, allFrom before (Target.allNodes ts ++ rest) =
        as ++ allFrom ((Target.allNodes ts).reverse ++ before) rest ∧
      ∀ a ∈ as, a.operator = .assign
  | [], before => ⟨[], rfl, by simp⟩
  | t :: ts, before => by
    obtain ⟨as, hall, has⟩ := allFrom_targets rest ts (.symbol t.sign "=" :: .word t.pos t.name :: before)
    refine ⟨⟨.assign, .word t.pos t.name :: before, t.sign, Target.allNodes ts ++ rest⟩ :: as, ?_, ?_⟩
    · have heq : Operator.ofSymbol? "=" = some .assign := Operator.ofSymbol?_symbol .assign
      show allFrom before
        (.word t.pos t.name :: .symbol t.sign "=" :: (Target.allNodes ts ++ rest)) = _
      simp only [allFrom, heq, hall, List.cons_append]
      simp [Target.allNodes, Target.nodes]
    · rintro a (_ | ⟨_, ha⟩)
      · rfl
      · exact has a ha

section Reduction

variable (e : Engine) (ctx : Context)

/-- Behind targets the tightest operator of a tree is applied as if they were
not there. -/
theorem reduceStep_targets {h : Heap} (ts : List Target) {t : Expression} (ht : t.Fits 12)
    (hleaf : ∀ pos v, t ≠ .leaf pos v) : ∃ next : Option Expression,
    Eval.Mirrors h (reduceStep e ctx (Target.allNodes ts ++ t.nodes))
        ((next.map fun t' => Target.allNodes ts ++ t'.nodes).map some) ∧
      t.eval h = next.bind (·.eval h) ∧ ∀ t', next = some t' → t'.Fits 12 ∧ t'.size < t.size := by
  have hunary : isUnaryPosition (Target.allNodes ts).reverse.head? = true := by
    rcases head?_targets ts with h | ⟨pos, h⟩ <;> rw [h] <;> rfl
  rcases t.exists_contraction e ctx h ht (Target.allNodes ts).reverse [] hunary with
    ⟨pos, v, rfl⟩ | ⟨a, ha, hlevel, next, hrun, heval, hnext⟩
  · exact absurd rfl (hleaf pos v)
  · have hrule : Match.find? (Target.allNodes ts ++ t.nodes) = none := by
      have hparen : ¬IsParenthesis t.nodes := by
        rintro ⟨pos, body, heq⟩
        have := t.isRaw_nodes (.span pos .paren body) (by simp [heq])
        cases this
      rw [find?_targets ts hparen]
      exact Match.findFrom?_eq_none t.isRaw_nodes _
    have hfind : Application.find? (Target.allNodes ts ++ t.nodes) = some a := by
      obtain ⟨as, hall, has⟩ := allFrom_targets t.nodes ts []
      have htree := t.allFrom_nodes (Target.allNodes ts).reverse []
      simp only [List.append_nil, allFrom] at hall htree
      refine Application.find?_of_tightest (hall ▸ htree ▸ ha.append_left fun x hx => ?_)
      have hassign : x.priority = 13 := by
        rw [Application.priority, has x hx]
        rfl
      omega
    refine ⟨next, reduceStep_mirrors hrule hfind ?_, heval, hnext⟩
    simpa using hrun

/-- **Behind targets an expression reduces to its value.** -/
theorem reduce_targets_expression (ts : List Target) : ∀ (size : Nat) {t : Expression} {h : Heap} {v : Value},
    t.size ≤ size → t.Fits 12 → t.eval h = some v → ∀ m : Machine, m.heap = h → ∃ pos m', m'.heap = h ∧
      reduce e ctx (Target.allNodes ts ++ t.nodes) m =
        reduce e ctx (Target.allNodes ts ++ [.value pos v]) m'
  | size, .leaf pos w, h, v, _, _, heval, m, hm => by
    obtain rfl : w = v := by simpa [Expression.eval] using heval
    exact ⟨pos, m, hm, rfl⟩
  | size, t@(.unary ..), h, v, hsize, ht, heval, m, hm
  | size, t@(.binary ..), h, v, hsize, ht, heval, m, hm => by
    obtain ⟨next, hstep, hval, hnext⟩ := reduceStep_targets (h := h) e ctx ts ht (by rintro _ _ ⟨⟩)
    cases next with
    | none => simp [hval] at heval
    | some t' =>
      obtain ⟨hfits, hlt⟩ := hnext t' rfl
      obtain ⟨m₁, hrun, hm₁⟩ := hstep m hm
      obtain ⟨k, rfl⟩ : ∃ k, size = k + 1 := ⟨size - 1, by omega⟩
      obtain ⟨pos, m', hm', hreduce⟩ := reduce_targets_expression ts k (t := t') (by omega) hfits
        (hval.symm.trans heval) m₁ hm₁
      refine ⟨pos, m', hm', ?_⟩
      rw [reduce_eq, bind_run_ok hrun]
      exact hreduce

/-- The first `=` is applied to everything behind it. -/
theorem reduce_first_target (t : Target) (ts : List Target) (pos : Position) (v : Value) :
    reduce e ctx (Target.allNodes (t :: ts) ++ [.value pos v]) = (do
      Eval.fire ctx "OP" "=" t.sign
      let w ← evaluateValue e ctx (Target.allNodes ts ++ [.value pos v]) t.sign
      Eval.modifyHeap (·.assign ctx.scope t.name w)
      return w) := by
  have hrule : Match.find? (Target.allNodes (t :: ts) ++ [.value pos v]) = none := by
    rw [(IsLeft.targets (t :: ts)).passes pos v []]
    exact Match.findFrom?_eq_none (by simp [Node.isRaw]) _
  have hfind : Application.find? (Target.allNodes (t :: ts) ++ [.value pos v]) =
      some ⟨.assign, [.word t.pos t.name], t.sign, Target.allNodes ts ++ [.value pos v]⟩ := by
    obtain ⟨as, hall, has⟩ := allFrom_targets [.value pos v] ts [.symbol t.sign "=", .word t.pos t.name]
    have heq : Operator.ofSymbol? "=" = some .assign := Operator.ofSymbol?_symbol .assign
    have hfirst : allFrom [] (Target.allNodes (t :: ts) ++ [.value pos v]) =
        ⟨.assign, [.word t.pos t.name], t.sign, Target.allNodes ts ++ [.value pos v]⟩ :: as := by
      show allFrom [] (.word t.pos t.name :: .symbol t.sign "=" :: (Target.allNodes ts ++ [.value pos v])) = _
      simp only [allFrom, heq, hall, List.append_nil]
    refine Application.find?_of_tightest ⟨[], as, hfirst, by simp, fun a ha => ?_⟩
    rw [Application.priority, Application.priority, has a ha]
    exact Nat.le_refl 13
  rw [reduce_of_operator hrule hfind]
  congr 1; funext _
  show ((evaluateValue e ctx (Target.allNodes ts ++ [.value pos v]) t.sign >>= fun w =>
    Eval.modifyHeap (·.assign ctx.scope t.name w) >>= fun _ => pure [Node.value t.pos w]) >>= fun b =>
      reduce e ctx b) = _
  simp only [bind_assoc, pure_bind, reduce_value]

end Reduction

/-! ### The assignments -/

/-- Without a semicolon there is one statement. -/
theorem evaluateList_statement (e : Engine) (ctx : Context) {nodes : List Node} (hne : nodes ≠ [])
    (h : ∀ n ∈ nodes, n.isSymbolText ";" = false) : evaluateList e ctx nodes = reduce e ctx nodes := by
  have hsplit : ∀ (ns part : List Node), (∀ n ∈ ns, n.isSymbolText ";" = false) →
      Node.splitOnFrom ";" part ns = [part.reverse ++ ns] := by
    intro ns
    induction ns with
    | nil =>
      intro part _
      rw [Node.splitOnFrom, List.append_nil]
    | cons n ns ih =>
      intro part hns
      obtain ⟨hn, hns⟩ := List.forall_mem_cons.mp hns
      simp [Node.splitOnFrom, hn, ih (n :: part) hns]
  cases nodes with
  | nil => exact absurd rfl hne
  | cons n ns =>
    have hparts : Node.splitOn ";" (n :: ns) = [n :: ns] := hsplit (n :: ns) [] h
    rw [evaluateList, hparts]
    show (reduce e ctx (n :: ns) >>= fun v => pure v) = _
    rw [bind_pure]

theorem evaluateList_targets (e : Engine) (ctx : Context) (ts : List Target) (pos : Position) (v : Value) :
    evaluateList e ctx (Target.allNodes ts ++ [.value pos v]) =
      reduce e ctx (Target.allNodes ts ++ [.value pos v]) := by
  refine evaluateList_statement e ctx (by simp) fun n hn => ?_
  rcases List.mem_append.mp hn with hn | hn
  · obtain ⟨t, -, hn⟩ := List.mem_flatMap.mp hn
    rcases List.mem_cons.mp hn with rfl | hn
    · rfl
    · obtain rfl := List.mem_singleton.mp hn
      rfl
  · obtain rfl := List.mem_singleton.mp hn
    rfl

theorem evaluateValue_ok {e : Engine} {ctx : Context} {nodes : List Node} (hne : nodes ≠ [])
    (pos : Position) {v : Value} (hv : v ≠ .absent) {m m' : Machine}
    (h : e.evaluate ctx nodes m = (.ok v, m')) : evaluateValue e ctx nodes pos m = (.ok v, m') := by
  cases nodes with
  | nil => exact absurd rfl hne
  | cons n ns =>
    refine (bind_run_ok h _).trans ?_
    cases v with
    | absent => exact absurd rfl hv
    | _ => rfl

theorem evaluateValue_error {e : Engine} {ctx : Context} {nodes : List Node} (hne : nodes ≠ [])
    (pos : Position) {s : Stop} {m m' : Machine} (h : e.evaluate ctx nodes m = (.error s, m')) :
    evaluateValue e ctx nodes pos m = (.error s, m') := by
  cases nodes with
  | nil => exact absurd rfl hne
  | cons n ns => exact bind_run_error h _

/-- **Targets in front of a value are assigned on the way back**, if there are
as many levels as targets. If not, evaluation gives up. -/
theorem reduce_targets_value (ctx : Context) (pos : Position) {v : Value} (hv : v ≠ .absent) :
    ∀ (ts : List Target) (k : Nat) (m : Machine), ∃ m',
      (ts.length ≤ k ∧ m'.heap = m.heap.assignAll ctx.scope (Target.names ts) v ∧
        reduce (Engine.level k) ctx (Target.allNodes ts ++ [.value pos v]) m = (.ok v, m')) ∨
      (k < ts.length ∧
        reduce (Engine.level k) ctx (Target.allNodes ts ++ [.value pos v]) m =
          (.error (.exhausted none), m'))
  | [], k, m => by
    refine ⟨m, .inl ⟨Nat.zero_le k, rfl, ?_⟩⟩
    show reduce (Engine.level k) ctx [.value pos v] m = _
    rw [reduce_value]
    rfl
  | t :: ts, k, m => by
    obtain ⟨m₁, hfire, hheap, -⟩ := Eval.fire_run ctx "OP" "=" t.sign m
    have hne : Target.allNodes ts ++ [Node.value pos v] ≠ [] := by simp
    rw [reduce_first_target, bind_run_ok hfire]
    cases k with
    | zero =>
      have hgives : (Engine.level 0).evaluate ctx (Target.allNodes ts ++ [.value pos v]) m₁ =
          (.error (.exhausted none), m₁) := rfl
      exact ⟨m₁, .inr ⟨Nat.succ_pos _, bind_run_error (evaluateValue_error hne t.sign hgives) _⟩⟩
    | succ k =>
      have hlevel : (Engine.level (k + 1)).evaluate ctx (Target.allNodes ts ++ [.value pos v]) =
          reduce (Engine.level k) ctx (Target.allNodes ts ++ [.value pos v]) :=
        evaluateList_targets (Engine.level k) ctx ts pos v
      obtain ⟨m₂, ⟨hk, hheap₂, hrun⟩ | ⟨hk, hrun⟩⟩ := reduce_targets_value ctx pos hv ts k m₁
      all_goals rw [← hlevel] at hrun
      · refine ⟨{ m₂ with heap := m₂.heap.assign ctx.scope t.name v }, .inl ⟨Nat.succ_le_succ hk, ?_, ?_⟩⟩
        · show m₂.heap.assign ctx.scope t.name v = _
          rw [hheap₂, hheap]
          rfl
        · rw [bind_run_ok (evaluateValue_ok hne t.sign hv hrun)]
          rfl
      · exact ⟨m₂, .inr ⟨Nat.succ_lt_succ hk, bind_run_error (evaluateValue_error hne t.sign hrun) _⟩⟩

/-- A chain of values spells a tree. -/
theorem exists_tree (c : Chain (Position × Value)) :
    ∃ t : Expression, t.Fits 12 ∧ t.nodes = c.nodes valueNode := by
  let signed (p : Position × Value) : Signed := ⟨none, p.1, p.2⟩
  let f : Formula := {
    chain := ⟨signed c.first, c.rest.map fun q => (q.1, signed q.2)⟩
    unsigned := by
      intro q hq _
      obtain ⟨r, -, rfl⟩ := List.mem_map.mp hq
      rfl }
  refine ⟨f.tree, f.tree_fits, ?_⟩
  rw [f.tree_nodes]
  simp [f, signed, Formula.nodes, Chain.nodes, Chain.tailNodes, Signed.nodes, valueNode, List.flatMap_map]

/-- Behind targets an expression comes to the value that it has on its own. -/
theorem reduce_assignment (e : Engine) (ctx : Context) (ts : List Target) {c : Chain Operand}
    (hparen : ¬IsParenthesis (c.nodes Operand.nodes)) {m m₁ : Machine} {v : Value}
    (hrun : reduce e ctx (c.nodes Operand.nodes) m = (.ok v, m₁)) : ∃ pos m', m'.heap = m₁.heap ∧
      reduce e ctx (assignment ts c) m = reduce e ctx (Target.allNodes ts ++ [.value pos v]) m' := by
  have hbehind := reduce_behind e ctx (IsLeft.targets ts) c (find?_targets ts hparen)
  rw [reduce_chain, Eval.bind_run] at hrun
  rw [assignment, hbehind, Eval.bind_run]
  generalize c.mapM (Operand.evaluate e ctx) m = r at hrun
  obtain ⟨_ | values, m₂⟩ := r
  · cases hrun
  · obtain ⟨t, ht, hnodes⟩ := exists_tree values
    dsimp only at hrun ⊢
    rw [← hnodes] at hrun ⊢
    have hmirrors : Eval.Mirrors m₂.heap (reduce e ctx t.nodes) (t.eval m₂.heap) :=
      Expression.reduce_mirrors ht
    have heval : t.eval m₂.heap = some v := (hmirrors.returns_iff v).mp (by rw [hrun])
    rw [heval] at hmirrors
    obtain ⟨m', hrun', hheap⟩ := hmirrors m₂ rfl
    obtain rfl : m₁ = m' := congrArg Prod.snd (hrun.symm.trans hrun')
    rw [hheap]
    exact reduce_targets_expression e ctx ts t.size (Nat.le_refl _) ht heval m₂ rfl

/-- A name, `=` and a single parenthesis: the value of the parenthesis is
assigned, and the statement has none. -/
theorem reduce_declaration (k : Nat) (ctx : Context) (t : Target) (p : Position) (body : List Node)
    {m m₁ : Machine} {v : Value}
    (hrun : reduce (Engine.level k) ctx [.span p .paren body] m = (.ok v, m₁)) : ∃ m',
      m'.heap = m₁.heap.assign ctx.scope t.name v ∧
      reduce (Engine.level k) ctx (t.nodes ++ [.span p .paren body]) m = (.ok .absent, m') := by
  have halone : reduce (Engine.level k) ctx [.span p .paren body] =
      Eval.fire ctx "RULE" "parenthesis" p >>= fun _ => evaluateValue (Engine.level k) ctx body p := by
    have hstep := reduce_step_alone (Engine.level k) ctx (o := ⟨.span p .paren body, []⟩) rfl
    refine hstep.trans ?_
    congr 1; funext _
    show (evaluateValue (Engine.level k) ctx body p >>= fun v =>
      reduce (Engine.level k) ctx [.value p v]) = _
    simp only [reduce_value, bind_pure]
  have hdeclaration : reduce (Engine.level k) ctx (t.nodes ++ [.span p .paren body]) = (do
      let v ← (do
        Eval.fire ctx "RULE" "assignment(equal)" t.pos
        evaluateValue (Engine.level k) ctx body p)
      Eval.modifyHeap (·.assign ctx.scope t.name v)
      return .absent) := by
    have hfind : Match.find? (t.nodes ++ [.span p .paren body]) =
        some ⟨.assignmentEqual, .declaration t.name p body, [], t.pos, []⟩ := rfl
    rw [reduce_of_rule hfind]
    simp only [bind_assoc, pure_bind, Redex.run, Match.result, List.nil_append, reduce_value]
    rfl
  -- the two runs fire at different places, which makes no difference to the value
  have hkeeps : Realm.everything.Keeps Twin.unfocused
      (Eval.fire ctx "RULE" "parenthesis" p >>= fun _ => evaluateValue (Engine.level k) ctx body p)
      (Eval.fire ctx "RULE" "assignment(equal)" t.pos >>= fun _ =>
        evaluateValue (Engine.level k) ctx body p) Realm.everything.value :=
    .fire_at trivial False.elim ctx _ _ _ _ (Realm.evaluateValue_keeps
      (Realm.engines_level Twin.unfocused_echoes k) ⟨trivial, .inl trivial⟩
      (Realm.everything_terms body) trivial)
  have hends := hkeeps (Realm.everything_holds m) ⟨rfl, rfl, rfl, fun _ => rfl, False.elim, rfl,
    fun _ => trivial⟩
  rw [halone] at hrun
  rw [hdeclaration, Eval.bind_run]
  rw [hrun] at hends
  generalize (Eval.fire ctx "RULE" "assignment(equal)" t.pos >>= fun _ =>
    evaluateValue (Engine.level k) ctx body p) m = r at hends ⊢
  cases hends with
  | @value _ _ m' _ hb _ =>
    refine ⟨{ m' with heap := m'.heap.assign ctx.scope t.name v }, ?_, rfl⟩
    show m'.heap.assign ctx.scope t.name v = _
    rw [hb.heap]

/-- Evaluation takes no scope away. -/
theorem scopes_size_reduce (k : Nat) (ctx : Context) (nodes : List Node) (m : Machine) :
    m.heap.scopes.size ≤ (reduce (Engine.level k) ctx nodes m).2.heap.scopes.size := by
  have hkeeps : (Policy.sealing (fun _ => False) True).Keeps m (reduce (Engine.level k) ctx nodes)
      (reduce (Engine.level k) ctx nodes) _ :=
    reduceFor_keeps (Policy.obeys_level _ k) _ id (.of_nodes (Policy.sealing_nodes _ nodes))
  exact (hkeeps (Policy.sealing_holds m)).2.grows.extend.scopes

/-- **Chains of assignments assign the value of the expression to every
name.** Let an expression of operands and operators reduce to a value on its
own. Evaluating the statement that assigns it to one name or more ends with
each name having that value, seen from the scope of the evaluation, and with
nothing else changed in the heap since the expression was reduced; or it gives
up, and then there were fewer levels than names. The value of the statement is
the value assigned, except that a single parenthesis assigned to one name is a
declaration, which has none. Left out is a single parenthesis that is assigned
to more names. -/
theorem assignment_chains (k : Nat) (ctx : Context) (ts : List Target) (c : Chain Operand)
    {m m₁ : Machine} {v : Value} (hts : ts ≠ []) (hscope : ctx.scope.index < m.heap.scopes.size)
    (hrun : reduce (Engine.level k) ctx (c.nodes Operand.nodes) m = (.ok v, m₁)) (hv : v ≠ .absent)
    (hparen : IsParenthesis (c.nodes Operand.nodes) → ts.length = 1) :
    (∃ w m', evaluateStatement (Engine.level k) ctx (assignment ts c) m = (.ok w, m') ∧
      (w = v ∨ IsParenthesis (c.nodes Operand.nodes) ∧ w = .absent) ∧
      m'.heap = m₁.heap.assignAll ctx.scope (Target.names ts) v ∧
      ∀ name ∈ Target.names ts, m'.heap.read? ctx.scope name = some v) ∨
    (k < ts.length ∧
      ∃ m', evaluateStatement (Engine.level k) ctx (assignment ts c) m = (.error (.exhausted none), m')) := by
  have hstatement : evaluateStatement (Engine.level k) ctx (assignment ts c) =
      reduce (Engine.level k) ctx (assignment ts c) := by
    cases ts with
    | nil => exact absurd rfl hts
    | cons t ts => rfl
  have hsize : ctx.scope.index < m₁.heap.scopes.size := by
    have hgrows := scopes_size_reduce k ctx (c.nodes Operand.nodes) m
    rw [hrun] at hgrows
    exact Nat.lt_of_lt_of_le hscope hgrows
  have hread {m' : Machine} (hheap : m'.heap = m₁.heap.assignAll ctx.scope (Target.names ts) v) :
      ∀ name ∈ Target.names ts, m'.heap.read? ctx.scope name = some v := by
    rw [hheap]
    exact Heap.read?_assignAll hsize v
  rw [hstatement]
  by_cases hsingle : IsParenthesis (c.nodes Operand.nodes)
  · obtain ⟨t, rfl⟩ := List.length_eq_one_iff.mp (hparen hsingle)
    obtain ⟨p, body, hbody⟩ := id hsingle
    rw [hbody] at hrun
    obtain ⟨m', hheap, hreduce⟩ := reduce_declaration k ctx t p body hrun
    refine .inl ⟨.absent, m', ?_, .inr ⟨hsingle, rfl⟩, hheap, hread hheap⟩
    rw [assignment, hbody]
    exact hreduce
  · obtain ⟨pos, m₂, hheap₂, hreduce⟩ := reduce_assignment (Engine.level k) ctx ts hsingle hrun
    rw [hreduce]
    obtain ⟨m', ⟨-, hheap, hvalue⟩ | ⟨hk, hstop⟩⟩ := reduce_targets_value ctx pos hv ts k m₂
    · rw [hheap₂] at hheap
      exact .inl ⟨v, m', hvalue, .inl rfl, hheap, hread hheap⟩
    · exact .inr ⟨hk, m', hstop⟩

/-- In `x = y = z && true` both names get the value of `z`. -/
theorem assignment_chains_and :
    let pos : Position := ⟨some 1, some 1, 0⟩
    let ctx : Context := ⟨⟨0⟩, "main", ⟨none, "", false, .usual⟩⟩
    let ts : List Target := [⟨pos, "x", pos⟩, ⟨pos, "y", pos⟩]
    let c : Chain Operand := ⟨⟨.word pos "z", []⟩, [(⟨pos, .and, rfl⟩, ⟨.value pos (.bool true), []⟩)]⟩
    let m : Machine := { Machine.initial with heap := ⟨#[⟨[("z", .bool false)], none⟩], #[], #[], #[]⟩ }
    (reduce (Engine.level 2) ctx (c.nodes Operand.nodes) m).1 = .ok (.bool false) ∧
      ∃ w m', evaluateStatement (Engine.level 2) ctx (assignment ts c) m = (.ok w, m') ∧
        m'.heap.read? ⟨0⟩ "x" = some (.bool false) ∧ m'.heap.read? ⟨0⟩ "y" = some (.bool false) := by
  intro pos ctx ts c m
  have hrun : reduce (Engine.level 2) ctx (c.nodes Operand.nodes) m =
      (.ok (.bool false), (reduce (Engine.level 2) ctx (c.nodes Operand.nodes) m).2) := rfl
  have hparen : IsParenthesis (c.nodes Operand.nodes) → ts.length = 1 := by
    rintro ⟨_, _, heq⟩
    cases heq
  refine ⟨rfl, ?_⟩
  have hscope : ctx.scope.index < m.heap.scopes.size := Nat.one_pos
  rcases assignment_chains 2 ctx ts c (by simp [ts]) hscope hrun (by simp) hparen with
    ⟨w, m', hvalue, -, -, hread⟩ | ⟨hlt, -⟩
  · exact ⟨w, m', hvalue, hread "x" (by simp [ts, Target.names]), hread "y" (by simp [ts, Target.names])⟩
  · exact absurd hlt (by decide)

/-- A single parenthesis reduces to its value, and assigning it to two names
fails; and a value that is assigned to more names than there are levels
exhausts them. -/
theorem parenthesis_not_assigned_twice :
    let pos : Position := ⟨some 1, some 1, 0⟩
    let ctx : Context := ⟨⟨0⟩, "main", ⟨none, "", false, .usual⟩⟩
    let m : Machine := { Machine.initial with heap := ⟨#[⟨[], none⟩], #[], #[], #[]⟩ }
    let yes : Node := .value pos (.bool true)
    let paren : Chain Operand := ⟨⟨.span pos .paren [yes], []⟩, []⟩
    let plain : Chain Operand := ⟨⟨.value pos (.bool true), []⟩, []⟩
    let many : List Target := List.replicate (maxLevels + 1) ⟨pos, "x", pos⟩
    ((reduce (Engine.level maxLevels) ctx (paren.nodes Operand.nodes) m).1 = .ok (.bool true) ∧
      (evaluateStatement (Engine.level maxLevels) ctx
        (assignment [⟨pos, "x", pos⟩, ⟨pos, "y", pos⟩] paren) m).1 =
          .error (.fault ⟨.noValue, some 1, some 1, "main", none⟩)) ∧
    (reduce (Engine.level maxLevels) ctx (plain.nodes Operand.nodes) m).1 = .ok (.bool true) ∧
      (evaluateStatement (Engine.level maxLevels) ctx (assignment many plain) m).1 =
        .error (.exhausted none) := by
  intro pos ctx m yes paren plain many
  refine ⟨⟨rfl, rfl⟩, rfl, ?_⟩
  have hlength : many.length = maxLevels + 1 := List.length_replicate
  obtain ⟨m', ⟨hle, -⟩ | ⟨-, hstop⟩⟩ :=
    reduce_targets_value ctx pos (v := .bool true) (by simp) many maxLevels m
  · omega
  · exact congrArg Prod.fst hstop

end RuleScript
