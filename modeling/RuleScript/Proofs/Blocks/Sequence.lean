/-
# Statement lists one after another

A statement list is cut at its semicolons, and the empty list has no
statements at all, while behind a semicolon at the end stands an empty one.
Neither makes a difference to what a list gives, so two lists with a semicolon
between them are the first list and then, if it succeeds, the second
(`evaluateList_append`).

A runner that keeps its program scope runs every node list in that scope. So
its runs, one after another up to the first that fails, come to the same as
one run of the lists with semicolons between them (`Runner.runNodes_joined`).

Key definitions: `Node.joined`, `Runner.runEach`.
Key theorems: `evaluateList_append`, `Engine.evaluate_append`,
`Runner.runNodes_joined`, `statement_lists_compose`.
-/
import RuleScript.Proofs.Computation
import RuleScript.Runner.Session

namespace RuleScript

/-! ### Cutting at separators -/

/-- Node lists with semicolons between them, each semicolon at its position. -/
def Node.joined : List Node → List (Position × List Node) → List Node
  | nodes, [] => nodes
  | nodes, (pos, next) :: rest => nodes ++ .symbol pos ";" :: Node.joined next rest

/-- At a separator a list falls into the parts before it and the parts after
it. -/
theorem Node.splitOnFrom_append {text : String} {n : Node} (hn : n.isSymbolText text = true)
    (back : List Node) : ∀ front part : List Node,
    splitOnFrom text part (front ++ n :: back) =
      splitOnFrom text part front ++ splitOnFrom text [] back
  | [], part => by simp [splitOnFrom, hn]
  | k :: front, part => by
    by_cases hk : k.isSymbolText text = true
    · simp [splitOnFrom, hk, splitOnFrom_append hn back front]
    · simp [splitOnFrom, hk, splitOnFrom_append hn back front]

theorem Node.exists_splitOnFrom (text : String) : ∀ nodes part : List Node,
    ∃ first rest, splitOnFrom text part nodes = first :: rest
  | [], part => ⟨part.reverse, [], rfl⟩
  | n :: nodes, part => by
    unfold splitOnFrom
    split
    · exact ⟨_, _, rfl⟩
    · exact exists_splitOnFrom text nodes (n :: part)

section Statements

variable (e : Engine) (ctx : Context)

/-- Statements in a row: the first ones and then the others. -/
theorem evaluateStatements_append (more : List (List Node)) : ∀ (statements : List (List Node)) (last : Value),
    evaluateStatements e ctx last (statements ++ more) = (do
      let v ← evaluateStatements e ctx last statements
      evaluateStatements e ctx v more)
  | [], last => by simp [evaluateStatements]
  | s :: statements, last => by
    simp only [List.cons_append, evaluateStatements, bind_assoc]
    congr 1
    funext v
    exact evaluateStatements_append more statements v

/-- The empty list gives what one empty statement gives. -/
theorem evaluateList_eq (nodes : List Node) :
    evaluateList e ctx nodes = evaluateStatements e ctx .absent (Node.splitOnFrom ";" [] nodes) := by
  cases nodes with
  | nil => rfl
  | cons n nodes => rfl

/-- **Two statement lists with a semicolon between them** are the first and
then the second. -/
theorem evaluateList_append (front back : List Node) (pos : Position) :
    evaluateList e ctx (front ++ .symbol pos ";" :: back) = (do
      let _ ← evaluateList e ctx front
      evaluateList e ctx back) := by
  have hseparator : (Node.symbol pos ";").isSymbolText ";" = true := by simp [Node.isSymbolText]
  -- the value before the second list does not show, since the list has a statement
  have hfresh (v : Value) : evaluateStatements e ctx v (Node.splitOnFrom ";" [] back) =
      evaluateList e ctx back := by
    obtain ⟨first, rest, hsplit⟩ := Node.exists_splitOnFrom ";" back []
    rw [evaluateList_eq, hsplit]
    rfl
  rw [evaluateList_eq, Node.splitOnFrom_append hseparator, evaluateStatements_append, ← evaluateList_eq]
  simp only [hfresh]

/-- An engine of any height goes through two lists one after the other. -/
theorem Engine.evaluate_append (n : Nat) (front back : List Node) (pos : Position) :
    (Engine.level n).evaluate ctx (front ++ .symbol pos ";" :: back) = (do
      let _ ← (Engine.level n).evaluate ctx front
      (Engine.level n).evaluate ctx back) := by
  cases n with
  | zero => rfl
  | succ n => exact evaluateList_append (Engine.level n) ctx front back pos

end Statements

/-! ### Runners that keep their program scope -/

namespace Runner

/-- Run node lists one after another, up to the first that fails. -/
def runEach (r : Runner) (nodes : List Node) : List (Position × List Node) → Except Stop Value × Runner
  | [] => r.runNodes nodes
  | (_, next) :: rest =>
    match r.runNodes nodes with
    | (.ok _, r') => r'.runEach next rest
    | (.error s, r') => (.error s, r')

variable {r : Runner} {p : ScopeRef}

/-- A run in a kept scope, in its parts. -/
theorem runNodes_kept (hp : r.program = some p) (nodes : List Node) :
    r.runNodes nodes =
      let q := (Engine.level maxLevels).evaluate ⟨p, r.source, r.settings⟩ nodes r.machine
      (q.1.mapError { r with machine := q.2 }.settle, { r with machine := q.2 }) := by
  have hscope : r.programScope = (p, r) := by
    unfold programScope
    rw [hp]
  unfold runNodes
  rw [hscope]
  rfl

/-- A run of two lists is a run of the first and then, if it succeeds, one of
the second on what the first has left. -/
theorem runNodes_append (hp : r.program = some p) (front back : List Node) (pos : Position) :
    r.runNodes (front ++ .symbol pos ";" :: back) =
      match r.runNodes front with
      | (.ok _, r') => r'.runNodes back
      | (.error s, r') => (.error s, r') := by
  rw [runNodes_kept hp, runNodes_kept hp, Engine.evaluate_append, Eval.bind_run]
  rcases (Engine.level maxLevels).evaluate ⟨p, r.source, r.settings⟩ front r.machine with ⟨s | v, m⟩
  · rfl
  · have hp' : ({ r with machine := m } : Runner).program = some p := hp
    exact (runNodes_kept hp' back).symm

theorem runNodes_program (hp : r.program = some p) (nodes : List Node) :
    (r.runNodes nodes).2.program = some p := by
  rw [runNodes_kept hp]
  exact hp

/-- **Runs in a kept scope join.** -/
theorem runNodes_joined : ∀ (rest : List (Position × List Node)) {r : Runner} (_ : r.program = some p)
    (first : List Node), r.runNodes (Node.joined first rest) = r.runEach first rest
  | [], _, _, _ => rfl
  | (pos, next) :: rest, r, hp, first => by
    rw [Node.joined, runNodes_append hp, runEach]
    have hkept := runNodes_program hp first
    rcases hrun : r.runNodes first with ⟨s | v, r'⟩
    · rfl
    · rw [hrun] at hkept
      exact runNodes_joined rest hkept next

end Runner

/-- **Statement lists compose.** Evaluating two node lists with a semicolon
between them is evaluating the first and then, only if that gives a value,
the second in the state that the first leaves: with the value of the second
or the stop of the one that fails, and on one machine. Hence on a runner that
keeps its program scope, node lists that are run one after another leave the
runner as a single run of the lists with semicolons between them does, and
give the same value in the end; or they stop alike at the first that fails. -/
theorem statement_lists_compose :
    (∀ (n : Nat) (ctx : Context) (front back : List Node) (pos : Position),
      (Engine.level n).evaluate ctx (front ++ .symbol pos ";" :: back) = (do
        let _ ← (Engine.level n).evaluate ctx front
        (Engine.level n).evaluate ctx back)) ∧
    ∀ (r : Runner) (p : ScopeRef), r.program = some p →
      ∀ (first : List Node) (rest : List (Position × List Node)),
        r.runNodes (Node.joined first rest) = r.runEach first rest := by
  constructor
  · intro n ctx front back pos
    exact Engine.evaluate_append ctx n front back pos
  · intro r p hp first rest
    exact Runner.runNodes_joined rest hp first

/-- A name assigned in one run, an empty run, and a run that reads the name. -/
theorem statement_lists_compose_assignment :
    let pos : Position := ⟨some 1, some 1, 0⟩
    let heap : Heap := ⟨#[⟨[], none⟩, ⟨[], some ⟨0⟩⟩], #[], #[], #[]⟩
    let r : Runner :=
      ⟨{ Machine.initial with heap }, ⟨none, "", false, .usual⟩, "", ⟨0⟩, some ⟨1⟩, [], none, []⟩
    let first : List Node := [.value pos (.bool true), .symbol pos "$", .word pos "x"]
    let rest : List (Position × List Node) := [(pos, []), (pos, [.word pos "x"])]
    r.program = some ⟨1⟩ ∧ (r.runEach first rest).1 = .ok (.bool true) ∧
      r.runNodes (Node.joined first rest) = r.runEach first rest := by
  intro pos heap r first rest
  exact ⟨rfl, rfl, statement_lists_compose.2 r ⟨1⟩ rfl first rest⟩

end RuleScript
