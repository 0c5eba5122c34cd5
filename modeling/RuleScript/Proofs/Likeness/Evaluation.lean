/-
# Evaluation mirrors itself

If two engines mirror each other on nested evaluation and on calls, then so
does everything that evaluation does with them. A buffer and the buffer it is
carried over to have the same matches and the same operators at the same
places, since these depend on the kinds and the texts of nodes alone; what a
rule or an operator then does is the same on both sides.

A function of the language runs in a fresh scope around which only scopes stand
that are there already, so the new scope is within reach of its body.

Key definitions: `Likeness.redex`, `Likeness.found`, `Likeness.application`.
Key theorems: `Likeness.redex?_map`, `Likeness.find?_map`,
`Likeness.Engines.redexRun`, `Likeness.Engines.applicationRun`,
`Likeness.Engines.evaluateList`, `Likeness.Engines.callScript`.
-/
import RuleScript.Proofs.Likeness.Mirroring
import RuleScript.Reduction.Evaluate

namespace RuleScript

namespace Likeness

variable (L : Likeness)

/-! ### Nodes -/

@[simp] theorem pos_node (n : Node) : (L.node n).pos = L.position n.pos := by cases n <;> rfl

@[simp] theorem isValue_node (n : Node) : (L.node n).isValue = n.isValue := by cases n <;> rfl

@[simp] theorem isSymbol_node (n : Node) : (L.node n).isSymbol = n.isSymbol := by cases n <;> rfl

@[simp] theorem isSymbolText_node (text : String) (n : Node) :
    (L.node n).isSymbolText text = n.isSymbolText text := by cases n <;> rfl

@[simp] theorem describe_node (n : Node) : (L.node n).describe = n.describe := by cases n <;> rfl

theorem splitOnFrom_map (text : String) : ∀ ns part : List Node,
    Node.splitOnFrom text (part.map L.node) (ns.map L.node) =
      (Node.splitOnFrom text part ns).map (List.map L.node)
  | [], part => by
    rw [List.map_nil, Node.splitOnFrom, Node.splitOnFrom, List.map_singleton, List.map_reverse]
  | n :: ns, part => by
    have hcut := splitOnFrom_map text ns []
    have hkeep := splitOnFrom_map text ns (n :: part)
    rw [List.map_cons, Node.splitOnFrom, Node.splitOnFrom, isSymbolText_node, ← List.map_reverse]
    split
    · rw [List.map_cons, ← hcut]
      rfl
    · exact hkeep

theorem splitOn_map (text : String) (ns : List Node) :
    Node.splitOn text (ns.map L.node) = (Node.splitOn text ns).map (List.map L.node) := by
  cases ns with
  | nil => rfl
  | cons n ns => exact L.splitOnFrom_map text (n :: ns) []

theorem isUnaryPosition_map (n : Option Node) : isUnaryPosition (n.map L.node) = isUnaryPosition n := by
  cases n with
  | none => rfl
  | some n => exact L.isSymbol_node n

theorem hasPostfix_map (ns : List Node) : hasPostfix (ns.map L.node) = hasPostfix ns := by
  cases ns with
  | nil => rfl
  | cons n ns => cases n <;> rfl

theorem isReference_map (before : Option Node) (after : List Node) :
    isReference (before.map L.node) (after.map L.node) = isReference before after := by
  rcases before with _ | b
  · rcases after with _ | ⟨n, after⟩
    · rfl
    · cases n <;> rfl
  · rcases after with _ | ⟨n, after⟩
    · cases b <;> rfl
    · cases b <;> cases n <;> rfl

/-! ### Rules -/

def signOperand : SignOperand → SignOperand
  | .number p text suffix => .number (L.position p) text suffix
  | .word p name => .word (L.position p) name
  | .paren p body => .paren (L.position p) (body.map L.node)

def redex : Redex → Redex
  | .function name pp params body =>
    .function name (L.position pp) (params.map L.node) (body.map L.node)
  | .wordString text => .wordString text
  | .declaration name p body => .declaration name (L.position p) (body.map L.node)
  | .capture v name => .capture (L.value v) name
  | .member v dot key keyPos => .member (L.value v) (L.position dot) key (L.position keyPos)
  | .invoke v vp args p => .invoke (L.value v) (L.position vp) (args.map L.node) (L.position p)
  | .invokeBlock v vp block p =>
    .invokeBlock (L.value v) (L.position vp) (block.map L.node) (L.position p)
  | .index v body p => .index (L.value v) (body.map L.node) (L.position p)
  | .sign negative operand => .sign negative (L.signOperand operand)
  | .number p text suffix => .number (L.position p) text suffix
  | .word p name => .word (L.position p) name
  | .quoted raw => .quoted raw
  | .paren p body => .paren (L.position p) (body.map L.node)
  | .array p body => .array (L.position p) (body.map L.node)
  | .dict p body => .dict (L.position p) (body.map L.node)

/-- A rule that fits somewhere in a buffer. -/
def found (m : Match) : Match :=
  ⟨m.rule, L.redex m.redex, m.before.map L.node, L.position m.pos, m.after.map L.node⟩

def application (a : Application) : Application :=
  ⟨a.operator, a.before.map L.node, L.position a.pos, a.after.map L.node⟩

theorem node_span (p : Position) (d : Delimiter) (body : List Node) :
    L.node (.span p d body) = .span (L.position p) d (body.map L.node) := by
  rw [node, nodes_eq_map]

theorem signed?_map (text : String) (before : Option Node) (ns : List Node) :
    Rule.signed? text (before.map L.node) (ns.map L.node) =
      (Rule.signed? text before ns).map (List.map L.node) := by
  cases ns with
  | nil => rfl
  | cons n rest =>
    rw [List.map_cons, Rule.signed?, Rule.signed?, isSymbolText_node, isUnaryPosition_map]
    split <;> rfl

theorem signNumber?_map (text : String) (before : Option Node) (ns : List Node) :
    Rule.signNumber? text (before.map L.node) (ns.map L.node) =
      (Rule.signNumber? text before ns).map L.redex := by
  unfold Rule.signNumber?
  rw [signed?_map]
  rcases Rule.signed? text before ns with _ | _ | ⟨n, rest⟩
  · rfl
  · rfl
  · cases n <;> rfl

theorem signWord?_map (text : String) (before : Option Node) (ns : List Node) :
    Rule.signWord? text (before.map L.node) (ns.map L.node) =
      (Rule.signWord? text before ns).map L.redex := by
  unfold Rule.signWord?
  rw [signed?_map]
  rcases Rule.signed? text before ns with _ | _ | ⟨n, rest⟩
  · rfl
  · rfl
  · cases n
    case word p t =>
      show (if hasPostfix (rest.map L.node) = true then none else _) =
        (if hasPostfix rest = true then none else _ : Option Redex).map L.redex
      rw [hasPostfix_map]
      split <;> rfl
    all_goals rfl

theorem signParen?_map (text : String) (before : Option Node) (ns : List Node) :
    Rule.signParen? text (before.map L.node) (ns.map L.node) =
      (Rule.signParen? text before ns).map L.redex := by
  unfold Rule.signParen?
  rw [signed?_map]
  rcases Rule.signed? text before ns with _ | _ | ⟨n, rest⟩
  · rfl
  · rfl
  · cases n
    case span p d body =>
      rw [Option.map_some, List.map_cons, node_span]
      cases d
      case paren =>
        dsimp only
        rw [hasPostfix_map]
        split <;> rfl
      all_goals rfl
    all_goals rfl

/-- What a rule makes of a mark is carried over with it. -/
theorem redex_ite (t mark : String) (x : Redex) :
    (if t = mark then some (L.redex x) else none) = (if t = mark then some x else none).map L.redex := by
  split <;> rfl

theorem functionNamed_map (before : Option Node) (ns : List Node) :
    Rule.functionNamed.redex? (before.map L.node) (ns.map L.node) =
      (Rule.functionNamed.redex? before ns).map L.redex := by
  rcases ns with _ | ⟨n₁, _ | ⟨n₂, _ | ⟨n₃, ns⟩⟩⟩
  · rfl
  · cases n₁ <;> rfl
  · cases n₁ <;> cases n₂ <;> rfl
  cases n₁ <;> cases n₂ <;> try rfl
  case symbol.word p t q name =>
    cases n₃
    case span pp d params =>
      rcases ns with _ | ⟨n₄, ns⟩
      · cases d <;> rfl
      cases n₄
      case span p' d' body =>
        simp only [List.map_cons, node_span]
        cases d <;> cases d' <;> try rfl
        exact L.redex_ite t "@" (.function (some name) pp params body)
      all_goals cases d <;> rfl
    all_goals rfl

theorem functionAnonymous_map (before : Option Node) (ns : List Node) :
    Rule.functionAnonymous.redex? (before.map L.node) (ns.map L.node) =
      (Rule.functionAnonymous.redex? before ns).map L.redex := by
  rcases ns with _ | ⟨n₁, _ | ⟨n₂, ns⟩⟩
  · rfl
  · cases n₁ <;> rfl
  cases n₁ <;> cases n₂ <;> try rfl
  case symbol.span p t pp d params =>
    rcases ns with _ | ⟨n₃, ns⟩
    · cases d <;> rfl
    cases n₃
    case span p' d' body =>
      simp only [List.map_cons, node_span]
      cases d <;> cases d' <;> try rfl
      exact L.redex_ite t "@" (.function none pp params body)
    all_goals cases d <;> rfl

theorem assignmentEqual_map (before : Option Node) (ns : List Node) :
    Rule.assignmentEqual.redex? (before.map L.node) (ns.map L.node) =
      (Rule.assignmentEqual.redex? before ns).map L.redex := by
  rcases ns with _ | ⟨n₁, _ | ⟨n₂, _ | ⟨n₃, ns⟩⟩⟩
  · rfl
  · cases n₁ <;> rfl
  · cases n₁ <;> cases n₂ <;> rfl
  cases n₁ <;> cases n₂ <;> try rfl
  case word.symbol q name p t =>
    cases n₃
    case span pp d body =>
      simp only [List.map_cons, node_span]
      cases d <;> cases ns <;> try rfl
      exact L.redex_ite t "=" (.declaration name pp body)
    all_goals rfl

/-- A value, a mark and a word: what is captured or looked up. -/
theorem marked_map {r : Rule} (hr : r = .assignmentDollar ∨ r = .member) (before : Option Node)
    (ns : List Node) :
    r.redex? (before.map L.node) (ns.map L.node) = (r.redex? before ns).map L.redex := by
  rcases ns with _ | ⟨n₁, _ | ⟨n₂, _ | ⟨n₃, ns⟩⟩⟩
  · rcases hr with rfl | rfl <;> rfl
  · rcases hr with rfl | rfl <;> cases n₁ <;> rfl
  · rcases hr with rfl | rfl <;> cases n₁ <;> cases n₂ <;> rfl
  rcases hr with rfl | rfl <;> cases n₁ <;> cases n₂ <;> try rfl
  all_goals cases n₃ <;> try rfl
  case inl.value.symbol.word vp v p t q name => exact L.redex_ite t "$" (.capture v name)
  case inr.value.symbol.word vp v dot t keyPos key =>
    exact L.redex_ite t "." (.member v dot key keyPos)

/-- A value and a span behind it. -/
theorem behindValue_map {r : Rule} (hr : r = .invoke ∨ r = .invokeCallback ∨ r = .index)
    (before : Option Node) (ns : List Node) :
    r.redex? (before.map L.node) (ns.map L.node) = (r.redex? before ns).map L.redex := by
  rcases ns with _ | ⟨n₁, _ | ⟨n₂, ns⟩⟩
  · rcases hr with rfl | rfl | rfl <;> rfl
  · rcases hr with rfl | rfl | rfl <;> cases n₁ <;> rfl
  cases n₁
  case value vp v =>
    cases n₂
    case span p d body =>
      simp only [List.map_cons, node_span]
      rcases hr with rfl | rfl | rfl <;> cases d <;> rfl
    all_goals rcases hr with rfl | rfl | rfl <;> rfl
  all_goals rcases hr with rfl | rfl | rfl <;> rfl

/-- **A rule fits what is carried over where it fits.** -/
theorem redex?_map (r : Rule) (before : Option Node) (ns : List Node) :
    r.redex? (before.map L.node) (ns.map L.node) = (r.redex? before ns).map L.redex := by
  cases r
  case functionNamed => exact L.functionNamed_map before ns
  case functionAnonymous => exact L.functionAnonymous_map before ns
  case assignmentEqual => exact L.assignmentEqual_map before ns
  case assignmentDollar => exact L.marked_map (.inl rfl) before ns
  case member => exact L.marked_map (.inr rfl) before ns
  case invoke => exact L.behindValue_map (.inl rfl) before ns
  case invokeCallback => exact L.behindValue_map (.inr (.inl rfl)) before ns
  case index => exact L.behindValue_map (.inr (.inr rfl)) before ns
  case negativeNumber => exact L.signNumber?_map "-" before ns
  case negativeWord => exact L.signWord?_map "-" before ns
  case negativeParenthesis => exact L.signParen?_map "-" before ns
  case positiveNumber => exact L.signNumber?_map "+" before ns
  case positiveWord => exact L.signWord?_map "+" before ns
  case positiveParenthesis => exact L.signParen?_map "+" before ns
  all_goals
    rcases ns with _ | ⟨n, rest⟩
    · rfl
  case number | glob => cases n <;> rfl
  case word =>
    cases n
    case word p name =>
      show (if isReference (before.map L.node) (rest.map L.node) = true then _ else none) =
        (if isReference before rest = true then _ else none : Option Redex).map L.redex
      rw [isReference_map]
      split <;> rfl
    all_goals rfl
  case parenthesis | array | dict =>
    cases n
    case span p d body =>
      rw [List.map_cons, node_span]
      cases d <;> rfl
    all_goals rfl
  case wordString =>
    cases n
    case symbol p t =>
      rcases rest with _ | ⟨n, rest⟩
      · rfl
      · cases n
        case word p name => exact L.redex_ite t "#" (.wordString name)
        all_goals rfl
    all_goals rfl

theorem here?_map (before : Option Node) (ns : List Node) :
    Match.here? (before.map L.node) (ns.map L.node) =
      (Match.here? before ns).map fun p => (p.1, L.redex p.2) := by
  unfold Match.here?
  rw [List.map_findSome?]
  congr 1
  funext r
  rw [L.redex?_map, Option.map_map, Function.comp_apply, Option.map_map]
  rfl

theorem findFrom?_map : ∀ ns before : List Node,
    Match.findFrom? (before.map L.node) (ns.map L.node) = (Match.findFrom? before ns).map L.found
  | [], _ => rfl
  | n :: ns, before => by
    have hhere := L.here?_map before.head? (n :: ns)
    have hlater := findFrom?_map ns (n :: before)
    rw [List.map_cons] at hhere
    rw [List.map_cons, Match.findFrom?, Match.findFrom?, List.head?_map, hhere]
    cases Match.here? before.head? (n :: ns) with
    | none => exact hlater
    | some p =>
      dsimp only [Option.map_some, found]
      rw [L.pos_node, List.map_reverse, List.map_drop]
      rfl

/-- **The same rule fits at the same place.** -/
theorem find?_map (ns : List Node) : Match.find? (ns.map L.node) = (Match.find? ns).map L.found :=
  L.findFrom?_map ns []

theorem result_found (m : Match) (v : Value) :
    (L.found m).result (L.value v) = (m.result v).map L.node := by
  unfold Match.result
  rw [List.map_append, List.map_cons]
  rfl

/-! ### Operators -/

theorem allFrom_map : ∀ ns before : List Node,
    Application.allFrom (before.map L.node) (ns.map L.node) =
      (Application.allFrom before ns).map L.application
  | [], _ => rfl
  | n :: ns, before => by
    have hrest := allFrom_map ns (n :: before)
    cases n
    case symbol p text =>
      rw [List.map_cons] at hrest ⊢
      cases hop : Operator.ofSymbol? text with
      | none => simpa only [node, Application.allFrom, hop] using hrest
      | some op =>
        simp only [node, Application.allFrom, hop, List.map_cons]
        exact congrArg (_ :: ·) hrest
    all_goals exact hrest

theorem priority_application (a : Application) : (L.application a).priority = a.priority := by
  unfold Application.priority application
  rw [List.head?_map, isUnaryPosition_map]

theorem tighter_application (a b : Application) :
    (L.application a).tighter (L.application b) = L.application (a.tighter b) := by
  unfold Application.tighter
  rw [priority_application, priority_application]
  split <;> rfl

theorem foldl_tighter_map : ∀ (as : List Application) (a : Application),
    (as.map L.application).foldl Application.tighter (L.application a) =
      L.application (as.foldl Application.tighter a)
  | [], _ => rfl
  | b :: as, a => by
    rw [List.map_cons, List.foldl_cons, List.foldl_cons, tighter_application]
    exact foldl_tighter_map as _

/-- **The same operator is applied at the same place.** -/
theorem application_find?_map (ns : List Node) :
    Application.find? (ns.map L.node) = (Application.find? ns).map L.application := by
  have hall := L.allFrom_map ns []
  rw [List.map_nil] at hall
  unfold Application.find?
  rw [hall]
  cases Application.allFrom [] ns with
  | nil => rfl
  | cons a as => exact congrArg some (L.foldl_tighter_map as a)

theorem between_application (a : Application) (v : Value) :
    (L.application a).between (L.value v) = (a.between v).map L.node := by
  simp only [Application.between, application, List.map_append, List.map_cons, List.map_reverse,
    List.map_drop, node]

theorem leading_application (a : Application) (v : Value) :
    (L.application a).leading (L.value v) = (a.leading v).map L.node := by
  simp only [Application.leading, application, List.map_append, List.map_cons, List.map_reverse,
    List.map_drop, node]

/-- An operator on numbers gives a number or a truth value. -/
theorem value_onNumbers? {op : Operator} {f : Float → Float → Value} (h : op.onNumbers? = some f)
    (x y : Float) : L.value (f x y) = f x y := by
  cases op <;> cases h <;> rfl

/-! ### Dict entries -/

theorem entryParts?_map (entry : List Node) :
    entryParts? (entry.map L.node) = (entryParts? entry).map fun p =>
      (L.node p.1, p.2.1.map L.node, L.position p.2.2.1, p.2.2.2.map L.node) := by
  have hkey : (entry.map L.node).takeWhile (fun n => !n.isSymbolText ":") =
      (entry.takeWhile fun n => !n.isSymbolText ":").map L.node := by
    rw [List.takeWhile_map]
    congr 2
    funext n
    exact congrArg (!·) (L.isSymbolText_node ":" n)
  unfold entryParts?
  dsimp only
  rw [hkey, List.length_map, ← List.map_drop]
  generalize entry.takeWhile (fun n => !n.isSymbolText ":") = key
  rcases key with _ | ⟨first, key⟩
  · rfl
  · generalize entry.drop (first :: key).length = tail
    rcases tail with _ | ⟨colon, _ | ⟨v, rest⟩⟩
    · rfl
    · rfl
    · simp only [List.map_cons, L.pos_node, Option.map_some]

theorem dictEntries_map (body : List Node) :
    dictEntries (body.map L.node) = (dictEntries body).map (List.map L.node) := by
  have hlast (entries : List (List Node)) : (entries.map (List.map L.node)).getLast?.any (·.isEmpty) =
      entries.getLast?.any (·.isEmpty) := by
    rw [List.getLast?_map]
    cases entries.getLast? with
    | none => rfl
    | some entry => exact List.isEmpty_map
  unfold dictEntries
  dsimp only
  rw [L.splitOn_map, hlast]
  split
  · exact List.map_dropLast.symm
  · rfl

/-! ### Nested expressions -/

namespace Engines

variable {L} {e e' : Engine} (he : L.Engines e e') {bound : Nat} {ctx : Context}
  (hr : L.Reaches bound ctx.scope)

include he hr

theorem evaluateValue (ns : List Node) (pos : Position) :
    L.Mirrors bound L.value (RuleScript.evaluateValue e ctx ns pos)
      (RuleScript.evaluateValue e' (L.context ctx) (ns.map L.node) (L.position pos)) := by
  cases ns with
  | nil => exact .fail ctx pos _
  | cons n rest =>
    refine (he.evaluate hr (n :: rest)).bind fun v => ?_
    cases v
    case absent =>
      rw [L.pos_node]
      exact .fail ctx n.pos _
    all_goals exact .pure_of rfl

theorem evaluateNode (n : Node) :
    L.Mirrors bound L.value (RuleScript.evaluateNode e ctx n)
      (RuleScript.evaluateNode e' (L.context ctx) (L.node n)) := by
  cases n
  case value pos v => exact .pure v
  case symbol pos text => exact .fail ctx pos _
  case span pos d body =>
    have h := he.evaluateValue hr [.span pos d body] pos
    rw [List.map_singleton, L.node_span] at h
    rw [L.node_span]
    exact h
  case number pos text suffix => exact he.evaluateValue hr [.number pos text suffix] pos
  case word pos text => exact he.evaluateValue hr [.word pos text] pos
  case quoted pos raw => exact he.evaluateValue hr [.quoted pos raw] pos

theorem evaluateParts (pos : Position) (missing : Cause) : ∀ parts : List (List Node),
    L.Mirrors bound (List.map L.value) (RuleScript.evaluateParts e ctx pos missing parts)
      (RuleScript.evaluateParts e' (L.context ctx) (L.position pos) missing (parts.map (List.map L.node)))
  | [] => .pure []
  | [] :: _ => .fail ctx pos missing
  | (n :: part) :: rest => by
    have hvalue := he.evaluateValue hr (n :: part) n.pos
    rw [← L.pos_node] at hvalue
    exact hvalue.bind fun v => (evaluateParts pos missing rest).then_return fun _ => rfl

theorem evaluateArguments (args : List Node) (pos : Position) :
    L.Mirrors bound (List.map L.value) (RuleScript.evaluateArguments e ctx args pos)
      (RuleScript.evaluateArguments e' (L.context ctx) (args.map L.node) (L.position pos)) := by
  unfold RuleScript.evaluateArguments
  rw [L.splitOn_map]
  exact he.evaluateParts hr pos _ _

omit he hr in
theorem evaluateLiteral (pos : Position) (text suffix : String) :
    L.Mirrors bound L.value (RuleScript.evaluateLiteral ctx pos text suffix)
      (RuleScript.evaluateLiteral (L.context ctx) (L.position pos) text suffix) := by
  unfold RuleScript.evaluateLiteral
  split
  · exact .pure_of rfl
  · exact .fail ctx pos _
  · exact .fail ctx pos _
  · exact .throw rfl

omit he hr in
theorem readVariable (pos : Position) (name : String) :
    L.Mirrors bound L.value (RuleScript.readVariable ctx pos name)
      (RuleScript.readVariable (L.context ctx) (L.position pos) name) := by
  have hread : L.Mirrors bound (Option.map L.value) (Eval.onHeap (·.read? ctx.scope name))
      (Eval.onHeap (·.read? (L.context ctx).scope name)) := .onHeap fun hh => hh.read? _ name
  refine hread.bind fun found => ?_
  cases found with
  | some v => exact .pure_of rfl
  | none => exact .fail ctx pos _

omit he hr in
theorem parameterNames (pos : Position) : ∀ parts : List (List Node),
    L.Mirrors bound id (RuleScript.parameterNames ctx pos parts)
      (RuleScript.parameterNames (L.context ctx) (L.position pos) (parts.map (List.map L.node)))
  | [] => .pure []
  | [] :: _ => .fail ctx pos _
  | (n :: part) :: rest => by
    cases n
    case word p name =>
      cases part with
      | nil => exact (parameterNames pos rest).then_return fun _ => rfl
      | cons m part => exact .fail ctx p _
    case span p d body =>
      rw [List.map_cons, List.map_cons, L.node_span]
      exact .fail ctx p _
    case number p _ _ | quoted p _ | symbol p _ | value p _ => exact .fail ctx p _

omit he hr in
theorem expectFunction (v : Value) (pos : Position) :
    L.Mirrors bound L.function (RuleScript.expectFunction ctx v pos)
      (RuleScript.expectFunction (L.context ctx) (L.value v) (L.position pos)) := by
  cases v
  case function f => exact .pure f
  all_goals exact .fail ctx pos _

theorem applySign (negative : Bool) (operand : SignOperand) :
    L.Mirrors bound L.value (RuleScript.applySign e ctx negative operand)
      (RuleScript.applySign e' (L.context ctx) negative (L.signOperand operand)) := by
  have hoperand : L.Mirrors bound (Prod.map L.value L.position) (RuleScript.signOperand e ctx operand)
      (RuleScript.signOperand e' (L.context ctx) (L.signOperand operand)) := by
    cases operand with
    | number pos text suffix => exact (evaluateLiteral pos text suffix).then_return fun _ => rfl
    | word pos name => exact (readVariable pos name).then_return fun _ => rfl
    | paren pos body => exact (he.evaluateValue hr body pos).then_return fun _ => rfl
  refine hoperand.bind fun p => ?_
  obtain ⟨v, pos⟩ := p
  cases v
  case number x => exact .pure_of rfl
  all_goals exact .fail ctx pos _

omit he hr in
theorem elementAt {α β : Type} (f : α → β) (xs : List α) (index : Float) (pos : Position) :
    L.Mirrors bound f (RuleScript.elementAt ctx xs index pos)
      (RuleScript.elementAt (L.context ctx) (xs.map f) index (L.position pos)) := by
  unfold RuleScript.elementAt
  dsimp only
  rw [List.length_map]
  have hfound (k : Int) : (if k < 0 then none else (xs.map f)[k.toNat]?) =
      (if k < 0 then none else xs[k.toNat]?).map f := by
    split
    · rfl
    · exact List.getElem?_map
  simp only [hfound]
  generalize (if index < 0.0 then index + Number.ofInt xs.length else index) = moved
  cases Number.integer? moved with
  | none => exact .fail ctx pos _
  | some k =>
    simp only [Option.bind_eq_bind, Option.bind_some]
    cases (if k < 0 then none else xs[k.toNat]? : Option α) with
    | some x => exact .pure x
    | none => exact .fail ctx pos _

theorem applyIndex (target : Value) (body : List Node) (pos : Position) :
    L.Mirrors bound L.value (RuleScript.applyIndex e ctx target body pos)
      (RuleScript.applyIndex e' (L.context ctx) (L.value target) (body.map L.node) (L.position pos)) := by
  refine (he.evaluateValue hr body pos).bind fun index => ?_
  cases target
  case array r =>
    have hitems : L.Mirrors bound (List.map L.value) (Eval.onHeap (·.items r))
        (Eval.onHeap (·.items (L.array r))) := .onHeap fun hh => hh.items r
    refine hitems.bind fun xs => Mirrors.bind (f := id) ?_ fun i => elementAt L.value xs i pos
    cases index
    case number x => exact .ite (.pure x) (.fail ctx pos _)
    all_goals exact .fail ctx pos _
  case string s =>
    have helement (i : Float) : L.Mirrors bound id (RuleScript.elementAt ctx s.toList i pos)
        (RuleScript.elementAt (L.context ctx) s.toList i (L.position pos)) := by
      simpa only [List.map_id] using elementAt id s.toList i pos
    refine Mirrors.bind (f := id) ?_ fun i => (helement i).then_return fun _ => rfl
    cases index
    case number x => exact .ite (.pure x) (.fail ctx pos _)
    all_goals exact .fail ctx pos _
  case dict d =>
    cases index
    case string key =>
      have hread : L.Mirrors bound L.table (Eval.onHeap (·.dict d)) (Eval.onHeap (·.dict (L.dict d))) :=
        .onHeap fun hh => hh.dict d
      refine hread.bind fun t => ?_
      rw [L.get?_table]
      cases t.get? key with
      | some v => exact .pure_of rfl
      | none => exact .fail ctx pos _
    all_goals exact .fail ctx pos _
  all_goals exact .fail ctx pos _

theorem evaluateEntries (pos : Position) : ∀ (entries : List (List Node)) (t : Table Value),
    L.Mirrors bound L.table (RuleScript.evaluateEntries e ctx pos entries t)
      (RuleScript.evaluateEntries e' (L.context ctx) (L.position pos) (entries.map (List.map L.node))
        (L.table t))
  | [], t => .pure t
  | entry :: rest, t => by
    rw [List.map_cons]
    unfold RuleScript.evaluateEntries
    rw [L.entryParts?_map]
    cases entryParts? entry with
    | none =>
      have hpos : (((entry.map L.node).head?.map (·.pos)).getD (L.position pos)) =
          L.position ((entry.head?.map (·.pos)).getD pos) := by
        cases entry with
        | nil => rfl
        | cons n _ => exact L.pos_node n
      dsimp only [Option.map_none]
      rw [hpos]
      exact .fail ctx _ _
    | some p =>
      obtain ⟨first, keyNodes, colonPos, valueNodes⟩ := p
      dsimp only [Option.map_some]
      rw [L.pos_node]
      refine (he.evaluateValue hr keyNodes first.pos).bind fun k => ?_
      cases k
      case string key =>
        refine (he.evaluateValue hr valueNodes colonPos).bind fun v => ?_
        rw [← L.table_set]
        exact evaluateEntries pos rest (t.set key v)
      all_goals exact .fail ctx first.pos _

/-! ### Rules -/

omit he in
/-- A function made in a scope within reach. -/
theorem newScriptFunction (names : List String) (body : List Node) (name : Option String)
    (isBlock : Bool) :
    L.Mirrors bound L.value
      (Eval.newFunction (.script ⟨names, body, ctx.scope, ctx.source, name, isBlock, none⟩))
      (Eval.newFunction (.script ⟨names, body.map L.node, (L.context ctx).scope, ctx.source, name, isBlock,
        none⟩)) := by
  have hnew := Mirrors.newScript (F := ⟨names, body, ctx.scope, ctx.source, name, isBlock, none⟩) hr
  unfold code at hnew
  dsimp only at hnew
  rwa [L.nodes_eq_map] at hnew

/-- **Rules mirror themselves.** -/
theorem redexRun (x : Redex) :
    L.Mirrors bound L.value (x.run e ctx) ((L.redex x).run e' (L.context ctx)) := by
  cases x with
  | function name paramsPos params body =>
    simp only [redex, Redex.run]
    rw [L.splitOn_map]
    refine (parameterNames paramsPos _).bind fun names => ?_
    refine (newScriptFunction hr names body name false).bind fun f => ?_
    cases name with
    | some n => exact (Mirrors.define ctx.scope n f).bind fun _ => .pure_of rfl
    | none => exact .pure_of rfl
  | wordString text => exact .pure_of rfl
  | declaration name pos body =>
    refine (he.evaluateValue hr body pos).bind fun v => ?_
    exact (Mirrors.assign ctx.scope name v).bind fun _ => .pure_of rfl
  | capture v name => exact (Mirrors.assign ctx.scope name v).bind fun _ => .pure_of rfl
  | member target dot key keyPos =>
    cases target
    case dict d =>
      have hread : L.Mirrors bound L.table (Eval.onHeap (·.dict d)) (Eval.onHeap (·.dict (L.dict d))) :=
        .onHeap fun hh => hh.dict d
      refine hread.bind fun t => ?_
      rw [L.get?_table]
      cases t.get? key with
      | some v => exact .pure_of rfl
      | none => exact .fail ctx keyPos _
    all_goals exact .fail ctx dot _
  | invoke callee calleePos args pos =>
    exact (expectFunction callee calleePos).bind fun f => he.call hr f args pos
  | invokeBlock callee calleePos block pos =>
    refine (expectFunction callee calleePos).bind fun f => ?_
    refine (newScriptFunction hr [] block none true).bind fun callback => ?_
    exact he.call hr f [.value pos callback] pos
  | index target body pos => exact he.applyIndex hr target body pos
  | sign negative operand => exact he.applySign hr negative operand
  | number pos text suffix => exact evaluateLiteral pos text suffix
  | word pos name => exact readVariable pos name
  | quoted raw => exact .pure_of rfl
  | paren pos body => exact he.evaluateValue hr body pos
  | array pos body =>
    simp only [redex, Redex.run]
    rw [L.splitOn_map]
    exact (he.evaluateParts hr pos _ _).bind fun vs => .newArray vs
  | dict pos body =>
    simp only [redex, Redex.run]
    rw [L.dictEntries_map]
    exact (he.evaluateEntries hr pos _ []).bind fun t => .newDict t

theorem applyRule (b : List Node) :
    L.Mirrors bound (Option.map (List.map L.node)) (RuleScript.applyRule e ctx b)
      (RuleScript.applyRule e' (L.context ctx) (b.map L.node)) := by
  unfold RuleScript.applyRule
  rw [L.find?_map]
  cases Match.find? b with
  | none => exact .pure_of rfl
  | some m =>
    refine (Mirrors.fire ctx "RULE" m.rule.name m.pos).bind fun _ => ?_
    refine (he.redexRun hr m.redex).then_return fun v => ?_
    rw [L.result_found]
    rfl

/-! ### Operators -/

theorem operand (a : Application) (side : List Node) :
    L.Mirrors bound (Prod.map L.value L.node) (a.operand e ctx side)
      ((L.application a).operand e' (L.context ctx) (side.map L.node)) := by
  cases side with
  | nil => exact .fail ctx a.pos _
  | cons n _ => exact (he.evaluateNode hr n).then_return fun _ => rfl

omit he hr in
theorem numberOf (a : Application) (side : String) (p : Value × Node) :
    L.Mirrors bound id (a.numberOf ctx side p)
      ((L.application a).numberOf (L.context ctx) side (Prod.map L.value L.node p)) := by
  obtain ⟨v, n⟩ := p
  cases v
  case number x => exact .pure x
  all_goals
    unfold Application.numberOf
    dsimp only [Prod.map, value]
    rw [L.pos_node]
    exact .fail ctx n.pos _

omit he hr in
theorem boolOf (a : Application) (side : String) (p : Value × Node) :
    L.Mirrors bound id (a.boolOf ctx side p)
      ((L.application a).boolOf (L.context ctx) side (Prod.map L.value L.node p)) := by
  obtain ⟨v, n⟩ := p
  cases v
  case bool b => exact .pure b
  all_goals
    unfold Application.boolOf
    dsimp only [Prod.map, value]
    rw [L.pos_node]
    exact .fail ctx n.pos _

theorem operands (a : Application) :
    L.Mirrors bound (Prod.map (Prod.map L.value L.node) (Prod.map L.value L.node)) (a.operands e ctx)
      ((L.application a).operands e' (L.context ctx)) :=
  (he.operand hr a a.before).bind fun _ => (he.operand hr a a.after).then_return fun _ => rfl

theorem applyPlusMinus (a : Application) (sign : Float → Float) (op : Float → Float → Float) :
    L.Mirrors bound (List.map L.node) (a.applyPlusMinus e ctx sign op)
      ((L.application a).applyPlusMinus e' (L.context ctx) sign op) := by
  have hunary : isUnaryPosition (L.application a).before.head? = isUnaryPosition a.before.head? := by
    rw [application, List.head?_map, isUnaryPosition_map]
  unfold Application.applyPlusMinus
  rw [hunary]
  refine (he.operand hr a a.after).bind fun r => (numberOf a "right" r).bind fun y => ?_
  refine .ite (.pure_of (L.leading_application a (.number (sign y)))) ?_
  refine (he.operand hr a a.before).bind fun l => (numberOf a "left" l).then_return fun x => ?_
  exact L.between_application a (.number (op x y))

theorem applyHash (a : Application) :
    L.Mirrors bound (List.map L.node) (a.applyHash e ctx)
      ((L.application a).applyHash e' (L.context ctx)) := by
  obtain ⟨operator, before, pos, after⟩ := a
  cases after with
  | nil => exact .fail ctx pos _
  | cons n rest =>
    have hshow : L.Mirrors bound (List.map L.node)
        (do let v ← RuleScript.evaluateNode e ctx n
            return (⟨operator, before, pos, n :: rest⟩ : Application).leading
              (.string (v.shown (← Eval.onHeap id))))
        (do let v ← RuleScript.evaluateNode e' (L.context ctx) (L.node n)
            return (L.application ⟨operator, before, pos, n :: rest⟩).leading
              (.string (v.shown (← Eval.onHeap id)))) := by
      refine (he.evaluateNode hr n).bind fun v m m' hm => ?_
      have hshown := hm.heap.shown v
      refine Mirrors.pure_of ?_ hm
      show (L.application _).leading (.string ((L.value v).shown m'.heap)) = _
      rw [hshown]
      exact L.leading_application _ (.string (v.shown m.heap))
    cases n
    case word p text => exact .pure_of (L.leading_application _ (.string text))
    case span p d body =>
      rw [L.node_span] at hshow
      unfold application at hshow ⊢
      rw [List.map_cons, L.node_span] at hshow ⊢
      exact hshow
    all_goals exact hshow

theorem applyAssign (a : Application) :
    L.Mirrors bound (List.map L.node) (a.applyAssign e ctx)
      ((L.application a).applyAssign e' (L.context ctx)) := by
  obtain ⟨operator, before, pos, after⟩ := a
  cases before with
  | nil => exact .fail ctx pos _
  | cons n rest =>
    cases n
    case word p name =>
      refine (he.evaluateValue hr after pos).bind fun v => ?_
      refine (Mirrors.assign ctx.scope name v).bind fun _ => .pure_of ?_
      rw [List.map_append, List.map_reverse]
      rfl
    case span p d body =>
      unfold application
      rw [List.map_cons, L.node_span]
      exact .fail ctx p _
    case number p _ _ | quoted p _ | symbol p _ | value p _ => exact .fail ctx p _

/-- **Operators mirror themselves.** -/
theorem applicationRun (a : Application) :
    L.Mirrors bound (List.map L.node) (a.run e ctx) ((L.application a).run e' (L.context ctx)) := by
  have hands := he.operands hr a
  have hoperator : (L.application a).operator = a.operator := rfl
  unfold Application.run
  rw [hoperator]
  split
  · rename_i f _ hf
    refine hands.bind fun p => (numberOf a "left" p.1).bind fun x => ?_
    refine (numberOf a "right" p.2).then_return fun y => ?_
    rw [← L.between_application, L.value_onNumbers? hf]
    rfl
  · rename_i f _ _
    refine hands.bind fun p => (boolOf a "left" p.1).bind fun x => ?_
    exact (boolOf a "right" p.2).then_return fun y => L.between_application a (.bool (f x y))
  · split
    · exact he.applyPlusMinus hr a _ _
    · exact he.applyPlusMinus hr a _ _
    · refine (he.operand hr a a.after).bind fun r => ?_
      exact (boolOf a "right" r).then_return fun b => L.leading_application a (.bool !b)
    · refine hands.then_return fun p => ?_
      dsimp only [Prod.map]
      rw [L.strictEq_value]
      exact L.between_application a (.bool _)
    · refine hands.then_return fun p => ?_
      dsimp only [Prod.map]
      rw [L.strictEq_value]
      exact L.between_application a (.bool _)
    · exact he.applyAssign hr a
    · exact he.applyHash hr a

theorem applyOperator (b : List Node) :
    L.Mirrors bound (Option.map (List.map L.node)) (RuleScript.applyOperator e ctx b)
      (RuleScript.applyOperator e' (L.context ctx) (b.map L.node)) := by
  unfold RuleScript.applyOperator
  rw [L.application_find?_map]
  cases Application.find? b with
  | none => exact .pure_of rfl
  | some a =>
    refine (Mirrors.fire ctx "OP" a.operator.symbol a.pos).bind fun _ => ?_
    exact (he.applicationRun hr a).then_return fun _ => rfl

/-! ### Statements -/

theorem reduceStep (b : List Node) :
    L.Mirrors bound (Option.map (List.map L.node)) (RuleScript.reduceStep e ctx b)
      (RuleScript.reduceStep e' (L.context ctx) (b.map L.node)) := by
  refine (he.applyRule hr b).bind fun o => ?_
  cases o with
  | some b' => exact .pure_of rfl
  | none => exact he.applyOperator hr b

omit he hr in
theorem finish_of_ne {b : List Node} (hb : ∀ pos v, b ≠ [.value pos v]) :
    RuleScript.finish ctx b = ((b.find? (!·.isValue)).or b[1]?).elim (pure .absent)
      fun n => Eval.fail ctx n.pos (.unexpected n.describe) := by
  unfold RuleScript.finish
  split
  · rename_i pos v
    exact absurd rfl (hb pos v)
  · cases (b.find? (!·.isValue)).or b[1]? <;> rfl

omit he hr in
theorem finish (b : List Node) :
    L.Mirrors bound L.value (RuleScript.finish ctx b)
      (RuleScript.finish (L.context ctx) (b.map L.node)) := by
  have hfirst : (((b.map L.node).find? (!·.isValue)).or (b.map L.node)[1]?) =
      ((b.find? (!·.isValue)).or b[1]?).map L.node := by
    rw [List.find?_map, List.getElem?_map, Option.map_or]
    congr 3
    funext n
    exact congrArg (!·) (L.isValue_node n)
  have hleft (hb : ∀ pos v, b ≠ [.value pos v]) (hb' : ∀ pos v, b.map L.node ≠ [.value pos v]) :
      L.Mirrors bound L.value (RuleScript.finish ctx b)
        (RuleScript.finish (L.context ctx) (b.map L.node)) := by
    rw [finish_of_ne hb, finish_of_ne hb', hfirst]
    cases (b.find? (!·.isValue)).or b[1]? with
    | none => exact .pure_of rfl
    | some n =>
      dsimp only [Option.map_some, Option.elim_some]
      rw [L.pos_node, L.describe_node]
      exact .fail ctx n.pos _
  rcases b with _ | ⟨n, _ | ⟨n', rest⟩⟩
  · exact hleft (by simp) (by simp)
  · cases n
    case value pos v => exact .pure v
    all_goals exact hleft (by simp) (by simp [node])
  · exact hleft (by simp) (by simp)

theorem reduceFor : ∀ (steps : Nat) (b : List Node),
    L.Mirrors bound L.value (RuleScript.reduceFor e ctx steps b)
      (RuleScript.reduceFor e' (L.context ctx) steps (b.map L.node))
  | 0, b => finish b
  | steps + 1, b => by
    refine (he.reduceStep hr b).bind fun o => ?_
    cases o with
    | some b' => exact reduceFor steps b'
    | none => exact finish b

theorem evaluateStatement (statement : List Node) :
    L.Mirrors bound L.value (RuleScript.evaluateStatement e ctx statement)
      (RuleScript.evaluateStatement e' (L.context ctx) (statement.map L.node)) := by
  cases statement with
  | nil => exact .pure_of rfl
  | cons n rest =>
    show L.Mirrors bound L.value _
      (RuleScript.reduceFor e' (L.context ctx) ((n :: rest).map L.node).length ((n :: rest).map L.node))
    rw [List.length_map]
    exact he.reduceFor hr _ (n :: rest)

theorem evaluateStatements : ∀ (statements : List (List Node)) (last : Value),
    L.Mirrors bound L.value (RuleScript.evaluateStatements e ctx last statements)
      (RuleScript.evaluateStatements e' (L.context ctx) (L.value last) (statements.map (List.map L.node)))
  | [], last => .pure last
  | s :: rest, _ => (he.evaluateStatement hr s).bind fun v => evaluateStatements rest v

/-- **Statement lists mirror themselves.** -/
theorem evaluateList (ns : List Node) :
    L.Mirrors bound L.value (RuleScript.evaluateList e ctx ns)
      (RuleScript.evaluateList e' (L.context ctx) (ns.map L.node)) := by
  unfold RuleScript.evaluateList
  rw [L.splitOn_map]
  exact he.evaluateStatements hr _ .absent

/-! ### Calls -/

omit he hr in
theorem bindParameters_map : ∀ (ps : List String) (vs : List Value) (t : Table Value),
    bindParameters ps (vs.map L.value) (L.table t) = L.table (bindParameters ps vs t)
  | [], _, _ => rfl
  | p :: ps, vs, t => by
    have hhead : (vs.map L.value).headD .null = L.value (vs.headD .null) := by cases vs <;> rfl
    rw [bindParameters, bindParameters, hhead, ← L.table_set, ← List.map_tail]
    exact bindParameters_map ps vs.tail _

/-- **A call of a function of the language mirrors itself.** -/
theorem callScript {f : ScriptFunction} (hf : L.Reaches bound f.scope) (args : List Node) (pos : Position) :
    L.Mirrors bound L.value (RuleScript.callScript e ctx f args pos)
      (RuleScript.callScript e' (L.context ctx) { f with body := L.nodes f.body, scope := L.scope f.scope }
        (args.map L.node) (L.position pos)) := by
  have hbody {bound : Nat} {s : ScopeRef} (hs : L.Reaches bound s) : L.Mirrors bound L.value
      (e.evaluate (ctx.within s f.source) f.body)
      (e'.evaluate ((L.context ctx).within (L.scope s) f.source) (L.nodes f.body)) := by
    rw [L.nodes_eq_map]
    exact he.evaluate hs f.body
  refine (he.evaluateArguments hr args pos).bind fun values => ?_
  dsimp only
  rw [List.length_map]
  refine .ite (.fail ctx pos _) (.ite ?_ ?_)
  · simp only [pure_bind]
    refine (hbody hf).bind fun v => ?_
    cases v <;> exact .pure_of rfl
  · have htable : bindParameters f.params (values.map L.value) [] =
        L.table (bindParameters f.params values []) := bindParameters_map f.params values []
    rw [htable]
    refine .newScope hf _ fun hs => (hbody hs).bind fun v => ?_
    cases v <;> exact .pure_of rfl

end Engines

end Likeness

end RuleScript
