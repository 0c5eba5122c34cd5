/-
# A sign in front of an operand

A sign in front of a word or a literal number takes it at once, and so it takes
a parenthesis, by a rule and before anything else is applied. In front of an
operand that accesses are applied to, the rules leave the sign alone, and it is
applied as an operator when its turn comes. So brackets around the operand move
the sign from one mechanism to the other.

They change nothing for a number where the sign's turn comes before anything
else takes it: where the sign is not right behind `**`, `#` or another sign, and,
for a minus, where neither `**` nor a capture is right behind the operand
(`bracketed_operand_reduces_alike`). The brackets cost one level; apart from that
the outcome is the same. Elsewhere brackets do make a difference: `- -x.a` does
not reduce, and `- -(x.a)` does (`brackets_behind_signs_matter`).

That the operand is a number is asked where its turn comes, which is when the
rules in front of the sign have fired (`Sign.Reached`). The proof follows them:
they fire in both buffers (`bracketed_concur`), then the operand is reduced, in
place or inside the brackets (`bracketed_concur_of_quiet`), and what is left are
two buffers that differ in a sign that is applied beforehand in one of them
(`interchange_sign`).

Key definitions: `Sign.Reached`, `Sign.onValue`.
Key theorems: `sign_paren_concur`, `bracketed_concur`,
`bracketed_operand_reduces_alike`.
-/
import RuleScript.Proofs.Reduction.Assignment
import RuleScript.Proofs.Reduction.SignedNumber

namespace RuleScript

open Eval (Returns)

/-! ### The operand of a sign -/

/-- **A sign is reached** behind `left` when no rule fits in front of it any more:
the rules that do are applied to `left`, one after the other. -/
inductive Sign.Reached (e : Engine) (ctx : Context) (s : Sign) : List Node → Machine → Machine → Prop
  | now {left : List Node} {m : Machine} (h : Match.find? (left ++ [s.node]) = none) :
    Reached e ctx s left m m
  | later {left left' : List Node} {m m₁ m' : Machine}
    (hrule : applyRule e ctx (left ++ [s.node]) m = (.ok (some (left' ++ [s.node])), m₁))
    (h : Reached e ctx s left' m₁ m') : Reached e ctx s left m m'

namespace Operand

theorem hasPostfix_accesses {o : Operand} (ho : o.accesses ≠ []) (right : List Node) :
    RuleScript.hasPostfix (o.accesses.flatMap Access.nodes ++ right) = true := by
  obtain ⟨a, rest, hrest⟩ := List.exists_cons_of_ne_nil ho
  rw [hrest]
  cases a <;> rfl

theorem nodes_ne_semicolon (o : Operand) : ∀ k ∈ o.nodes, k.isSymbolText ";" = false := by
  intro k hk
  rcases List.mem_cons.mp hk with rfl | hk
  · cases o.head <;> rfl
  · obtain ⟨a, -, hk⟩ := List.mem_flatMap.mp hk
    cases a with
    | member dot pos key =>
      rcases List.mem_cons.mp hk with rfl | hk
      · rfl
      · obtain rfl := List.mem_singleton.mp hk
        rfl
    | span pos kind body =>
      obtain rfl := List.mem_singleton.mp hk
      rfl

/-- A sign leaves an operand that accesses are applied to, unless that starts
with a number. -/
theorem leaves {o : Operand} {s : Sign} (hs : s.IsNumeric) (ho : o.accesses ≠ [])
    (hhead : ∀ q text suffix, o.head ≠ .number q text suffix) (right : List Node) :
    s.Leaves o.head.node (o.accesses.flatMap Access.nodes ++ right) := by
  have hpost := o.hasPostfix_accesses ho right
  obtain ⟨head, accesses⟩ := o
  cases head with
  | number q text suffix => exact absurd rfl (hhead q text suffix)
  | word q name =>
    refine ⟨?_, hpost⟩
    rcases hs with hs | hs <;> rw [hs] <;> decide
  | span q kind body => cases kind <;> first | exact hpost | trivial
  | _ => trivial

end Operand

section Brackets

variable {lost : Stop → Prop} {n : Nat} {ctx : Context}

/-- An operand in brackets is reduced one level down. -/
theorem evaluate_operand (o : Operand) :
    (Engine.level (n + 1)).evaluate ctx o.nodes = reduce (Engine.level n) ctx o.nodes :=
  evaluateList_statement _ ctx (by simp [Operand.nodes]) o.nodes_ne_semicolon

theorem evaluate_operand_concurs (o : Operand) : Concurs Stop.GivesUp (· = ·)
    (reduce (Engine.level n) ctx o.nodes) ((Engine.level n).evaluate ctx o.nodes) := by
  cases n with
  | zero => exact fun m m' _ => .lost ⟨none, rfl⟩
  | succ n =>
    rw [evaluate_operand]
    exact reduce_succ_concurs n ctx (fun _ => id) o.nodes

/-- What a sign does with the value of an operand in brackets, and what follows
if it is a number. -/
def Sign.onValue (s : Sign) (ctx : Context) (inside p : Position) (G : Value → Eval Value) :
    Value → Eval Value
  | .number a => G (.number (s.applied a))
  | .absent => Eval.fail ctx inside .noValue
  | v => Eval.fail ctx p (.signOperand s.op.symbol v.kind)

/-- Where an operand has a number as its value, what follows it and what follows
the sign applied to it in brackets concur if they do for the number. -/
theorem sign_paren_concur {s : Sign} (hs : s.IsNumeric) {o : Operand} (p : Position) {F G : Value → Eval Value}
    {m m' m₁ : Machine} (hm : Near m m') {a : Float}
    (ha : reduce (Engine.level n) ctx o.nodes m = (.ok (.number a), m₁))
    (hnumber : Concurs Stop.GivesUp (· = ·) (F (.number a)) (G (.number (s.applied a)))) :
    Concur Stop.GivesUp (· = ·) ((reduce (Engine.level n) ctx o.nodes >>= F) m)
      (((Redex.sign (s.op == .minus) (.paren p o.nodes)).run (Engine.level n) ctx >>= G) m') := by
  have happlied (a : Float) : (if (s.op == .minus) = true then -a else a) = s.applied a := by
    unfold Sign.applied
    by_cases h : s.op = .minus <;> simp [h]
  have htext : (if (s.op == .minus) = true then "-" else "+") = s.op.symbol := by
    rcases hs with h | h <;> rw [h] <;> rfl
  have hrun : (Redex.sign (s.op == .minus) (.paren p o.nodes)).run (Engine.level n) ctx >>= G =
      (Engine.level n).evaluate ctx o.nodes >>= s.onValue ctx o.pos p G := by
    obtain ⟨rest, hnodes⟩ : ∃ rest, o.nodes = o.head.node :: rest := ⟨_, rfl⟩
    rw [hnodes]
    simp only [Redex.run, applySign, signOperand, evaluateValue, bind_assoc, pure_bind, happlied, htext]
    congr 1
    funext v
    cases v <;> rfl
  rw [hrun]
  refine (evaluate_operand_concurs o hm).bind fun hvw hm hv _ => ?_
  rw [ha] at hv
  obtain ⟨hv, -⟩ := Prod.mk.inj hv
  obtain rfl := Except.ok.inj hv
  subst hvw
  exact hnumber hm

end Brackets

/-! ### What the sign takes -/

section Taken

variable {s : Sign} (hs : s.IsNumeric) {left : List Node} (hquiet : Quiet left)
  (hunary : isUnaryPosition left.reverse.head? = true)

include hs hquiet hunary

omit hunary in
/-- A sign that nothing is behind takes nothing. -/
theorem Quiet.find?_sign : Match.find? (left ++ [s.node]) = none := by
  refine (hquiet s.node [] s.isSolid_node).trans ?_
  obtain ⟨pos, op, hop⟩ := s
  obtain rfl | rfl := hs <;>
    simp [Match.findFrom?, Match.here?, Rule.table, Rule.redex?, Sign.node, Rule.signNumber?,
      Rule.signWord?, Rule.signParen?, Rule.signed?]

/-- A sign takes a parenthesis that nothing is applied to. -/
theorem Quiet.find?_sign_paren {right : List Node} (hright : hasPostfix right = false) (p : Position)
    (body : List Node) :
    ∃ rule, Match.find? (left ++ s.node :: .span p .paren body :: right) =
      some ⟨rule, .sign (s.op == .minus) (.paren p body), left, s.pos, right⟩ := by
  refine ⟨if s.op = .minus then .negativeParenthesis else .positiveParenthesis, ?_⟩
  refine (hquiet s.node _ s.isSolid_node).trans ?_
  rw [List.head?_reverse] at hunary
  obtain ⟨pos, op, hop⟩ := s
  -- the rules for functions look for a block behind the parenthesis, so what follows is split
  obtain rfl | rfl := hs
  all_goals
    rcases right with _ | ⟨_ | _ | _ | _ | _ | _, right⟩ <;> first
      | (simp [hasPostfix] at hright; done)
      | simp [Match.findFrom?, Match.here?, Rule.table, Rule.redex?, Rule.width, Sign.node, Node.pos,
          Rule.signNumber?, Rule.signWord?, Rule.signParen?, Rule.signed?, Node.isSymbolText, hunary, hright,
          Operator.symbol]

end Taken

/-! ### Literal numbers -/

section Number

variable {n : Nat} {ctx : Context} {o : Operand}

/-- No access can be applied to a number. -/
theorem reduce_number_access_fails {e : Engine} {left : List Node} (hquiet : Quiet left) (p : Position)
    (a : Float) (access : Access) (right : List Node) :
    Eval.Fails (reduce e ctx (left ++ .value p (.number a) :: (access.nodes ++ right))) := by
  have hfind := hquiet.find?_signed ⟨none, p, .number a⟩ (access.nodes ++ right)
  rcases atNumber (access.nodes ++ right) with h | ⟨q, w, name, rest, hright, -⟩ | ⟨rule, redex, h, hfails⟩
  · have hnone := h none p a
    rcases access with _ | ⟨_, _ | _ | _, _⟩ <;> cases hnone
  · rcases access with _ | ⟨_, _ | _ | _, _⟩ <;> simp [Access.nodes] at hright
  · rw [Match.findFrom?, h] at hfind
    exact (reduce_of_rule hfind).symm ▸ .bind fun _ => (hfails e ctx p a p a).fails.andThen

theorem evaluateLiteral_returns (pos : Position) (text suffix : String) :
    Returns (fun v => ∃ a, v = .number a) (evaluateLiteral ctx pos text suffix) := by
  unfold evaluateLiteral
  split
  · exact .pure ⟨_, rfl⟩
  · exact .fail ctx _ _
  · exact .fail ctx _ _
  · rintro m v m' ⟨⟩

variable (ho : o.accesses ≠ []) {q : Position} {text suffix : String} (hhead : o.head = .number q text suffix)

include ho hhead

theorem Operand.reduce_fails_of_number (e : Engine) : Eval.Fails (reduce e ctx o.nodes) := by
  obtain ⟨access, rest, haccesses⟩ := List.exists_cons_of_ne_nil ho
  have hstep : o.step? = some (.number, .number q text suffix, o.accesses) := by
    obtain ⟨head, accesses⟩ := o
    obtain rfl : head = _ := hhead
    rfl
  rw [reduce_step_alone e ctx hstep, haccesses]
  refine .bind fun _ => .bind_of (evaluateLiteral_returns q text suffix) ?_
  rintro _ ⟨a, rfl⟩
  exact reduce_number_access_fails .nil _ a access _

end Number

/-! ### The two buffers -/

section Reduction

variable {n : Nat} {ctx : Context} {s : Sign} (hs : s.IsNumeric) {o : Operand} (ho : o.accesses ≠ [])
  (p : Position) {right : List Node} (hright : hasPostfix right = false)
  (hdetached : s.op = .minus → Detached right)

include hs ho hright hdetached

/-- The two buffers, once no rule fits in front of the sign. -/
theorem bracketed_concur_of_quiet {left : List Node} (hquiet : Quiet left) (hleaves : LeavesSign left.reverse)
    {m m' m₁ : Machine} (hm : Near m m') {a : Float}
    (ha : reduce (Engine.level n) ctx o.nodes m = (.ok (.number a), m₁)) :
    Concur Stop.GivesUp (· = ·) (reduce (Engine.level n) ctx (left ++ s.node :: (o.nodes ++ right)) m)
      (reduce (Engine.level n) ctx (left ++ s.node :: .span p .paren o.nodes :: right) m') := by
  obtain ⟨rule, hbracketed⟩ := hquiet.find?_sign_paren hs hleaves.isUnaryPosition hright p o.nodes
  rw [reduce_of_rule hbracketed]
  have hhead (q : Position) (text suffix : String) : o.head ≠ .number q text suffix := fun hhead =>
    o.reduce_fails_of_number ho hhead _ _ _ _ ha
  have hleft : IsLeft (left ++ [s.node]) := by
    refine ⟨.inr ⟨s.pos, s.op.symbol, by simp [Sign.node], ?_⟩, fun pos v rest => ?_⟩
    · rcases hs with hs | hs <;> rw [hs] <;> decide
    · have h := hquiet.find?_signed ⟨some s, pos, v⟩ rest
      simpa [PassedOver, Signed.nodes] using h
  have hpassed : PassedOver (left ++ [s.node]) (o.nodes ++ right) := by
    have hsign : Match.here? left.reverse.head? (s.node :: (o.nodes ++ right)) = none :=
      Match.here?_sign _ (o.leaves hs ho hhead right)
    have h := hquiet s.node (o.nodes ++ right) s.isSolid_node
    rw [PassedOver, Match.findFrom?, hsign] at h
    simpa [PassedOver] using h
  have hprecedes : o.Precedes right := by
    rintro pos name rfl
    exact absurd rfl ho
  have hbare := reduce_operand (Engine.level n) ctx hleft o [] hprecedes fun _ => hpassed
  simp only [settled, List.flatMap_nil, List.nil_append, List.append_assoc, List.singleton_append] at hbare
  rw [hbare]
  obtain ⟨m₂, hfire, hm₂⟩ := near_fire_right ctx "RULE" rule.name s.pos hm
  rw [Eval.bind_run_ok hfire]
  refine sign_paren_concur hs p hm₂ ha ?_
  exact interchange_sign hs _ left right o.pos s.pos a (Nat.le_refl _) hleaves hdetached

/-- The two buffers concur. By induction on the open nodes in front of the sign:
a rule that fits there fires in both. -/
theorem bracketed_concur : ∀ (size : Nat) (left : List Node) {m m' : Machine}, Near m m' →
    openNodes left ≤ size → LeavesSign left.reverse →
    (∀ m₁, s.Reached (Engine.level n) ctx left m' m₁ →
      ∃ a m₂, reduce (Engine.level n) ctx o.nodes m₁ = (.ok (.number a), m₂)) →
    Concur Stop.GivesUp (· = ·) (reduce (Engine.level n) ctx (left ++ s.node :: (o.nodes ++ right)) m)
      (reduce (Engine.level n) ctx (left ++ s.node :: .span p .paren o.nodes :: right) m')
  | size, left, m, m', hm, hsize, hleaves, hnumber => by
    rcases spot_or_quiet left with ⟨spot, hclosed, hfound⟩ | hquiet
    · rw [reduce_of_rule (hfound _ _ s.isSolid_node), reduce_of_rule (hfound _ _ s.isSolid_node),
        ← bind_assoc, ← bind_assoc]
      have hfired : Concurs Stop.GivesUp (· = ·)
          (Eval.fire ctx "RULE" spot.rule.name spot.pos >>= fun _ => spot.redex.run (Engine.level n) ctx)
          (Eval.fire ctx "RULE" spot.rule.name spot.pos >>= fun _ => spot.redex.run (Engine.level n) ctx) :=
        .fire ctx _ _ _ _ _ _ (Redex.run_concurs n ctx spot.redex)
      refine (hfired hm).bind fun {v w m₁ m₁'} hvw hm₁ _ hrun => ?_
      subst hvw
      have hless := spot.openNodes_lt v
      obtain ⟨k, rfl⟩ : ∃ k, size = k + 1 := ⟨size - 1, by omega⟩
      have hrule : applyRule (Engine.level n) ctx (left ++ [s.node]) m' =
          (.ok (some (spot.result v ++ [s.node])), m₁') := by
        rw [applyRule, hfound s.node [] s.isSolid_node]
        dsimp only
        rw [← bind_assoc]
        refine (Eval.bind_run_ok hrun _).trans ?_
        rw [spot.result_inside]
        rfl
      have ih := bracketed_concur k (spot.result v) hm₁ (by omega)
        (hleaves.of_endsAlike (spot.endsAlike hclosed v)) fun m₂ h => hnumber m₂ (.later hrule h)
      simpa only [spot.result_inside, List.reverse_nil, List.nil_append] using ih
    · obtain ⟨a, m₂, ha⟩ := hnumber m' (.now (hquiet.find?_sign hs))
      have hself : Concur Stop.GivesUp (· = ·) (reduce (Engine.level n) ctx o.nodes m)
          (reduce (Engine.level n) ctx o.nodes m') := reduce_concurs n ctx o.nodes hm
      rw [ha] at hself
      generalize hr : reduce (Engine.level n) ctx o.nodes m = r at hself
      cases hself with
      | value hab _ =>
        subst hab
        exact bracketed_concur_of_quiet hs ho p hright hdetached hquiet hleaves hm hr

end Reduction

/-- **Brackets around the operand of a sign change nothing** where the sign has
the operand to itself. Let a plus or a minus stand in front of an operand that
calls, indices or member accesses are applied to, at the start of the buffer or
behind a symbol that is neither `**` nor `#` nor a sign of a number; for a minus,
let neither `**` nor `$` with a name be right behind the operand; and let the
operand have a number as its value when the sign is reached. With brackets around
the operand the buffer reduces to the same value as without, or fails as it does
without, and leaves the same heap; or it has no level left for the brackets. -/
theorem bracketed_operand_reduces_alike (n : Nat) (ctx : Context) (m : Machine) {left right : List Node}
    {s : Sign} {o : Operand} (p : Position) (hs : s.IsNumeric) (ho : o.accesses ≠ [])
    (hright : hasPostfix right = false) (hleaves : LeavesSign left.reverse)
    (hdetached : s.op = .minus → Detached right)
    (hnumber : ∀ m₁, s.Reached (Engine.level n) ctx left m m₁ →
      ∃ a m₂, reduce (Engine.level n) ctx o.nodes m₁ = (.ok (.number a), m₂)) :
    let bare := reduce (Engine.level n) ctx (left ++ s.node :: (o.nodes ++ right)) m
    let bracketed := reduce (Engine.level n) ctx (left ++ s.node :: .span p .paren o.nodes :: right) m
    SameOutcome bare bracketed ∨ ∃ st m', bracketed = (.error st, m') ∧ st.GivesUp :=
  Concur.outcome fun _ hm =>
    bracketed_concur hs ho p hright hdetached _ left hm (Nat.le_refl _) hleaves hnumber

/-- `2 - -x.a` has the value of `2 - -(x.a)`. -/
theorem bracketed_operand_reduces_alike_difference :
    let pos : Position := ⟨some 1, some 1, 0⟩
    let ctx : Context := ⟨⟨0⟩, "main", ⟨none, "", false, .usual⟩⟩
    let m : Machine := { Machine.initial with
      heap := ⟨#[⟨[("x", .dict ⟨0⟩)], none⟩], #[], #[[("a", .number 3)]], #[]⟩ }
    let s : Sign := ⟨pos, .minus, rfl⟩
    let o : Operand := ⟨.word pos "x", [.member pos pos "a"]⟩
    let left : List Node := [.value pos (.number 2), .symbol pos "-"]
    let bracketed := reduce (Engine.level 2) ctx (left ++ [s.node, .span pos .paren o.nodes]) m
    bracketed.1 = .ok (.number (2 - -3)) ∧
      SameOutcome (reduce (Engine.level 2) ctx (left ++ s.node :: (o.nodes ++ [])) m) bracketed := by
  intro pos ctx m s o left bracketed
  have hvalue : bracketed.1 = .ok (.number (2 - -3)) := rfl
  have hleaves : LeavesSign left.reverse := by
    refine ⟨rfl, fun q op hop => .inr ?_⟩
    cases op <;> simp_all [Operator.symbol, Operator.priority, isUnaryPosition, Node.isSymbol]
  have hright : hasPostfix ([] : List Node) = false := rfl
  have hnumber (m₁ : Machine) (h : s.Reached (Engine.level 2) ctx left m m₁) :
      ∃ a m₂, reduce (Engine.level 2) ctx o.nodes m₁ = (.ok (.number a), m₂) := by
    cases h with
    | now => exact ⟨3, _, rfl⟩
    | later hrule =>
      have hnothing : applyRule (Engine.level 2) ctx (left ++ [s.node]) m = (.ok none, m) := rfl
      rw [hnothing] at hrule
      cases hrule
  refine ⟨hvalue, (bracketed_operand_reduces_alike 2 ctx m (s := s) (o := o) pos (.inr rfl) (by simp [o])
    hright hleaves (fun _ => ⟨by simp, by simp⟩) hnumber).resolve_right ?_⟩
  rintro ⟨st, m', hst, -⟩
  have hstop : bracketed.1 = .error st := congrArg Prod.fst hst
  rw [hvalue] at hstop
  cases hstop

/-- Where the operand is not left to the sign, brackets do matter: the operand
`x.a` has the number 3 as its value, and `- -x.a`, `2 ** -x.a` and `# -x.a` do
not reduce, but with brackets around `x.a` they do. -/
theorem brackets_behind_signs_matter :
    let pos : Position := ⟨some 1, some 1, 0⟩
    let ctx : Context := ⟨⟨0⟩, "main", ⟨none, "", false, .usual⟩⟩
    let m : Machine := { Machine.initial with
      heap := ⟨#[⟨[("x", .dict ⟨0⟩)], none⟩], #[], #[[("a", .number 3)]], #[]⟩ }
    let s : Sign := ⟨pos, .minus, rfl⟩
    let o : Operand := ⟨.word pos "x", [.member pos pos "a"]⟩
    let value (nodes : List Node) : Except Stop Value := (reduce (Engine.level maxLevels) ctx nodes m).1
    let unexpected : Stop := .fault ⟨.unexpected "symbol \"-\"", some 1, some 1, "main", none⟩
    value o.nodes = .ok (.number 3) ∧
      (value (s.node :: s.node :: o.nodes) = .error unexpected ∧
        value [s.node, s.node, .span pos .paren o.nodes] = .ok (.number (- -3))) ∧
      (value (.value pos (.number 2) :: .symbol pos "**" :: s.node :: o.nodes) = .error unexpected ∧
        value [.value pos (.number 2), .symbol pos "**", s.node, .span pos .paren o.nodes] =
          .ok (.number (Number.power 2 (-3)))) ∧
      (value (.symbol pos "#" :: s.node :: o.nodes) = .error unexpected ∧
        value [.symbol pos "#", s.node, .span pos .paren o.nodes] =
          .ok (.string ((Value.number (-3)).shown m.heap))) :=
  ⟨rfl, ⟨rfl, rfl⟩, ⟨rfl, rfl⟩, rfl, rfl⟩

end RuleScript
