/-
# Values in the same surroundings

Two buffers that differ in one signed value reduce alike if the difference is
made up for as soon as a rule or an operator comes to it. Until then the same
rules fire and the same operators are applied in what stands to the left and to
the right of it. This module has one lemma for the rules (`interchange_by_rules`)
and one for the operators of each side (`interchange_left`,
`interchange_right`); what happens at the value itself is left to the caller.

The first use is the value that is the same in both buffers but stands at
another position: since a position is only shown, in traces and in faults, where
a number stands makes no difference to the value of a reduction (`placeFree`).
The proof is by induction on the levels, because an assignment evaluates what is
to its right one level down, and by induction on the open nodes on each level.

Key definitions: `Interchange`, `PlaceFree`.
Key theorems: `interchange_by_rules`, `interchange_left`, `interchange_right`,
`placeFree`.
-/
import RuleScript.Proofs.Reduction.Concurrence

namespace RuleScript

open Eval (Returns)

/-- Two signed values in the same surroundings reduce alike. -/
def Interchange (lost : Stop → Prop) (n : Nat) (ctx : Context) (x y : Signed) (left right : List Node) :
    Prop :=
  Concurs lost (· = ·) (reduce (Engine.level n) ctx (left ++ (x.nodes ++ right)))
    (reduce (Engine.level n) ctx (left ++ (y.nodes ++ right)))

/-! ### Away from the value -/

section Around

variable {lost : Stop → Prop} {n : Nat} {ctx : Context} {left right : List Node}

/-- **Rules around a number.** If two signed numbers are interchangeable in what
rules leave of their surroundings, and where no rule fits, then they are
interchangeable. -/
theorem interchange_by_rules {o o' : Option Sign} {p p' : Position} {a a' : Float}
    (hleft : ∀ left', EndsAlike left left' → openNodes left' < openNodes left →
      Interchange lost n ctx ⟨o, p, .number a⟩ ⟨o', p', .number a'⟩ left' right)
    (hright : ∀ front rest q w rest', right = front ++ rest →
      openNodes (front ++ .value q w :: rest') < openNodes right →
      Interchange lost n ctx ⟨o, p, .number a⟩ ⟨o', p', .number a'⟩ left (front ++ .value q w :: rest'))
    (hcapture : ∀ q w name rest, right = .symbol q "$" :: .word w name :: rest →
      a' = a ∧ Interchange lost n ctx ⟨o, p, .number a⟩ ⟨o', p', .number a'⟩ left rest)
    (hnone : (∀ o p b, Match.find? (left ++ (Signed.nodes ⟨o, p, .number b⟩ ++ right)) = none) →
      Interchange lost n ctx ⟨o, p, .number a⟩ ⟨o', p', .number a'⟩ left right) :
    Interchange lost n ctx ⟨o, p, .number a⟩ ⟨o', p', .number a'⟩ left right := by
  rcases spot_or_quiet left with ⟨s, hclosed, hfound⟩ | hquiet
  · have hfind (x : Signed) :
        Match.find? (left ++ (x.nodes ++ right)) = some (s.inside [] (x.nodes ++ right)) := by
      obtain ⟨k, rest, hnodes, hk⟩ := x.exists_solid
      rw [hnodes]
      exact hfound k (rest ++ right) hk
    refine .of_rule (hfind _) (hfind _) (Redex.run_concurs n ctx s.redex) ?_
    rintro v _ rfl
    rw [s.result_inside, s.result_inside]
    exact hleft (s.result v) (s.endsAlike hclosed v) (s.openNodes_lt v)
  have hfind (o : Option Sign) (p : Position) (b : Float) :
      Match.find? (left ++ (Signed.nodes ⟨o, p, .number b⟩ ++ right)) =
        Match.findFrom? ((o.map Sign.node).toList ++ left.reverse) (.value p (.number b) :: right) :=
    hquiet.find?_signed ⟨o, p, .number b⟩ right
  rcases atNumber right with hnothing | ⟨q, w, name, rest, hsplit, hmatch⟩ | ⟨rule, redex, hmatch, hfails⟩
  · rcases Match.findFrom?_behind_value right [] with ⟨s, hfound⟩ | hquiet
    · have hspot (o : Option Sign) (p : Position) (b : Float) :
          Match.find? (left ++ (Signed.nodes ⟨o, p, .number b⟩ ++ right)) =
            some (s.inside (.value p (.number b) :: ((o.map Sign.node).toList ++ left.reverse)) []) := by
        rw [hfind, Match.findFrom?, hnothing]
        exact hfound p (.number b) _
      refine .of_rule (hspot o p a) (hspot o' p' a') (Redex.run_concurs n ctx s.redex) ?_
      rintro v _ rfl
      have hresult (o : Option Sign) (p : Position) (b : Float) :=
        s.result_behind ⟨o, p, .number b⟩ left v
      rw [hresult, hresult]
      exact hright s.front (s.window ++ s.back) s.pos v s.back s.split (s.openNodes_lt v)
    · refine hnone fun o p b => ?_
      rw [hfind, Match.findFrom?, hnothing]
      exact hquiet p (.number b) _
  · obtain ⟨rfl, hrest⟩ := hcapture q w name rest hsplit
    have hfound (o : Option Sign) (p : Position) := hfind o p a'
    simp only [Match.findFrom?, hmatch] at hfound
    have hvalue : Returns (· = .number a') ((Redex.capture (.number a') name).run (Engine.level n) ctx) :=
      .bind fun _ => .pure rfl
    refine .of_rule (hfound o p) (hfound o' p') ((Redex.run_concurs n ctx _).returns hvalue hvalue) ?_
    rintro _ _ ⟨-, rfl, rfl⟩
    subst hsplit
    cases o <;> cases o' <;>
      simpa [Interchange, Match.result, Signed.nodes, Rule.width, Node.pos] using hrest
  · have hfound (o : Option Sign) (p : Position) (b : Float) := hfind o p b
    simp only [Match.findFrom?, hmatch] at hfound
    have hrun : Concurs lost (fun _ _ => False) ((redex p a).run (Engine.level n) ctx)
        ((redex p' a').run (Engine.level n) ctx) :=
      .of_failTogether (hfails _ _ p a p' a') (Redex.run_concurs n ctx (redex p' a'))
    exact .of_rule (hfound o p a) (hfound o' p' a') hrun fun _ _ h => h.elim

/-- An operator with its operand in `left` leaves the end of `left` as it is. -/
theorem Application.run_endsAlike (e : Engine) (ctx : Context) {a : Application}
    (ha : a ∈ allFrom [] left) (hop : a.operator ≠ .assign) (hafter : a.after ≠ []) :
    Returns (fun b => EndsAlike left b ∧ openNodes b < openNodes left) (a.run e ctx) := by
  have hsplit : left = _ := mem_allFrom ha
  obtain ⟨k, rest, hk⟩ := List.exists_cons_of_ne_nil hafter
  have hless : Returns (fun b => openNodes b < openNodes left) (a.run e ctx) := by
    intro m b m' hrun
    have hrewrites := a.run_returns e ctx a.operator.symbol m b m' hrun
    rw [← hsplit] at hrewrites
    exact hrewrites.openNodes_lt
  by_cases hsymbol : k.isSymbol = true
  · cases k with
    | symbol q t => exact fun m b m' hrun => (run_before_symbol e ctx hop hk m b m' hrun).elim
    | _ => cases hsymbol
  · refine Returns.and (fun m b m' hrun => ?_) hless
    obtain ⟨v, hb⟩ := run_returns_placed e ctx hop m b m' hrun
    have hend : ∃ front, b = front ++ .value a.pos v :: rest := by
      rcases hb with rfl | rfl
      · exact ⟨_, by rw [leading, hk]; rfl⟩
      · exact ⟨_, by rw [between, hk]; rfl⟩
    obtain ⟨front, rfl⟩ := hend
    refine ⟨a.before.reverse ++ [.symbol a.pos a.operator.symbol], front, k, .value a.pos v, rest, ?_, rfl, ?_, rfl⟩
    · rw [hsplit, hk]
      simp
    · simpa using hsymbol

section Operators

variable {x y : Signed} (hx : Match.find? (left ++ (x.nodes ++ right)) = none)
  (hy : Match.find? (left ++ (y.nodes ++ right)) = none)

include hx hy

/-- The same operator is applied to the left of both values. -/
theorem interchange_left {a : Application} (ha : a ∈ Application.allFrom [] left) (hop : a.operator ≠ .assign)
    (hafter : a.after ≠ [])
    (hfind : Application.find? (left ++ (x.nodes ++ right)) = some (a.followedBy (x.nodes ++ right)))
    (hfind' : Application.find? (left ++ (y.nodes ++ right)) = some (a.followedBy (y.nodes ++ right)))
    (hleft : ∀ left', EndsAlike left left' → openNodes left' < openNodes left →
      Interchange lost n ctx x y left' right) :
    Interchange lost n ctx x y left right := by
  have hreturns := a.run_endsAlike (Engine.level n) ctx ha hop hafter
  have hself : Concurs lost (· = ·) (a.run (Engine.level n) ctx) (a.run (Engine.level n) ctx) :=
    a.run_concurs n ctx
  have hrun := hself.returns hreturns hreturns
  unfold Interchange
  rw [reduce_of_operator hx hfind, reduce_of_operator hy hfind', a.run_followedBy _ _ hafter hop,
    a.run_followedBy _ _ hafter hop]
  simp only [bind_assoc, pure_bind]
  refine .fire ctx _ _ _ _ _ _ (hrun.bind ?_)
  rintro b _ ⟨rfl, ⟨hends, hless⟩, -⟩
  exact hleft b hends hless

/-- The same operator is applied to the right of both values. -/
theorem interchange_right {a : Application} (ha : a ∈ Application.allFrom [] right)
    (hbefore : a.before ≠ [] ∨ a.operator = .not ∨ a.operator = .hash)
    (hfind : Application.find? (left ++ (x.nodes ++ right)) = some (a.behind (x.nodes.reverse ++ left.reverse)))
    (hfind' : Application.find? (left ++ (y.nodes ++ right)) = some (a.behind (y.nodes.reverse ++ left.reverse)))
    (hright : ∀ front rest q w rest', right = front ++ rest →
      openNodes (front ++ .value q w :: rest') < openNodes right →
      Interchange lost n ctx x y left (front ++ .value q w :: rest')) :
    Interchange lost n ctx x y left right := by
  have hsplit : right = _ := Application.mem_allFrom ha
  have hreturns := a.run_returns (Engine.level n) ctx a.operator.symbol
  rw [← hsplit] at hreturns
  have hself : Concurs lost (· = ·) (a.run (Engine.level n) ctx) (a.run (Engine.level n) ctx) :=
    a.run_concurs n ctx
  have hrun := hself.returns hreturns hreturns
  unfold Interchange
  rw [reduce_of_operator hx hfind, reduce_of_operator hy hfind', a.run_behind _ _ hbefore,
    a.run_behind _ _ hbefore]
  simp only [bind_assoc, pure_bind]
  refine .fire ctx _ _ _ _ _ _ (hrun.bind ?_)
  rintro b _ ⟨rfl, hrewrites, -⟩
  have hless := hrewrites.openNodes_lt
  obtain ⟨front, window, rest', q, w, hfront, rfl, -⟩ := hrewrites
  simpa [Interchange] using hright front (window ++ rest') q w rest' hfront hless

end Operators

end Around

/-! ### Where a value stands -/

section Place

variable {lost : Stop → Prop} {n : Nat} {ctx : Context}

/-- An operator in front of a value has the same value wherever that stands. -/
theorem run_concurs_in_front {op : Operator} (hne : op ≠ .assign) (before : List Node) (q p p' : Position)
    (v : Value) (rest : List Node) :
    Concurs lost (· = ·) (Application.run (Engine.level n) ctx ⟨op, before, q, .value p v :: rest⟩)
      (Application.run (Engine.level n) ctx ⟨op, before, q, .value p' v :: rest⟩) := by
  refine run_concurs_of_operands rfl hne (operand_concurs _ _ before) (operand_concurs_value _ _ p p' v _ _)
    rfl (fun _ => rfl) (fun _ _ => rfl) fun _ => ?_
  refine (evaluateNode_concurs n ctx (.value p v)).bind ?_
  rintro w _ rfl
  intro m m' hm
  have hheap : m'.heap = m.heap := hm.heap
  refine Concur.value ?_ hm
  rw [hheap]
  rfl

/-- An operator behind a value has the same value wherever that stands. -/
theorem run_concurs_behind {op : Operator} (hbinary : op.isBinary = true) (before : List Node)
    (q p p' : Position) (v : Value) (rest : List Node) :
    Concurs lost (· = ·) (Application.run (Engine.level n) ctx ⟨op, .value p v :: before, q, rest⟩)
      (Application.run (Engine.level n) ctx ⟨op, .value p' v :: before, q, rest⟩) := by
  have hne : op ≠ .assign := by
    rintro rfl
    cases hbinary
  refine run_concurs_of_operands rfl hne (operand_concurs_value _ _ p p' v _ _) (operand_concurs _ _ rest)
    rfl (fun _ => rfl) (fun h => ?_) ?_
  · rcases h with h | h
    · rw [hbinary] at h
      cases h
    · cases h
  · rintro rfl
    cases hbinary

/-- Of two nodes or more, one is not expected. -/
theorem finish_eq_fail (ctx : Context) {b : List Node} (h : 2 ≤ b.length) : ∃ k : Node,
    finish ctx b = Eval.fail ctx k.pos (.unexpected k.describe) := by
  unfold finish
  split
  · simp at h
  · split
    · exact ⟨_, rfl⟩
    · rename_i hnone
      rw [Option.or_eq_none_iff, List.getElem?_eq_none_iff] at hnone
      omega

theorem finish_concurs_of_length {b b' : List Node} (h : 2 ≤ b.length) (h' : 2 ≤ b'.length) :
    Concurs lost (· = ·) (finish ctx b) (finish ctx b') := by
  obtain ⟨k, hk⟩ := finish_eq_fail ctx h
  obtain ⟨k', hk'⟩ := finish_eq_fail ctx h'
  rw [hk, hk']
  exact .fail ctx ctx _ _ _ _

theorem finish_concurs (left right : List Node) (p p' : Position) (v : Value) :
    Concurs lost (· = ·) (finish ctx (left ++ .value p v :: right))
      (finish ctx (left ++ .value p' v :: right)) := by
  have hlength (k : Node) (rest : List Node) (p : Position) :
      2 ≤ (k :: rest ++ .value p v :: right).length := by
    simp only [List.length_append, List.length_cons]
    omega
  rcases left with _ | ⟨k, left⟩
  · rcases right with _ | ⟨k, right⟩
    · exact .pure rfl
    · exact finish_concurs_of_length (Nat.le_add_left 2 _) (Nat.le_add_left 2 _)
  · exact finish_concurs_of_length (hlength k left p) (hlength k left p')

/-- Where a number stands makes no difference on a level. -/
def PlaceFree (lost : Stop → Prop) (n : Nat) : Prop :=
  ∀ (ctx : Context) (left right : List Node) (p p' : Position) (a : Float),
    Interchange lost n ctx ⟨none, p, .number a⟩ ⟨none, p', .number a⟩ left right

/-- Nor does it in nodes that are evaluated one level down. -/
theorem evaluate_place (ih : ∀ k, n = k + 1 → PlaceFree lost k) (left right : List Node) (p p' : Position)
    (a : Float) :
    Concurs lost (· = ·) ((Engine.level n).evaluate ctx (left ++ .value p (.number a) :: right))
      ((Engine.level n).evaluate ctx (left ++ .value p' (.number a) :: right)) := by
  cases n with
  | zero =>
    exact fun _ _ hm => .stop hm
  | succ k =>
    obtain ⟨parts, left', right', parts', hsplit⟩ := splitOn_around ";" left right
    show Concurs lost (· = ·) (evaluateList (Engine.level k) ctx _) (evaluateList (Engine.level k) ctx _)
    unfold evaluateList
    rw [hsplit, hsplit]
    refine evaluateStatements_around ?_ parts' parts .absent
    have hstatement (p : Position) :
        evaluateStatement (Engine.level k) ctx (left' ++ .value p (.number a) :: right') =
          reduce (Engine.level k) ctx (left' ++ .value p (.number a) :: right') := by cases left' <;> rfl
    rw [hstatement, hstatement]
    exact ih k rfl ctx left' right' p p' a

/-- Assignments of what evaluates alike. -/
theorem run_assign_concurs {after after' : List Node} (hne : after ≠ []) (hne' : after' ≠ [])
    (h : Concurs lost (· = ·) ((Engine.level n).evaluate ctx after) ((Engine.level n).evaluate ctx after'))
    (before : List Node) (q : Position) :
    Concurs lost (· = ·) (Application.run (Engine.level n) ctx ⟨.assign, before, q, after⟩)
      (Application.run (Engine.level n) ctx ⟨.assign, before, q, after'⟩) := by
  show Concurs lost (· = ·) (Application.applyAssign (Engine.level n) ctx ⟨.assign, before, q, after⟩)
    (Application.applyAssign (Engine.level n) ctx ⟨.assign, before, q, after'⟩)
  unfold Application.applyAssign
  rcases before with _ | ⟨k, rest⟩
  · exact .fail ctx ctx _ _ _ _
  · cases k with
    | word pos name =>
      refine (evaluateValue_concurs hne hne' h q q).bind ?_
      rintro v _ rfl
      exact (modifyHeap_concurs _).bind fun _ _ _ => .pure rfl
    | _ => exact .fail ctx ctx _ _ _ _

/-- One level: an operator next to the value has the same value, and away from
it the open nodes become fewer. -/
theorem interchange_place (ih : ∀ k, n = k + 1 → PlaceFree lost k) : ∀ (size : Nat) (left right : List Node)
    (p p' : Position) (a : Float), openNodes left + openNodes right ≤ size →
    Interchange lost n ctx ⟨none, p, .number a⟩ ⟨none, p', .number a⟩ left right
  | size, left, right, p, p', a, hsize => by
    have ihleft (left' : List Node) (_ : EndsAlike left left') (hless : openNodes left' < openNodes left) :
        Interchange lost n ctx ⟨none, p, .number a⟩ ⟨none, p', .number a⟩ left' right := by
      obtain ⟨k, rfl⟩ : ∃ k, size = k + 1 := ⟨size - 1, by omega⟩
      exact interchange_place ih k left' right p p' a (by omega)
    have ihright (right' : List Node) (hless : openNodes right' < openNodes right) :
        Interchange lost n ctx ⟨none, p, .number a⟩ ⟨none, p', .number a⟩ left right' := by
      obtain ⟨k, rfl⟩ : ∃ k, size = k + 1 := ⟨size - 1, by omega⟩
      exact interchange_place ih k left right' p p' a (by omega)
    refine interchange_by_rules ihleft (fun front _ q w rest' _ hless => ihright _ hless) ?_ fun hrule => ?_
    · rintro q w name rest rfl
      refine ⟨rfl, ihright rest ?_⟩
      rw [openNodes_symbol, openNodes_cons]
      omega
    rcases Application.pick left right with ⟨hl, hr⟩ | ⟨b, hl, hr⟩ | ⟨b, hl, hr⟩
    · have hfind (p : Position) :
          Application.find? (left ++ (Signed.nodes ⟨none, p, .number a⟩ ++ right)) = none := by
        unfold Application.find?
        rw [Application.allFrom_signed, hl, hr]
        rfl
      unfold Interchange
      rw [reduce_of_nothing (hrule none p a) (hfind p), reduce_of_nothing (hrule none p' a) (hfind p')]
      exact finish_concurs left right p p' _
    · have hfind (p : Position) := Application.find?_left (x := ⟨none, p, .number a⟩) hl hr (.inl rfl)
      obtain ⟨op, before, q, after⟩ := b
      by_cases hop : op = .assign
      · subst hop
        refine .of_operator (hrule none p a) (hrule none p' a) (hfind p) (hfind p') ?_
        exact run_assign_concurs (by simp) (by simp) (evaluate_place ih after right p p' a) before q
      · rcases after with _ | ⟨k, after⟩
        · exact .of_operator (hrule none p a) (hrule none p' a) (hfind p) (hfind p')
            (run_concurs_in_front hop before q p p' _ right)
        · exact interchange_left (hrule none p a) (hrule none p' a) hl.mem hop (by simp) (hfind p) (hfind p')
            ihleft
    · have hfind (p : Position) := Application.find?_right (x := ⟨none, p, .number a⟩) hl hr (.inl rfl)
      have hapart (h : b.before ≠ [] ∨ b.operator = .not ∨ b.operator = .hash) :=
        interchange_right (hrule none p a) (hrule none p' a) hr.mem h (hfind p) (hfind p')
          fun front _ q w rest' _ hless => ihright _ hless
      obtain ⟨op, before, q, after⟩ := b
      rcases before with _ | ⟨k, before⟩
      · by_cases hbinary : op.isBinary = true
        · exact .of_operator (hrule none p a) (hrule none p' a) (hfind p) (hfind p')
            (run_concurs_behind hbinary left.reverse q p p' _ after)
        · cases op
          case not => exact hapart (.inr (.inl rfl))
          case hash => exact hapart (.inr (.inr rfl))
          case assign =>
            refine .of_operator (hrule none p a) (hrule none p' a) (hfind p) (hfind p') ?_
            exact .fail ctx ctx p p' _ _
          all_goals exact absurd rfl hbinary
      · exact hapart (.inl (by simp))

/-- **Where a number stands in a buffer makes no difference.** -/
theorem placeFree : ∀ n : Nat, PlaceFree lost n
  | 0 => fun _ left right p p' a =>
    interchange_place (by rintro k ⟨⟩) _ left right p p' a (Nat.le_refl _)
  | n + 1 => fun _ left right p p' a => by
    refine interchange_place (fun k hk => ?_) _ left right p p' a (Nat.le_refl _)
    obtain rfl : n = k := Nat.succ.inj hk
    exact placeFree n

end Place

end RuleScript
