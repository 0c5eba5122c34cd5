/-
# A sign in front of a number

A sign in front of a number waits: rules go first, then operators that bind
tighter, and what stands in front of the sign may be applied before the sign is.
It makes no difference if the number has the sign applied to it beforehand
(`interchange_sign`), as long as the number is the sign's in the end. In front
of the sign that asks for a symbol that leaves the number to it (`LeavesSign`):
`**` and `#` and another sign do not, they would be applied to the sign as if it
were their operand, which fails. Behind the number it asks, of a minus only, that
no power is taken of the number and that the number is not captured under a name
(`Detached`); a plus has nothing to lose.

Key definitions: `Sign.IsNumeric`, `Sign.applied`, `LeavesSign`, `Detached`.
Key theorems: `run_sign`, `interchange_sign`.
-/
import RuleScript.Proofs.Reduction.Interchange

namespace RuleScript

open Application (allFrom)

/-- The sign of a number: a plus or a minus. -/
def Sign.IsNumeric (s : Sign) : Prop := s.op = .plus ∨ s.op = .minus

/-- A sign applied to a number. -/
def Sign.applied (s : Sign) (a : Float) : Float := if s.op = .minus then -a else a

/-! ### What stands around it -/

/-- What stands in front of a sign, last first, leaves its operand to it: it is
nothing, or a symbol; and if that is an operator, it binds looser than a sign,
or it is `!`. -/
def LeavesSign : List Node → Prop
  | [] => True
  | n :: before => n.isSymbol = true ∧
      ∀ q op, n = .symbol q (Operator.symbol op) →
        op = .not ∨ 2 < op.priority (isUnaryPosition before.head?)

theorem LeavesSign.isUnaryPosition : ∀ {before : List Node}, LeavesSign before →
    RuleScript.isUnaryPosition before.head? = true
  | [], _ => rfl
  | _ :: _, h => h.1

theorem LeavesSign.of_endsAlike {left left' : List Node} (h : LeavesSign left.reverse)
    (hends : EndsAlike left left') : LeavesSign left'.reverse := by
  obtain ⟨front, front', k, k', rest, rfl, rfl, hk, hk'⟩ := hends
  simp only [List.reverse_append, List.reverse_cons, List.append_assoc, List.singleton_append] at h ⊢
  generalize rest.reverse = back at h
  rcases back with _ | ⟨n, _ | ⟨n', back⟩⟩
  · have hsymbol : k.isSymbol = true := h.1
    rw [hk] at hsymbol
    cases hsymbol
  · refine ⟨h.1, fun q op hn => ?_⟩
    have hop : op = .not ∨ 2 < op.priority k.isSymbol := h.2 q op hn
    rw [hk] at hop
    show op = .not ∨ 2 < op.priority k'.isSymbol
    rwa [hk']
  · exact h

/-- Nothing takes a number in front of `right` away from its sign: no power and
no capture. -/
structure Detached (right : List Node) : Prop where
  power : ∀ q rest, right ≠ .symbol q "**" :: rest
  capture : ∀ q w name rest, right ≠ .symbol q "$" :: .word w name :: rest

theorem Detached.of_front {front rest : List Node} (h : Detached (front ++ rest)) (q : Position) (w : Value)
    (rest' : List Node) : Detached (front ++ .value q w :: rest') := by
  rcases front with _ | ⟨k, _ | ⟨k', front⟩⟩
  · exact ⟨by simp, by simp⟩
  · refine ⟨?_, by simp⟩
    rintro q' rest'' heq
    obtain ⟨rfl, -⟩ := List.cons.inj heq
    exact h.power q' rest rfl
  · refine ⟨?_, ?_⟩
    · rintro q' rest'' heq
      obtain ⟨rfl, -⟩ := List.cons.inj heq
      exact h.power q' _ rfl
    · rintro q' w' name rest'' heq
      obtain ⟨rfl, htail⟩ := List.cons.inj heq
      obtain ⟨rfl, -⟩ := List.cons.inj htail
      exact h.capture q' w' name _ rfl

theorem Operator.eq_power_of_priority {op : Operator} {unary : Bool} (h : op.priority unary < 2) :
    op = .power := by
  revert h
  cases op <;> cases unary <;> decide

/-! ### The operators next to it -/

section Pending

variable {lost : Stop → Prop} {n : Nat} {ctx : Context} {s : Sign} {left right : List Node}

/-- A sign in front of a number is applied. -/
theorem run_sign {e : Engine} (hs : s.IsNumeric) (hleft : LeavesSign left.reverse) (p : Position) (a : Float)
    (right : List Node) :
    Application.run e ctx ⟨s.op, left.reverse, s.pos, .value p (.number a) :: right⟩ =
      pure (left ++ .value s.pos (.number (s.applied a)) :: right) := by
  have hunary := hleft.isUnaryPosition
  obtain ⟨pos, op, hop⟩ := s
  have hsum (sign : Float → Float) (f : Float → Float → Float) :
      Application.applyPlusMinus e ctx ⟨op, left.reverse, pos, .value p (.number a) :: right⟩ sign f =
        pure (left ++ .value pos (.number (sign a)) :: right) := by
    unfold Application.applyPlusMinus
    rw [operand_value e ctx _ rfl]
    simp only [pure_bind, Application.numberOf, hunary, if_true, Application.leading, List.reverse_reverse]
    rfl
  obtain rfl | rfl := hs
  · exact hsum id _
  · exact hsum (- ·) _

/-- A power of a number, whatever is in front of it. -/
theorem run_power_concurs (p p' q : Position) (a : Float) (before before' after : List Node) :
    Concurs lost (fun b b' => ∃ y, b = before.reverse ++ .value q (.number y) :: after.drop 1 ∧
        b' = before'.reverse ++ .value q (.number y) :: after.drop 1)
      (Application.run (Engine.level n) ctx ⟨.power, .value p (.number a) :: before, q, after⟩)
      (Application.run (Engine.level n) ctx ⟨.power, .value p' (.number a) :: before', q, after⟩) := by
  simp only [Application.run, Operator.onNumbers?, Operator.onBools?, Application.operands,
    operand_value _ ctx _ rfl, pure_bind, bind_assoc]
  refine (operand_concurs _ _ after).bind fun r r' hr => ?_
  have hleft (b : Application) (k : Node) : b.numberOf ctx "left" (.number a, k) = pure a := rfl
  simp only [hleft, pure_bind]
  refine (numberOf_concurs _ _ _ _ hr).bind ?_
  rintro y _ rfl
  exact .pure ⟨_, rfl, rfl⟩

variable (hs : s.IsNumeric) (hleaves : LeavesSign left.reverse)
  (hrule : ∀ o p b, Match.find? (left ++ (Signed.nodes ⟨o, p, .number b⟩ ++ right)) = none)

include hleaves hrule

include hs in
/-- Where the sign is the tightest, it is applied. -/
theorem interchange_applied (hl : ∀ b ∈ allFrom [] left, 2 < b.priority)
    (hr : ∀ b ∈ allFrom [] right, 2 ≤ b.rank) (p p' : Position) (a : Float) :
    Interchange lost n ctx ⟨some s, p, .number a⟩ ⟨none, p', .number (s.applied a)⟩ left right := by
  have hfind : Application.find? (left ++ (Signed.nodes ⟨some s, p, .number a⟩ ++ right)) =
      some ⟨s.op, left.reverse, s.pos, .value p (.number a) :: right⟩ :=
    Application.find?_sign hl hr hleaves.isUnaryPosition
  unfold Interchange
  rw [reduce_of_operator (hrule (some s) p a) hfind, run_sign hs hleaves]
  simp only [pure_bind]
  exact .fire_left ctx _ _ _ (placeFree n ctx left right s.pos p' (s.applied a))

/-- Right behind a `!` no number is in place, and no sign either. -/
theorem interchange_behind_not {b : Application} (hl : Foremost Application.priority (allFrom [] left) b)
    (hr : ∀ c ∈ allFrom [] right, b.priority ≤ c.rank) (htight : b.priority ≤ 2) (hafter : b.after = [])
    (p p' : Position) (a a' : Float) :
    Interchange lost n ctx ⟨some s, p, .number a⟩ ⟨none, p', .number a'⟩ left right := by
  have hfind (o : Option Sign) (p : Position) (a : Float) :=
    Application.find?_left (x := ⟨o, p, .number a⟩) hl hr (.inr htight)
  have hsplit : left.reverse = .symbol b.pos b.operator.symbol :: b.before := by
    have h : left = _ := Application.mem_allFrom hl.mem
    rw [h, hafter]
    simp
  rw [hsplit] at hleaves
  obtain ⟨op, before, q, after⟩ := b
  obtain rfl : after = [] := hafter
  obtain rfl : op = .not := (hleaves.2 q op rfl).resolve_right (Nat.not_lt.mpr htight)
  have hrun : Concurs lost (· = ·)
      (Application.run (Engine.level n) ctx ⟨.not, before, q, s.node :: .value p (.number a) :: right⟩)
      (Application.run (Engine.level n) ctx ⟨.not, before, q, .value p' (.number a') :: right⟩) :=
    .fail ctx ctx s.pos p' _ _
  exact .of_operator (hrule _ _ _) (hrule _ _ _) (hfind _ _ _) (hfind _ _ _) hrun

omit hleaves in
/-- A power is taken of the number in front of it, signed or not. -/
theorem interchange_before_power {b : Application} (hl : ∀ c ∈ allFrom [] left, b.rank < c.priority)
    (hr : Foremost Application.rank (allFrom [] right) b) (htight : b.rank < 2) (hbefore : b.before = [])
    (hrest : ∀ q y, Interchange lost n ctx ⟨some s, q, .number y⟩ ⟨none, q, .number y⟩ left (b.after.drop 1))
    (p p' : Position) (a : Float) :
    Interchange lost n ctx ⟨some s, p, .number a⟩ ⟨none, p', .number a⟩ left right := by
  have hfind (o : Option Sign) (p : Position) :=
    Application.find?_right (x := ⟨o, p, .number a⟩) hl hr (.inr htight)
  obtain ⟨op, before, q, after⟩ := b
  obtain rfl : before = [] := hbefore
  obtain rfl : op = .power := Operator.eq_power_of_priority htight
  unfold Interchange
  rw [reduce_of_operator (hrule (some s) p a) (hfind (some s) p),
    reduce_of_operator (hrule none p' a) (hfind none p')]
  refine .fire ctx _ _ _ _ _ _
    ((run_power_concurs p p' q a (s.node :: left.reverse) left.reverse after).bind ?_)
  rintro _ _ ⟨y, rfl, rfl⟩
  simpa [Interchange, Signed.nodes] using hrest q y

end Pending

/-! ### The reduction -/

section Reduction

variable {lost : Stop → Prop} {n : Nat} {ctx : Context} {s : Sign}

/-- **A sign may be applied to a number beforehand.** By induction on the open
nodes: a rule or an operator away from the number makes them fewer, and the
operators next to it are the sign, a `!` in front of the sign and a `**` behind
the number. -/
theorem interchange_sign (hs : s.IsNumeric) : ∀ (size : Nat) (left right : List Node) (p p' : Position)
    (a : Float), openNodes left + openNodes right ≤ size → LeavesSign left.reverse →
    (s.op = .minus → Detached right) →
    Interchange lost n ctx ⟨some s, p, .number a⟩ ⟨none, p', .number (s.applied a)⟩ left right
  | size, left, right, p, p', a, hsize, hleaves, hdetached => by
    have ihleft (left' : List Node) (hends : EndsAlike left left') (hless : openNodes left' < openNodes left) :
        Interchange lost n ctx ⟨some s, p, .number a⟩ ⟨none, p', .number (s.applied a)⟩ left' right := by
      obtain ⟨k, rfl⟩ : ∃ k, size = k + 1 := ⟨size - 1, by omega⟩
      exact interchange_sign hs k left' right p p' a (by omega) (hleaves.of_endsAlike hends) hdetached
    have ihright (right' : List Node) (p p' : Position) (a : Float) (hless : openNodes right' < openNodes right)
        (hright' : s.op = .minus → Detached right') :
        Interchange lost n ctx ⟨some s, p, .number a⟩ ⟨none, p', .number (s.applied a)⟩ left right' := by
      obtain ⟨k, rfl⟩ : ∃ k, size = k + 1 := ⟨size - 1, by omega⟩
      exact interchange_sign hs k left right' p p' a (by omega) hleaves hright'
    have ihbehind (front rest : List Node) (q : Position) (w : Value) (rest' : List Node)
        (hfront : right = front ++ rest) (hless : openNodes (front ++ .value q w :: rest') < openNodes right) :
        Interchange lost n ctx ⟨some s, p, .number a⟩ ⟨none, p', .number (s.applied a)⟩ left
          (front ++ .value q w :: rest') := by
      refine ihright _ p p' a hless fun hminus => ?_
      exact Detached.of_front (hfront ▸ hdetached hminus) q w rest'
    -- what takes the number away from the sign does nothing to a plus
    have hplus (h : s.op ≠ .minus) (b : Float) : s.applied b = b := if_neg h
    refine interchange_by_rules ihleft ihbehind ?_ fun hrule => ?_
    · intro q w name rest hright
      have hop : s.op ≠ .minus := fun hminus => (hdetached hminus).capture q w name rest hright
      refine ⟨hplus hop a, ihright rest p p' a ?_ fun hminus => absurd hminus hop⟩
      rw [hright, openNodes_symbol, openNodes_cons]
      omega
    rcases Application.pick left right with ⟨hl, hr⟩ | ⟨b, hl, hr⟩ | ⟨b, hl, hr⟩
    · exact interchange_applied hs hleaves hrule (by simp [hl]) (by simp [hr]) p p' a
    · by_cases htight : b.priority ≤ 2
      · have hfind (o : Option Sign) (p : Position) (a : Float) :=
          Application.find?_left (x := ⟨o, p, .number a⟩) hl hr (.inr htight)
        by_cases hafter : b.after = []
        · exact interchange_behind_not hleaves hrule hl hr htight hafter p p' a _
        · have hassign : b.operator ≠ .assign := by
            intro h
            rw [Application.priority, h] at htight
            exact absurd htight (show ¬13 ≤ 2 by decide)
          exact interchange_left (hrule _ _ _) (hrule _ _ _) hl.mem hassign hafter (hfind _ _ _) (hfind _ _ _)
            ihleft
      · refine interchange_applied hs hleaves hrule (fun c hc => ?_) (fun c hc => ?_) p p' a
        · exact Nat.lt_of_lt_of_le (Nat.not_le.mp htight) (hl.le c hc)
        · exact Nat.le_trans (Nat.le_of_lt (Nat.not_le.mp htight)) (hr c hc)
    · by_cases htight : b.rank < 2
      · have hfind (o : Option Sign) (p : Position) (a : Float) :=
          Application.find?_right (x := ⟨o, p, .number a⟩) hl hr (.inr htight)
        by_cases hbefore : b.before = []
        · have hsplit : right = .symbol b.pos b.operator.symbol :: b.after := by
            have h : right = _ := Application.mem_allFrom hr.mem
            rwa [hbefore] at h
          have hpower : b.operator = .power := Operator.eq_power_of_priority htight
          have hop : s.op ≠ .minus := fun hminus => by
            rw [hpower] at hsplit
            exact (hdetached hminus).power _ _ hsplit
          have hless : openNodes (b.after.drop 1) < openNodes right := by
            have hdrop : openNodes (b.after.drop 1) ≤ openNodes b.after :=
              (List.drop_sublist 1 b.after).countP_le
            rw [hsplit, openNodes_symbol]
            omega
          rw [hplus hop]
          refine interchange_before_power hrule hl hr htight hbefore (fun q y => ?_) p p' a
          have hrest := ihright (b.after.drop 1) q q y hless fun hminus => absurd hminus hop
          rwa [hplus hop] at hrest
        · exact interchange_right (hrule _ _ _) (hrule _ _ _) hr.mem (.inl hbefore) (hfind _ _ _)
            (hfind _ _ _) ihbehind
      · have hge := Nat.not_lt.mp htight
        exact interchange_applied hs hleaves hrule (fun c hc => Nat.lt_of_le_of_lt hge (hl c hc))
          (fun c hc => Nat.le_trans hge (hr.le c hc)) p p' a

end Reduction

end RuleScript
