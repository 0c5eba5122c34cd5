/-
# The operators around a signed value

The tightest operator of a buffer is looked for in the whole buffer, and then
applied to the nodes on its two sides. Of a buffer with a value in it, a sign in
front of that or none, this module says which operator is the tightest: it
stands to the left of the signed value, or to the right of it, or it is the sign
(`Application.Pick`). An operator binds as tightly in a part of a buffer as in
the buffer itself, but for the first one behind the value, which would be a sign
if nothing stood in front of it (`Application.rank`).

An operator whose operands are in a part of a buffer is applied in that part,
and the rest stays as it is (`run_followedBy`, `run_behind`). Only assignment
takes all that is to its right.

Key definitions: `Foremost`, `Application.rank`, `Application.Pick`,
`Application.nearby`.
Key theorems: `Application.pick`, `Application.find?_left`,
`Application.find?_right`, `Application.find?_sign`, `Application.run_nearby`,
`Application.run_followedBy`, `Application.run_behind`.
-/
import RuleScript.Proofs.Reduction.Surroundings

namespace RuleScript

open Eval (Returns)

/-! ### The operators of a part -/

namespace Application

/-- An operator with more nodes to its right. -/
def followedBy (a : Application) (more : List Node) : Application := { a with after := a.after ++ more }

/-- An operator with more nodes to its left, last first. -/
def behind (a : Application) (more : List Node) : Application := { a with before := a.before ++ more }

theorem allFrom_append (more : List Node) : ∀ nodes before : List Node,
    allFrom before (nodes ++ more) =
      (allFrom before nodes).map (·.followedBy more) ++ allFrom (nodes.reverse ++ before) more
  | [], _ => rfl
  | n :: nodes, before => by
    have ih := allFrom_append more nodes (n :: before)
    rw [List.reverse_cons, List.append_assoc, List.singleton_append, List.cons_append]
    cases n with
    | symbol p text =>
      simp only [allFrom]
      split
      · rw [ih]
        rfl
      · exact ih
    | _ => exact ih

theorem allFrom_behind (more : List Node) : ∀ nodes before : List Node,
    allFrom (before ++ more) nodes = (allFrom before nodes).map (·.behind more)
  | [], _ => rfl
  | n :: nodes, before => by
    have ih := allFrom_behind more nodes (n :: before)
    cases n with
    | symbol p text =>
      simp only [allFrom]
      split
      · rw [List.map_cons, ← ih]
        rfl
      · exact ih
    | _ => exact ih

/-- How tightly an operator binds behind a value. -/
def rank (a : Application) : Nat := (a.behind [.value ⟨none, none, 0⟩ .null]).priority

theorem priority_behind (a : Application) (pos : Position) (v : Value) (before : List Node) :
    (a.behind (.value pos v :: before)).priority = a.rank := by
  obtain ⟨op, _ | ⟨n, b⟩, p, after⟩ := a <;> rfl

theorem priority_behind_signed (a : Application) (x : Signed) (before : List Node) :
    (a.behind (x.nodes.reverse ++ before)).priority = a.rank := by
  obtain ⟨_ | s, pos, v⟩ := x <;> exact a.priority_behind pos v _

end Application

/-! ### The tightest -/

/-- The leftmost of the operators of a list that bind tightest, where `rank`
says how tightly each binds. -/
def Foremost (rank : Application → Nat) (as : List Application) (a : Application) : Prop :=
  ∃ xs ys, as = xs ++ a :: ys ∧ (∀ x ∈ xs, rank a < rank x) ∧ ∀ y ∈ ys, rank a ≤ rank y

namespace Foremost

variable {rank : Application → Nat} {as : List Application} {a : Application}

theorem mem (h : Foremost rank as a) : a ∈ as := by
  obtain ⟨xs, ys, rfl, -⟩ := h
  simp

theorem le (h : Foremost rank as a) : ∀ b ∈ as, rank a ≤ rank b := by
  obtain ⟨xs, ys, rfl, hxs, hys⟩ := h
  intro b hb
  rcases List.mem_append.mp hb with hb | hb
  · exact Nat.le_of_lt (hxs b hb)
  · rcases List.mem_cons.mp hb with rfl | hb
    · exact Nat.le_refl _
    · exact hys b hb

/-- Where operators bind as tightly as a rank says. -/
theorem tightest (h : Foremost rank as a) {f : Application → Application}
    (hf : ∀ b, (f b).priority = rank b) : Tightest (as.map f) (f a) := by
  obtain ⟨xs, ys, rfl, hxs, hys⟩ := h
  refine ⟨xs.map f, ys.map f, by simp, fun x hx => ?_, fun y hy => ?_⟩
  · obtain ⟨b, hb, rfl⟩ := List.mem_map.mp hx
    rw [hf, hf]
    exact hxs b hb
  · obtain ⟨b, hb, rfl⟩ := List.mem_map.mp hy
    rw [hf, hf]
    exact hys b hb

end Foremost

theorem exists_foremost (rank : Application → Nat) : ∀ as : List Application,
    as = [] ∨ ∃ a, Foremost rank as a
  | [] => .inl rfl
  | a :: as => by
    refine .inr ?_
    rcases exists_foremost rank as with rfl | ⟨b, xs, ys, rfl, hxs, hys⟩
    · exact ⟨a, [], [], rfl, by simp, by simp⟩
    · have hb : Foremost rank (xs ++ b :: ys) b := ⟨xs, ys, rfl, hxs, hys⟩
      by_cases hab : rank b < rank a
      · exact ⟨b, a :: xs, ys, rfl, List.forall_mem_cons.mpr ⟨hab, hxs⟩, hys⟩
      · exact ⟨a, [], _, rfl, by simp, fun y hy => Nat.le_trans (Nat.not_lt.mp hab) (hb.le y hy)⟩

namespace Application

/-- Which of the operators on both sides of a signed value is the tightest. -/
inductive Pick (left right : List Node) : Prop
  | nothing (hleft : allFrom [] left = []) (hright : allFrom [] right = [])
  | left (a : Application) (hleft : Foremost priority (allFrom [] left) a)
    (hright : ∀ b ∈ allFrom [] right, a.priority ≤ b.rank)
  | right (a : Application) (hleft : ∀ b ∈ allFrom [] left, a.rank < b.priority)
    (hright : Foremost rank (allFrom [] right) a)

theorem pick (left right : List Node) : Pick left right := by
  rcases exists_foremost priority (allFrom [] left) with hl | ⟨a, ha⟩
  · rcases exists_foremost rank (allFrom [] right) with hr | ⟨b, hb⟩
    · exact .nothing hl hr
    · exact .right b (by simp [hl]) hb
  · rcases exists_foremost rank (allFrom [] right) with hr | ⟨b, hb⟩
    · exact .left a ha (by simp [hr])
    · by_cases hab : b.rank < a.priority
      · exact .right b (fun x hx => Nat.lt_of_lt_of_le hab (ha.le x hx)) hb
      · exact .left a ha fun x hx => Nat.le_trans (Nat.not_lt.mp hab) (hb.le x hx)

section Around

variable {left right : List Node} {x : Signed}

variable (left right x) in
/-- The operators of a buffer with a signed value in it. -/
theorem allFrom_signed :
    allFrom [] (left ++ (x.nodes ++ right)) =
      (allFrom [] left).map (·.followedBy (x.nodes ++ right)) ++
        ((x.sign.map fun s => ⟨s.op, left.reverse, s.pos, .value x.pos x.value :: right⟩).toList ++
          (allFrom [] right).map (·.behind (x.nodes.reverse ++ left.reverse))) := by
  have hright (pos : Position) (v : Value) (before : List Node) : allFrom (.value pos v :: before) right =
      (allFrom [] right).map (·.behind (.value pos v :: before)) :=
    allFrom_behind (.value pos v :: before) right []
  rw [allFrom_append, List.append_nil]
  congr 1
  obtain ⟨_ | s, pos, v⟩ := x
  · exact hright pos v left.reverse
  · have hs : allFrom left.reverse (s.node :: .value pos v :: right) =
        ⟨s.op, left.reverse, s.pos, .value pos v :: right⟩ ::
          allFrom (.value pos v :: s.node :: left.reverse) right := by
      simp only [Sign.node, allFrom, Operator.ofSymbol?_symbol]
    exact hs.trans (congrArg _ (hright pos v (s.node :: left.reverse)))

/-- An operator to the left of the value is applied: the tightest there, if it
is at least as tight as a sign. -/
theorem find?_left {a : Application} (hleft : Foremost priority (allFrom [] left) a)
    (hright : ∀ b ∈ allFrom [] right, a.priority ≤ b.rank) (hx : x.sign = none ∨ a.priority ≤ 2) :
    find? (left ++ (x.nodes ++ right)) = some (a.followedBy (x.nodes ++ right)) := by
  refine find?_of_tightest ?_
  rw [allFrom_signed]
  have htight := hleft.tightest (f := (·.followedBy (x.nodes ++ right))) fun _ => rfl
  refine htight.append_right fun b hb => ?_
  rcases List.mem_append.mp hb with hb | hb
  · obtain ⟨s, hs, rfl⟩ := Option.map_eq_some_iff.mp (Option.mem_toList.mp hb)
    rcases hx with hx | hx
    · rw [hx] at hs
      cases hs
    · exact Nat.le_trans hx (Operator.two_le_priority_of_isSign s.sign _)
  · obtain ⟨c, hc, rfl⟩ := List.mem_map.mp hb
    exact Nat.le_trans (hright c hc) (Nat.le_of_eq (c.priority_behind_signed ..).symm)

/-- An operator to the right of the value is applied: the tightest there, if it
is tighter than a sign. -/
theorem find?_right {a : Application} (hleft : ∀ b ∈ allFrom [] left, a.rank < b.priority)
    (hright : Foremost rank (allFrom [] right) a) (hx : x.sign = none ∨ a.rank < 2) :
    find? (left ++ (x.nodes ++ right)) = some (a.behind (x.nodes.reverse ++ left.reverse)) := by
  refine find?_of_tightest ?_
  rw [allFrom_signed, ← List.append_assoc]
  refine (hright.tightest fun b => b.priority_behind_signed x _).append_left fun b hb => ?_
  rw [priority_behind_signed]
  rcases List.mem_append.mp hb with hb | hb
  · obtain ⟨c, hc, rfl⟩ := List.mem_map.mp hb
    exact hleft c hc
  · obtain ⟨s, hs, rfl⟩ := Option.map_eq_some_iff.mp (Option.mem_toList.mp hb)
    rcases hx with hx | hx
    · rw [hx] at hs
      cases hs
    · exact Nat.lt_of_lt_of_le hx (Operator.two_le_priority_of_isSign s.sign _)

/-- The sign is applied. -/
theorem find?_sign {s : Sign} {pos : Position} {v : Value} (hleft : ∀ b ∈ allFrom [] left, 2 < b.priority)
    (hright : ∀ b ∈ allFrom [] right, 2 ≤ b.rank) (hunary : isUnaryPosition left.reverse.head? = true) :
    find? (left ++ (Signed.nodes ⟨some s, pos, v⟩ ++ right)) =
      some ⟨s.op, left.reverse, s.pos, .value pos v :: right⟩ := by
  have hsign : (⟨s.op, left.reverse, s.pos, .value pos v :: right⟩ : Application).priority = 2 := by
    rw [priority, hunary, Operator.priority_of_isSign s.sign]
  refine find?_of_tightest ?_
  rw [allFrom_signed]
  refine ((Tightest.singleton _).append_right fun b hb => ?_).append_left fun b hb => ?_
  · obtain ⟨c, hc, rfl⟩ := List.mem_map.mp hb
    rw [hsign, priority_behind_signed]
    exact hright c hc
  · obtain ⟨c, hc, rfl⟩ := List.mem_map.mp hb
    rw [hsign]
    exact hleft c hc

end Around

/-! ### Applied to its neighbours -/

section Run

variable (e : Engine) (ctx : Context)

/-- An operator with no more around it than the node on each side. -/
def nearby (a : Application) : Application := { a with before := a.before.take 1, after := a.after.take 1 }

/-- Nodes in the place of an operator and the node on each side of it. -/
def around (a : Application) (b : List Node) : List Node :=
  (a.before.drop 1).reverse ++ (b ++ a.after.drop 1)

theorem around_leading (a : Application) (v : Value) : a.around (a.nearby.leading v) = a.leading v := by
  cases h : a.before <;> cases h' : a.after <;> simp [around, leading, nearby, h, h']

theorem around_between (a : Application) (v : Value) : a.around (a.nearby.between v) = a.between v := by
  cases h : a.before <;> cases h' : a.after <;> simp [around, between, nearby, h, h']

theorem operand_take (a : Application) (side : List Node) :
    a.operand e ctx (side.take 1) = a.operand e ctx side := by
  cases side <;> rfl

theorem operands_nearby (a : Application) : a.nearby.operands e ctx = a.operands e ctx := by
  have hbefore : a.nearby.operand e ctx a.nearby.before = a.operand e ctx a.before :=
    a.operand_take e ctx a.before
  have hafter : a.nearby.operand e ctx a.nearby.after = a.operand e ctx a.after :=
    a.operand_take e ctx a.after
  unfold operands
  rw [hbefore, hafter]

theorem applyPlusMinus_nearby (a : Application) (sign : Float → Float) (op : Float → Float → Float) :
    a.applyPlusMinus e ctx sign op =
      a.nearby.applyPlusMinus e ctx sign op >>= fun b => pure (a.around b) := by
  have hbefore : a.nearby.operand e ctx a.nearby.before = a.operand e ctx a.before :=
    a.operand_take e ctx a.before
  have hafter : a.nearby.operand e ctx a.nearby.after = a.operand e ctx a.after :=
    a.operand_take e ctx a.after
  have hnumber : a.nearby.numberOf ctx = a.numberOf ctx := rfl
  have hhead : isUnaryPosition a.nearby.before.head? = isUnaryPosition a.before.head? := by
    cases h : a.before <;> simp [nearby, h]
  unfold applyPlusMinus
  simp only [hbefore, hafter, hnumber, hhead, bind_assoc]
  split <;> simp only [bind_assoc, pure_bind, around_leading, around_between]

theorem applyHash_nearby (a : Application) :
    a.applyHash e ctx = a.nearby.applyHash e ctx >>= fun b => pure (a.around b) := by
  have htake : a.nearby.after = a.after.take 1 := rfl
  unfold applyHash
  rw [htake]
  rcases a.after with _ | ⟨_ | _ | _ | _ | _ | _, rest⟩
  · rfl
  all_goals
    simp only [List.take_succ_cons, List.take_zero, bind_assoc, pure_bind, around_leading]

/-- **An operator is applied to the nodes on its two sides.** -/
theorem run_nearby {a : Application} (hop : a.operator ≠ .assign) :
    a.run e ctx = a.nearby.run e ctx >>= fun b => pure (a.around b) := by
  have hoperator : a.nearby.operator = a.operator := rfl
  have hnumber : a.nearby.numberOf ctx = a.numberOf ctx := rfl
  have hbool : a.nearby.boolOf ctx = a.boolOf ctx := rfl
  have hafter : a.nearby.operand e ctx a.nearby.after = a.operand e ctx a.after :=
    a.operand_take e ctx a.after
  unfold run
  simp only [operands_nearby, hoperator, hnumber, hbool, hafter]
  cases hkind : a.operator
  case assign => exact absurd hkind hop
  case hash => exact a.applyHash_nearby e ctx
  case plus | minus => exact a.applyPlusMinus_nearby e ctx _ _
  all_goals
    simp only [Operator.onNumbers?, Operator.onBools?, bind_assoc, pure_bind, around_between, around_leading]

/-- An operator with its right operand in a part of a buffer is applied in that
part. -/
theorem run_followedBy {a : Application} (hafter : a.after ≠ []) (hop : a.operator ≠ .assign)
    (more : List Node) :
    (a.followedBy more).run e ctx = a.run e ctx >>= fun b => pure (b ++ more) := by
  obtain ⟨op, before, pos, after⟩ := a
  obtain ⟨n, after, rfl⟩ := List.exists_cons_of_ne_nil hafter
  have hnearby : (followedBy ⟨op, before, pos, n :: after⟩ more).nearby =
      nearby ⟨op, before, pos, n :: after⟩ := rfl
  have haround (b : List Node) : (followedBy ⟨op, before, pos, n :: after⟩ more).around b =
      around ⟨op, before, pos, n :: after⟩ b ++ more := by simp [around, followedBy]
  rw [run_nearby e ctx (a := followedBy ⟨op, before, pos, n :: after⟩ more) hop,
    run_nearby e ctx (a := ⟨op, before, pos, n :: after⟩) hop, hnearby]
  simp only [bind_assoc, pure_bind, haround]

/-- An operator with its left operand in a part of a buffer, or with none, is
applied in that part. -/
theorem run_behind {a : Application} (hbefore : a.before ≠ [] ∨ a.operator = .not ∨ a.operator = .hash)
    (more : List Node) :
    (a.behind more).run e ctx = a.run e ctx >>= fun b => pure (more.reverse ++ b) := by
  obtain ⟨op, before, pos, after⟩ := a
  rcases before with _ | ⟨n, before⟩
  · obtain rfl | rfl := hbefore.resolve_left fun h => h rfl
    · simp only [run, Operator.onNumbers?, Operator.onBools?, bind_assoc, pure_bind, leading, behind,
        List.nil_append, List.reverse_nil]
      rfl
    · show applyHash e ctx ⟨.hash, [] ++ more, pos, after⟩ =
        applyHash e ctx ⟨.hash, [], pos, after⟩ >>= fun b => pure (more.reverse ++ b)
      unfold applyHash
      rcases after with _ | ⟨_ | _ | _ | _ | _ | _, rest⟩ <;> simp only [bind_assoc, pure_bind] <;> rfl
  · by_cases hop : op = .assign
    · subst hop
      show applyAssign e ctx ⟨.assign, n :: (before ++ more), pos, after⟩ =
        applyAssign e ctx ⟨.assign, n :: before, pos, after⟩ >>= fun b => pure (more.reverse ++ b)
      unfold applyAssign
      cases n <;> simp only [bind_assoc, pure_bind, List.reverse_append, List.append_assoc] <;> rfl
    · have hnearby : (behind ⟨op, n :: before, pos, after⟩ more).nearby =
          nearby ⟨op, n :: before, pos, after⟩ := rfl
      have haround (b : List Node) : (behind ⟨op, n :: before, pos, after⟩ more).around b =
          more.reverse ++ around ⟨op, n :: before, pos, after⟩ b := by simp [around, behind]
      rw [run_nearby e ctx (a := behind ⟨op, n :: before, pos, after⟩ more) hop,
        run_nearby e ctx (a := ⟨op, n :: before, pos, after⟩) hop, hnearby]
      simp only [bind_assoc, pure_bind, haround]

/-- A symbol is no right operand. -/
theorem run_before_symbol {a : Application} (hop : a.operator ≠ .assign) {p : Position} {text : String}
    {rest : List Node} (hafter : a.after = .symbol p text :: rest) :
    Eval.Fails (a.run e ctx) := by
  have hoperand : Eval.Fails (a.operand e ctx a.after) := by
    rw [hafter]
    exact .andThen (.fail ctx p _)
  have hands : Eval.Fails (a.operands e ctx) :=
    .bind fun _ => hoperand.andThen
  have hash : Eval.Fails (a.applyHash e ctx) := by
    unfold applyHash
    rw [hafter]
    exact .andThen (.fail ctx p _)
  unfold run
  split
  · exact hands.andThen
  · exact hands.andThen
  · split
    · exact hoperand.andThen
    · exact hoperand.andThen
    · exact hoperand.andThen
    · exact hands.andThen
    · exact hands.andThen
    · rename_i hassign
      exact absurd hassign hop
    · exact hash

/-- An operator other than assignment leaves a value in its place. -/
theorem run_returns_placed {a : Application} (hop : a.operator ≠ .assign) :
    Returns (fun b => ∃ v, b = a.leading v ∨ b = a.between v) (a.run e ctx) := by
  have hleading (v : Value) : ∃ w, a.leading v = a.leading w ∨ a.leading v = a.between w := ⟨v, .inl rfl⟩
  have hbetween (v : Value) : ∃ w, a.between v = a.leading w ∨ a.between v = a.between w := ⟨v, .inr rfl⟩
  have hsum (sign : Float → Float) (op : Float → Float → Float) :
      Returns (fun b => ∃ v, b = a.leading v ∨ b = a.between v) (a.applyPlusMinus e ctx sign op) := by
    refine .bind fun _ => .bind fun _ => ?_
    split
    · exact .pure (hleading _)
    · exact .bind fun _ => .bind fun _ => .pure (hbetween _)
  have hash : Returns (fun b => ∃ v, b = a.leading v ∨ b = a.between v) (a.applyHash e ctx) := by
    unfold applyHash
    split
    · exact .fail _ _ _
    · exact .pure (hleading _)
    · exact .bind fun _ => .bind fun _ => .pure (hleading _)
  unfold run
  split
  · exact .bind fun _ => .bind fun _ => .bind fun _ => .pure (hbetween _)
  · exact .bind fun _ => .bind fun _ => .bind fun _ => .pure (hbetween _)
  · split
    · exact hsum _ _
    · exact hsum _ _
    · exact .bind fun _ => .bind fun _ => .pure (hleading _)
    · exact .bind fun _ => .pure (hbetween _)
    · exact .bind fun _ => .pure (hbetween _)
    · rename_i hassign
      exact absurd hassign hop
    · exact hash

end Run

end Application

end RuleScript
