/-
# A reduction takes no more steps than there are nodes to reduce

A step need not make a buffer shorter: a rule for one node puts a value in the
place of the node. But every step takes away a node that is no value and puts
a value there, so the steps are counted by the nodes that are no values
(`openNodes`). A reduction goes on until nothing applies or a step stops
(`reduce_concludes`), and it gets there in that many steps at most
(`ReducesIn.openNodes_le`).

No buffer of a nonempty statement becomes empty on the way. So when values are
all that is left, and there is not just one, a second node is there to be
named in the complaint (`finishAt_eq`).

Key definitions: `finishAt`, `ReducesIn`, `Concludes`.
Key theorems: `ReducesIn.openNodes_le`, `reduce_concludes`,
`reductions_make_progress`.
-/
import RuleScript.Proofs.Reduction.Windows

namespace RuleScript

open Eval (Returns)

/-! ### The end of a reduction -/

section Finish

variable (off : ∀ α : Type, Eval α) (ctx : Context)

/-- The end of a reduction, where the second node is taken by its index if all
nodes are values. -/
def finishAt (b : List Node) : Eval Value :=
  match b with
  | [.value _ v] => pure v
  | b => do
    let n ← match b.find? (!·.isValue) with
      | some n => pure n
      | none => nodeAt off b 1
    Eval.fail ctx n.pos (.unexpected n.describe)

/-- **The second node is there when it is asked for.** -/
theorem finishAt_eq {b : List Node} (hb : b ≠ []) : finishAt off ctx b = finish ctx b := by
  obtain ⟨n, rest, rfl⟩ := List.exists_cons_of_ne_nil hb
  cases rest with
  | nil => cases n <;> rfl
  | cons k rest =>
    have hfinish : finish ctx (n :: k :: rest) =
        match ((n :: k :: rest).find? (!·.isValue)).or (some k) with
        | some n => Eval.fail ctx n.pos (.unexpected n.describe)
        | none => pure .absent := by
      cases n <;> rfl
    have hfinishAt : finishAt off ctx (n :: k :: rest) = (do
        let n ← match (n :: k :: rest).find? (!·.isValue) with
          | some n => pure n
          | none => pure k
        Eval.fail ctx n.pos (.unexpected n.describe)) := by
      cases n <;> rfl
    rw [hfinish, hfinishAt]
    cases (n :: k :: rest).find? (!·.isValue) <;> rfl

end Finish

/-! ### The steps of a reduction -/

section Steps

variable (e : Engine) (ctx : Context)

/-- So many steps, none of which stops, lead from a buffer on a machine to
another buffer and machine. -/
inductive ReducesIn : Nat → List Node → Machine → List Node → Machine → Prop
  | here (b : List Node) (m : Machine) : ReducesIn 0 b m b m
  | step {k : Nat} {b b₁ b₂ : List Node} {m m₁ m₂ : Machine}
    (hstep : reduceStep e ctx b m = (.ok (some b₁), m₁)) (hrest : ReducesIn k b₁ m₁ b₂ m₂) :
    ReducesIn (k + 1) b m b₂ m₂

/-- How a reduction comes out that has reached a buffer where no step is left to
be taken: the next step stops, or nothing applies. -/
inductive Concludes (b : List Node) (m : Machine) : Except Stop Value × Machine → Prop
  | stopped {s : Stop} {m' : Machine} (h : reduceStep e ctx b m = (.error s, m')) :
    Concludes b m (.error s, m')
  | finished {m' : Machine} (h : reduceStep e ctx b m = (.ok none, m')) :
    Concludes b m (finish ctx b m')

variable {e ctx} {b b' : List Node} {m m' : Machine}

theorem Rewrites.ne_nil (h : Rewrites b b') : b' ≠ [] := by
  obtain ⟨left, window, right, pos, v, -, rfl, -⟩ := h
  simp

namespace ReducesIn

/-- **Each step takes away a node that is no value.** -/
theorem openNodes_le {k : Nat} (h : ReducesIn e ctx k b m b' m') :
    k + openNodes b' ≤ openNodes b := by
  induction h with
  | here => omega
  | step hstep _ ih =>
    have hless := (reduceStep_returns e ctx _ _ _ _ hstep _ rfl).openNodes_lt
    omega

theorem ne_nil {k : Nat} (h : ReducesIn e ctx k b m b' m') (hb : b ≠ []) : b' ≠ [] := by
  induction h with
  | here => exact hb
  | step hstep _ ih => exact ih (reduceStep_returns e ctx _ _ _ _ hstep _ rfl).ne_nil

end ReducesIn

variable (e ctx)

/-- **A reduction goes on to its end.** -/
theorem reduce_concludes (b : List Node) (m : Machine) :
    ∃ k b' m', ReducesIn e ctx k b m b' m' ∧ Concludes e ctx b' m' (reduce e ctx b m) := by
  -- The induction is on the nodes that are no values: a rule for one node leaves the length.
  induction hn : openNodes b using Nat.strongRecOn generalizing b m with
  | ind n ih =>
    rw [reduce_eq]
    rcases hstep : reduceStep e ctx b m with ⟨s | o, m₁⟩
    · rw [Eval.bind_run_error hstep]
      exact ⟨0, b, m, .here b m, .stopped hstep⟩
    · rw [Eval.bind_run_ok hstep]
      cases o with
      | none => exact ⟨0, b, m, .here b m, .finished hstep⟩
      | some b₁ =>
        have hless := (reduceStep_returns e ctx _ _ _ _ hstep _ rfl).openNodes_lt
        obtain ⟨k, b', m', hsteps, hend⟩ := ih (openNodes b₁) (hn ▸ hless) b₁ m₁ rfl
        exact ⟨k + 1, b', m', .step hstep hsteps, hend⟩

theorem applyRule_splices (b : List Node) :
    Returns (fun o => ∀ b', o = some b' →
      ∃ r, Match.find? b = some r ∧ Splices b r.before.length r.rule.width b')
      (applyRule e ctx b) := by
  unfold applyRule
  split
  · exact .pure (by simp)
  · rename_i r hr
    refine .bind fun _ => .bind fun v => .pure ?_
    rintro _ ⟨⟩
    exact ⟨r, hr, Match.splices_result hr v⟩

theorem applyOperator_takes (b : List Node) :
    Returns (fun o => ∀ b', o = some b' → ∃ a, Application.find? b = some a ∧ a.Takes b b')
      (applyOperator e ctx b) := by
  unfold applyOperator
  split
  · exact .pure (by simp)
  · rename_i a ha
    refine .bind fun _ => .bind_of (Application.run_takes (Application.find?_window ha) e ctx)
      fun b' htakes => .pure ?_
    rintro _ ⟨⟩
    exact ⟨a, ha, htakes⟩

end Steps

/-- **Reductions make progress and stay inside of their buffers.** In a buffer
that is not empty, a rule that fires replaces as many nodes as the rule has by
one value, and an operator that is applied replaces itself with its operands;
the nodes outside of the window stay, the buffer does not become empty, and
the nodes that are no values get fewer. A rule finds all its nodes in the
buffer and takes what it takes from them alone, and an operator does the same
whatever is done at indices that are not in the buffer, whether it returns or
stops. So there are no more steps than there are nodes at first that are no
values, and a reduction takes its steps until one of them stops or nothing
applies; then, if values are all that is left, either there is one of them or
there is a second. -/
theorem reductions_make_progress (e : Engine) (ctx : Context) (b : List Node) (hb : b ≠ [])
    (m : Machine) :
    (∀ b' m', applyRule e ctx b m = (.ok (some b'), m') →
      (∃ r, Match.find? b = some r ∧ Splices b r.before.length r.rule.width b') ∧
      b' ≠ [] ∧ openNodes b' < openNodes b) ∧
    (∀ b' m', applyOperator e ctx b m = (.ok (some b'), m') →
      (∃ a, Application.find? b = some a ∧ a.Takes b b') ∧ b' ≠ [] ∧ openNodes b' < openNodes b) ∧
    (∀ r, Match.find? b = some r → r.before.length + r.rule.width ≤ b.length ∧
      r.rule.redex? none ((b.drop r.before.length).take r.rule.width) = some r.redex) ∧
    (∀ a, Application.find? b = some a → ∀ off, a.runAt off b e ctx = a.run e ctx) ∧
    (∀ k b' m', ReducesIn e ctx k b m b' m' → b' ≠ [] ∧ k + openNodes b' ≤ openNodes b ∧
      ∀ off, finishAt off ctx b' = finish ctx b') ∧
    ∃ k b' m', ReducesIn e ctx k b m b' m' ∧ Concludes e ctx b' m' (reduce e ctx b m) := by
  refine ⟨fun b' m' h => ?_, fun b' m' h => ?_, fun r hr => Match.find?_window hr,
    fun a ha off => Application.runAt_eq (Application.find?_window ha) e ctx, fun k b' m' h => ?_,
    reduce_concludes e ctx b m⟩
  · obtain ⟨r, hr, hsplices⟩ := applyRule_splices e ctx b m _ m' h b' rfl
    exact ⟨⟨r, hr, hsplices⟩, hsplices.rewrites.ne_nil, hsplices.rewrites.openNodes_lt⟩
  · obtain ⟨a, ha, htakes⟩ := applyOperator_takes e ctx b m _ m' h b' rfl
    exact ⟨⟨a, ha, htakes⟩, htakes.rewrites.ne_nil, htakes.rewrites.openNodes_lt⟩
  · have hb' := h.ne_nil hb
    exact ⟨hb', h.openNodes_le, fun off => finishAt_eq off ctx hb'⟩

/-- Negation of a truth value in brackets: the brackets are one node, so the
first step leaves the buffer as long as it was, and there are two steps. -/
theorem reductions_make_progress_negation :
    let pos : Position := ⟨some 1, some 1, 0⟩
    let inner : Position := ⟨some 1, some 3, 2⟩
    let b : List Node := [.symbol pos "!", .span inner .paren [.value inner (.bool true)]]
    let e := Engine.level 1
    let ctx : Context := ⟨⟨0⟩, "main", ⟨none, "", false, .usual⟩⟩
    b ≠ [] ∧ openNodes b = 2 ∧ ∃ b₁ m₁ b₂ m₂,
      applyRule e ctx b Machine.initial = (.ok (some b₁), m₁) ∧ b₁.length = b.length ∧
      openNodes b₁ < 2 ∧
      applyOperator e ctx b₁ m₁ = (.ok (some b₂), m₂) ∧ b₂ = [.value pos (.bool false)] ∧
      ∃ k b' m', ReducesIn e ctx k b Machine.initial b' m' ∧ k ≤ 2 ∧
        Concludes e ctx b' m' (reduce e ctx b Machine.initial) := by
  intro pos inner b e ctx
  have hb : b ≠ [] := List.cons_ne_nil _ _
  obtain ⟨hrule, -, -, -, hcount, k, b', m', hsteps, hend⟩ :=
    reductions_make_progress e ctx b hb Machine.initial
  have hfirst : ∃ m₁, applyRule e ctx b Machine.initial =
      (.ok (some [.symbol pos "!", .value inner (.bool true)]), m₁) := ⟨_, rfl⟩
  obtain ⟨m₁, hfirst⟩ := hfirst
  have hsecond : ∃ m₂, applyOperator e ctx [.symbol pos "!", .value inner (.bool true)] m₁ =
      (.ok (some [.value pos (.bool false)]), m₂) := ⟨_, rfl⟩
  obtain ⟨m₂, hsecond⟩ := hsecond
  obtain ⟨-, hk, -⟩ := hcount k b' m' hsteps
  have hless := (hrule _ m₁ hfirst).2.2
  exact ⟨hb, rfl, _, m₁, _, m₂, hfirst, rfl, hless, hsecond, rfl, k, b', m', hsteps,
    Nat.le_of_add_right_le hk, hend⟩

end RuleScript
