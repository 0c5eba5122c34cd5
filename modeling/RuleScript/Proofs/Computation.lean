/-
# How computations run

`Eval` is a function of the machine. The lemmas here run its operations on a
machine, so that a proof can follow a computation step by step without
opening the monad. `Eval.Returns P x` says that `x` returns nothing but what
has the property `P`; it passes through everything that comes before the last
action.

Key definitions: `Eval.Returns`, `Eval.FailTogether`.
Key theorems: `Eval.bind_run`, `Eval.bind_congr_of_returns`.
-/
import RuleScript.Machine

namespace RuleScript
namespace Eval

variable {α β : Type}

theorem bind_run (x : Eval α) (f : α → Eval β) (m : Machine) :
    (x >>= f) m = match x m with
      | (.ok a, m') => f a m'
      | (.error s, m') => (.error s, m') := by
  simp only [bind, ExceptT.bind, ExceptT.mk, StateT.bind]
  rcases x m with ⟨_ | _, _⟩ <;> rfl

theorem bind_run_ok {x : Eval α} {m m' : Machine} {a : α} (h : x m = (.ok a, m'))
    (f : α → Eval β) : (x >>= f) m = f a m' := by
  rw [bind_run, h]

theorem bind_run_error {x : Eval α} {m m' : Machine} {s : Stop} (h : x m = (.error s, m'))
    (f : α → Eval β) : (x >>= f) m = (.error s, m') := by
  rw [bind_run, h]

/-- That a rule or an operator fires is only noted. -/
theorem fire_run (ctx : Context) (what name : String) (pos : Position) (m : Machine) :
    ∃ m', fire ctx what name pos m = (.ok (), m') ∧ m'.heap = m.heap ∧ m'.hosts = m.hosts ∧
      m'.calls = m.calls := by
  unfold fire note
  cases ctx.settings.tracing <;> exact ⟨_, rfl, rfl, rfl, rfl⟩

/-- Whatever a computation returns has a property. -/
def Returns (P : α → Prop) (x : Eval α) : Prop := ∀ m a m', x m = (.ok a, m') → P a

namespace Returns

variable {P : β → Prop}

theorem pure {b : β} (h : P b) : Returns P (pure b) := by
  rintro m _ m' ⟨⟩
  exact h

theorem fail (ctx : Context) (pos : Position) (c : Cause) : Returns P (fail ctx pos c) := by
  rintro m _ m' ⟨⟩

theorem bind_of {Q : α → Prop} {x : Eval α} {f : α → Eval β} (hx : Returns Q x)
    (h : ∀ a, Q a → Returns P (f a)) : Returns P (x >>= f) := by
  intro m b m' hb
  rw [bind_run] at hb
  split at hb
  · rename_i a m₁ ha
    exact h a (hx _ _ _ ha) _ _ _ hb
  · cases hb

theorem bind {x : Eval α} {f : α → Eval β} (h : ∀ a, Returns P (f a)) : Returns P (x >>= f) :=
  bind_of (Q := fun _ => True) (fun _ _ _ _ => trivial) fun a _ => h a

theorem and {Q : β → Prop} {x : Eval β} (hP : Returns P x) (hQ : Returns Q x) :
    Returns (fun b => P b ∧ Q b) x := fun m b m' h => ⟨hP m b m' h, hQ m b m' h⟩

end Returns

/-- A computation that never returns. -/
abbrev Fails (x : Eval α) : Prop := Returns (fun _ => False) x

/-- What comes after a computation that never returns is never reached. -/
theorem Fails.andThen {x : Eval α} {f : α → Eval β} {P : β → Prop} (h : Fails x) : Returns P (x >>= f) :=
  Returns.bind_of h fun _ ha => ha.elim

/-- Two computations that never return and fail on the same machine. -/
def FailTogether (x y : Eval α) : Prop := ∀ m, ∃ s s' m', x m = (.error s, m') ∧ y m = (.error s', m')

namespace FailTogether

theorem fail (ctx : Context) (pos pos' : Position) (c c' : Cause) :
    FailTogether (Eval.fail ctx pos c : Eval α) (Eval.fail ctx pos' c') := fun m => ⟨_, _, m, rfl, rfl⟩

theorem andThen {x y : Eval α} (h : FailTogether x y) (f g : α → Eval β) :
    FailTogether (x >>= f) (y >>= g) := by
  intro m
  obtain ⟨s, s', m', hx, hy⟩ := h m
  exact ⟨s, s', m', bind_run_error hx f, bind_run_error hy g⟩

theorem bind (x : Eval α) {f g : α → Eval β} (h : ∀ a, FailTogether (f a) (g a)) :
    FailTogether (x >>= f) (x >>= g) := by
  intro m
  rcases hx : x m with ⟨s | a, m₁⟩
  · exact ⟨s, s, m₁, bind_run_error hx f, bind_run_error hx g⟩
  · rw [bind_run_ok hx, bind_run_ok hx]
    exact h a m₁

theorem fails {x y : Eval α} (h : FailTogether x y) : Fails x := by
  intro m a m' hx
  obtain ⟨s, s', m₁, hstop, -⟩ := h m
  rw [hstop] at hx
  cases hx

end FailTogether

/-- Two continuations that agree on what can be returned are one. -/
theorem bind_congr_of_returns {P : α → Prop} {x : Eval α} {f g : α → Eval β} (hx : Returns P x)
    (h : ∀ a, P a → f a = g a) : x >>= f = x >>= g := by
  funext m
  rw [bind_run, bind_run]
  split
  · rename_i a m' ha
    rw [h a (hx _ _ _ ha)]
  · rfl

end Eval
end RuleScript
