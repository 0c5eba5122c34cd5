/-
# One level more changes nothing but giving up

The levels of an engine bound how deeply evaluations and calls may be nested in
one another. An engine with one level more carries out a program in step with
the engine it is built on: the two reach the same machine with the same value
or the same stop, until the lower one has no level left and gives up. Then
nothing holds the stop back, and the lower run ends with it.

Key definitions: `Stop.GivesUp`, `raised`.
Key theorems: `level_succ_alike`, `reduce_succ_ends`.
-/
import RuleScript.Proofs.Calls.Evaluation

namespace RuleScript

/-- The stop of a run that has no level left. -/
def Stop.GivesUp (s : Stop) : Prop := ∃ trace, s = .exhausted trace

theorem Stop.GivesUp.traced {s : Stop} (h : s.GivesUp) (calls : List Frame) : (s.traced calls).GivesUp := by
  obtain ⟨trace, rfl⟩ := h
  exact ⟨_, rfl⟩

theorem Stop.GivesUp.internal? {s : Stop} (h : s.GivesUp) : s.internal? = none := by
  obtain ⟨trace, rfl⟩ := h
  rfl

/-- Two runs that stop alike, unless the first gives up. -/
def raised (calls : List Frame) : Coupling where
  calls
  stops := (· = ·)
  lost := Stop.GivesUp
  limits := (· = ·)
  fresh := @Stop.eq_of_fresh
  internal := @Stop.internal?_congr
  lost_internal := @Stop.GivesUp.internal?

/-- **An engine is in step with the one above it.** -/
theorem level_succ_alike : ∀ (n : Nat) (calls : List Frame),
    Alike (raised calls) (Engine.level n) (Engine.level (n + 1))
  | 0, _ => ⟨fun _ _ _ _ m _ => .lost m _ ⟨none, rfl⟩, fun _ _ _ _ _ _ m _ => .lost m _ ⟨none, rfl⟩⟩
  | n + 1, calls => by
    refine ⟨fun ctx _ hl nodes => evaluateList_agree (level_succ_alike n calls) hl nodes, ?_⟩
    rintro ctx _ rfl ref args pos
    refine callBy_agree ref args pos id .inl fun _ f => ?_
    refine Coupling.Agree.withFrame (C := raised (callFrame ctx f pos :: calls)) ?_ rfl
      (fun hs => congrArg _ hs) fun calls hs => hs.traced calls
    exact callBody_agree (level_succ_alike n _) rfl f args pos

theorem reduce_succ_ends (n : Nat) (ctx : Context) (b : List Node) (m : Machine) :
    (raised m.calls).Ends (reduce (Engine.level n) ctx b m) (reduce (Engine.level (n + 1)) ctx b m) := by
  have hagree : (raised m.calls).Agree (reduceFor (Engine.level n) ctx b.length b)
      (reduceFor (Engine.level (n + 1)) (ctx.withLimit ctx.settings.maxDepth) b.length b) :=
    reduceFor_agree (level_succ_alike n m.calls) rfl b.length b
  exact hagree m rfl

end RuleScript
