/-
# Searching in a sorted list

A sort finds places by halving and by doubling. Both look for the first element
of a list at which a test stops, and both are right if the test, once it has
stopped, stops at all elements behind (`Persists`): the place that they find
parts the elements at which it does not stop from those at which it does
(`Parts`).

The statements are about what a computation is sure to give (`Eval.Ensures`):
it returns, what it returns has a property, and something about the machine
stays true.

Key definitions: `Eval.Ensures`, `Persists`, `Parts`.
Key theorems: `halve_parts`, `reach_parts`, `gallop_parts`,
`placeBetween_parts`.
-/
import Mathlib.Data.List.GetD
import RuleScript.Library.Sorting
import RuleScript.Proofs.Computation

namespace RuleScript

/-! ### What a computation is sure to give -/

namespace Eval

variable {α β : Type} {I : Machine → Prop} {P Q : α → Prop} {R : β → Prop}

/-- A computation that returns something with the property `Q` on every machine
with the property `I`, which the machine has afterwards too. -/
def Ensures (I : Machine → Prop) (Q : α → Prop) (x : Eval α) : Prop :=
  ∀ m, I m → ∃ a m', x m = (.ok a, m') ∧ I m' ∧ Q a

namespace Ensures

theorem pure {a : α} (h : Q a) : Ensures I Q (pure a) := fun m hm => ⟨a, m, rfl, hm, h⟩

theorem bind {x : Eval α} {f : α → Eval β} (hx : Ensures I Q x) (hf : ∀ a, Q a → Ensures I R (f a)) :
    Ensures I R (x >>= f) := by
  intro m hm
  obtain ⟨a, m', hrun, hm', ha⟩ := hx m hm
  rw [bind_run_ok hrun]
  exact hf a ha m' hm'

theorem weaken {x : Eval α} (hx : Ensures I P x) (h : ∀ a, P a → Q a) : Ensures I Q x := by
  intro m hm
  obtain ⟨a, m', hrun, hm', ha⟩ := hx m hm
  exact ⟨a, m', hrun, hm', h a ha⟩

theorem ite {c : Prop} [Decidable c] {x y : Eval α} (hx : c → Ensures I Q x) (hy : ¬c → Ensures I Q y) :
    Ensures I Q (if c then x else y) := by
  by_cases h : c
  · rw [if_pos h]
    exact hx h
  · rw [if_neg h]
    exact hy h

/-- A test decides a branch. -/
theorem test {x : Eval Bool} {b : Bool} {y z : Eval β} (hx : Ensures I (· = b) x)
    (hy : b = true → Ensures I R y) (hz : b = false → Ensures I R z) :
    Ensures I R (do if ← x then y else z) := by
  refine hx.bind ?_
  rintro _ rfl
  exact .ite hy fun h => hz (Bool.eq_false_iff.mpr h)

/-- What is sure to be given is given when stops are caught. -/
theorem attempt {x : Eval α} (hx : Ensures I Q x) :
    Ensures I (fun r => ∃ a, r = .ok a ∧ Q a) (Eval.attempt x) := by
  intro m hm
  obtain ⟨a, m', hrun, hm', ha⟩ := hx m hm
  refine ⟨.ok a, m', ?_, hm', a, rfl, ha⟩
  unfold Eval.attempt
  rw [hrun]

end Ensures

/-- A computation whose stops are caught returns. -/
theorem attempt_ensures (x : Eval α) : Ensures (fun _ => True) (fun _ => True) (attempt x) := by
  intro m _
  unfold attempt
  rcases x m with ⟨s | a, m'⟩
  · exact ⟨_, m', rfl, trivial, trivial⟩
  · exact ⟨_, m', rfl, trivial, trivial⟩

end Eval

namespace Sorting

open Eval (Ensures)

/-! ### Where a test stops -/

/-- A test that stops at an element stops at all elements behind it. -/
def Persists (p : Value → Bool) (xs : List Value) : Prop :=
  xs.Pairwise fun x y => p x = true → p y = true

/-- The test stops behind position `n` and not before. -/
structure Parts (p : Value → Bool) (xs : List Value) (n : Nat) : Prop where
  before : ∀ x ∈ xs.take n, p x = false
  behind : ∀ x ∈ xs.drop n, p x = true

section

variable {p : Value → Bool} {xs : List Value} {q : Nat}

theorem Persists.across (hp : Persists p xs) (n : Nat) :
    ∀ x ∈ xs.take n, ∀ y ∈ xs.drop n, p x = true → p y = true := by
  have h : (xs.take n ++ xs.drop n).Pairwise fun x y => p x = true → p y = true := by
    rwa [List.take_append_drop]
  exact (List.pairwise_append.mp h).2.2

/-- The elements behind one at which the test stops. -/
theorem Persists.behind (hp : Persists p xs) (hq : q < xs.length) (h : p (xs.getD q .null) = true) :
    ∀ x ∈ xs.drop q, p x = true := by
  rw [List.getD_eq_getElem _ _ hq] at h
  have hdrop : Persists p (xs.drop q) := List.Pairwise.sublist (List.drop_sublist q xs) hp
  rw [List.drop_eq_getElem_cons hq] at hdrop ⊢
  refine List.forall_mem_cons.mpr ⟨h, fun x hx => ?_⟩
  exact (List.pairwise_cons.mp hdrop).1 x hx h

/-- The elements up to one at which the test does not stop. -/
theorem Persists.upTo (hp : Persists p xs) (hq : q < xs.length) (h : p (xs.getD q .null) = false) :
    ∀ x ∈ xs.take (q + 1), p x = false := by
  rw [List.getD_eq_getElem _ _ hq] at h
  rw [List.take_succ_eq_append_getElem hq]
  refine List.forall_mem_append.mpr ⟨fun x hx => ?_, fun x hx => List.mem_singleton.mp hx ▸ h⟩
  refine Bool.eq_false_iff.mpr fun hpx => Bool.eq_false_iff.mp h (hp.across q x hx xs[q] ?_ hpx)
  rw [List.drop_eq_getElem_cons hq]
  exact List.mem_cons_self

theorem getD_mem (hq : q < xs.length) : xs.getD q .null ∈ xs := by
  rw [List.getD_eq_getElem _ _ hq]
  exact List.getElem_mem hq

end

/-! ### Halving and doubling -/

section

variable {I : Machine → Prop} {stops : Value → Eval Bool} {p : Value → Bool} {xs : List Value}
  (hstops : ∀ x ∈ xs, Ensures I (· = p x) (stops x)) (hp : Persists p xs)
include hstops hp

/-- **Halving finds the place.** The test does not stop before `l`, and stops
from `r` on. -/
theorem halve_parts (side : Side) : ∀ {fuel l r : Nat}, r - l < fuel → l ≤ r → r ≤ xs.length →
    (∀ x ∈ xs.take l, p x = false) → (∀ x ∈ xs.drop r, p x = true) →
    Ensures I (Parts p xs) (halve side stops xs fuel l r)
  | 0, _, _, hfuel, _, _, _, _ => absurd hfuel (Nat.not_lt_zero _)
  | fuel + 1, l, r, hfuel, hlr, hr, hbefore, hbehind => by
    refine .ite (fun hlt => ?_) fun hge => ?_
    · have hmiddle : l ≤ middle side l r ∧ middle side l r < r := by
        unfold middle
        cases side <;> dsimp only <;> omega
      have hq : middle side l r < xs.length := by omega
      refine .test (hstops _ (getD_mem hq)) (fun hstop => ?_) fun hgo => ?_
      · exact halve_parts side (by omega) hmiddle.1 (by omega) hbefore (hp.behind hq hstop)
      · exact halve_parts side (by omega) (by omega) hr (hp.upTo hq hgo) hbehind
    · obtain rfl : l = r := by omega
      exact .pure ⟨hbefore, hbehind⟩

/-- **Doubling encloses the place.** The test does not stop at `last`. -/
theorem reach_parts : ∀ {fuel last next : Nat}, xs.length ≤ next + fuel → last < next →
    last < xs.length → (∀ x ∈ xs.take (last + 1), p x = false) →
    Ensures I (fun r => r.1 < r.2 ∧ r.2 ≤ xs.length ∧ (∀ x ∈ xs.take (r.1 + 1), p x = false) ∧
      ∀ x ∈ xs.drop r.2, p x = true) (reach stops xs fuel last next)
  | 0, last, next, hfuel, hlt, hlast, hbefore => by
    have hnext : min next xs.length = xs.length := Nat.min_eq_right hfuel
    refine .pure ⟨by omega, Nat.min_le_right _ _, hbefore, ?_⟩
    show ∀ x ∈ xs.drop (min next xs.length), p x = true
    rw [hnext, List.drop_length]
    exact fun x hx => absurd hx List.not_mem_nil
  | fuel + 1, last, next, hfuel, hlt, hlast, hbefore => by
    refine .ite (fun hnext => ?_) fun hnext => ?_
    · refine .test (hstops _ (getD_mem hnext)) (fun hstop => ?_) fun hgo => ?_
      · exact .pure ⟨hlt, Nat.le_of_lt hnext, hbefore, hp.behind hnext hstop⟩
      · exact reach_parts (by omega) (by omega) hnext (hp.upTo hnext hgo)
    · have hend : min next xs.length = xs.length := Nat.min_eq_right (Nat.not_lt.mp hnext)
      refine .pure ⟨by omega, Nat.min_le_right _ _, hbefore, ?_⟩
      show ∀ x ∈ xs.drop (min next xs.length), p x = true
      rw [hend, List.drop_length]
      exact fun x hx => absurd hx List.not_mem_nil

/-- **Galloping finds the place.** -/
theorem gallop_parts (side : Side) (hne : xs ≠ []) : Ensures I (Parts p xs) (gallop side stops xs) := by
  have hpos : 0 < xs.length := List.length_pos_iff.mpr hne
  refine .test (hstops _ (getD_mem hpos)) (fun hstop => ?_) fun hgo => ?_
  · exact .pure ⟨fun x hx => absurd hx List.not_mem_nil, hp.behind hpos hstop⟩
  · refine (reach_parts hstops hp (by omega) Nat.zero_lt_one hpos (hp.upTo hpos hgo)).bind ?_
    rintro ⟨last, next⟩ ⟨hlt, hnext, hbefore, hbehind⟩
    exact halve_parts hstops hp side (by omega) hlt hnext hbefore hbehind

end

/-- The place of an element is found by halving. -/
theorem placeBetween_eq_halve (lt : Comparison) (sorted : List Value) (pivot : Value) :
    ∀ fuel l r : Nat,
      placeBetween lt sorted pivot fuel l r = halve .left (lt pivot) sorted fuel l r
  | 0, _, _ => rfl
  | fuel + 1, l, r => by
    have ih := placeBetween_eq_halve lt sorted pivot fuel
    unfold placeBetween halve middle
    dsimp only
    rw [ih, ih]

theorem placeBetween_parts {I : Machine → Prop} {lt : Comparison} {sorted : List Value} {pivot : Value}
    {p : Value → Bool} (hlt : ∀ x ∈ sorted, Ensures I (· = p x) (lt pivot x)) (hp : Persists p sorted) :
    Ensures I (Parts p sorted) (placeBetween lt sorted pivot (sorted.length + 1) 0 sorted.length) := by
  rw [placeBetween_eq_halve]
  refine halve_parts hlt hp .left (by omega) (Nat.zero_le _) (Nat.le_refl _) ?_ ?_
  · exact fun x hx => absurd hx List.not_mem_nil
  · rw [List.drop_length]
    exact fun x hx => absurd hx List.not_mem_nil

end Sorting

end RuleScript
