/-
# Rounding to the nearest double

A double other than zero is `± m * 2 ^ e` for one mantissa and exponent
(`Canonical`). The rationals between the midpoints to its neighbours are those
that round to it (`RoundsTo`); the midpoints themselves belong to it when the
mantissa is even.

A mantissa with its two residual bits stands for a rational (`Holds`): the
round bit says whether half a unit is reached, the sticky bit whether anything
is left beside that. Shifting right halves that rational, and rounding takes
the nearest integer, a tie to the even one. So a quotient or a product is
rounded to the double its exact value rounds to (`roundWithAccuracy_eq`), to
zero if the value is at most half the least double, and to a number with too
large an exponent if the value is beyond the doubles.

Key definitions: `Canonical`, `Rounded`, `RoundsTo`, `Holds`, `IsRounded`.
Key theorems: `Holds.shift`, `Holds.roundedMantissa`, `roundWithAccuracy_eq`,
`roundWithAccuracy_zero`, `mul_isRounded`, `div_isRounded`.
-/
import Mathlib.Algebra.Order.Field.Rat
import Mathlib.Algebra.Order.Field.Power
import Mathlib.Tactic.Linarith
import Mathlib.Tactic.FieldSimp
import Mathlib.Tactic.NormNum
import Mathlib.Tactic.Positivity
import Mathlib.Tactic.Ring

namespace RuleScript.Number

open Float.Model Float.Model.UnpackedFloat

/-! ### Doubles and what rounds to them -/

/-- The mantissa and exponent of a finite double other than zero. -/
structure Canonical (m : Nat) (e : Int) : Prop where
  pos : 0 < m
  lt : m < 2 ^ 53
  least : -1074 ≤ e
  most : e ≤ 971
  full : e = -1074 ∨ 2 ^ 52 ≤ m

/-- The mantissa and exponent that a value is rounded to. The exponent may be too
large for a double. -/
structure Rounded (m : Nat) (e : Int) : Prop where
  pos : 0 < m
  lt : m < 2 ^ 53
  least : -1074 ≤ e
  full : e = -1074 ∨ 2 ^ 52 ≤ m

theorem Canonical.rounded {m : Nat} {e : Int} (h : Canonical m e) : Rounded m e :=
  ⟨h.pos, h.lt, h.least, h.full⟩

/-- How far below it the rationals still round to `m * 2 ^ e`, in units of
`2 ^ e`. Below a power of two the neighbour is only half as far. -/
def reachBelow (m : Nat) (e : Int) : ℚ := if m = 2 ^ 52 ∧ e ≠ -1074 then 1 / 4 else 1 / 2

/-- A rational that rounds to `m * 2 ^ e`. -/
structure RoundsTo (m : Nat) (e : Int) (q : ℚ) : Prop where
  low : (m - reachBelow m e) * 2 ^ e ≤ q
  high : q ≤ (m + 1 / 2) * 2 ^ e
  /-- A midpoint goes to the even neighbour. -/
  within : m % 2 = 1 → (m - reachBelow m e) * 2 ^ e < q ∧ q < (m + 1 / 2) * 2 ^ e

theorem reachBelow_pos (m : Nat) (e : Int) : 0 < reachBelow m e := by
  unfold reachBelow
  split <;> norm_num

theorem reachBelow_le (m : Nat) (e : Int) : reachBelow m e ≤ 1 / 2 := by
  unfold reachBelow
  split <;> norm_num

/-- A double rounds to itself. -/
theorem RoundsTo.self (m : Nat) (e : Int) : RoundsTo m e (m * 2 ^ e) := by
  have hunit : (0 : ℚ) < 2 ^ e := by positivity
  have hreach := reachBelow_pos m e
  have hlow : (m - reachBelow m e) * 2 ^ e < m * 2 ^ e :=
    mul_lt_mul_of_pos_right (by linarith) hunit
  have hhigh : (m : ℚ) * 2 ^ e < (m + 1 / 2) * 2 ^ e :=
    mul_lt_mul_of_pos_right (by linarith) hunit
  exact ⟨hlow.le, hhigh.le, fun _ => ⟨hlow, hhigh⟩⟩

/-! ### Mantissas with residual bits -/

/-- The rational that a mantissa with its residual bits stands for. -/
structure Holds (em : ExtendedMantissa) (q : ℚ) : Prop where
  low : em.mantissa ≤ q
  high : q < em.mantissa + 1
  round : em.roundBit = true ↔ em.mantissa + 1 / 2 ≤ q
  sticky : em.stickyBit = true ↔ q ≠ em.mantissa ∧ q ≠ em.mantissa + 1 / 2

namespace Holds

variable {em : ExtendedMantissa} {q : ℚ}

theorem exact (m : Nat) : Holds (.ofMantissaAndAccuracy m .exact) m where
  low := le_refl _
  high := lt_add_one _
  round := ⟨nofun, fun h => by
    change (m : ℚ) + 1 / 2 ≤ m at h
    linarith⟩
  sticky := ⟨nofun, fun h => absurd rfl h.1⟩

/-- The residual bits say whether the mantissa is exact. -/
theorem eq_mantissa_iff (h : Holds em q) :
    (em.roundBit || em.stickyBit) = true ↔ q ≠ em.mantissa := by
  rw [Bool.or_eq_true, h.round, h.sticky]
  constructor
  · rintro (hround | hsticky)
    · intro hq
      linarith
    · exact hsticky.1
  · intro hne
    by_cases hhalf : q = em.mantissa + 1 / 2
    · exact .inl hhalf.ge
    · exact .inr ⟨hne, hhalf⟩

/-- Shifting right by one halves. -/
theorem shiftRightOne (h : Holds em q) : Holds em.shiftRightOne (q / 2) := by
  have hlow := h.low
  have hhigh := h.high
  have hsplit : (em.mantissa : ℚ) = 2 * (em.mantissa / 2 : Nat) + (em.mantissa % 2 : Nat) := by
    exact_mod_cast (Nat.div_add_mod em.mantissa 2).symm
  have hexact := h.eq_mantissa_iff
  rcases Nat.mod_two_eq_zero_or_one em.mantissa with heven | hodd
  · rw [heven, Nat.cast_zero, add_zero] at hsplit
    rw [hsplit] at hlow hhigh hexact
    refine ⟨?_, ?_, ?_, ?_⟩
    · show ((em.mantissa / 2 : Nat) : ℚ) ≤ q / 2
      linarith
    · show q / 2 < ((em.mantissa / 2 : Nat) : ℚ) + 1
      linarith
    · show (em.mantissa % 2 != 0) = true ↔ ((em.mantissa / 2 : Nat) : ℚ) + 1 / 2 ≤ q / 2
      rw [heven]
      exact ⟨nofun, fun h => by linarith⟩
    · show (em.roundBit || em.stickyBit) = true ↔
        q / 2 ≠ ((em.mantissa / 2 : Nat) : ℚ) ∧ q / 2 ≠ ((em.mantissa / 2 : Nat) : ℚ) + 1 / 2
      rw [hexact]
      exact ⟨fun hne => ⟨fun h => hne (by linarith), fun h => by linarith⟩,
        fun hne h => hne.1 (by linarith)⟩
  · rw [hodd, Nat.cast_one] at hsplit
    rw [hsplit] at hlow hhigh hexact
    refine ⟨?_, ?_, ?_, ?_⟩
    · show ((em.mantissa / 2 : Nat) : ℚ) ≤ q / 2
      linarith
    · show q / 2 < ((em.mantissa / 2 : Nat) : ℚ) + 1
      linarith
    · show (em.mantissa % 2 != 0) = true ↔ ((em.mantissa / 2 : Nat) : ℚ) + 1 / 2 ≤ q / 2
      rw [hodd]
      exact ⟨fun _ => by linarith, fun _ => rfl⟩
    · show (em.roundBit || em.stickyBit) = true ↔
        q / 2 ≠ ((em.mantissa / 2 : Nat) : ℚ) ∧ q / 2 ≠ ((em.mantissa / 2 : Nat) : ℚ) + 1 / 2
      rw [hexact]
      exact ⟨fun hne => ⟨fun h => by linarith, fun h => hne (by linarith)⟩,
        fun hne h => hne.2 (by linarith)⟩

/-- Shifting right divides by a power of two. -/
theorem shift (h : Holds em q) : ∀ n : Nat, Holds (em >>> n) (q / 2 ^ n)
  | 0 => by rwa [pow_zero, div_one]
  | n + 1 => by
    have hhalf := (h.shift n).shiftRightOne
    rwa [div_div, ← pow_succ] at hhalf

/-- **Rounding takes the nearest integer, a tie to the even one.** -/
theorem roundedMantissa (h : Holds em q) {k : Nat} (hlow : k - 1 / 2 ≤ q) (hhigh : q ≤ k + 1 / 2)
    (hodd : k % 2 = 1 → k - 1 / 2 < q ∧ q < k + 1 / 2) : em.roundedMantissa = k := by
  obtain ⟨M, round, sticky⟩ := em
  obtain ⟨hMlow, hMhigh, hround, hsticky⟩ := h
  simp only at hMlow hMhigh hround hsticky
  -- Near enough integers are equal.
  have hle {a b : Nat} (hab : (a : ℚ) < b + 1) : a ≤ b := by
    have : a < b + 1 := by exact_mod_cast hab
    omega
  cases round with
  | false =>
    have hhalf : q < M + 1 / 2 := by
      by_contra hge
      exact absurd (hround.mpr (not_lt.mp hge)) (by decide)
    have hMk : M ≤ k := hle (by linarith)
    have hkM : k ≤ M := hle (by linarith)
    cases sticky <;> exact Nat.le_antisymm hMk hkM
  | true =>
    have hhalf : M + 1 / 2 ≤ q := hround.mp rfl
    have hMk : M ≤ k := hle (by linarith)
    have hkM : k ≤ M + 1 := hle (by push_cast; linarith)
    cases sticky with
    | true =>
      have hne : q ≠ M + 1 / 2 := (hsticky.mp rfl).2
      have hlt : (M : ℚ) + 1 / 2 < q := lt_of_le_of_ne hhalf (Ne.symm hne)
      have hk : M + 1 ≤ k := hle (by push_cast; linarith)
      show M + 1 = k
      omega
    | false =>
      have hq : q = M + 1 / 2 := by
        by_contra hne
        exact absurd (hsticky.mpr ⟨by intro hM; linarith, hne⟩) (by decide)
      -- A tie: of the two neighbours `M` and `M + 1`, an odd one is excluded.
      show M + M % 2 = k
      rcases Nat.mod_two_eq_zero_or_one k with heven | hkodd
      · omega
      · obtain ⟨hklow, hkhigh⟩ := hodd hkodd
        have hk : k ≤ M := hle (by linarith)
        have hM : M + 1 ≤ k := hle (by push_cast; linarith)
        omega

end Holds

/-! ### Rounding -/

theorem targetExponent_def (size : Int) :
    Format.binary64.targetExponent size = max (size - 53) (-1074) := rfl

/-- The exponent that a double of this size has. -/
theorem targetExponent_eq (m : Nat) (e : Int) :
    Format.binary64.targetExponent (totalExponent m e) = max (m.log2 + e - 52) (-1074) := by
  rw [targetExponent_def, totalExponent]
  omega

theorem shiftToTargetExponent_of_lt {m : Nat} {e : Int} (hm : m < 2 ^ 53) (he : -1074 ≤ e) :
    shiftToTargetExponent Format.binary64 m e .exact = (⟨m, false, false⟩, e) := by
  have hlog : m.log2 ≤ 52 := by
    rcases Nat.eq_zero_or_pos m with rfl | hpos
    · decide
    · have := (Nat.log2_lt (Nat.ne_of_gt hpos)).mpr hm
      omega
  have hshift : (Format.binary64.targetExponent (totalExponent m e) - e).toNat = 0 := by
    rw [targetExponent_eq]
    omega
  unfold shiftToTargetExponent shiftToExponent
  dsimp only
  rw [hshift]
  exact Prod.ext rfl (Int.add_zero e)

/-- A mantissa that rounding made a bit too long is shifted once more. -/
theorem shiftToTargetExponent_overflow {e : Int} (he : -1074 ≤ e) :
    shiftToTargetExponent Format.binary64 (2 ^ 53) e .exact = (⟨2 ^ 52, false, false⟩, e + 1) := by
  have hshift : (Format.binary64.targetExponent (totalExponent (2 ^ 53) e) - e).toNat = 1 := by
    rw [targetExponent_eq, Nat.log2_two_pow]
    omega
  unfold shiftToTargetExponent shiftToExponent
  dsimp only
  rw [hshift]
  rfl

/-- A mantissa of at least fifty-three bits, or an exponent below that of every
double, leaves the target at or above the exponent. -/
theorem le_targetExponent {m : Nat} {e : Int} (h : 2 ^ 52 ≤ m ∨ e ≤ -1074) :
    e ≤ Format.binary64.targetExponent (totalExponent m e) := by
  rw [targetExponent_eq]
  rcases h with hm | he
  · have hlog : 52 ≤ m.log2 := (Nat.le_log2 (by omega)).mpr hm
    omega
  · omega

/-- The first shift holds the value in units of the target exponent. -/
theorem Holds.shiftToTarget {m : Nat} {e t : Int} {acc : Accuracy} {q : ℚ}
    (h : Holds (.ofMantissaAndAccuracy m acc) q) (hle : e ≤ t)
    (ht : Format.binary64.targetExponent (totalExponent m e) = t) :
    ∃ em, shiftToTargetExponent Format.binary64 m e acc = (em, t) ∧ Holds em (q * 2 ^ e / 2 ^ t) := by
  obtain ⟨n, rfl⟩ := Int.le.dest hle
  have hn : (e + (n : Int) - e).toNat = n := by omega
  have hscale : q * 2 ^ e / 2 ^ (e + (n : Int)) = q / 2 ^ n := by
    rw [zpow_add₀ two_ne_zero, zpow_natCast]
    field_simp
  refine ⟨ExtendedMantissa.ofMantissaAndAccuracy m acc >>> n, ?_, hscale ▸ h.shift n⟩
  unfold shiftToTargetExponent shiftToExponent
  dsimp only
  rw [ht, hn]

theorem mantissa_ofMantissaAndAccuracy (acc : Accuracy) (m : Nat) :
    (ExtendedMantissa.ofMantissaAndAccuracy m acc).mantissa = m := by
  cases acc with
  | exact => rfl
  | inexact o => cases o <;> rfl

/-- A mantissa and exponent bound the value from above. -/
theorem Holds.lt_two_zpow {m : Nat} {acc : Accuracy} {q : ℚ}
    (h : Holds (.ofMantissaAndAccuracy m acc) q) (e : Int) : q * 2 ^ e < 2 ^ (m.log2 + e + 1) := by
  have hq := h.high
  rw [mantissa_ofMantissaAndAccuracy] at hq
  have hm : (m : ℚ) + 1 ≤ 2 ^ (m.log2 + 1) := by exact_mod_cast Nat.lt_log2_self (n := m)
  have hsplit : (2 : ℚ) ^ ((m.log2 : Int) + e + 1) = 2 ^ (m.log2 + 1) * 2 ^ e := by
    rw [← zpow_natCast, ← zpow_add₀ two_ne_zero]
    congr 1
    omega
  rw [hsplit]
  exact mul_lt_mul_of_pos_right (by linarith) (by positivity)

/-- A mantissa other than zero and an exponent bound the value from below. -/
theorem Holds.two_zpow_le {m : Nat} {acc : Accuracy} {q : ℚ}
    (h : Holds (.ofMantissaAndAccuracy m acc) q) (hm : m ≠ 0) (e : Int) :
    2 ^ (m.log2 + e) ≤ q * 2 ^ e := by
  have hq := h.low
  rw [mantissa_ofMantissaAndAccuracy] at hq
  have hlog : (2 : ℚ) ^ m.log2 ≤ m := by exact_mod_cast Nat.log2_self_le hm
  rw [zpow_add₀ two_ne_zero, zpow_natCast]
  exact mul_le_mul_of_nonneg_right (by linarith) (by positivity)

theorem le_of_zpow_lt {a b : Int} (h : (2 : ℚ) ^ a < 2 ^ (b + 1)) : a ≤ b := by
  have := (zpow_lt_zpow_iff_right₀ (one_lt_two (α := ℚ))).mp h
  omega

namespace RoundsTo

variable {m : Nat} {e : Int} {q : ℚ}

/-- What rounds to a double is below the next power of two. -/
theorem lt_two_zpow (h : RoundsTo m e q) (hm : m < 2 ^ 53) : q < 2 ^ (e + 52 + 1) := by
  have hm' : (m : ℚ) + 1 ≤ 2 ^ 53 := by exact_mod_cast hm
  have hsplit : (2 : ℚ) ^ (e + 52 + 1) = 2 ^ 53 * 2 ^ e := by
    rw [add_assoc, zpow_add₀ two_ne_zero, mul_comm]
    norm_num
  rw [hsplit]
  refine lt_of_le_of_lt h.high (mul_lt_mul_of_pos_right ?_ (by positivity))
  linarith

/-- What rounds to a normal double is not far below its power of two. -/
theorem two_zpow_lt (h : RoundsTo m e q) (hm : 2 ^ 52 ≤ m) : 2 ^ (e + 51) < q := by
  have hm' : (4503599627370496 : ℚ) ≤ m := by exact_mod_cast hm
  have hreach := reachBelow_le m e
  have hpower : (2 : ℚ) ^ (51 : Int) = 2251799813685248 := by norm_num
  rw [zpow_add₀ two_ne_zero, mul_comm, hpower]
  exact lt_of_lt_of_le (mul_lt_mul_of_pos_right (by linarith) (by positivity)) h.low

/-- What rounds to a normal double and is below its power of two rounds to that
power. -/
theorem eq_two_pow (h : RoundsTo m e q) (hm : 2 ^ 52 ≤ m) (hq : q < 2 ^ (e + 52)) : m = 2 ^ 52 := by
  have hreach := reachBelow_le m e
  have hpower : (2 : ℚ) ^ (52 : Int) = 4503599627370496 := by norm_num
  rw [zpow_add₀ two_ne_zero, mul_comm, hpower] at hq
  have hlt : (m : ℚ) - reachBelow m e < 4503599627370496 :=
    lt_of_mul_lt_mul_right (lt_of_le_of_lt h.low hq) (by positivity)
  have hlt' : (m : ℚ) < (4503599627370497 : Nat) := by
    push_cast
    linarith
  have := Nat.cast_lt.mp hlt'
  omega

end RoundsTo

/-- In units of its last place, what rounds to a double has the mantissa of the
double for its nearest integer. -/
theorem RoundsTo.roundedMantissa (h : RoundsTo m e q) {em : ExtendedMantissa} (hem : Holds em (q / 2 ^ e)) :
    em.roundedMantissa = m := by
  have hunit : (0 : ℚ) < 2 ^ e := by positivity
  have hreach := reachBelow_le m e
  refine hem.roundedMantissa ?_ ?_ ?_
  · linarith [(le_div_iff₀ hunit).mpr h.low]
  · exact (div_le_iff₀ hunit).mpr h.high
  · intro hodd
    have hlow := (lt_div_iff₀ hunit).mpr (h.within hodd).1
    exact ⟨by linarith, (div_lt_iff₀ hunit).mpr (h.within hodd).2⟩

/-- In half the units, what is a little below a power of two has twice that
power for its nearest integer. -/
theorem RoundsTo.roundedMantissa_below (h : RoundsTo (2 ^ 52) e q) (he : e ≠ -1074) (hq : q < 2 ^ (e + 52))
    {em : ExtendedMantissa} (hem : Holds em (q / 2 ^ (e - 1))) : em.roundedMantissa = 2 ^ 53 := by
  have hunit : (0 : ℚ) < 2 ^ e := by positivity
  have hreach : reachBelow (2 ^ 52) e = 1 / 4 := if_pos ⟨rfl, he⟩
  have hlow := h.low
  rw [hreach] at hlow
  have hlow' := (le_div_iff₀ hunit).mpr hlow
  rw [zpow_add₀ two_ne_zero, mul_comm (2 ^ e)] at hq
  have hhigh' := (div_lt_iff₀ hunit).mpr hq
  have hdouble : q / 2 ^ (e - 1) = 2 * (q / 2 ^ e) := by
    rw [zpow_sub_one₀ two_ne_zero]
    field_simp
  rw [hdouble] at hem
  generalize q / 2 ^ e = x at hem hlow' hhigh'
  refine hem.roundedMantissa ?_ ?_ fun hodd => absurd hodd (by decide)
  · push_cast at hlow' ⊢
    linarith
  · push_cast
    norm_num at hhigh' ⊢
    linarith

/-- The two ways a value is rounded to a double in the first step: to its
mantissa, or, a little below a power of two, to twice that power. -/
theorem roundedMantissa_shiftToTarget {m m₀ : Nat} {e e₀ : Int} {acc : Accuracy} {q : ℚ}
    (hc : Rounded m e) (hholds : Holds (.ofMantissaAndAccuracy m₀ acc) q)
    (henough : 2 ^ 52 ≤ m₀ ∨ e₀ ≤ -1074) (hr : RoundsTo m e (q * 2 ^ e₀)) :
    ∃ em e₁, shiftToTargetExponent Format.binary64 m₀ e₀ acc = (em, e₁) ∧
      (em.roundedMantissa = m ∧ e₁ = e ∨
        em.roundedMantissa = 2 ^ 53 ∧ m = 2 ^ 52 ∧ e₁ + 1 = e ∧ -1074 ≤ e₁) := by
  obtain ⟨t, ht⟩ : ∃ t, Format.binary64.targetExponent (totalExponent m₀ e₀) = t := ⟨_, rfl⟩
  have hle : e₀ ≤ t := ht ▸ le_targetExponent henough
  obtain ⟨em, hshift, hem⟩ := hholds.shiftToTarget hle ht
  have hleast := hc.least
  rw [targetExponent_eq] at ht
  have hte : t ≤ e := by
    rcases Nat.eq_zero_or_pos m₀ with rfl | hpos
    · have hlog : Nat.log2 0 = 0 := by decide
      rw [hlog] at ht
      omega
    · have := le_of_zpow_lt
        (lt_of_le_of_lt (hholds.two_zpow_le (Nat.ne_of_gt hpos) e₀) (hr.lt_two_zpow hc.lt))
      omega
  refine ⟨em, t, hshift, ?_⟩
  rcases eq_or_lt_of_le hte with rfl | hlt
  · -- The exponent is that of the double.
    exact .inl ⟨hr.roundedMantissa hem, rfl⟩
  · -- The exponent is one less: the value is a little below a power of two.
    have hfull : 2 ^ 52 ≤ m := hc.full.resolve_left (by omega)
    have hlog := le_of_zpow_lt (lt_trans (hr.two_zpow_lt hfull) (hholds.lt_two_zpow e₀))
    obtain rfl : t = e - 1 := by omega
    have hbelow : q * 2 ^ e₀ < 2 ^ (e + 52) := by
      refine lt_of_lt_of_le (hholds.lt_two_zpow e₀) ?_
      exact zpow_le_zpow_right₀ one_le_two (by omega)
    obtain rfl := hr.eq_two_pow hfull hbelow
    exact .inr ⟨hr.roundedMantissa_below (by omega) hbelow hem, rfl, by omega, by omega⟩

/-- **A value is rounded to what it rounds to.** It is given by a mantissa with
residual bits, of at least fifty-three bits unless the exponent is below that of
every double. -/
theorem roundWithAccuracy_eq {m m₀ : Nat} {e e₀ : Int} {acc : Accuracy} {q : ℚ}
    (hc : Rounded m e) (hholds : Holds (.ofMantissaAndAccuracy m₀ acc) q)
    (henough : 2 ^ 52 ≤ m₀ ∨ e₀ ≤ -1074) (hr : RoundsTo m e (q * 2 ^ e₀)) (s : Sign) :
    roundWithAccuracy Format.binary64 s m₀ e₀ acc = .finite s m e hc.pos := by
  obtain ⟨em, e₁, hshift, ⟨hm, rfl⟩ | ⟨hm, rfl, rfl, hleast⟩⟩ :=
    roundedMantissa_shiftToTarget hc hholds henough hr
  · unfold roundWithAccuracy
    rw [hshift]
    dsimp only
    rw [hm, shiftToTargetExponent_of_lt hc.lt hc.least]
    exact dif_neg (Nat.ne_of_gt hc.pos)
  · unfold roundWithAccuracy
    rw [hshift]
    dsimp only
    rw [hm, shiftToTargetExponent_overflow hleast]
    exact dif_neg (Nat.ne_of_gt hc.pos)

/-- A value of at most half the least double is rounded to zero. -/
theorem roundWithAccuracy_zero {m₀ : Nat} {e₀ : Int} {acc : Accuracy} {q : ℚ}
    (hholds : Holds (.ofMantissaAndAccuracy m₀ acc) q) (henough : 2 ^ 52 ≤ m₀ ∨ e₀ ≤ -1074)
    (hsmall : q * 2 ^ e₀ ≤ 2 ^ (-1075 : Int)) (s : Sign) :
    roundWithAccuracy Format.binary64 s m₀ e₀ acc = .zero s := by
  obtain ⟨t, ht⟩ : ∃ t, Format.binary64.targetExponent (totalExponent m₀ e₀) = t := ⟨_, rfl⟩
  obtain ⟨em, hshift, hem⟩ := hholds.shiftToTarget (ht ▸ le_targetExponent henough) ht
  rw [targetExponent_eq] at ht
  obtain rfl : t = -1074 := by
    rcases Nat.eq_zero_or_pos m₀ with rfl | hpos
    · have hlog : Nat.log2 0 = 0 := by decide
      rw [hlog] at ht
      omega
    · have := le_of_zpow_lt (b := -1075) (lt_of_le_of_lt
        ((hholds.two_zpow_le (Nat.ne_of_gt hpos) e₀).trans hsmall)
        (zpow_lt_zpow_right₀ (one_lt_two (α := ℚ)) (by decide)))
      omega
  have hunit : (0 : ℚ) < 2 ^ (-1074 : Int) := by positivity
  have hhalf : (2 : ℚ) ^ (-1075 : Int) = 1 / 2 * 2 ^ (-1074 : Int) := by
    rw [show (-1075 : Int) = -1 + -1074 from rfl, zpow_add₀ two_ne_zero]
    norm_num
  have hnonneg : 0 ≤ q := le_trans (Nat.cast_nonneg _) hholds.low
  have hzero : em.roundedMantissa = 0 := by
    refine hem.roundedMantissa ?_ ?_ fun hodd => absurd hodd (by decide)
    · have hle : (0 : ℚ) ≤ q * 2 ^ e₀ / 2 ^ (-1074 : Int) := by positivity
      rw [Nat.cast_zero]
      linarith
    · rw [Nat.cast_zero, zero_add, div_le_iff₀ hunit, ← hhalf]
      exact hsmall
  unfold roundWithAccuracy
  rw [hshift]
  dsimp only
  rw [hzero, shiftToTargetExponent_of_lt (by decide) le_rfl]
  exact dif_pos rfl

/-- An unpacked number is a value rounded, with a sign. -/
def IsRounded (u : UnpackedFloat) (s : Sign) (q : ℚ) : Prop :=
  ∃ (m₀ : Nat) (e₀ : Int) (acc : Accuracy) (r : ℚ), u = roundWithAccuracy Format.binary64 s m₀ e₀ acc ∧
    Holds (.ofMantissaAndAccuracy m₀ acc) r ∧ (2 ^ 52 ≤ m₀ ∨ e₀ ≤ -1074) ∧ r * 2 ^ e₀ = q

namespace IsRounded

variable {u : UnpackedFloat} {s : Sign} {q : ℚ}

theorem eq_finite (h : IsRounded u s q) {m : Nat} {e : Int} (hc : Rounded m e) (hr : RoundsTo m e q) :
    u = .finite s m e hc.pos := by
  obtain ⟨m₀, e₀, acc, r, rfl, hholds, henough, rfl⟩ := h
  exact roundWithAccuracy_eq hc hholds henough hr s

theorem eq_zero (h : IsRounded u s q) (hsmall : q ≤ 2 ^ (-1075 : Int)) : u = .zero s := by
  obtain ⟨m₀, e₀, acc, r, rfl, hholds, henough, rfl⟩ := h
  exact roundWithAccuracy_zero hholds henough hsmall s

end IsRounded

/-! ### Products, quotients and naturals -/

theorem accuracyOfFraction_eq (num den : Nat) :
    accuracyOfFraction num den = if num = 0 then .exact else .inexact (compare (2 * num) den) := rfl

/-- The round bit of a remainder says whether it is at least half the divisor. -/
theorem roundBit_accuracyOfFraction {r den : Nat} (hden : 0 < den) (m : Nat) :
    (ExtendedMantissa.ofMantissaAndAccuracy m (accuracyOfFraction r den)).roundBit = true ↔ den ≤ 2 * r := by
  rw [accuracyOfFraction_eq]
  split
  · exact ⟨nofun, fun _ => by omega⟩
  · rcases hcmp : compare (2 * r) den with _ | _ | _
    · have := Nat.compare_eq_lt.mp hcmp
      exact ⟨nofun, fun _ => by omega⟩
    · have := Nat.compare_eq_eq.mp hcmp
      exact ⟨fun _ => by omega, fun _ => rfl⟩
    · have := Nat.compare_eq_gt.mp hcmp
      exact ⟨fun _ => by omega, fun _ => rfl⟩

/-- The sticky bit of a remainder says whether anything is left beside that half. -/
theorem stickyBit_accuracyOfFraction {r den : Nat} (m : Nat) :
    (ExtendedMantissa.ofMantissaAndAccuracy m (accuracyOfFraction r den)).stickyBit = true ↔
      r ≠ 0 ∧ 2 * r ≠ den := by
  rw [accuracyOfFraction_eq]
  split
  · exact ⟨nofun, fun h => absurd ‹_› h.1⟩
  · rcases hcmp : compare (2 * r) den with _ | _ | _
    · have := Nat.compare_eq_lt.mp hcmp
      exact ⟨fun _ => by omega, fun _ => rfl⟩
    · have := Nat.compare_eq_eq.mp hcmp
      exact ⟨nofun, fun _ => by omega⟩
    · have := Nat.compare_eq_gt.mp hcmp
      exact ⟨fun _ => by omega, fun _ => rfl⟩

/-- A fraction as a mantissa with residual bits. -/
theorem Holds.fraction (num : Nat) {den : Nat} (hden : 0 < den) :
    Holds (.ofMantissaAndAccuracy (num / den) (accuracyOfFraction (num % den) den)) (num / den) := by
  have hpos : (0 : ℚ) < den := by exact_mod_cast hden
  have hsplit : (num : ℚ) / den = (num / den : Nat) + (num % den : Nat) / den := by
    rw [eq_comm, ← mul_right_cancel_iff_of_pos hpos]
    field_simp
    exact_mod_cast Nat.div_add_mod' num den
  have hlt : ((num % den : Nat) : ℚ) / den < 1 := by
    rw [div_lt_one hpos]
    exact_mod_cast Nat.mod_lt num hden
  have hnonneg : (0 : ℚ) ≤ ((num % den : Nat) : ℚ) / den := by positivity
  have hzero : ((num % den : Nat) : ℚ) / den = 0 ↔ num % den = 0 := by
    rw [div_eq_zero_iff, Nat.cast_eq_zero]
    exact or_iff_left (ne_of_gt hpos)
  have hhalf : 1 / 2 ≤ ((num % den : Nat) : ℚ) / den ↔ den ≤ 2 * (num % den) := by
    rw [div_le_div_iff₀ two_pos hpos, one_mul, mul_comm]
    exact_mod_cast Iff.rfl
  have hhalf' : ((num % den : Nat) : ℚ) / den = 1 / 2 ↔ 2 * (num % den) = den := by
    rw [div_eq_div_iff (ne_of_gt hpos) two_ne_zero, one_mul, mul_comm]
    exact_mod_cast Iff.rfl
  have hmantissa := mantissa_ofMantissaAndAccuracy (accuracyOfFraction (num % den) den) (num / den)
  rw [hsplit]
  refine ⟨?_, ?_, ?_, ?_⟩ <;> rw [hmantissa]
  · linarith
  · linarith
  · rw [add_le_add_iff_left, hhalf, roundBit_accuracyOfFraction hden]
  · rw [ne_eq, add_eq_left, hzero, ne_eq, add_right_inj, hhalf', stickyBit_accuracyOfFraction]

/-- A product is its value rounded. -/
theorem mul_isRounded {m₁ m₂ : Nat} (e₁ e₂ : Int) (h₁ : 0 < m₁) (h₂ : 0 < m₂) (henough : 2 ^ 52 ≤ m₁)
    (s₁ s₂ : Sign) :
    IsRounded (UnpackedFloat.mul Format.binary64 (.finite s₁ m₁ e₁ h₁) (.finite s₂ m₂ e₂ h₂)) (s₁ * s₂)
      (m₁ * 2 ^ e₁ * (m₂ * 2 ^ e₂)) := by
  refine ⟨m₁ * m₂, e₁ + e₂, .exact, _, rfl, .exact (m₁ * m₂), .inl ?_, ?_⟩
  · exact Nat.le_trans henough (Nat.le_mul_of_pos_right m₁ h₂)
  · rw [zpow_add₀ two_ne_zero]
    push_cast
    ring

/-- A quotient is its value rounded. -/
theorem div_isRounded {m₁ m₂ : Nat} (e₁ e₂ : Int) (h₁ : 0 < m₁) (h₂ : 0 < m₂) (s₁ s₂ : Sign) :
    IsRounded (UnpackedFloat.div Format.binary64 (.finite s₁ m₁ e₁ h₁) (.finite s₂ m₂ e₂ h₂)) (s₁ / s₂)
      (m₁ * 2 ^ e₁ / (m₂ * 2 ^ e₂)) := by
  unfold UnpackedFloat.div divCore
  dsimp only
  obtain ⟨t, ht⟩ : ∃ t, min (e₁ - e₂) (Format.binary64.targetExponent
    (totalExponent m₁ e₁ - totalExponent m₂ e₂)) = t := ⟨_, rfl⟩
  rw [ht]
  rw [targetExponent_def, totalExponent, totalExponent] at ht
  obtain ⟨n, hn⟩ := Int.le.dest (show t ≤ e₁ - e₂ by omega)
  have hshift : (e₁ - e₂ - t).toNat = n := by omega
  rw [hshift, Nat.shiftLeft_eq]
  refine ⟨_, _, _, _, rfl, .fraction (m₁ * 2 ^ n) h₂, ?_, ?_⟩
  · by_cases hleast : t ≤ -1074
    · exact .inr hleast
    · -- The dividend has at least fifty-three bits more than the divisor.
      refine .inl ((Nat.le_div_iff_mul_le h₂).mpr ?_)
      have hsize : m₂.log2 + 1 + 52 ≤ m₁.log2 + n := by omega
      calc 2 ^ 52 * m₂ ≤ 2 ^ 52 * 2 ^ (m₂.log2 + 1) :=
            Nat.mul_le_mul_left _ (Nat.le_of_lt Nat.lt_log2_self)
        _ = 2 ^ (m₂.log2 + 1 + 52) := by rw [Nat.mul_comm, ← Nat.pow_add]
        _ ≤ 2 ^ (m₁.log2 + n) := Nat.pow_le_pow_right two_pos hsize
        _ = 2 ^ m₁.log2 * 2 ^ n := Nat.pow_add _ _ _
        _ ≤ m₁ * 2 ^ n := Nat.mul_le_mul_right _ (Nat.log2_self_le (Nat.ne_of_gt h₁))
  · have he : (2 : ℚ) ^ e₁ = 2 ^ t * 2 ^ n * 2 ^ e₂ := by
      rw [← zpow_natCast, ← zpow_add₀ two_ne_zero, ← zpow_add₀ two_ne_zero]
      congr 1
      omega
    have hpos : (m₂ : ℚ) ≠ 0 := by exact_mod_cast Nat.ne_of_gt h₂
    rw [he]
    push_cast
    field_simp

/-- A mantissa and exponent are their value rounded. -/
theorem round_isRounded {m₀ : Nat} (e₀ : Int) (h₀ : 0 < m₀) (s : Sign) :
    IsRounded (UnpackedFloat.round Format.binary64 s m₀ e₀) s (m₀ * 2 ^ e₀) := by
  unfold UnpackedFloat.round decreaseExponent
  dsimp only
  rw [targetExponent_eq, Nat.shiftLeft_eq]
  obtain ⟨n, hn⟩ : ∃ n : Nat, (e₀ - max (m₀.log2 + e₀ - 52) (-1074)).toNat = n := ⟨_, rfl⟩
  rw [hn]
  refine ⟨_, _, _, _, rfl, .exact (m₀ * 2 ^ n), ?_, ?_⟩
  · by_cases hleast : e₀ - (n : Int) ≤ -1074
    · exact .inr hleast
    · refine .inl ?_
      have hsize : 52 ≤ m₀.log2 + n := by omega
      calc 2 ^ 52 ≤ 2 ^ (m₀.log2 + n) := Nat.pow_le_pow_right two_pos hsize
        _ = 2 ^ m₀.log2 * 2 ^ n := Nat.pow_add _ _ _
        _ ≤ m₀ * 2 ^ n := Nat.mul_le_mul_right _ (Nat.log2_self_le (Nat.ne_of_gt h₀))
  · rw [zpow_sub₀ two_ne_zero, zpow_natCast]
    push_cast
    field_simp

end RuleScript.Number
