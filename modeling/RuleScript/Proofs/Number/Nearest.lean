/-
# The nearest number

Every rational above half the least double is rounded to a mantissa and an
exponent (`exists_rounded`), and to a double unless it is beyond them. So every
rational with a sign has a number nearest to it (`Nearest`): zero, a double it
rounds to, or from halfway between the greatest double and the next power of two
on an infinity. What rounds a value finds that number
(`IsRounded.nearest`), and so does the reading of a decimal, however long
(`ofDecimal_nearest`), and of an integer (`ofInt_nearest`).

Key definitions: `overflow`, `Nearest`.
Key theorems: `exists_rounded`, `exists_roundsTo`, `IsRounded.nearest`,
`ofDecimal_nearest`, `ofInt_nearest`, `ofInt?_nearest`.
-/
import Mathlib.Data.Int.Log
import Mathlib.Data.Rat.Floor
import RuleScript.Proofs.Number.Order

namespace RuleScript.Number

open Float.Model Float.Model.UnpackedFloat

/-! ### Rounding a rational -/

/-- A mantissa of at most fifty-three bits makes a double. -/
theorem exists_canonical {M : Nat} {E : Int} (hpos : 0 < M) (hlt : M < 2 ^ 53) (hleast : -1074 ≤ E)
    (hmost : M.log2 + E ≤ 1023) : ∃ m e, Canonical m e ∧ (m : ℚ) * 2 ^ e = M * 2 ^ E := by
  have hlog := (Nat.log2_lt (Nat.ne_of_gt hpos)).mpr hlt
  -- The mantissa is shifted until it is full or the exponent is the least one.
  obtain ⟨k, hk⟩ : ∃ k : Nat, (k : Int) = min (52 - (M.log2 : Int)) (E + 1074) :=
    ⟨(min (52 - (M.log2 : Int)) (E + 1074)).toNat, by omega⟩
  have hhigh : M * 2 ^ k < 2 ^ 53 :=
    calc M * 2 ^ k < 2 ^ (M.log2 + 1) * 2 ^ k :=
          Nat.mul_lt_mul_of_pos_right Nat.lt_log2_self (Nat.two_pow_pos k)
      _ = 2 ^ (M.log2 + 1 + k) := (Nat.pow_add _ _ _).symm
      _ ≤ 2 ^ 53 := Nat.pow_le_pow_right two_pos (by omega)
  have hfull : E - k = -1074 ∨ 2 ^ 52 ≤ M * 2 ^ k := by
    by_cases hE : E + 1074 ≤ 52 - (M.log2 : Int)
    · exact .inl (by omega)
    · refine .inr ?_
      calc 2 ^ 52 = 2 ^ (M.log2 + k) := by congr 1; omega
        _ = 2 ^ M.log2 * 2 ^ k := Nat.pow_add _ _ _
        _ ≤ M * 2 ^ k := Nat.mul_le_mul_right _ (Nat.log2_self_le (Nat.ne_of_gt hpos))
  refine ⟨M * 2 ^ k, E - k, ⟨by positivity, hhigh, by omega, by omega, hfull⟩, ?_⟩
  rw [zpow_sub₀ two_ne_zero, zpow_natCast]
  push_cast
  field_simp

/-- An integer of at most fifty-three bits is a double. -/
theorem exists_canonical_natCast {n : Nat} (hpos : 0 < n) (hn : n ≤ 2 ^ 53) :
    ∃ m e, Canonical m e ∧ (m : ℚ) * 2 ^ e = n := by
  rcases Nat.lt_or_ge n (2 ^ 53) with hlt | hge
  · have hlog := (Nat.log2_lt (Nat.ne_of_gt hpos)).mpr hlt
    obtain ⟨m, e, hc, hvalue⟩ := exists_canonical (E := 0) hpos hlt (by decide) (by omega)
    exact ⟨m, e, hc, by rw [hvalue, zpow_zero, mul_one]⟩
  · obtain rfl : n = 2 ^ 53 := Nat.le_antisymm hn hge
    exact ⟨2 ^ 52, 1, ⟨by decide, by decide, by decide, by decide, .inr le_rfl⟩, by norm_num⟩

/-- A rational has a nearest natural number, the even one of two. -/
theorem exists_nearest {q : ℚ} (hq : 0 ≤ q) :
    ∃ k : Nat, (k : ℚ) - 1 / 2 ≤ q ∧ q ≤ k + 1 / 2 ∧
      (k % 2 = 1 → (k : ℚ) - 1 / 2 < q ∧ q < k + 1 / 2) := by
  have hlow := Nat.floor_le hq
  have hhigh := Nat.lt_floor_add_one q
  generalize ⌊q⌋₊ = n at hlow hhigh
  rcases lt_trichotomy q (n + 1 / 2) with hlt | heq | hgt
  · exact ⟨n, by linarith, hlt.le, fun _ => ⟨by linarith, hlt⟩⟩
  · rcases Nat.mod_two_eq_zero_or_one n with heven | hodd
    · exact ⟨n, by linarith, heq.le, fun hodd => by omega⟩
    · exact ⟨n + 1, by push_cast; linarith, by push_cast; linarith, fun hodd' => by omega⟩
  · exact ⟨n + 1, by push_cast; linarith, by push_cast; linarith,
      fun _ => ⟨by push_cast; linarith, by push_cast; linarith⟩⟩

/-- The nearest integer of a full mantissa, in the units of its exponent, is
that of a double, and so is that of any mantissa in the least units. -/
theorem roundsTo_of_nearest {q : ℚ} {e : Int} {k : Nat} (hfull : e = -1074 ∨ 2 ^ 52 ≤ q)
    (hlow : (k : ℚ) - 1 / 2 ≤ q) (hhigh : q ≤ k + 1 / 2)
    (hodd : k % 2 = 1 → (k : ℚ) - 1 / 2 < q ∧ q < k + 1 / 2) : RoundsTo k e (q * 2 ^ e) := by
  have hunit : (0 : ℚ) < 2 ^ e := by positivity
  have hreach : (k : ℚ) - reachBelow k e ≤ q := by
    unfold reachBelow
    split
    · rename_i h
      have hfull := hfull.resolve_left h.2
      rw [h.1]
      push_cast
      linarith
    · exact hlow
  refine ⟨mul_le_mul_of_nonneg_right hreach hunit.le, mul_le_mul_of_nonneg_right hhigh hunit.le, ?_⟩
  intro hkodd
  have hne : ¬(k = 2 ^ 52 ∧ e ≠ -1074) := by
    rintro ⟨rfl, -⟩
    exact absurd hkodd (by decide)
  have hhalf : reachBelow k e = 1 / 2 := if_neg hne
  rw [hhalf]
  exact ⟨mul_lt_mul_of_pos_right (hodd hkodd).1 hunit, mul_lt_mul_of_pos_right (hodd hkodd).2 hunit⟩

/-- What is nearest to a mantissa one bit too long rounds to the power of two. -/
theorem roundsTo_of_overflow {q : ℚ} {e : Int} (hleast : -1074 ≤ e) (hlow : (2 : ℚ) ^ 53 - 1 / 2 ≤ q)
    (hhigh : q < 2 ^ 53) : RoundsTo (2 ^ 52) (e + 1) (q * 2 ^ e) := by
  have hunit : (0 : ℚ) < 2 ^ e := by positivity
  have hreach : reachBelow (2 ^ 52) (e + 1) = 1 / 4 := if_pos ⟨rfl, by omega⟩
  have hdouble : (2 : ℚ) ^ (e + 1) = 2 * 2 ^ e := by
    rw [zpow_add₀ two_ne_zero, zpow_one, mul_comm]
  refine ⟨?_, ?_, fun hodd => absurd hodd (by decide)⟩
  · rw [hreach, hdouble, ← mul_assoc]
    refine mul_le_mul_of_nonneg_right ?_ hunit.le
    push_cast
    linarith
  · rw [hdouble, ← mul_assoc]
    refine mul_le_mul_of_nonneg_right ?_ hunit.le
    push_cast
    linarith

/-- **Every value that is not too small is rounded to a mantissa and an
exponent.** -/
theorem exists_rounded {q : ℚ} (hq : 2 ^ (-1075 : Int) < q) : ∃ m e, Rounded m e ∧ RoundsTo m e q := by
  have hpos : 0 < q := lt_trans (by positivity) hq
  have hlow := Int.zpow_log_le_self (b := 2) one_lt_two hpos
  have hhigh := Int.lt_zpow_succ_log_self (b := 2) one_lt_two q
  push_cast at hlow hhigh
  obtain ⟨e, he⟩ : ∃ e, max (Int.log 2 q - 52) (-1074) = e := ⟨_, rfl⟩
  obtain ⟨x, rfl⟩ : ∃ x, x * 2 ^ e = q := ⟨q / 2 ^ e, div_mul_cancel₀ _ (by positivity)⟩
  have hunit : (0 : ℚ) < 2 ^ e := by positivity
  have hlt : x < 2 ^ 53 := by
    refine lt_of_mul_lt_mul_right (lt_of_lt_of_le hhigh ?_) hunit.le
    rw [← zpow_natCast, ← zpow_add₀ two_ne_zero]
    exact zpow_le_zpow_right₀ one_le_two (by omega)
  have hfull : e = -1074 ∨ 2 ^ 52 ≤ x := by
    rcases le_total (Int.log 2 (x * 2 ^ e) - 52) (-1074) with hsmall | hlarge
    · exact .inl (by omega)
    · refine .inr (le_of_mul_le_mul_right (le_trans (le_of_eq ?_) hlow) hunit)
      rw [← zpow_natCast, ← zpow_add₀ two_ne_zero]
      congr 1
      omega
  obtain ⟨k, hklow, hkhigh, hodd⟩ := exists_nearest (q := x) (pos_of_mul_pos_left hpos hunit.le).le
  have hk : 0 < k ∧ (e = -1074 ∨ 2 ^ 52 ≤ k) := by
    rcases hfull with rfl | hfull
    · refine ⟨Nat.pos_of_ne_zero fun hzero => ?_, .inl rfl⟩
      rw [hzero, Nat.cast_zero, zero_add] at hkhigh
      have hhalf : (2 : ℚ) ^ (-1075 : Int) = 1 / 2 * 2 ^ (-1074 : Int) := by
        rw [show (-1075 : Int) = -1 + -1074 from rfl, zpow_add₀ two_ne_zero]
        norm_num
      rw [hhalf] at hq
      exact absurd (lt_of_mul_lt_mul_right hq hunit.le) (not_lt.mpr hkhigh)
    · have : ((2 ^ 52 : Nat) : ℚ) < (k + 1 : Nat) := by push_cast; linarith
      have := Nat.cast_lt.mp this
      exact ⟨by omega, .inr (by omega)⟩
  rcases Nat.lt_or_ge k (2 ^ 53) with hk53 | hk53
  · exact ⟨k, e, ⟨hk.1, hk53, by omega, hk.2⟩, roundsTo_of_nearest hfull hklow hkhigh hodd⟩
  · obtain rfl : k = 2 ^ 53 := by
      have : (k : ℚ) < (2 ^ 53 + 1 : Nat) := by push_cast; linarith
      have := Nat.cast_lt.mp this
      omega
    push_cast at hklow
    exact ⟨2 ^ 52, e + 1, ⟨by decide, by decide, by omega, .inr le_rfl⟩,
      roundsTo_of_overflow (by omega) hklow hlt⟩

/-! ### Beyond the doubles -/

/-- The greatest double. -/
def greatest : ℚ := (2 ^ 53 - 1) * 2 ^ (971 : Int)

theorem Canonical.value_le {m : Nat} {e : Int} (h : Canonical m e) : (m : ℚ) * 2 ^ e ≤ greatest := by
  have hm : (m : ℚ) ≤ 2 ^ 53 - 1 := by
    have hlt : m + 1 ≤ 2 ^ 53 := h.lt
    have : ((m + 1 : Nat) : ℚ) ≤ (2 ^ 53 : Nat) := Nat.cast_le.mpr hlt
    push_cast at this
    linarith
  exact mul_le_mul hm (zpow_le_zpow_right₀ one_le_two h.most) (by positivity) (by norm_num)

/-- Where the infinities begin: halfway between the greatest double and the next
power of two. -/
def overflow : ℚ := (2 ^ 53 - 1 / 2) * 2 ^ (971 : Int)

theorem greatest_lt_overflow : greatest < overflow :=
  mul_lt_mul_of_pos_right (by norm_num) (by positivity)

theorem overflow_lt : overflow < 2 ^ 1024 := by
  have hsplit : (2 : ℚ) ^ 1024 = 2 ^ 53 * 2 ^ (971 : Int) := by
    rw [← zpow_natCast, ← zpow_natCast, ← zpow_add₀ two_ne_zero]
    rfl
  rw [hsplit]
  exact mul_lt_mul_of_pos_right (by norm_num) (by positivity)

namespace RoundsTo

variable {m : Nat} {e : Int} {q : ℚ}

/-- What rounds to a double is before the infinities. -/
theorem lt_overflow (h : RoundsTo m e q) (hc : Canonical m e) : q < overflow := by
  have hm : (m : ℚ) ≤ 2 ^ 53 - 1 := by
    have : ((m + 1 : Nat) : ℚ) ≤ (2 ^ 53 : Nat) := Nat.cast_le.mpr hc.lt
    push_cast at this
    linarith
  rcases lt_or_eq_of_le (mul_le_mul (show (m : ℚ) + 1 / 2 ≤ 2 ^ 53 - 1 / 2 by linarith)
    (zpow_le_zpow_right₀ (one_le_two (α := ℚ)) hc.most) (by positivity) (by norm_num)) with hlt | heq
  · exact lt_of_le_of_lt h.high hlt
  · -- Only the midpoint above the greatest double is left, and its mantissa is odd.
    have hodd : m % 2 = 1 := by
      by_contra heven
      have hm' : (m : ℚ) ≤ 2 ^ 53 - 2 := by
        have hlt := hc.lt
        have : ((m + 2 : Nat) : ℚ) ≤ (2 ^ 53 : Nat) := Nat.cast_le.mpr (by omega)
        push_cast at this
        linarith
      refine absurd heq (ne_of_lt (lt_of_lt_of_le (mul_lt_mul_of_pos_right
        (show (m : ℚ) + 1 / 2 < 2 ^ 53 - 1 / 2 by linarith) (by positivity)) ?_))
      exact mul_le_mul_of_nonneg_left (zpow_le_zpow_right₀ one_le_two hc.most) (by norm_num)
    exact lt_of_lt_of_eq (h.within hodd).2 heq

/-- What is rounded to an exponent that is too large is among the infinities. -/
theorem overflow_le (h : RoundsTo m e q) (hc : Rounded m e) (he : 972 ≤ e) : overflow ≤ q := by
  have hm : (2 : ℚ) ^ 52 ≤ m := by exact_mod_cast hc.full.resolve_left (by omega)
  have hreach : (2 : ℚ) ^ 52 - 1 / 4 ≤ m - reachBelow m e := by
    unfold reachBelow
    split
    · linarith
    · rename_i hne
      have hlt : 2 ^ 52 < m := lt_of_le_of_ne (hc.full.resolve_left (by omega))
        fun heq => hne ⟨heq.symm, by omega⟩
      have : ((2 ^ 52 + 1 : Nat) : ℚ) ≤ m := Nat.cast_le.mpr hlt
      push_cast at this
      linarith
  calc overflow = (2 ^ 52 - 1 / 4) * 2 ^ (972 : Int) := by
        rw [overflow, show (972 : Int) = 1 + 971 from rfl, zpow_add₀ two_ne_zero]
        ring
    _ ≤ (m - reachBelow m e) * 2 ^ e :=
        mul_le_mul hreach (zpow_le_zpow_right₀ one_le_two he) (by positivity) (by linarith)
    _ ≤ q := h.low

end RoundsTo

/-- **Every value in range rounds to a double.** -/
theorem exists_roundsTo {q : ℚ} (hq : 2 ^ (-1075 : Int) < q) (hmost : q < overflow) :
    ∃ m e, Canonical m e ∧ RoundsTo m e q := by
  obtain ⟨m, e, hc, hr⟩ := exists_rounded hq
  have he : e ≤ 971 := not_lt.mp fun he => absurd (hr.overflow_le hc he) (not_le.mpr hmost)
  exact ⟨m, e, ⟨hc.pos, hc.lt, hc.least, he, hc.full⟩, hr⟩

/-! ### The nearest number -/

/-- The exact value of the number nearest to a rational with a sign. -/
inductive Nearest (negative : Bool) (q : ℚ) : Exact → Prop
  /-- At most half the least double is nearest to zero. -/
  | zero (h : q ≤ 2 ^ (-1075 : Int)) : Nearest negative q (.finite negative 0 (-1074))
  | finite {m : Nat} {e : Int} (hc : Canonical m e) (hr : RoundsTo m e q) :
    Nearest negative q (.finite negative m e)
  | infinite (h : overflow ≤ q) : Nearest negative q (.infinite negative)

theorem decode_pack_zero (s : Sign) : decode (.ofModel (.pack (.zero s))) = .finite (isNegative s) 0 (-1074) := by
  cases s <;> rfl

theorem decode_pack_infinity (s : Sign) : decode (.ofModel (.pack (.infinity s))) = .infinite (isNegative s) := by
  cases s <;> rfl

/-- A number with too large an exponent is packed as an infinity. -/
theorem decode_pack_overflow (s : Sign) {m : Nat} {e : Int} (hm : 0 < m) (he : 972 ≤ e) :
    decode (.ofModel (.pack (.finite s m e hm))) = .infinite (isNegative s) := by
  have hpack : UnpackedFloat.pack Format.binary64 (.finite s m e hm) =
      UnpackedFloat.pack Format.binary64 (.infinity s) := by
    unfold UnpackedFloat.pack
    dsimp only
    exact if_pos (show 2 ^ 11 ≤ (e + 1023 + 52).toNat + 1 by omega)
  rw [← decode_pack_infinity]
  show Exact.ofBits (UnpackedFloat.pack Format.binary64 _).toNat = Exact.ofBits (UnpackedFloat.pack Format.binary64 _).toNat
  rw [hpack]

/-- **What a value is rounded to is the number nearest to it.** -/
theorem IsRounded.nearest {u : UnpackedFloat} {s : Sign} {q : ℚ} (h : IsRounded u s q) :
    Nearest (isNegative s) q (decode (.ofModel (.pack u))) := by
  rcases le_or_gt q (2 ^ (-1075 : Int)) with hsmall | hsmall
  · rw [h.eq_zero hsmall, decode_pack_zero]
    exact .zero hsmall
  · obtain ⟨m, e, hc, hr⟩ := exists_rounded hsmall
    rw [h.eq_finite hc hr]
    rcases le_or_gt e 971 with he | he
    · have hc' : Canonical m e := ⟨hc.pos, hc.lt, hc.least, he, hc.full⟩
      rw [decode_pack hc']
      exact .finite hc' hr
    · rw [decode_pack_overflow s hc.pos he]
      exact .infinite (hr.overflow_le hc he)

variable {x : Float} {negative : Bool} {q : ℚ}

theorem isNegative_neg (s : Sign) : isNegative (-s) = !isNegative s := by
  cases s <;> rfl

/-- The opposite number is nearest to the opposite rational. -/
theorem Nearest.neg (h : Nearest negative q (decode x)) : Nearest (!negative) q (decode (-x)) := by
  have hneg : decode (-x) = decode (.ofModel (.pack x.toModel.unpack.neg)) := rfl
  rw [decode_eq] at h
  rw [hneg]
  generalize x.toModel.unpack = u at h
  cases u with
  | notANumber => cases h
  | infinity s =>
    cases h with
    | infinite h =>
      show Nearest _ q (decode (.ofModel (.pack (.infinity (-s)))))
      rw [decode_pack_infinity, isNegative_neg]
      exact .infinite h
  | zero s =>
    have hzero : Nearest (!negative) q (.finite (!negative) 0 (-1074)) ∧ isNegative s = negative := by
      cases h with
      | zero h => exact ⟨.zero h, rfl⟩
      | finite hc => exact absurd hc.pos (by decide)
    show Nearest _ q (decode (.ofModel (.pack (.zero (-s)))))
    rw [decode_pack_zero, isNegative_neg, hzero.2]
    exact hzero.1
  | finite s m e hm =>
    cases h with
    | zero h => exact absurd hm (by decide)
    | finite hc hr =>
      show Nearest _ q (decode (.ofModel (.pack (.finite (-s) m e hm))))
      rw [decode_pack hc, isNegative_neg]
      exact .finite hc hr

/-- The nearest number is one. -/
theorem Nearest.isNaN (h : Nearest negative q (decode x)) : isNaN x = false := by
  unfold Number.isNaN
  generalize decode x = y at h
  cases h <;> rfl

/-! ### Decimals and integers -/

theorem decode_infinity : decode infinity = .infinite false := rfl

/-- A decimal that is no shortcut is read as the number nearest to it. -/
theorem unpackedOfScientific_nearest {c : Nat} {k : Int} (hpos : 0 < c) :
    Nearest false (c * 10 ^ k) (decode (.ofModel (.pack (UnpackedFloat.ofScientific Format.binary64 c k)))) := by
  by_cases hlarge : 2 ^ 11 < k
  · have heq : UnpackedFloat.ofScientific Format.binary64 c k = .infinity .positive := by
      unfold UnpackedFloat.ofScientific
      rw [dif_neg (Nat.ne_of_gt hpos)]
      exact if_pos hlarge
    rw [heq, decode_pack_infinity]
    exact .infinite (overflow_lt.le.trans (le_decimal_of_least hpos (by omega)))
  · by_cases hsmall : k < -((2 ^ 11 : Int) + c.log2)
    · have heq : UnpackedFloat.ofScientific Format.binary64 c k = .zero .positive := by
        unfold UnpackedFloat.ofScientific
        rw [dif_neg (Nat.ne_of_gt hpos), if_neg hlarge]
        exact if_pos hsmall
      rw [heq, decode_pack_zero]
      exact .zero (decimal_lt_of_most (by omega)).le
    · exact (unpackedOfScientific_isRounded hpos (by omega) (by omega)).nearest

/-- The shortcut is only for decimals within the range of the doubles. -/
theorem shortcut_bounds {c : Nat} (hpos : 0 < c) (hc : c < 2 ^ 53) {k : Int} (hk : k.natAbs ≤ 22) :
    2 ^ (-1075 : Int) < (c : ℚ) * 10 ^ k ∧ (c : ℚ) * 10 ^ k < overflow := by
  have hone : (1 : ℚ) ≤ c := by exact_mod_cast hpos
  have hc' : (c : ℚ) < 2 ^ 53 := by exact_mod_cast hc
  have hlow : (10 : ℚ) ^ (-22 : Int) ≤ 10 ^ k := zpow_le_zpow_right₀ (by norm_num) (by omega)
  have hhigh : (10 : ℚ) ^ k ≤ 10 ^ (22 : Int) := zpow_le_zpow_right₀ (by norm_num) (by omega)
  have hunit : (0 : ℚ) < 10 ^ k := by positivity
  constructor
  · calc (2 : ℚ) ^ (-1075 : Int) ≤ 2 ^ (-80 : Int) := zpow_le_zpow_right₀ one_le_two (by decide)
      _ < 10 ^ (-22 : Int) := by norm_num
      _ ≤ 10 ^ k := hlow
      _ ≤ c * 10 ^ k := le_mul_of_one_le_left hunit.le hone
  · calc (c : ℚ) * 10 ^ k ≤ 2 ^ 53 * 10 ^ (22 : Int) :=
          mul_le_mul hc'.le hhigh hunit.le (by positivity)
      _ < (2 ^ 53 - 1 / 2) * 2 ^ (80 : Int) := by norm_num
      _ ≤ overflow := mul_le_mul_of_nonneg_left
          (zpow_le_zpow_right₀ one_le_two (by decide)) (by norm_num)

/-- **A decimal is read as the number nearest to it.** -/
theorem ofScientific_nearest {c : Nat} (hpos : 0 < c) (k : Int) :
    Nearest false (c * 10 ^ k) (decode (Float.ofScientific c (k < 0) k.natAbs)) := by
  by_cases hfast : c < 2 ^ 53 ∧ k.natAbs ≤ 22
  · obtain ⟨hlow, hhigh⟩ := shortcut_bounds hpos hfast.1 hfast.2
    obtain ⟨m, e, hc, hr⟩ := exists_roundsTo hlow hhigh
    rw [decode_ofScientific hpos hc hr]
    exact .finite hc hr
  · rw [ofScientific_eq_pack hfast]
    exact unpackedOfScientific_nearest hpos

/-- **A decimal of any length is read as the number nearest to it**, with its
sign. -/
theorem ofDecimal_nearest (negative : Bool) (c : Nat) (k : Int) :
    Nearest negative (c * 10 ^ k) (decode (ofDecimal negative c k)) := by
  have hunsigned : ofDecimal negative c k =
      if negative then -(ofDecimal false c k) else ofDecimal false c k := by
    cases negative <;> rfl
  have hnearest : Nearest false (c * 10 ^ k) (decode (ofDecimal false c k)) := by
    unfold ofDecimal
    dsimp only
    rw [if_neg Bool.false_ne_true, Int.ofNat_eq_natCast, Int.ofNat_eq_natCast]
    split
    · rename_i hsmall
      rw [decode_zero]
      refine .zero ?_
      rcases hsmall with rfl | hsmall
      · rw [Nat.cast_zero, zero_mul]
        positivity
      · exact (decimal_lt_of_most hsmall).le
    · rename_i hnonzero
      have hpos : 0 < c := Nat.pos_of_ne_zero fun h => hnonzero (.inl h)
      split
      · rename_i hlarge
        rw [decode_infinity]
        exact .infinite (overflow_lt.le.trans (le_decimal_of_least hpos hlarge))
      · exact ofScientific_nearest hpos k
  rw [hunsigned]
  cases negative with
  | false => exact hnearest
  | true => exact hnearest.neg

/-- **An integer is taken as the number nearest to it.** -/
theorem ofInt_nearest (n : Int) : Nearest (n < 0) n.natAbs (decode (ofInt n)) := by
  have hnatural {k : Nat} (hpos : 0 < k) : Nearest false k (decode (Float.ofNat k)) := by
    have h := ofScientific_nearest hpos 0
    rwa [zpow_zero, mul_one] at h
  cases n with
  | ofNat k =>
    rcases Nat.eq_zero_or_pos k with rfl | hpos
    · have hzero : decode (ofInt (Int.ofNat 0)) = .finite false 0 (-1074) := decode_zero
      rw [hzero]
      exact .zero (by positivity)
    · exact hnatural hpos
  | negSucc k =>
    rw [decide_eq_true (Int.negSucc_lt_zero k)]
    exact (hnatural (Nat.succ_pos k)).neg

/-- **An integer has a number if it is before the infinities**, and it is the
nearest one. -/
theorem ofInt?_nearest (n : Int) :
    ((n.natAbs : ℚ) < overflow → ∃ x, ofInt? n = some x ∧ Nearest (n < 0) n.natAbs (decode x)) ∧
      (overflow ≤ (n.natAbs : ℚ) → ofInt? n = none) := by
  have hnearest := ofInt_nearest n
  unfold ofInt? isInfinite
  dsimp only
  constructor
  · intro hlt
    refine ⟨ofInt n, ?_, hnearest⟩
    generalize decode (ofInt n) = y at hnearest
    cases hnearest with
    | zero | finite => rfl
    | infinite h => exact absurd hlt (not_lt.mpr h)
  · intro hle
    generalize decode (ofInt n) = y at hnearest
    cases hnearest with
    | zero h =>
      have hbig : (2 : ℚ) ^ (-1075 : Int) < overflow := (shortcut_bounds one_pos (by decide) (k := 0) (by decide)).1.trans (shortcut_bounds one_pos (by decide) (k := 0) (by decide)).2
      exact absurd (hle.trans h) (not_le.mpr hbig)
    | finite hc hr => exact absurd (hr.lt_overflow hc) (not_lt.mpr hle)
    | infinite => rfl

end RuleScript.Number
