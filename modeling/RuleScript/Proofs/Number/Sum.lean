/-
# Sums of numbers

The sum of two finite numbers is the double that the sum of their places rounds
to (`decode_add`). So a sum that is an integer of at most fifty-three bits is
exact (`integer?_add`), and what is added to a number further below zero leaves
it below (`rank_add_neg`).

Key theorems: `decode_add`, `integer?_eq_some_iff`, `integer?_add`,
`rank_add_neg`.
-/
import RuleScript.Proofs.Number.Nearest

namespace RuleScript.Number

open Float.Model Float.Model.UnpackedFloat

/-! ### Adding -/

variable {x y : Float} {m m₁ m₂ : Nat} {e e₁ e₂ : Int} {n₁ n₂ : Bool}

theorem apply_signOf (negative : Bool) (m : Nat) :
    (signOf negative).apply (m : Int) = signed negative m := by
  cases negative <;> rfl

theorem rational_eq (negative : Bool) (m : Nat) (e : Int) :
    rational negative m e = (signed negative m : Int) * 2 ^ e := by
  cases negative
  · simp [rational, signed]
  · simp [rational, signed]

/-- A mantissa may be written with a smaller exponent. -/
theorem decreaseExponent_eq {t : Int} (m : Nat) (ht : t ≤ e) :
    ∃ m' e', decreaseExponent m e t = (m', e') ∧ (m' : ℚ) * 2 ^ t = m * 2 ^ e := by
  obtain ⟨k, hk⟩ := Int.le.dest ht
  refine ⟨_, _, rfl, ?_⟩
  have hshift : (e - t).toNat = k := by omega
  rw [hshift, Nat.shiftLeft_eq, ← hk, zpow_add₀ two_ne_zero, zpow_natCast]
  push_cast
  ring

/-- Two finite numbers are added over their smaller exponent. -/
theorem add_eq (n₁ n₂ : Bool) (e₁ e₂ : Int) (h₁ : 0 < m₁) (h₂ : 0 < m₂) :
    ∃ M : Int, UnpackedFloat.add Format.binary64 (.finite (signOf n₁) m₁ e₁ h₁)
        (.finite (signOf n₂) m₂ e₂ h₂) =
        UnpackedFloat.normalize Format.binary64 M (min e₁ e₂) .positive ∧
      (M : ℚ) * 2 ^ min e₁ e₂ = rational n₁ m₁ e₁ + rational n₂ m₂ e₂ := by
  obtain ⟨k₁, e₁', hk₁, hvalue₁⟩ := decreaseExponent_eq m₁ (min_le_left e₁ e₂)
  obtain ⟨k₂, e₂', hk₂, hvalue₂⟩ := decreaseExponent_eq m₂ (min_le_right e₁ e₂)
  refine ⟨signed n₁ k₁ + signed n₂ k₂, ?_, ?_⟩
  · unfold UnpackedFloat.add
    dsimp only
    rw [hk₁, hk₂, apply_signOf, apply_signOf]
  · have hmove (negative : Bool) {k m : Nat} {e : Int} (h : (k : ℚ) * 2 ^ min e₁ e₂ = m * 2 ^ e) :
        rational negative m e = rational negative k (min e₁ e₂) := by
      unfold rational
      rw [h]
    rw [hmove n₁ hvalue₁, hmove n₂ hvalue₂, rational_eq, rational_eq]
    push_cast
    ring

/-- A value over a unit is rounded to the double it rounds to. -/
theorem normalize_eq {M E : Int} {negative : Bool} {q : ℚ} (hc : Canonical m e) (hr : RoundsTo m e q)
    (hvalue : (M : ℚ) * 2 ^ E = if negative then -q else q) :
    UnpackedFloat.normalize Format.binary64 M E .positive = .finite (signOf negative) m e hc.pos := by
  have hunit : (0 : ℚ) < 2 ^ E := by positivity
  have hq : 0 < q := lt_of_lt_of_le (by positivity) (hr.two_zpow_le hc)
  unfold UnpackedFloat.normalize
  cases negative with
  | false =>
    have hM : 0 < M := by
      have : (0 : ℚ) < M := pos_of_mul_pos_left (hvalue ▸ hq) hunit.le
      exact_mod_cast this
    obtain ⟨k, rfl⟩ := Int.eq_ofNat_of_zero_le hM.le
    rw [compare_gt_iff_gt.mpr hM]
    exact (round_isRounded E (by omega) .positive).eq_finite hc.rounded (by simpa using hvalue ▸ hr)
  | true =>
    have hM : M < 0 := by
      have : (M : ℚ) < 0 := by
        by_contra hge
        have := mul_nonneg (not_lt.mp hge) hunit.le
        rw [hvalue, if_pos rfl] at this
        linarith
      exact_mod_cast this
    obtain ⟨k, hk⟩ := Int.eq_ofNat_of_zero_le (show 0 ≤ -M by omega)
    obtain rfl : M = -(k : Int) := by omega
    rw [compare_lt_iff_lt.mpr hM]
    refine (round_isRounded E (by omega) .negative).eq_finite hc.rounded ?_
    rw [if_pos rfl, Int.cast_neg, neg_mul, neg_inj, Int.cast_natCast] at hvalue
    rwa [Int.neg_neg, Int.toNat_natCast, hvalue]

theorem add_eq_pack (hx : decode x = .finite n₁ m₁ e₁) (hy : decode y = .finite n₂ m₂ e₂)
    (h₁ : 0 < m₁) (h₂ : 0 < m₂) :
    x + y = .ofModel (.pack (UnpackedFloat.add Format.binary64
      (.finite (signOf n₁) m₁ e₁ h₁) (.finite (signOf n₂) m₂ e₂ h₂))) := by
  show Float.ofModel (.pack (UnpackedFloat.add _ x.toModel.unpack y.toModel.unpack)) = _
  rw [unpack_of_decode hx h₁, unpack_of_decode hy h₂]

/-- **A sum is the double that the sum of the places rounds to.** -/
theorem decode_add (hx : decode x = .finite n₁ m₁ e₁) (hy : decode y = .finite n₂ m₂ e₂)
    (h₁ : 0 < m₁) (h₂ : 0 < m₂) {negative : Bool} {q : ℚ} (hc : Canonical m e) (hr : RoundsTo m e q)
    (hsum : rational n₁ m₁ e₁ + rational n₂ m₂ e₂ = if negative then -q else q) :
    decode (x + y) = .finite negative m e := by
  obtain ⟨M, hadd, hvalue⟩ := add_eq n₁ n₂ e₁ e₂ h₁ h₂
  rw [add_eq_pack hx hy h₁ h₂, hadd, normalize_eq hc hr (hvalue.trans hsum), decode_pack hc,
    isNegative_signOf]

/-- A number and its opposite make zero. -/
theorem decode_add_opposite (hx : decode x = .finite n₁ m₁ e₁) (hy : decode y = .finite n₂ m₂ e₂)
    (h₁ : 0 < m₁) (h₂ : 0 < m₂) (hsum : rational n₁ m₁ e₁ + rational n₂ m₂ e₂ = 0) :
    decode (x + y) = .finite false 0 (-1074) := by
  obtain ⟨M, hadd, hvalue⟩ := add_eq n₁ n₂ e₁ e₂ h₁ h₂
  have hM : M = 0 := by
    rw [hsum] at hvalue
    have : (M : ℚ) = 0 := (mul_eq_zero.mp hvalue).resolve_right (by positivity)
    exact_mod_cast this
  have hzero : UnpackedFloat.normalize Format.binary64 0 (min e₁ e₂) .positive = .zero .positive := rfl
  rw [add_eq_pack hx hy h₁ h₂, hadd, hM, hzero, decode_eq]
  rfl

/-! ### Integers -/

theorem hasFraction_eq_false {n : Nat} : ∀ {e : Int}, (m : ℚ) * 2 ^ e = n → hasFraction m e = false
  | .ofNat _, _ => rfl
  | .negSucc k, h => by
    rw [zpow_negSucc, ← div_eq_mul_inv, div_eq_iff (by positivity)] at h
    have hm : m = n * 2 ^ (k + 1) := by exact_mod_cast h
    show decide (m % 2 ^ (k + 1) ≠ 0) = false
    rw [hm, Nat.mul_mod_left]
    rfl

theorem rational_of_nat {n : Nat} (negative : Bool) (h : (m : ℚ) * 2 ^ e = n) :
    rational negative m e = (signed negative n : Int) := by
  cases negative
  · exact h
  · show -((m : ℚ) * 2 ^ e) = ((-(n : Int) : Int) : ℚ)
    rw [h, Int.cast_neg, Int.cast_natCast]

theorem abs_rational (negative : Bool) (m : Nat) (e : Int) : |rational negative m e| = m * 2 ^ e := by
  have hnonneg : (0 : ℚ) ≤ m * 2 ^ e := by positivity
  cases negative
  · exact abs_of_nonneg hnonneg
  · rw [rational_true, abs_neg, abs_of_nonneg hnonneg]

/-- **A number is an integer when its place is one.** -/
theorem integer?_eq_some_iff {n : Int} : integer? x = some n ↔ isFinite x = true ∧ rank x = n := by
  unfold integer? isFinite rank
  cases decode x with
  | nan => exact ⟨nofun, nofun⟩
  | infinite negative => exact ⟨nofun, nofun⟩
  | finite negative m e =>
    show (if hasFraction m e then none else some (signed negative (wholePart m e))) = some n ↔
      true = true ∧ rational negative m e = n
    constructor
    · intro h
      split at h
      · cases h
      · rename_i hwhole
        cases h
        exact ⟨rfl, rational_of_nat negative (wholePart_eq m e (Bool.eq_false_iff.mpr hwhole)).symm⟩
    · rintro ⟨-, h⟩
      have hvalue : (m : ℚ) * 2 ^ e = (n.natAbs : Nat) := by
        rw [← abs_rational negative, h, Nat.cast_natAbs, Int.cast_abs]
      have hwhole := hasFraction_eq_false hvalue
      have hsigned : (signed negative (wholePart m e) : ℚ) = n := by
        rw [← h, rational_of_nat negative (wholePart_eq m e hwhole).symm]
      rw [hwhole, Int.cast_inj.mp hsigned]
      rfl

/-- A finite number other than zero. -/
theorem decode_of_rank_ne (hx : isFinite x = true) (hne : rank x ≠ 0) :
    ∃ negative m e, decode x = .finite negative m e ∧ Canonical m e ∧ rank x = rational negative m e := by
  unfold isFinite at hx
  split at hx
  · rename_i negative m e hdecode
    have hrank : rank x = rational negative m e := by
      unfold rank
      rw [hdecode]
      rfl
    refine ⟨negative, m, e, hdecode, canonical_of_decode hdecode ?_, hrank⟩
    refine Nat.pos_of_ne_zero fun hm => hne ?_
    rw [hrank, hm, rational_zero]
  · cases hx

theorem isFinite_of_decode {negative : Bool} (h : decode x = .finite negative m e) :
    isFinite x = true := by
  unfold isFinite
  rw [h]

theorem rank_of_decode {negative : Bool} (h : decode x = .finite negative m e) :
    rank x = rational negative m e := by
  unfold rank
  rw [h]
  rfl

/-- **A sum that is an integer of at most fifty-three bits is exact.** -/
theorem integer?_add {n : Nat} (hx : isFinite x = true) (hy : isFinite y = true) (hx0 : rank x ≠ 0)
    (hy0 : rank y ≠ 0) (hn : n ≤ 2 ^ 53) (hsum : rank x + rank y = n) :
    integer? (x + y) = some (n : Int) := by
  obtain ⟨n₁, m₁, e₁, hx, hc₁, hrank₁⟩ := decode_of_rank_ne hx hx0
  obtain ⟨n₂, m₂, e₂, hy, hc₂, hrank₂⟩ := decode_of_rank_ne hy hy0
  rw [hrank₁, hrank₂] at hsum
  rw [integer?_eq_some_iff]
  rcases Nat.eq_zero_or_pos n with rfl | hpos
  · have hdecode := decode_add_opposite hx hy hc₁.pos hc₂.pos (by rw [hsum, Nat.cast_zero])
    refine ⟨isFinite_of_decode hdecode, ?_⟩
    rw [rank_of_decode hdecode, rational_zero]
    rfl
  · obtain ⟨m, e, hc, hvalue⟩ := exists_canonical_natCast hpos hn
    have hdecode : decode (x + y) = .finite false m e :=
      decode_add hx hy hc₁.pos hc₂.pos hc (.self m e) (hsum.trans hvalue.symm)
    refine ⟨isFinite_of_decode hdecode, ?_⟩
    rw [rank_of_decode hdecode, rational_false, hvalue, Int.cast_natCast]

/-- **What is added to a number that is further below zero leaves it below.** -/
theorem rank_add_neg (hx : isFinite x = true) (hy : isFinite y = true) (hy0 : 0 < rank y)
    (hsum : rank x + rank y < 0) : isFinite (x + y) = true ∧ rank (x + y) < 0 := by
  obtain ⟨n₁, m₁, e₁, hx, hc₁, hrank₁⟩ := decode_of_rank_ne hx (by linarith)
  obtain ⟨n₂, m₂, e₂, hy, hc₂, hrank₂⟩ := decode_of_rank_ne hy (by linarith)
  obtain ⟨M, -, hvalue⟩ := add_eq n₁ n₂ e₁ e₂ hc₁.pos hc₂.pos
  rw [← hrank₁, ← hrank₂] at hvalue
  have hM : (M : ℚ) < 0 := by
    by_contra hge
    have := mul_nonneg (not_lt.mp hge) (show (0 : ℚ) ≤ 2 ^ min e₁ e₂ by positivity)
    linarith
  obtain ⟨k, hk⟩ := Int.eq_ofNat_of_zero_le (show 0 ≤ -M by have := Int.cast_lt_zero.mp hM; omega)
  have hkvalue : (k : ℚ) * 2 ^ min e₁ e₂ = -(rank x + rank y) := by
    rw [← hvalue, ← neg_mul, ← Int.cast_neg, hk, Int.cast_natCast]
  have hpos : 0 < k := by
    refine Nat.pos_of_ne_zero fun hk0 => ?_
    rw [hk0, Nat.cast_zero, zero_mul] at hkvalue
    linarith
  -- The sum is nearer to zero than the number below it, so it is in range.
  have hmost : (k : ℚ) * 2 ^ min e₁ e₂ ≤ greatest := by
    have hbound := hc₁.value_le
    rw [← abs_rational n₁, ← hrank₁] at hbound
    have := neg_le_abs (rank x)
    linarith
  -- It is an integer in units of at least the least double.
  have hleast : (2 : ℚ) ^ (-1075 : Int) < k * 2 ^ min e₁ e₂ :=
    calc (2 : ℚ) ^ (-1075 : Int) < 2 ^ (-1074 : Int) := zpow_lt_zpow_right₀ one_lt_two (by decide)
      _ ≤ 2 ^ min e₁ e₂ := zpow_le_zpow_right₀ one_le_two (le_min hc₁.least hc₂.least)
      _ ≤ k * 2 ^ min e₁ e₂ := le_mul_of_one_le_left (by positivity) (by exact_mod_cast hpos)
  obtain ⟨m, e, hc, hr⟩ := exists_roundsTo hleast (lt_of_le_of_lt hmost greatest_lt_overflow)
  rw [hkvalue] at hr
  have hdecode : decode (x + y) = .finite true m e :=
    decode_add hx hy hc₁.pos hc₂.pos hc hr (by rw [if_pos rfl, neg_neg, hrank₁, hrank₂])
  refine ⟨isFinite_of_decode hdecode, ?_⟩
  rw [rank_of_decode hdecode, rational_true]
  exact neg_lt_zero.mpr hc.value_pos

/-- An integer of at most fifty-three bits is the number nearest to it. -/
theorem rank_ofInt {n : Nat} (hn : n ≤ 2 ^ 53) : isFinite (ofInt n) = true ∧ rank (ofInt n) = n := by
  rcases Nat.eq_zero_or_pos n with rfl | hpos
  · have hdecode : decode (ofInt (0 : Nat)) = .finite false 0 (-1074) := decode_zero
    exact ⟨isFinite_of_decode hdecode, by rw [rank_of_decode hdecode, rational_zero, Nat.cast_zero]⟩
  · obtain ⟨m, e, hc, hvalue⟩ := exists_canonical_natCast hpos hn
    have hdecode : decode (ofInt n) = .finite false m e := decode_ofNat hc hvalue.symm
    exact ⟨isFinite_of_decode hdecode, by rw [rank_of_decode hdecode, rational_false, hvalue]⟩

theorem isNaN_of_isFinite (hx : isFinite x = true) : isNaN x = false := by
  unfold isFinite at hx
  unfold isNaN
  cases hdecode : decode x with
  | nan =>
    rw [hdecode] at hx
    cases hx
  | infinite negative => rfl
  | finite negative m e => rfl

/-- The numbers below zero are those with a place below it. -/
theorem lt_zero_iff (hx : isFinite x = true) : x < 0.0 ↔ rank x < 0 := by
  have hzero : rank 0.0 = 0 := by rw [rank_of_decode decode_zero, rational_zero]
  rw [lt_iff_rank (isNaN_of_isFinite hx) (isNaN_of_isFinite (isFinite_of_decode decode_zero)), hzero]

end RuleScript.Number
