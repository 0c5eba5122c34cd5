/-
# The whole part of a number

To cut the fraction off a number is to round its place toward zero
(`truncate?_eq`). A number that is not negative holds as many wholes as its
floor, and infinity holds infinitely many (`wholes`).

Where wholes are counted by taking one off the number again and again, each
step takes one whole off a number below `2 ^ 53`. A greater number may stay
where it is, but it stays great (`wholes_sub_one`). The same holds where two
integers are added (`wholes_add`). So a count that ends early enough is exact.

Key definitions: `towardZero`, `wholes`.
Key theorems: `truncate?_eq`, `nearest_add`, `one_le_iff_wholes`,
`wholes_sub_one`, `wholes_add`.
-/
import Mathlib.Algebra.Order.Floor.Semifield
import Mathlib.Data.ENat.Basic
import RuleScript.Proofs.Number.Sum

namespace RuleScript.Number

open Float.Model Float.Model.UnpackedFloat

variable {x y : Float} {m m₁ m₂ : Nat} {e e₁ e₂ : Int}

/-! ### Toward zero -/

/-- A rational with its fraction cut off. -/
def towardZero (q : ℚ) : Int := if q < 0 then ⌈q⌉ else ⌊q⌋

theorem wholePart_eq_floor (m : Nat) : ∀ e : Int, wholePart m e = ⌊(m : ℚ) * 2 ^ e⌋₊
  | .ofNat k => by
    have hvalue : (m : ℚ) * 2 ^ (Int.ofNat k) = ((m * 2 ^ k : Nat) : ℚ) := by
      rw [Int.ofNat_eq_natCast, zpow_natCast]
      push_cast
      rfl
    rw [hvalue, Nat.floor_natCast]
    rfl
  | .negSucc k => by
    have hvalue : (m : ℚ) * 2 ^ (Int.negSucc k) = (m : ℚ) / ((2 ^ (k + 1) : Nat) : ℚ) := by
      rw [zpow_negSucc, ← div_eq_mul_inv]
      push_cast
      rfl
    rw [hvalue, Nat.floor_div_eq_div]
    rfl

/-- The whole part with the sign is the place with its fraction cut off. -/
theorem signed_wholePart (negative : Bool) (m : Nat) (e : Int) :
    signed negative (wholePart m e) = towardZero (rational negative m e) := by
  have hnonneg : (0 : ℚ) ≤ m * 2 ^ e := by positivity
  have hfloor : ((wholePart m e : Nat) : Int) = ⌊(m : ℚ) * 2 ^ e⌋ := by
    rw [wholePart_eq_floor, Int.natCast_floor_eq_floor hnonneg]
  unfold towardZero
  cases negative with
  | false => rw [rational_false, if_neg (not_lt.mpr hnonneg), ← hfloor]; rfl
  | true =>
    rw [rational_true]
    rcases hnonneg.eq_or_lt with hzero | hpos
    · rw [← hzero, neg_zero, if_neg (lt_irrefl 0), Int.floor_zero]
      rw [← hzero, Int.floor_zero] at hfloor
      show -((wholePart m e : Nat) : Int) = 0
      rw [hfloor, neg_zero]
    · rw [if_pos (neg_lt_zero.mpr hpos), Int.ceil_neg, ← hfloor]
      rfl

/-- **To cut the fraction off is to round toward zero.** -/
theorem truncate?_eq (hx : isFinite x = true) : truncate? x = some (towardZero (rank x)) := by
  unfold isFinite at hx
  unfold truncate? rank
  cases hdecode : decode x with
  | nan => rw [hdecode] at hx; cases hx
  | infinite negative => rw [hdecode] at hx; cases hx
  | finite negative m e => exact congrArg some (signed_wholePart negative m e)

/-! ### Sums that are not small -/

/-- A double below `2 ^ 53` is counted in units of one or less. -/
theorem Canonical.exponent_le (hc : Canonical m e) (hlt : (m : ℚ) * 2 ^ e < 2 ^ 53) : e ≤ 0 := by
  by_contra hpos
  have hfull : (2 : ℚ) ^ 52 ≤ m := by exact_mod_cast hc.full.resolve_left (by omega)
  have hunit : (2 : ℚ) ^ (1 : Int) ≤ 2 ^ e := zpow_le_zpow_right₀ one_le_two (by omega)
  have hlarge : (2 : ℚ) ^ 53 ≤ m * 2 ^ e :=
    calc (2 : ℚ) ^ 53 = 2 ^ 52 * 2 ^ (1 : Int) := by norm_num
      _ ≤ (m : ℚ) * 2 ^ e := mul_le_mul hfull hunit (by positivity) (by positivity)
  exact absurd hlt (not_lt.mpr hlarge)

/-- What rounds to a double from an integer of at most fifty-three bits on, rounds
to no less than that integer. -/
theorem RoundsTo.natCast_le {q : ℚ} {n : Nat} (h : RoundsTo m e q) (hc : Canonical m e)
    (hn : n ≤ 2 ^ 53) (hq : n ≤ q) : (n : ℚ) ≤ m * 2 ^ e := by
  by_contra hlt
  rw [not_le] at hlt
  have he : e ≤ 0 := hc.exponent_le (hlt.trans_le (by exact_mod_cast hn))
  obtain ⟨k, rfl⟩ : ∃ k : Nat, e = -k := ⟨(-e).toNat, by omega⟩
  have hunit : (0 : ℚ) < 2 ^ (-k : Int) := by positivity
  have hscale : (n : ℚ) = (n * 2 ^ k : Nat) * 2 ^ (-k : Int) := by
    rw [zpow_neg, zpow_natCast]
    push_cast
    field_simp
  have hstep : m + 1 ≤ n * 2 ^ k := by
    rw [hscale] at hlt
    have := lt_of_mul_lt_mul_right hlt hunit.le
    exact_mod_cast this
  have hstep' : (m : ℚ) + 1 ≤ (n * 2 ^ k : Nat) := by exact_mod_cast hstep
  have hbelow : ((m : ℚ) + 1 / 2) * 2 ^ (-k : Int) < n := by
    rw [hscale]
    exact mul_lt_mul_of_pos_right (by linarith) hunit
  exact absurd (hq.trans h.high) (not_le.mpr hbelow)

/-- **A sum above zero is the number nearest to the sum of the places.** -/
theorem nearest_add (hx : isFinite x = true) (hy : isFinite y = true) (hx0 : rank x ≠ 0)
    (hy0 : rank y ≠ 0) (hsum : 0 < rank x + rank y) :
    Nearest false (rank x + rank y) (decode (x + y)) := by
  obtain ⟨n₁, m₁, e₁, hx, hc₁, hrank₁⟩ := decode_of_rank_ne hx hx0
  obtain ⟨n₂, m₂, e₂, hy, hc₂, hrank₂⟩ := decode_of_rank_ne hy hy0
  obtain ⟨M, hadd, hvalue⟩ := add_eq n₁ n₂ e₁ e₂ hc₁.pos hc₂.pos
  rw [← hrank₁, ← hrank₂] at hvalue
  have hM : 0 < M := by
    have : (0 : ℚ) < M := pos_of_mul_pos_left (hvalue ▸ hsum) (by positivity)
    exact_mod_cast this
  obtain ⟨k, rfl⟩ := Int.eq_ofNat_of_zero_le hM.le
  rw [add_eq_pack hx hy hc₁.pos hc₂.pos, hadd, ← hvalue]
  unfold UnpackedFloat.normalize
  rw [compare_gt_iff_gt.mpr hM]
  exact (round_isRounded (min e₁ e₂) (by omega) .positive).nearest

/-! ### Wholes -/

/-- How many wholes a number holds. -/
def wholes (x : Float) : ℕ∞ :=
  match decode x with
  | .finite .. => (⌊rank x⌋₊ : Nat)
  | .infinite false => ⊤
  | .infinite true | .nan => 0

theorem wholes_of_isFinite (hx : isFinite x = true) : wholes x = (⌊rank x⌋₊ : Nat) := by
  unfold isFinite at hx
  unfold wholes
  cases hdecode : decode x with
  | nan => rw [hdecode] at hx; cases hx
  | infinite negative => rw [hdecode] at hx; cases hx
  | finite negative m e => rfl

theorem wholes_of_infinite (hx : decode x = .infinite false) : wholes x = ⊤ := by
  unfold wholes
  rw [hx]

theorem wholes_of_isNaN (hx : isNaN x = true) : wholes x = 0 := by
  unfold isNaN at hx
  unfold wholes
  cases hdecode : decode x with
  | nan => rfl
  | infinite negative => rw [hdecode] at hx; cases hx
  | finite negative m e => rw [hdecode] at hx; cases hx

/-- An integer holds as many wholes as it says. -/
theorem wholes_of_integer? {n : Nat} (hx : integer? x = some (n : Int)) : wholes x = n := by
  obtain ⟨hfinite, hrank⟩ := integer?_eq_some_iff.mp hx
  rw [wholes_of_isFinite hfinite, hrank, Int.cast_natCast, Nat.floor_natCast]

/-- A number that is one is finite or an infinity. -/
theorem finite_or_infinite (hx : isNaN x = false) :
    isFinite x = true ∨ ∃ negative, decode x = .infinite negative := by
  unfold isNaN at hx
  unfold isFinite
  cases hdecode : decode x with
  | nan => rw [hdecode] at hx; cases hx
  | infinite negative => exact .inr ⟨negative, rfl⟩
  | finite negative m e => exact .inl rfl

theorem rank_of_infinite {negative : Bool} (hx : decode x = .infinite negative) :
    rank x = rational negative 1 1024 := by
  unfold rank
  rw [hx]
  rfl

theorem rank_plainZero : rank 0.0 = 0 := by
  rw [rank_of_decode decode_zero, rational_false, Nat.cast_zero, zero_mul]

theorem isNaN_zero : isNaN 0.0 = false := isNaN_of_isFinite (isFinite_of_decode decode_zero)

/-- A number is not negative if its place is not. -/
theorem zero_le_iff_rank (hx : isNaN x = false) : 0.0 ≤ x ↔ 0 ≤ rank x := by
  rw [le_iff_rank isNaN_zero hx, rank_plainZero]

theorem decode_one : decode 1.0 = .finite false (2 ^ 52) (-52) := by decide +kernel

theorem rank_one : rank 1.0 = 1 := by
  rw [rank_of_decode decode_one, rational_false]
  norm_num

/-- **A number holds a whole if it is at least one.** -/
theorem one_le_iff_wholes (x : Float) : 1.0 ≤ x ↔ 1 ≤ wholes x := by
  by_cases hx : isNaN x = true
  · have hnone : wholes x = 0 := wholes_of_isNaN hx
    rw [hnone]
    refine iff_of_false (fun h => ?_) (by decide)
    rw [(isNaN_of_le h).2] at hx
    cases hx
  have hx : isNaN x = false := Bool.not_eq_true _ ▸ hx
  have hone : isNaN 1.0 = false := isNaN_of_isFinite (isFinite_of_decode decode_one)
  rw [le_iff_rank hone hx, rank_one]
  rcases finite_or_infinite hx with hfinite | ⟨negative, hinfinite⟩
  · rw [wholes_of_isFinite hfinite, Nat.one_le_cast, Nat.one_le_floor_iff]
  · have hpow : (1 : ℚ) ≤ (1 : Nat) * 2 ^ (1024 : Int) := by
      rw [Nat.cast_one, one_mul]
      exact one_le_zpow₀ one_le_two (by decide)
    rw [rank_of_infinite hinfinite]
    cases negative with
    | false =>
      rw [wholes_of_infinite hinfinite, rational_false]
      exact iff_of_true hpow le_top
    | true =>
      have hnone : wholes x = 0 := by
        unfold wholes
        rw [hinfinite]
      rw [hnone, rational_true]
      exact iff_of_false (by linarith) (by decide)

/-- A number that holds a whole is greater than zero. -/
theorem zero_lt_of_wholes (hx : 1 ≤ wholes x) : 0.0 < x := by
  have hlow : 1.0 ≤ x := (one_le_iff_wholes x).mpr hx
  obtain ⟨hone, hnumber⟩ := isNaN_of_le hlow
  rw [lt_iff_rank isNaN_zero hnumber, rank_plainZero]
  have hrank := (le_iff_rank hone hnumber).mp hlow
  rw [rank_one] at hrank
  linarith

/-- A number nearest to a rational that is great enough holds many wholes. -/
theorem le_wholes_of_nearest {q : ℚ} {n : Nat} (h : Nearest false q (decode x)) (hpos : 0 < n)
    (hn : n ≤ 2 ^ 53) (hq : n ≤ q) : (n : ℕ∞) ≤ wholes x := by
  generalize hdecode : decode x = value at h
  cases h with
  | zero hsmall =>
    have hn1 : (1 : ℚ) ≤ n := by exact_mod_cast hpos
    have : (2 : ℚ) ^ (-1075 : Int) < 1 := zpow_lt_one_of_neg₀ one_lt_two (by decide)
    linarith
  | @finite m e hc hr =>
    have hrank := rank_of_decode hdecode
    rw [wholes_of_isFinite (isFinite_of_decode hdecode), hrank, rational_false]
    exact_mod_cast Nat.le_floor (hr.natCast_le hc hn hq)
  | infinite hover =>
    rw [wholes_of_infinite hdecode]
    exact le_top

/-! ### Counting down -/

theorem rank_neg_one : isFinite (-1.0) = true ∧ rank (-1.0) = -1 := by
  have hdecode : decode (-1.0) = .finite true (2 ^ 52) (-52) := decode_neg decode_one (by decide)
  refine ⟨isFinite_of_decode hdecode, ?_⟩
  rw [rank_of_decode hdecode, rational_true]
  norm_num

/-- To take one off is to add its opposite. -/
theorem sub_one_eq (hx : isFinite x = true) (hx0 : rank x ≠ 0) : x - 1.0 = x + -1.0 := by
  obtain ⟨n, m, e, hx, hc, -⟩ := decode_of_rank_ne hx hx0
  have hone := unpack_of_decode decode_one (by decide)
  have hminus := unpack_of_decode (decode_neg decode_one (by decide)) (by decide)
  show Float.ofModel (.pack (UnpackedFloat.sub _ x.toModel.unpack (Float.toModel 1.0).unpack)) =
    Float.ofModel (.pack (UnpackedFloat.add _ x.toModel.unpack (Float.toModel (-1.0)).unpack))
  rw [unpack_of_decode hx hc.pos, hone, hminus]
  rfl

/-- Below `2 ^ 53` one can be taken off exactly. -/
theorem rank_sub_one (hx : isFinite x = true) (hlow : 1 ≤ rank x) (hhigh : rank x < 2 ^ 53) :
    isFinite (x - 1.0) = true ∧ rank (x - 1.0) = rank x - 1 := by
  obtain ⟨hminus, hminusRank⟩ := rank_neg_one
  have hx0 : rank x ≠ 0 := by linarith
  rw [sub_one_eq hx hx0]
  rcases hlow.eq_or_lt with hone | hlow
  · have hzero : integer? (x + -1.0) = some ((0 : Nat) : Int) :=
      integer?_add hx hminus hx0 (by rw [hminusRank]; norm_num) (by decide)
        (by rw [hminusRank, ← hone]; norm_num)
    obtain ⟨hfinite, hrank⟩ := integer?_eq_some_iff.mp hzero
    exact ⟨hfinite, by rw [hrank, ← hone]; norm_num⟩
  · obtain ⟨n₁, m₁, e₁, hx, hc₁, hrank₁⟩ := decode_of_rank_ne hx hx0
    obtain ⟨n₂, m₂, e₂, hminus, hc₂, hrank₂⟩ :=
      decode_of_rank_ne hminus (by rw [hminusRank]; norm_num)
    have hpos₁ := hc₁.value_pos
    obtain rfl : n₁ = false := by
      cases n₁ with
      | false => rfl
      | true =>
        rw [rational_true] at hrank₁
        linarith
    rw [rational_false] at hrank₁
    -- The unit is a fraction of one, so one off leaves a mantissa that is no longer.
    have he : e₁ ≤ 0 := hc₁.exponent_le (hrank₁ ▸ hhigh)
    obtain ⟨k, hk⟩ : ∃ k : Nat, e₁ = -k := ⟨(-e₁).toNat, by omega⟩
    have hunit : (0 : ℚ) < 2 ^ e₁ := by positivity
    have hscale : (1 : ℚ) = (2 ^ k : Nat) * 2 ^ e₁ := by
      rw [hk, zpow_neg, zpow_natCast]
      push_cast
      field_simp
    have hless : 2 ^ k < m₁ := by
      rw [hrank₁, hscale] at hlow
      exact_mod_cast lt_of_mul_lt_mul_right hlow hunit.le
    have hvalue : ((m₁ - 2 ^ k : Nat) : ℚ) * 2 ^ e₁ = rank x - 1 := by
      rw [Nat.cast_sub hless.le, sub_mul, ← hscale, ← hrank₁]
    have hpos : 0 < m₁ - 2 ^ k := Nat.sub_pos_of_lt hless
    have hlt : m₁ - 2 ^ k < 2 ^ 53 := (Nat.sub_le ..).trans_lt hc₁.lt
    have hlog := (Nat.log2_lt hpos.ne').mpr hlt
    obtain ⟨m, e, hc, hexact⟩ := exists_canonical hpos hlt hc₁.least (by omega)
    have hdecode : decode (x + -1.0) = .finite false m e := by
      refine decode_add hx hminus hc₁.pos hc₂.pos hc (.self m e) ?_
      rw [rational_false, ← hrank₁, ← hrank₂, hminusRank]
      show _ = (m : ℚ) * 2 ^ e
      rw [hexact, hvalue]
      ring
    refine ⟨isFinite_of_decode hdecode, ?_⟩
    rw [rank_of_decode hdecode, rational_false, hexact, hvalue]

/-- **One off is one whole less**, or the number is great before and after. -/
theorem wholes_sub_one (hx : 1.0 ≤ x) : wholes (x - 1.0) + 1 = wholes x ∨
    ((2 ^ 52 : Nat) : ℕ∞) ≤ wholes (x - 1.0) ∧ ((2 ^ 52 : Nat) : ℕ∞) ≤ wholes x := by
  obtain ⟨hone, hnumber⟩ := isNaN_of_le hx
  have hlow : 1 ≤ rank x := rank_one ▸ (le_iff_rank hone hnumber).mp hx
  rcases finite_or_infinite hnumber with hfinite | ⟨negative, hinfinite⟩
  · rcases lt_or_ge (rank x) (2 ^ 53) with hhigh | hhigh
    · obtain ⟨hfinite', hrank⟩ := rank_sub_one hfinite hlow hhigh
      left
      rw [wholes_of_isFinite hfinite, wholes_of_isFinite hfinite', hrank, Nat.floor_sub_one]
      have hfloor : 1 ≤ ⌊rank x⌋₊ := Nat.le_floor (by exact_mod_cast hlow)
      exact_mod_cast Nat.sub_add_cancel hfloor
    · obtain ⟨hminus, hminusRank⟩ := rank_neg_one
      have hsum : ((2 ^ 52 : Nat) : ℚ) ≤ rank x + rank (-1.0) := by
        rw [hminusRank]
        push_cast
        linarith
      have hnearest : Nearest false (rank x + rank (-1.0)) (decode (x - 1.0)) := by
        rw [sub_one_eq hfinite (by linarith)]
        exact nearest_add hfinite hminus (by linarith) (by rw [hminusRank]; norm_num)
          (lt_of_lt_of_le (by positivity) hsum)
      refine .inr ⟨le_wholes_of_nearest hnearest (by decide) (by decide) hsum, ?_⟩
      rw [wholes_of_isFinite hfinite]
      exact_mod_cast Nat.le_floor (show ((2 ^ 52 : Nat) : ℚ) ≤ rank x by push_cast; linarith)
  · obtain rfl : negative = false := by
      cases negative with
      | false => rfl
      | true =>
        rw [rank_of_infinite hinfinite, rational_true] at hlow
        have hbelow : (1 : ℚ) ≤ 0 := hlow.trans (neg_nonpos.mpr (by positivity))
        exact absurd hbelow (by norm_num)
    obtain rfl : x = infinity := eq_of_infinite hinfinite decode_infinity
    have hstay : decode (infinity - 1.0) = .infinite false := by decide +kernel
    rw [wholes_of_infinite hstay, wholes_of_infinite hinfinite]
    exact .inl rfl

/-- **The wholes of two integers are added**, or the sum is great in any case. -/
theorem wholes_add {j k : Nat} (hx : integer? x = some (j : Int)) (hy : integer? y = some (k : Int))
    (hj : 0 < j) (hk : 0 < k) : wholes (x + y) = j + k ∨
      ((2 ^ 52 : Nat) : ℕ∞) ≤ wholes (x + y) ∧ ((2 ^ 52 : Nat) : ℕ∞) ≤ j + k := by
  obtain ⟨hxfinite, hxrank⟩ := integer?_eq_some_iff.mp hx
  obtain ⟨hyfinite, hyrank⟩ := integer?_eq_some_iff.mp hy
  have hx0 : rank x ≠ 0 := by
    rw [hxrank]
    exact_mod_cast hj.ne'
  have hy0 : rank y ≠ 0 := by
    rw [hyrank]
    exact_mod_cast hk.ne'
  have hsum : rank x + rank y = (j + k : Nat) := by
    rw [hxrank, hyrank]
    push_cast
    rfl
  rcases Nat.lt_or_ge (2 ^ 53) (j + k) with hlarge | hsmall
  · have hbig : ((2 ^ 52 : Nat) : ℚ) ≤ rank x + rank y := by
      rw [hsum]
      exact_mod_cast (show 2 ^ 52 ≤ j + k by omega)
    have hnearest := nearest_add hxfinite hyfinite hx0 hy0 (lt_of_lt_of_le (by positivity) hbig)
    refine .inr ⟨le_wholes_of_nearest hnearest (by decide) (by decide) hbig, ?_⟩
    exact_mod_cast (show 2 ^ 52 ≤ j + k by omega)
  · left
    have hinteger := integer?_add hxfinite hyfinite hx0 hy0 hsmall hsum
    rw [wholes_of_integer? hinteger]
    push_cast
    rfl

end RuleScript.Number
