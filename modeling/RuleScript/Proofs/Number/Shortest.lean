/-
# The shortest digits read back

`shortest` looks for a decimal between the midpoints around a double, with one
digit, two digits and so on up to seventeen. What it takes lies between the
midpoints (`pick?_spec`), and with seventeen digits one of the two
candidates does: their distance is less than that of the midpoints
(`pick?_around`). So the decimal that is written rounds to the number
(`shortest_spec`), and reading it gives the number back (`ofDecimal_shortest`).

Key definitions: `Ratio.value`, `Decimal.value`.
Key theorems: `Ratio.decimalExponent_spec`, `holds_iff`, `pick?_around`,
`shortest_spec`, `ofDecimal_shortest`.
-/
import RuleScript.Proofs.Number.Double

namespace RuleScript.Number

/-! ### Ratios -/

/-- The rational that a ratio is. -/
def Ratio.value (r : Ratio) : ℚ := r.num / r.den

/-- The rational that a decimal is. -/
def Decimal.value (d : Decimal) : ℚ := d.coefficient * 10 ^ d.exponent

namespace Ratio

theorem den_scaled_pos {b : Nat} (hb : 0 < b) (m : Nat) : ∀ e : Int, 0 < (scaled b m e).den
  | .ofNat _ => Nat.one_pos
  | .negSucc _ => Nat.pow_pos hb

theorem value_scaled (b m : Nat) : ∀ e : Int, (scaled b m e).value = m * b ^ e
  | .ofNat e => by
    show ((m * b ^ e : Nat) : ℚ) / (1 : Nat) = _
    rw [Int.ofNat_eq_natCast, zpow_natCast, Nat.cast_one, div_one]
    push_cast
    rfl
  | .negSucc e => by
    show (m : ℚ) / ((b ^ (e + 1) : Nat) : ℚ) = _
    rw [zpow_negSucc, div_eq_mul_inv]
    push_cast
    rfl

theorem den_binary_pos (m : Nat) (e : Int) : 0 < (binary m e).den := den_scaled_pos two_pos m e

theorem den_decimal_pos (m : Nat) (e : Int) : 0 < (decimal m e).den :=
  den_scaled_pos (by decide) m e

theorem value_binary (m : Nat) (e : Int) : (binary m e).value = m * 2 ^ e := value_scaled 2 m e

theorem value_decimal (m : Nat) (e : Int) : (decimal m e).value = m * 10 ^ e := value_scaled 10 m e

variable {a b : Ratio}

theorem le_iff (ha : 0 < a.den) (hb : 0 < b.den) : a.le b = true ↔ a.value ≤ b.value := by
  have ha' : (0 : ℚ) < a.den := by exact_mod_cast ha
  have hb' : (0 : ℚ) < b.den := by exact_mod_cast hb
  unfold Ratio.le Ratio.value
  rw [decide_eq_true_iff, div_le_div_iff₀ ha' hb']
  exact_mod_cast Iff.rfl

theorem lt_iff (ha : 0 < a.den) (hb : 0 < b.den) : a.lt b = true ↔ a.value < b.value := by
  have ha' : (0 : ℚ) < a.den := by exact_mod_cast ha
  have hb' : (0 : ℚ) < b.den := by exact_mod_cast hb
  unfold Ratio.lt Ratio.value
  rw [decide_eq_true_iff, div_lt_div_iff₀ ha' hb']
  exact_mod_cast Iff.rfl

/-- The integer part of a ratio in decimal units. -/
theorem floorDecimal_spec {r : Ratio} (hr : 0 < r.den) : ∀ unit : Int,
    r.floorDecimal unit * (10 : ℚ) ^ unit ≤ r.value ∧
      r.value < (r.floorDecimal unit + 1) * (10 : ℚ) ^ unit
  | .ofNat k => by
    have hden : (0 : ℚ) < r.den := by exact_mod_cast hr
    have hpos : 0 < r.den * 10 ^ k := by positivity
    have hle := Nat.div_mul_le_self r.num (r.den * 10 ^ k)
    have hlt := Nat.lt_div_mul_add (a := r.num) hpos
    show ((r.num / (r.den * 10 ^ k) : Nat) : ℚ) * _ ≤ _ ∧
      _ < (((r.num / (r.den * 10 ^ k) : Nat) : ℚ) + 1) * _
    generalize r.num / (r.den * 10 ^ k) = n at *
    unfold Ratio.value
    rw [Int.ofNat_eq_natCast, zpow_natCast, le_div_iff₀ hden, div_lt_iff₀ hden]
    have hle' : (n : ℚ) * (r.den * 10 ^ k) ≤ r.num := by exact_mod_cast hle
    have hlt' : (r.num : ℚ) < n * (r.den * 10 ^ k) + r.den * 10 ^ k := by exact_mod_cast hlt
    constructor <;> linarith
  | .negSucc k => by
    have hden : (0 : ℚ) < r.den := by exact_mod_cast hr
    have hten : (0 : ℚ) < 10 ^ (k + 1) := by positivity
    have hle := Nat.div_mul_le_self (r.num * 10 ^ (k + 1)) r.den
    have hlt := Nat.lt_div_mul_add (a := r.num * 10 ^ (k + 1)) hr
    show ((r.num * 10 ^ (k + 1) / r.den : Nat) : ℚ) * _ ≤ _ ∧
      _ < (((r.num * 10 ^ (k + 1) / r.den : Nat) : ℚ) + 1) * _
    generalize r.num * 10 ^ (k + 1) / r.den = n at *
    unfold Ratio.value
    rw [zpow_negSucc, ← div_eq_mul_inv, ← div_eq_mul_inv, div_le_div_iff₀ hten hden,
      div_lt_div_iff₀ hden hten]
    exact ⟨by exact_mod_cast hle, by rw [add_mul, one_mul]; exact_mod_cast hlt⟩

/-- A guess that is at most one off gives the decimal exponent. -/
theorem decimalExponent_spec {r : Ratio} (hr : 0 < r.den) {guess : Int}
    (hlow : (10 : ℚ) ^ (guess - 1) ≤ r.value) (hhigh : r.value < 10 ^ (guess + 2)) :
    (10 : ℚ) ^ r.decimalExponent guess ≤ r.value ∧
      r.value < 10 ^ (r.decimalExponent guess + 1) := by
  have hle (e : Int) : (decimal 1 e).le r = true ↔ (10 : ℚ) ^ e ≤ r.value := by
    rw [le_iff (den_decimal_pos 1 e) hr, value_decimal, Nat.cast_one, one_mul]
  unfold decimalExponent
  split
  · rename_i h
    exact ⟨(hle _).mp h, by rwa [add_assoc]⟩
  · rename_i h
    have h := not_le.mp (mt (hle _).mpr h)
    split
    · rename_i h'
      exact ⟨(hle _).mp h', h⟩
    · rename_i h'
      rw [sub_add_cancel]
      exact ⟨hlow, not_le.mp (mt (hle _).mpr h')⟩

end Ratio

/-! ### The decimal exponent of a double -/

/-- The guess for powers of two from one on. -/
theorem guess_of_natural : ∀ n < 1024, 10 ^ (n * 30103 / 100000) ≤ 10 * 2 ^ n ∧
    2 * 2 ^ n ≤ 100 * 10 ^ (n * 30103 / 100000) := by
  decide +kernel

/-- The guess for powers of two below one. -/
theorem guess_of_negative : ∀ n < 1075, 2 ^ n ≤ 10 * 10 ^ ((n * 30103 + 99999) / 100000) ∧
    2 * 10 ^ ((n * 30103 + 99999) / 100000) ≤ 100 * 2 ^ n := by
  decide +kernel

/-- The exponent guessed from the number of binary digits is at most one off. -/
theorem guess_spec {bits : Int} (hlow : -1074 ≤ bits) (hhigh : bits ≤ 1023) :
    (10 : ℚ) ^ (Int.fdiv (bits * 30103) 100000 - 1) ≤ 2 ^ bits ∧
      (2 : ℚ) ^ (bits + 1) ≤ 10 ^ (Int.fdiv (bits * 30103) 100000 + 2) := by
  have hten : (10 : ℚ) ≠ 0 := by norm_num
  have hsquare : (10 : ℚ) ^ (2 : Int) = 100 := by norm_num
  rw [Int.fdiv_eq_ediv_of_nonneg _ (by decide), zpow_sub_one₀ hten, zpow_add₀ hten, hsquare,
    zpow_add_one₀ two_ne_zero]
  rcases le_or_gt 0 bits with hpos | hneg
  · obtain ⟨n, rfl⟩ := Int.eq_ofNat_of_zero_le hpos
    obtain ⟨h₁, h₂⟩ := guess_of_natural n (by omega)
    have hguess : (n : Int) * 30103 / 100000 = ((n * 30103 / 100000 : Nat) : Int) := by omega
    rw [hguess, zpow_natCast, zpow_natCast]
    have h₁' : (10 : ℚ) ^ (n * 30103 / 100000) ≤ 10 * 2 ^ n := by exact_mod_cast h₁
    have h₂' : (2 : ℚ) * 2 ^ n ≤ 100 * 10 ^ (n * 30103 / 100000) := by exact_mod_cast h₂
    constructor
    · rw [← div_eq_mul_inv, div_le_iff₀ (by norm_num)]
      linarith
    · linarith
  · obtain ⟨n, rfl⟩ : ∃ n : Nat, bits = -(n : Int) := ⟨(-bits).toNat, by omega⟩
    obtain ⟨h₁, h₂⟩ := guess_of_negative n (by omega)
    have hguess : -(n : Int) * 30103 / 100000 = -(((n * 30103 + 99999) / 100000 : Nat) : Int) := by
      omega
    rw [hguess, zpow_neg, zpow_neg, zpow_natCast, zpow_natCast]
    generalize (n * 30103 + 99999) / 100000 = g at h₁ h₂
    have h₁' : (2 : ℚ) ^ n ≤ 10 * 10 ^ g := by exact_mod_cast h₁
    have h₂' : (2 : ℚ) * 10 ^ g ≤ 100 * 2 ^ n := by exact_mod_cast h₂
    constructor
    · rw [← mul_inv]
      exact inv_anti₀ (by positivity) (by linarith)
    · rw [inv_mul_le_iff₀ (by positivity)]
      field_simp
      linarith

variable {m : Nat} {e : Int}

/-- The value of a double lies between powers of two. -/
theorem value_bounds (hm : 0 < m) :
    (2 : ℚ) ^ ((m.log2 : Int) + e) ≤ m * 2 ^ e ∧ (m : ℚ) * 2 ^ e < 2 ^ ((m.log2 : Int) + e + 1) :=
  ⟨(Holds.exact m).two_zpow_le (Nat.ne_of_gt hm) e, (Holds.exact m).lt_two_zpow e⟩

/-- The magnitude of a double is its decimal exponent. -/
theorem magnitude_spec (hc : Canonical m e) :
    (10 : ℚ) ^ magnitude m e ≤ m * 2 ^ e ∧ (m : ℚ) * 2 ^ e < 10 ^ (magnitude m e + 1) := by
  have hlog := (Nat.log2_lt (Nat.ne_of_gt hc.pos)).mpr hc.lt
  have hleast := hc.least
  have hmost := hc.most
  obtain ⟨hlow, hhigh⟩ := guess_spec (show -1074 ≤ (m.log2 : Int) + e by omega) (by omega)
  obtain ⟨hlow', hhigh'⟩ := value_bounds (e := e) hc.pos
  rw [← Ratio.value_binary] at hlow' hhigh' ⊢
  exact Ratio.decimalExponent_spec (Ratio.den_binary_pos m e) (hlow.trans hlow')
    (lt_of_lt_of_le hhigh' hhigh)

/-! ### Decimals between the midpoints -/

theorem den_low_pos (m : Nat) (e : Int) : 0 < (Interval.around m e).low.den := by
  unfold Interval.around
  dsimp only
  split <;> exact Ratio.den_binary_pos _ _

theorem den_high_pos (m : Nat) (e : Int) : 0 < (Interval.around m e).high.den :=
  Ratio.den_binary_pos _ _

theorem value_low (hm : 0 < m) (e : Int) :
    (Interval.around m e).low.value = (m - reachBelow m e) * 2 ^ e := by
  have hquarter : (2 : ℚ) ^ (2 : Int) = 4 := by norm_num
  have h52 : Nat.pow 2 52 = 2 ^ 52 := rfl
  unfold Interval.around reachBelow
  dsimp only
  rw [h52]
  by_cases h : m = 2 ^ 52 ∧ e ≠ -1074
  · rw [if_pos h, if_pos h, Ratio.value_binary, Nat.cast_sub (by omega), zpow_sub₀ two_ne_zero,
      hquarter]
    push_cast
    ring
  · rw [if_neg h, if_neg h, Ratio.value_binary, Nat.cast_sub (by omega), zpow_sub_one₀ two_ne_zero]
    push_cast
    ring

theorem value_high (m : Nat) (e : Int) :
    (Interval.around m e).high.value = (m + 1 / 2) * 2 ^ e := by
  show (Ratio.binary (2 * m + 1) (e - 1)).value = _
  rw [Ratio.value_binary, zpow_sub_one₀ two_ne_zero]
  push_cast
  ring

/-- The decimals in the interval of a double are those that round to it. -/
theorem holds_iff (hm : 0 < m) (e : Int) (c : Nat) (k : Int) :
    (Interval.around m e).holds (.decimal c k) = true ↔ RoundsTo m e (c * 10 ^ k) := by
  have hclosed : (Interval.around m e).closed = decide (m % 2 = 0) := rfl
  unfold Interval.holds
  rw [hclosed]
  by_cases heven : m % 2 = 0
  · rw [if_pos (decide_eq_true heven), Bool.and_eq_true,
      Ratio.le_iff (den_low_pos m e) (Ratio.den_decimal_pos c k),
      Ratio.le_iff (Ratio.den_decimal_pos c k) (den_high_pos m e), Ratio.value_decimal,
      value_low hm, value_high]
    exact ⟨fun h => ⟨h.1, h.2, fun hodd => by omega⟩, fun h => ⟨h.low, h.high⟩⟩
  · rw [if_neg (mt of_decide_eq_true heven), Bool.and_eq_true,
      Ratio.lt_iff (den_low_pos m e) (Ratio.den_decimal_pos c k),
      Ratio.lt_iff (Ratio.den_decimal_pos c k) (den_high_pos m e), Ratio.value_decimal,
      value_low hm, value_high]
    exact ⟨fun h => ⟨h.1.le, h.2.le, fun _ => h⟩, fun h => h.within (by omega)⟩

/-- What is picked is in the interval: one of the two multiples of the unit
around the value. -/
theorem pick?_spec {i : Interval} {value : Ratio} {unit : Int} {d : Decimal}
    (h : i.pick? value unit = some d) :
    i.holds (.decimal d.coefficient d.exponent) = true := by
  unfold Interval.pick? at h
  dsimp only at h
  split at h
  · rename_i htakes
    cases h
    exact (Bool.and_eq_true_iff.mp htakes).1
  · split at h
    · rename_i htakes
      cases h
      exact htakes
    · cases h

theorem pick?_isSome {i : Interval} {value : Ratio} {unit : Int}
    (h : i.holds (.decimal (value.floorDecimal unit) unit) = true ∨
      i.holds (.decimal (value.floorDecimal unit + 1) unit) = true) :
    (i.pick? value unit).isSome = true := by
  unfold Interval.pick?
  dsimp only
  split
  · rfl
  · rename_i hbelow
    split
    · rfl
    · rename_i habove
      refine absurd h (not_or.mpr ⟨fun h => hbelow ?_, habove⟩)
      rw [h, Bool.eq_false_iff.mpr habove, Bool.not_false, Bool.or_true, Bool.and_true]

/-- A unit that is smaller than the distance of the midpoints has a multiple
between them. -/
theorem pick?_around (hm : 0 < m) {unit : Int}
    (hunit : (10 : ℚ) ^ unit < (reachBelow m e + 1 / 2) * 2 ^ e) :
    ((Interval.around m e).pick? (.binary m e) unit).isSome = true := by
  obtain ⟨hbelow, habove⟩ := Ratio.floorDecimal_spec (Ratio.den_binary_pos m e) unit
  rw [Ratio.value_binary] at hbelow habove
  refine pick?_isSome ?_
  rw [holds_iff hm, holds_iff hm]
  generalize (Ratio.binary m e).floorDecimal unit = n at hbelow habove
  have hpos : (0 : ℚ) < 10 ^ unit := by positivity
  have hpos' : (0 : ℚ) < 2 ^ e := by positivity
  have hreach : 0 < reachBelow m e * 2 ^ e := mul_pos (reachBelow_pos m e) hpos'
  push_cast
  by_cases hlow : (m - reachBelow m e) * 2 ^ e < n * 10 ^ unit
  · have hhigh : (n : ℚ) * 10 ^ unit < (m + 1 / 2) * 2 ^ e := by linarith
    exact .inl ⟨hlow.le, hhigh.le, fun _ => ⟨hlow, hhigh⟩⟩
  · -- The multiple below is too far away, so the one above is near enough.
    have hlow' : (m - reachBelow m e) * 2 ^ e < (n + 1) * 10 ^ unit := by linarith
    have hhigh : (n + 1) * (10 : ℚ) ^ unit < (m + 1 / 2) * 2 ^ e := by linarith
    exact .inr ⟨hlow'.le, hhigh.le, fun _ => ⟨hlow', hhigh⟩⟩

/-- Seventeen digits are enough. -/
theorem seventeen_digits (hc : Canonical m e) :
    (10 : ℚ) ^ (magnitude m e - 16) < (reachBelow m e + 1 / 2) * 2 ^ e := by
  have hunit : (10 : ℚ) ^ (magnitude m e - 16) = 10 ^ magnitude m e / 10 ^ 16 := by
    rw [zpow_sub₀ (by norm_num)]
    norm_num
  have hpos : (0 : ℚ) < 2 ^ e := by positivity
  have hm : (m : ℚ) < 10 ^ 16 * (reachBelow m e + 1 / 2) := by
    unfold reachBelow
    split
    · rename_i h
      rw [h.1]
      norm_num
    · have : (m : ℚ) < (2 ^ 53 : Nat) := by exact_mod_cast hc.lt
      norm_num at this ⊢
      linarith
  rw [hunit, div_lt_iff₀ (by norm_num)]
  refine lt_of_le_of_lt (magnitude_spec hc).1 ?_
  calc (m : ℚ) * 2 ^ e < 10 ^ 16 * (reachBelow m e + 1 / 2) * 2 ^ e :=
        mul_lt_mul_of_pos_right hm hpos
    _ = (reachBelow m e + 1 / 2) * 2 ^ e * 10 ^ 16 := by ring

/-! ### The search -/

theorem shortestFrom_spec {i : Interval} {value : Ratio} {top : Int} {d : Decimal} :
    ∀ {fuel digits : Nat}, shortestFrom i value top fuel digits = some d →
      ∃ n, i.pick? value (top - Int.ofNat n + 1) = some d
  | 0, _, h => by cases h
  | fuel + 1, digits, h => by
    unfold shortestFrom at h
    split at h
    · rename_i d' hpick
      cases h
      exact ⟨digits, hpick⟩
    · exact shortestFrom_spec h

theorem shortestFrom_isSome {i : Interval} {value : Ratio} {top : Int} {n : Nat}
    (h : (i.pick? value (top - Int.ofNat n + 1)).isSome = true) : ∀ {fuel digits : Nat},
    digits ≤ n → n < digits + fuel → (shortestFrom i value top fuel digits).isSome = true
  | 0, _, hle, hlt => by omega
  | fuel + 1, digits, hle, hlt => by
    unfold shortestFrom
    split
    · rfl
    · rename_i hnone
      rcases Nat.eq_or_lt_of_le hle with rfl | hlt'
      · rw [hnone] at h
        cases h
      · exact shortestFrom_isSome h hlt' (by omega)

/-- Taking zeros off the end keeps the value. -/
theorem stripZeros_spec : ∀ (fuel : Nat) (d : Decimal), (d.stripZeros fuel).value = d.value
  | 0, _ => rfl
  | fuel + 1, d => by
    unfold Decimal.stripZeros
    split
    · rename_i h
      refine (stripZeros_spec fuel ⟨d.coefficient / 10, d.exponent + 1⟩).trans ?_
      have hten : (d.coefficient : ℚ) = (d.coefficient / 10 : Nat) * 10 := by
        exact_mod_cast (Nat.div_mul_cancel (Nat.dvd_of_mod_eq_zero h.2)).symm
      unfold Decimal.value
      dsimp only
      rw [hten, zpow_add_one₀ (by norm_num)]
      ring
    · rfl

/-- **The shortest digits of a double round to it.** -/
theorem shortest_spec (hc : Canonical m e) : RoundsTo m e (shortest m e).value := by
  have hunit : magnitude m e - 16 = magnitude m e - Int.ofNat 17 + 1 := by
    show _ = magnitude m e - 17 + 1
    omega
  have hfound := shortestFrom_isSome (hunit ▸ pick?_around hc.pos (seventeen_digits hc))
    (show 1 ≤ 17 by decide) (show 17 < 1 + 17 by decide)
  obtain ⟨d, hd⟩ := Option.isSome_iff_exists.mp hfound
  obtain ⟨n, hpick⟩ := shortestFrom_spec hd
  have hresult : shortest m e = d.stripZeros 1 := by
    unfold shortest
    dsimp only
    rw [hd]
    rfl
  rw [hresult, stripZeros_spec]
  exact (holds_iff hc.pos e _ _).mp (pick?_spec hpick)

/-- The shortest digits are not all zeros. -/
theorem shortest_pos (hc : Canonical m e) : 0 < (shortest m e).coefficient :=
  (shortest_spec hc).coefficient_pos hc

/-- **Reading the shortest digits of a number gives the number**, from any
decimal of their value. -/
theorem ofDecimal_shortest {x : Float} {negative : Bool} {c : Nat} {k : Int}
    (hx : decode x = .finite negative m e) (hm : 0 < m)
    (hvalue : (c : ℚ) * 10 ^ k = (shortest m e).value) : ofDecimal negative c k = x := by
  have hr := shortest_spec (canonical_of_decode hx hm)
  rw [← hvalue] at hr
  exact ofDecimal_eq hx hm hr

end RuleScript.Number
