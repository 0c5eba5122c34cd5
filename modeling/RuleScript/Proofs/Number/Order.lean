/-
# The order of numbers

Every number that is one has a place on the rational line: a finite number its
exact value, an infinity a place beyond all finite numbers (`rank`). Numbers
are compared by their exponents first and then by their mantissas, and since
every finite number other than zero is in canonical form, that is the order of
their places (`lt_iff_rank`). So the order of numbers is that of rationals, with
the two zeros in one place.

Key definitions: `rational`, `Exact.rank`, `rank`.
Key theorems: `Canonical.lt_iff`, `lt_iff_rank`, `le_iff_rank`.
-/
import RuleScript.Proofs.Number.Double

namespace RuleScript.Number

open Float.Model Float.Model.UnpackedFloat

/-! ### Places on the rational line -/

/-- The rational `± m * 2 ^ e`. -/
def rational (negative : Bool) (m : Nat) (e : Int) : ℚ :=
  if negative then -(m * 2 ^ e) else m * 2 ^ e

/-- The place of an exact value. -/
def Exact.rank : Exact → ℚ
  | .nan => 0
  | .infinite negative => rational negative 1 1024
  | .finite negative m e => rational negative m e

/-- The place of a number. -/
def rank (x : Float) : ℚ := (decode x).rank

@[simp] theorem rational_false (m : Nat) (e : Int) : rational false m e = m * 2 ^ e := rfl

@[simp] theorem rational_true (m : Nat) (e : Int) : rational true m e = -(m * 2 ^ e) := rfl

@[simp] theorem rational_zero (negative : Bool) (e : Int) : rational negative 0 e = 0 := by
  cases negative <;> simp

namespace Canonical

variable {m m₁ m₂ : Nat} {e e₁ e₂ : Int}

theorem value_pos (h : Canonical m e) : (0 : ℚ) < m * 2 ^ e := by
  have hm : (0 : ℚ) < m := by exact_mod_cast h.pos
  positivity

/-- Every finite number is below the place of infinity. -/
theorem value_lt (h : Canonical m e) : (m : ℚ) * 2 ^ e < 2 ^ (1024 : Int) := by
  have hm : (m : ℚ) < 2 ^ (53 : Int) := by exact_mod_cast h.lt
  calc (m : ℚ) * 2 ^ e < 2 ^ (53 : Int) * 2 ^ e := mul_lt_mul_of_pos_right hm (by positivity)
    _ = 2 ^ (53 + e) := (zpow_add₀ two_ne_zero _ _).symm
    _ ≤ 2 ^ (1024 : Int) := zpow_le_zpow_right₀ one_le_two (by have := h.most; omega)

/-- A greater exponent makes a greater number. -/
theorem value_lt_of_exponent_lt (h₁ : Canonical m₁ e₁) (h₂ : Canonical m₂ e₂) (he : e₁ < e₂) :
    (m₁ : ℚ) * 2 ^ e₁ < m₂ * 2 ^ e₂ := by
  have hfull : 2 ^ 52 ≤ m₂ := h₂.full.resolve_left (by have := h₁.least; omega)
  have hm₁ : (m₁ : ℚ) < 2 ^ (53 : Int) := by exact_mod_cast h₁.lt
  have hm₂ : (2 : ℚ) ^ (52 : Int) ≤ m₂ := by exact_mod_cast hfull
  calc (m₁ : ℚ) * 2 ^ e₁ < 2 ^ (53 : Int) * 2 ^ e₁ := mul_lt_mul_of_pos_right hm₁ (by positivity)
    _ = 2 ^ (53 + e₁) := (zpow_add₀ two_ne_zero _ _).symm
    _ ≤ 2 ^ (52 + e₂) := zpow_le_zpow_right₀ one_le_two (by omega)
    _ = 2 ^ (52 : Int) * 2 ^ e₂ := zpow_add₀ two_ne_zero _ _
    _ ≤ m₂ * 2 ^ e₂ := mul_le_mul_of_nonneg_right hm₂ (by positivity)

/-- **Exponents are compared first, then mantissas.** -/
theorem lt_iff (h₁ : Canonical m₁ e₁) (h₂ : Canonical m₂ e₂) :
    (compare e₁ e₂).then (compare m₁ m₂) = .lt ↔ (m₁ : ℚ) * 2 ^ e₁ < m₂ * 2 ^ e₂ := by
  rcases lt_trichotomy e₁ e₂ with he | rfl | he
  · rw [compare_lt_iff_lt.mpr he]
    exact ⟨fun _ => h₁.value_lt_of_exponent_lt h₂ he, fun _ => rfl⟩
  · rw [compare_eq_iff_eq.mpr rfl, Ordering.eq_then, compare_lt_iff_lt,
      mul_lt_mul_iff_left₀ (by positivity), Nat.cast_lt]
  · rw [compare_gt_iff_gt.mpr he]
    refine ⟨nofun, fun h => ?_⟩
    exact absurd (h₂.value_lt_of_exponent_lt h₁ he) h.asymm

end Canonical

/-! ### Comparing -/

/-- An unpacked number in canonical form. -/
def Proper : UnpackedFloat → Prop
  | .notANumber => False
  | .infinity _ | .zero _ => True
  | .finite _ m e _ => Canonical m e

/-- Two finite numbers are in the order of their places. -/
theorem finite_lt_iff {m₁ m₂ : Nat} {e₁ e₂ : Int} (h₁ : Canonical m₁ e₁) (h₂ : Canonical m₂ e₂)
    (s t : Sign) :
    (UnpackedFloat.finite s m₁ e₁ h₁.pos).compare (.finite t m₂ e₂ h₂.pos) = some .lt ↔
      rational (isNegative s) m₁ e₁ < rational (isNegative t) m₂ e₂ := by
  have hpos₁ := h₁.value_pos
  have hpos₂ := h₂.value_pos
  cases s with
  | negative =>
    cases t with
    | negative =>
      show some ((compare e₁ e₂).then (compare m₁ m₂)).swap = some .lt ↔ -(m₁ * 2 ^ e₁ : ℚ) < -(m₂ * 2 ^ e₂)
      rw [neg_lt_neg_iff, ← h₂.lt_iff h₁, Option.some.injEq, Ordering.swap_then,
        Std.OrientedOrd.eq_swap.symm, Std.OrientedOrd.eq_swap.symm]
    | positive =>
      show some Ordering.lt = some .lt ↔ -(m₁ * 2 ^ e₁ : ℚ) < m₂ * 2 ^ e₂
      exact iff_of_true rfl (by linarith)
  | positive =>
    cases t with
    | negative =>
      show some Ordering.gt = some .lt ↔ (m₁ * 2 ^ e₁ : ℚ) < -(m₂ * 2 ^ e₂)
      exact iff_of_false nofun (by linarith)
    | positive =>
      show some ((compare e₁ e₂).then (compare m₁ m₂)) = some .lt ↔ (m₁ * 2 ^ e₁ : ℚ) < m₂ * 2 ^ e₂
      rw [← h₁.lt_iff h₂, Option.some.injEq]

theorem rank_infinity (s : Sign) :
    (Exact.ofUnpacked (.infinity s)).rank = rational (isNegative s) 1 1024 := rfl

theorem rank_zero (s : Sign) : (Exact.ofUnpacked (.zero s)).rank = 0 := rational_zero _ _

theorem rank_finite (s : Sign) (m : Nat) (e : Int) (hm : 0 < m) :
    (Exact.ofUnpacked (.finite s m e hm)).rank = rational (isNegative s) m e := rfl

theorem unpacked_lt_iff {u w : UnpackedFloat} (hu : Proper u) (hw : Proper w) :
    u.lt w = true ↔ (Exact.ofUnpacked u).rank < (Exact.ofUnpacked w).rank := by
  have hinfinity : (0 : ℚ) < ((1 : Nat) : ℚ) * 2 ^ (1024 : Int) := by positivity
  have hbelow {m : Nat} {e : Int} (h : Canonical m e) :
      (m : ℚ) * 2 ^ e < ((1 : Nat) : ℚ) * 2 ^ (1024 : Int) := by
    rw [Nat.cast_one, one_mul]
    exact h.value_lt
  -- One case for each pair of kinds. Two finite numbers are compared by their
  -- exponents and mantissas. The other pairs are compared by their kinds and
  -- signs, which gives a truth value by definition.
  cases u with
  | notANumber => exact hu.elim
  | infinity s =>
    cases w with
    | notANumber => exact hw.elim
    | infinity t =>
      rw [rank_infinity, rank_infinity]
      cases s with
      | negative =>
        cases t with
        | negative => exact iff_of_false Bool.false_ne_true (lt_irrefl _)
        | positive => exact iff_of_true rfl ((neg_lt_zero.mpr hinfinity).trans hinfinity)
      | positive =>
        cases t with
        | negative => exact iff_of_false Bool.false_ne_true ((neg_lt_zero.mpr hinfinity).trans hinfinity).asymm
        | positive => exact iff_of_false Bool.false_ne_true (lt_irrefl _)
    | zero t =>
      rw [rank_infinity, rank_zero]
      cases s with
      | negative => exact iff_of_true rfl (neg_lt_zero.mpr hinfinity)
      | positive => exact iff_of_false Bool.false_ne_true hinfinity.asymm
    | finite t m e hm =>
      have hpos := hw.value_pos
      rw [rank_infinity, rank_finite]
      cases s with
      | negative =>
        cases t with
        | negative => exact iff_of_true rfl (neg_lt_neg (hbelow hw))
        | positive => exact iff_of_true rfl ((neg_lt_zero.mpr hinfinity).trans hpos)
      | positive =>
        cases t with
        | negative => exact iff_of_false Bool.false_ne_true ((neg_lt_zero.mpr hpos).trans hinfinity).asymm
        | positive => exact iff_of_false Bool.false_ne_true (hbelow hw).asymm
  | zero s =>
    cases w with
    | notANumber => exact hw.elim
    | infinity t =>
      rw [rank_zero, rank_infinity]
      cases t with
      | negative => exact iff_of_false Bool.false_ne_true (neg_lt_zero.mpr hinfinity).asymm
      | positive => exact iff_of_true rfl hinfinity
    | zero t =>
      rw [rank_zero, rank_zero]
      exact iff_of_false Bool.false_ne_true (lt_irrefl 0)
    | finite t m e hm =>
      have hpos := hw.value_pos
      rw [rank_zero, rank_finite]
      cases t with
      | negative => exact iff_of_false Bool.false_ne_true (neg_lt_zero.mpr hpos).asymm
      | positive => exact iff_of_true rfl hpos
  | finite s m₁ e₁ hm₁ =>
    have hpos := hu.value_pos
    cases w with
    | notANumber => exact hw.elim
    | infinity t =>
      rw [rank_finite, rank_infinity]
      cases s with
      | negative =>
        cases t with
        | negative => exact iff_of_false Bool.false_ne_true (neg_lt_neg (hbelow hu)).asymm
        | positive => exact iff_of_true rfl ((neg_lt_zero.mpr hpos).trans hinfinity)
      | positive =>
        cases t with
        | negative => exact iff_of_false Bool.false_ne_true ((neg_lt_zero.mpr hinfinity).trans hpos).asymm
        | positive => exact iff_of_true rfl (hbelow hu)
    | zero t =>
      rw [rank_finite, rank_zero]
      cases s with
      | negative => exact iff_of_true rfl (neg_lt_zero.mpr hpos)
      | positive => exact iff_of_false Bool.false_ne_true hpos.asymm
    | finite t m₂ e₂ hm₂ => exact beq_iff_eq.trans (finite_lt_iff hu hw s t)

/-- A number that is one is unpacked in canonical form. -/
theorem proper_unpack {x : Float} (hx : isNaN x = false) : Proper x.toModel.unpack := by
  unfold isNaN at hx
  rw [decode_eq] at hx
  cases hu : x.toModel.unpack with
  | notANumber => rw [hu] at hx; cases hx
  | infinity s => trivial
  | zero s => trivial
  | finite s m e hm =>
    have hdecode : decode x = .finite (isNegative s) m e := by
      rw [decode_eq, hu]
      rfl
    exact canonical_of_decode hdecode hm

/-- **Numbers are in the order of their places.** -/
theorem lt_iff_rank {x y : Float} (hx : isNaN x = false) (hy : isNaN y = false) :
    x < y ↔ rank x < rank y := by
  unfold rank
  rw [decode_eq, decode_eq]
  refine Iff.trans ?_ (unpacked_lt_iff (proper_unpack hx) (proper_unpack hy))
  exact decide_eq_true_iff

/-! ### At most -/

/-- The comparison of two numbers the other way round. -/
theorem compare_swap : ∀ u w : UnpackedFloat, w.compare u = (u.compare w).map Ordering.swap
  | .notANumber, w => by cases w <;> rfl
  | .infinity s, .notANumber => by cases s <;> rfl
  | .infinity s, .infinity t => by cases s <;> cases t <;> rfl
  | .infinity s, .zero t => by cases s <;> rfl
  | .infinity s, .finite t _ _ _ => by cases s <;> cases t <;> rfl
  | .zero s, .notANumber => rfl
  | .zero s, .infinity t => by cases t <;> rfl
  | .zero s, .zero t => rfl
  | .zero s, .finite t _ _ _ => by cases t <;> rfl
  | .finite s _ _ _, .notANumber => by cases s <;> rfl
  | .finite s _ _ _, .infinity t => by cases s <;> cases t <;> rfl
  | .finite s _ _ _, .zero t => by cases s <;> rfl
  | .finite .negative _ _ _, .finite .positive _ _ _ => rfl
  | .finite .positive _ _ _, .finite .negative _ _ _ => rfl
  -- Of two numbers of one sign the exponents and mantissas change places.
  | .finite .positive m₁ e₁ _, .finite .positive m₂ e₂ _ => by
    show some ((compare e₂ e₁).then (compare m₂ m₁)) =
      some ((compare e₁ e₂).then (compare m₁ m₂)).swap
    rw [Ordering.swap_then, ← Std.OrientedOrd.eq_swap, ← Std.OrientedOrd.eq_swap]
  | .finite .negative m₁ e₁ _, .finite .negative m₂ e₂ _ => by
    show some ((compare e₂ e₁).then (compare m₂ m₁)).swap =
      some ((compare e₁ e₂).then (compare m₁ m₂)).swap.swap
    rw [Ordering.swap_swap, Ordering.swap_then, ← Std.OrientedOrd.eq_swap,
      ← Std.OrientedOrd.eq_swap]

theorem exists_compare {u w : UnpackedFloat} (hu : Proper u) (hw : Proper w) :
    ∃ o, u.compare w = some o := by
  cases u with
  | notANumber => exact hu.elim
  | infinity s | zero s | finite s =>
    cases w with
    | notANumber => exact hw.elim
    | infinity t | zero t | finite t => cases s <;> cases t <;> exact ⟨_, rfl⟩

/-- Of two numbers that are ones, one is at most the other unless the other is
less. -/
theorem unpacked_le_eq {u w : UnpackedFloat} (hu : Proper u) (hw : Proper w) :
    u.le w = !w.lt u := by
  obtain ⟨o, ho⟩ := exists_compare hu hw
  have hswap := compare_swap u w
  unfold UnpackedFloat.le UnpackedFloat.lt
  rw [hswap, ho]
  cases o <;> rfl

/-- **So are they when they may be equal.** -/
theorem le_iff_rank {x y : Float} (hx : isNaN x = false) (hy : isNaN y = false) :
    x ≤ y ↔ rank x ≤ rank y := by
  have hle : x ≤ y ↔ x.toModel.unpack.le y.toModel.unpack = true := decide_eq_true_iff
  have hlt : y < x ↔ y.toModel.unpack.lt x.toModel.unpack = true := decide_eq_true_iff
  rw [hle, unpacked_le_eq (proper_unpack hx) (proper_unpack hy), Bool.not_eq_true', ← not_lt,
    ← lt_iff_rank hy hx, hlt, Bool.not_eq_true]

/-- What compares with nothing is in no comparison that holds. -/
theorem isNaN_of_compare {compares : UnpackedFloat → UnpackedFloat → Bool} {x y : Float}
    (hleft : ∀ w, compares .notANumber w = false) (hright : ∀ u, compares u .notANumber = false)
    (h : compares x.toModel.unpack y.toModel.unpack = true) : isNaN x = false ∧ isNaN y = false := by
  unfold isNaN
  rw [decode_eq, decode_eq]
  generalize x.toModel.unpack = u at h
  generalize y.toModel.unpack = w at h
  cases u with
  | notANumber =>
    rw [hleft] at h
    cases h
  | infinity s | zero s | finite s =>
    cases w with
    | notANumber =>
      rw [hright] at h
      cases h
    | infinity t | zero t | finite t => exact ⟨rfl, rfl⟩

theorem isNaN_of_le {x y : Float} (h : x ≤ y) : isNaN x = false ∧ isNaN y = false :=
  isNaN_of_compare (fun _ => rfl) (fun u => by cases u <;> rfl) (decide_eq_true_iff.mp h)

theorem isNaN_of_lt {x y : Float} (h : x < y) : isNaN x = false ∧ isNaN y = false :=
  isNaN_of_compare (fun _ => rfl) (fun u => by cases u <;> rfl) (decide_eq_true_iff.mp h)

end RuleScript.Number
