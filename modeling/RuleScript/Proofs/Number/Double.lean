/-
# Doubles by their exact value

`decode` reads the fields of a double's bits; the model of the doubles unpacks
them. The two agree (`decode_eq`), and a double that is a number is determined
by what `decode` reads (`eq_of_decode`).

With that, what the operations on doubles do to rationals is what they do to
numbers: a decimal coefficient and exponent is read as the double that its value
rounds to (`decode_ofScientific`), and an integer that is a double as that one
(`ofInt?_integer?`).

Key definitions: `Exact.ofUnpacked`, `plainZero`.
Key theorems: `decode_eq`, `eq_of_decode`, `decode_ofScientific`,
`ofDecimal_eq`, `ofInt?_integer?`.
-/
import Mathlib.Data.Nat.Cast.Field
import RuleScript.Number.Exact
import RuleScript.Number.Numeral
import RuleScript.Proofs.Number.Rounding

namespace RuleScript.Number

open Float.Model Float.Model.UnpackedFloat

/-! ### The fields of a double -/

/-- Whether a sign is negative. -/
def isNegative : Sign → Bool
  | .negative => true
  | .positive => false

/-- The sign of a truth value. -/
def signOf (negative : Bool) : Sign := if negative then .negative else .positive

@[simp] theorem isNegative_signOf (negative : Bool) : isNegative (signOf negative) = negative := by
  cases negative <;> rfl

@[simp] theorem signOf_isNegative (s : Sign) : signOf (isNegative s) = s := by
  cases s <;> rfl

@[simp] theorem signOf_not (negative : Bool) : signOf (!negative) = -signOf negative := by
  cases negative <;> rfl

/-- The exact value of an unpacked double. -/
def Exact.ofUnpacked : UnpackedFloat → Exact
  | .notANumber => .nan
  | .infinity s => .infinite (isNegative s)
  | .zero s => .finite (isNegative s) 0 (-1074)
  | .finite s m e _ => .finite (isNegative s) m e

theorem toNat_unpackExponent (b : BitVec Format.binary64.numBits) :
    (unpackExponent b).toNat = b.toNat / 2 ^ 52 % 2 ^ 11 := by
  unfold unpackExponent
  rw [BitVec.toNat_cast, BitVec.extractLsb_toNat, Nat.shiftRight_eq_div_pow]
  rfl

theorem toNat_unpackMantissa (b : BitVec Format.binary64.numBits) :
    (unpackMantissa b).toNat = b.toNat % 2 ^ 52 := by
  unfold unpackMantissa
  rw [BitVec.toNat_cast, BitVec.extractLsb_toNat, Nat.shiftRight_zero]
  rfl

theorem toNat_unpackSign (b : BitVec Format.binary64.numBits) :
    (unpackSign b).toNat = b.toNat / 2 ^ 63 % 2 := by
  unfold unpackSign
  rw [BitVec.toNat_cast, BitVec.extractLsb_toNat, Nat.shiftRight_eq_div_pow]
  rfl

theorem isNegative_ofBitVec (b : BitVec 1) : isNegative (.ofBitVec b) = decide (b.toNat = 1) := by
  revert b
  decide

/-- The fields of the bits are those that unpacking takes. -/
theorem ofBits_eq (b : BitVec Format.binary64.numBits) :
    Exact.ofBits b.toNat = .ofUnpacked (UnpackedFloat.unpack Format.binary64 b) := by
  have hsign : isNegative (.ofBitVec (unpackSign b)) =
      decide (b.toNat / Nat.pow 2 63 % 2 = 1) := by
    rw [isNegative_ofBitVec, toNat_unpackSign]
    rfl
  have hexponent := toNat_unpackExponent b
  have hmantissa := toNat_unpackMantissa b
  unfold Exact.ofBits UnpackedFloat.unpack
  dsimp only
  rw [← hsign]
  change _ = b.toNat / Nat.pow 2 52 % Nat.pow 2 11 at hexponent
  change _ = b.toNat % Nat.pow 2 52 at hmantissa
  rw [← hexponent, ← hmantissa]
  have hfull : (unpackExponent b).toNat = 2047 ↔ unpackExponent b = -1#11 := by
    rw [← BitVec.toNat_inj]
    rfl
  have hleast : (unpackExponent b).toNat = 0 ↔ unpackExponent b = 0#11 := by
    rw [← BitVec.toNat_inj]
    rfl
  have hnone : (unpackMantissa b).toNat = 0 ↔ unpackMantissa b = 0#52 := by
    rw [← BitVec.toNat_inj]
    rfl
  by_cases hE : unpackExponent b = -1#11
  · rw [if_pos (hfull.mpr hE), if_pos hE]
    by_cases hM : unpackMantissa b = 0#52
    · rw [if_pos (hnone.mpr hM), if_pos hM]
      rfl
    · rw [if_neg (mt hnone.mp hM), if_neg hM]
      rfl
  · rw [if_neg (mt hfull.mp hE), if_neg hE]
    by_cases hE' : unpackExponent b = 0#11
    · rw [if_pos (hleast.mpr hE'), if_pos hE']
      by_cases hM : unpackMantissa b = 0#52
      · rw [dif_pos hM, hnone.mpr hM]
        rfl
      · rw [dif_neg hM, hleast.mpr hE']
        rfl
    · rw [if_neg (mt hleast.mp hE'), if_neg hE']
      have hfraction : (1#1 ++ unpackMantissa b).toNat = (unpackMantissa b).toNat + Nat.pow 2 52 := by
        rw [BitVec.toNat_append, ← Nat.shiftLeft_add_eq_or_of_lt (unpackMantissa b).isLt,
          Nat.add_comm]
        rfl
      rw [← hfraction]
      rfl

/-- **Reading the bits of a number is unpacking it.** -/
theorem decode_eq (x : Float) : decode x = .ofUnpacked x.toModel.unpack :=
  ofBits_eq x.toModel.toBits.toBitVec

/-! ### The double of a mantissa and an exponent -/

/-- The exact value by the three fields of the bits. -/
theorem ofBits_def (bits : Nat) :
    Exact.ofBits bits =
      if bits / 2 ^ 52 % 2048 = 2047 then
        if bits % 2 ^ 52 = 0 then .infinite (bits / 2 ^ 63 % 2 = 1) else .nan
      else if bits / 2 ^ 52 % 2048 = 0 then .finite (bits / 2 ^ 63 % 2 = 1) (bits % 2 ^ 52) (-1074)
      else .finite (bits / 2 ^ 63 % 2 = 1) (bits % 2 ^ 52 + 2 ^ 52)
        (((bits / 2 ^ 52 % 2048 : Nat) : Int) - 1075) := rfl

/-- A finite value gives back the bits it was read from. -/
theorem bits_of_ofBits {bits : Nat} (hbits : bits < 2 ^ 64) {negative : Bool} {m : Nat} {e : Int}
    (h : Exact.ofBits bits = .finite negative m e) :
    bits = (if negative then 2 ^ 63 else 0) +
      if m < 2 ^ 52 then m else (e + 1075).toNat * 2 ^ 52 + (m - 2 ^ 52) := by
  rw [ofBits_def] at h
  split at h
  · split at h <;> cases h
  · split at h
    · cases h
      by_cases hsign : bits / 2 ^ 63 % 2 = 1
      · rw [if_pos (decide_eq_true hsign), if_pos (by omega)]
        omega
      · rw [if_neg (by rw [decide_eq_false hsign]; decide), if_pos (by omega)]
        omega
    · cases h
      by_cases hsign : bits / 2 ^ 63 % 2 = 1
      · rw [if_pos (decide_eq_true hsign), if_neg (by omega)]
        omega
      · rw [if_neg (by rw [decide_eq_false hsign]; decide), if_neg (by omega)]
        omega

/-- The mantissa and exponent of a finite value are those of a double. -/
theorem canonical_of_ofBits {bits : Nat} {negative : Bool} {m : Nat} {e : Int}
    (h : Exact.ofBits bits = .finite negative m e) (hm : 0 < m) : Canonical m e := by
  rw [ofBits_def] at h
  split at h
  · split at h <;> cases h
  · split at h
    · cases h
      exact ⟨hm, by omega, by omega, by omega, .inl rfl⟩
    · cases h
      exact ⟨hm, by omega, by omega, by omega, .inr (by omega)⟩

theorem toBits_injective {x y : Float} (h : x.toBits.toNat = y.toBits.toNat) : x = y := by
  obtain ⟨⟨a, ha⟩⟩ := x
  obtain ⟨⟨b, hb⟩⟩ := y
  cases UInt64.toNat_inj.mp h
  rfl

/-- Numbers of one finite value are equal. -/
theorem eq_of_decode {x y : Float} {negative : Bool} {m : Nat} {e : Int}
    (hx : decode x = .finite negative m e) (hy : decode y = .finite negative m e) : x = y :=
  toBits_injective <|
    (bits_of_ofBits x.toBits.toNat_lt hx).trans (bits_of_ofBits y.toBits.toNat_lt hy).symm

/-- An infinity gives back the bits it was read from. -/
theorem bits_of_infinite {bits : Nat} (hbits : bits < 2 ^ 64) {negative : Bool}
    (h : Exact.ofBits bits = .infinite negative) :
    bits = (if negative then 2 ^ 63 else 0) + 2047 * 2 ^ 52 := by
  rw [ofBits_def] at h
  split at h
  · split at h
    · cases h
      by_cases hsign : bits / 2 ^ 63 % 2 = 1
      · rw [if_pos (decide_eq_true hsign)]
        omega
      · rw [if_neg (by rw [decide_eq_false hsign]; decide)]
        omega
    · cases h
  · split at h <;> cases h

/-- Infinities of one sign are equal. -/
theorem eq_of_infinite {x y : Float} {negative : Bool} (hx : decode x = .infinite negative)
    (hy : decode y = .infinite negative) : x = y :=
  toBits_injective <|
    (bits_of_infinite x.toBits.toNat_lt hx).trans (bits_of_infinite y.toBits.toNat_lt hy).symm

theorem canonical_of_decode {x : Float} {negative : Bool} {m : Nat} {e : Int}
    (h : decode x = .finite negative m e) (hm : 0 < m) : Canonical m e := canonical_of_ofBits h hm

/-- A number that is not zero is unpacked to its sign, mantissa and exponent. -/
theorem unpack_of_decode {x : Float} {negative : Bool} {m : Nat} {e : Int}
    (h : decode x = .finite negative m e) (hm : 0 < m) :
    x.toModel.unpack = .finite (signOf negative) m e hm := by
  rw [decode_eq] at h
  cases hu : x.toModel.unpack with
  | notANumber => rw [hu] at h; cases h
  | infinity s => rw [hu] at h; cases h
  | zero s => rw [hu] at h; cases h; cases hm
  | finite s m' e' hm' =>
    rw [hu] at h
    cases h
    rw [signOf_isNegative]

theorem toNat_packComponents (s : Sign) (exponent : BitVec Format.binary64.exponentBits)
    (mantissa : BitVec Format.binary64.mantissaBitsWithoutImplicit) :
    (packComponents Format.binary64 s exponent mantissa).toNat =
      s.toBitVec.toNat * 2 ^ 63 + exponent.toNat * 2 ^ 52 + mantissa.toNat := by
  unfold packComponents
  rw [BitVec.toNat_append, ← Nat.shiftLeft_add_eq_or_of_lt mantissa.isLt, BitVec.toNat_append,
    ← Nat.shiftLeft_add_eq_or_of_lt exponent.isLt, Nat.shiftLeft_eq, Nat.shiftLeft_eq]
  change (_ * 2 ^ 11 + _) * 2 ^ 52 + _ = _
  omega

/-- The fields of the bits of a sign, an exponent and a fraction. -/
theorem ofBits_fields (s : Sign) {exponent fraction : Nat} (hexponent : exponent < 2047)
    (hfraction : fraction < 2 ^ 52) :
    Exact.ofBits (s.toBitVec.toNat * 2 ^ 63 + exponent * 2 ^ 52 + fraction) =
      if exponent = 0 then .finite (isNegative s) fraction (-1074)
      else .finite (isNegative s) (fraction + 2 ^ 52) ((exponent : Int) - 1075) := by
  obtain ⟨t, ht, hsign⟩ : ∃ t, s.toBitVec.toNat = t ∧ isNegative s = decide (t = 1) ∧ t < 2 := by
    cases s
    · exact ⟨1, rfl, rfl, by decide⟩
    · exact ⟨0, rfl, rfl, by decide⟩
  have hfield : (t * 2 ^ 63 + exponent * 2 ^ 52 + fraction) / 2 ^ 52 % 2048 = exponent := by omega
  have hrest : (t * 2 ^ 63 + exponent * 2 ^ 52 + fraction) % 2 ^ 52 = fraction := by omega
  have htop : (t * 2 ^ 63 + exponent * 2 ^ 52 + fraction) / 2 ^ 63 % 2 = t := by omega
  rw [ofBits_def, ht, hfield, hrest, htop, if_neg (by omega), hsign.1]

/-- Packing keeps the value. -/
theorem decode_pack {m : Nat} {e : Int} (hc : Canonical m e) (s : Sign) :
    decode (.ofModel (.pack (.finite s m e hc.pos))) = .finite (isNegative s) m e := by
  have hlt := hc.lt
  have hleast := hc.least
  have hmost := hc.most
  have hpos := hc.pos
  show Exact.ofBits (UnpackedFloat.pack Format.binary64 (.finite s m e hc.pos)).toNat = _
  have hbiased : (e + Format.binary64.exponentBias + Format.binary64.mantissaBitsWithoutImplicit) =
      e + 1075 := by
    show e + 1023 + 52 = e + 1075
    omega
  unfold UnpackedFloat.pack
  dsimp only
  rw [hbiased, if_neg (show ¬2 ^ 11 ≤ (e + 1075).toNat + 1 by omega)]
  have hlog : m.log2 + 1 = Format.binary64.mantissaBits ↔ 2 ^ 52 ≤ m := by
    show m.log2 + 1 = 53 ↔ 2 ^ 52 ≤ m
    rw [← Nat.le_log2 (Nat.ne_of_gt hpos)]
    have := (Nat.log2_lt (Nat.ne_of_gt hpos)).mpr hlt
    omega
  by_cases hnormal : 2 ^ 52 ≤ m
  · have hexponent : (BitVec.ofNat Format.binary64.exponentBits (e + 1075).toNat).toNat =
        (e + 1075).toNat := Nat.mod_eq_of_lt (show (e + 1075).toNat < 2 ^ 11 by omega)
    have hmantissa : (BitVec.ofNat Format.binary64.mantissaBitsWithoutImplicit m).toNat =
        m - 2 ^ 52 := by
      show m % 2 ^ 52 = m - 2 ^ 52
      omega
    rw [if_pos (hlog.mpr hnormal), toNat_packComponents, hexponent, hmantissa,
      ofBits_fields s (by omega) (by omega), if_neg (by omega), Nat.sub_add_cancel hnormal]
    have hunbiased : ((e + 1075).toNat : Int) - 1075 = e := by omega
    rw [hunbiased]
  · have he : e = -1074 := hc.full.resolve_right hnormal
    have hmantissa : (BitVec.ofNat Format.binary64.mantissaBitsWithoutImplicit m).toNat = m :=
      Nat.mod_eq_of_lt (show m < 2 ^ 52 by omega)
    rw [if_neg (mt hlog.mp hnormal), toNat_packComponents, hmantissa, he]
    exact ofBits_fields s (by decide) (by omega)

theorem decode_neg {x : Float} {negative : Bool} {m : Nat} {e : Int}
    (h : decode x = .finite negative m e) (hm : 0 < m) : decode (-x) = .finite (!negative) m e := by
  have hpack : -x = .ofModel (.pack (.finite (-signOf negative) m e hm)) := by
    show Float.ofModel (.pack x.toModel.unpack.neg) = _
    rw [unpack_of_decode h hm]
    rfl
  rw [hpack, decode_pack (canonical_of_decode h hm), ← signOf_not, isNegative_signOf]

/-! ### Products, quotients and decimals -/

variable {x y : Float} {m m₁ m₂ : Nat} {e e₁ e₂ : Int}

theorem decode_mul (hx : decode x = .finite false m₁ e₁) (hy : decode y = .finite false m₂ e₂)
    (h₁ : 0 < m₁) (h₂ : 0 < m₂) (henough : 2 ^ 52 ≤ m₁) (hc : Canonical m e)
    (hr : RoundsTo m e (m₁ * 2 ^ e₁ * (m₂ * 2 ^ e₂))) : decode (x * y) = .finite false m e := by
  have hpack : x * y = .ofModel (.pack (.finite .positive m e hc.pos)) := by
    show Float.ofModel (.pack (UnpackedFloat.mul _ x.toModel.unpack y.toModel.unpack)) = _
    rw [unpack_of_decode hx h₁, unpack_of_decode hy h₂, (mul_isRounded e₁ e₂ h₁ h₂ henough _ _).eq_finite hc.rounded hr]
    rfl
  rw [hpack, decode_pack hc]
  rfl

theorem decode_div (hx : decode x = .finite false m₁ e₁) (hy : decode y = .finite false m₂ e₂)
    (h₁ : 0 < m₁) (h₂ : 0 < m₂) (hc : Canonical m e)
    (hr : RoundsTo m e (m₁ * 2 ^ e₁ / (m₂ * 2 ^ e₂))) : decode (x / y) = .finite false m e := by
  have hpack : x / y = .ofModel (.pack (.finite .positive m e hc.pos)) := by
    show Float.ofModel (.pack (UnpackedFloat.div _ x.toModel.unpack y.toModel.unpack)) = _
    rw [unpack_of_decode hx h₁, unpack_of_decode hy h₂, (div_isRounded e₁ e₂ h₁ h₂ _ _).eq_finite hc.rounded hr]
    rfl
  rw [hpack, decode_pack hc]
  rfl

/-- A natural number of at most fifty-three bits is a double. -/
theorem decode_toFloat {n : Nat} (hpos : 0 < n) (hn : n < 2 ^ 53) :
    ∃ m e, decode n.toUInt64.toFloat = .finite false m e ∧ 2 ^ 52 ≤ m ∧ (m : ℚ) * 2 ^ e = n := by
  have hlog := (Nat.log2_lt (Nat.ne_of_gt hpos)).mpr hn
  obtain ⟨k, hk⟩ : ∃ k, n.log2 + k = 52 := ⟨52 - n.log2, by omega⟩
  have hlow : 2 ^ 52 ≤ n * 2 ^ k := by
    rw [← hk, Nat.pow_add]
    exact Nat.mul_le_mul_right _ (Nat.log2_self_le (Nat.ne_of_gt hpos))
  have hhigh : n * 2 ^ k < 2 ^ 53 := by
    have h53 : 2 ^ 53 = 2 ^ (n.log2 + 1) * 2 ^ k := by
      rw [← Nat.pow_add]
      congr 1
      omega
    rw [h53]
    exact Nat.mul_lt_mul_of_pos_right Nat.lt_log2_self (Nat.two_pow_pos k)
  have hvalue : ((n * 2 ^ k : Nat) : ℚ) * 2 ^ (-k : Int) = n * 2 ^ (0 : Int) := by
    rw [zpow_neg, zpow_natCast, zpow_zero]
    push_cast
    field_simp
  have hc : Canonical (n * 2 ^ k) (-k) := ⟨by omega, hhigh, by omega, by omega, .inr hlow⟩
  have hpack : n.toUInt64.toFloat = .ofModel (.pack (.finite .positive (n * 2 ^ k) (-k) hc.pos)) := by
    show Float.ofModel (.pack (UnpackedFloat.ofNat _ n.toUInt64.toNat)) = _
    have hsize : n.toUInt64.toNat = n := Nat.mod_eq_of_lt (show n < 2 ^ 64 by omega)
    rw [hsize]
    unfold UnpackedFloat.ofNat UnpackedFloat.ofInt UnpackedFloat.normalize
    rw [show compare (n : Int) 0 = .gt from compare_gt_iff_gt.mpr (by omega)]
    dsimp only
    rw [Int.toNat_natCast, (round_isRounded 0 hpos _).eq_finite hc.rounded (hvalue ▸ .self _ _)]
  refine ⟨n * 2 ^ k, -k, ?_, hlow, ?_⟩
  · rw [hpack, decode_pack hc]
    rfl
  · rw [hvalue, zpow_zero, mul_one]

/-- The powers of ten up to the twenty-second are doubles. -/
theorem decode_powersOfTen_table : ∀ k : Fin 23,
    decode (Float.exactlyRepresentablePowersOfTen.getD k 0) =
        .finite false (10 ^ k.val * 2 ^ 52 / 2 ^ (10 ^ k.val).log2) ((10 ^ k.val).log2 - 52) ∧
      2 ^ (10 ^ k.val).log2 ∣ 10 ^ k.val * 2 ^ 52 := by
  decide +kernel

theorem decode_powersOfTen {k : Nat} (hk : k < Float.exactlyRepresentablePowersOfTen.size) :
    ∃ m e, decode Float.exactlyRepresentablePowersOfTen[k] = .finite false m e ∧ 0 < m ∧
      (m : ℚ) * 2 ^ e = 10 ^ k := by
  obtain ⟨hdecode, hexact⟩ := decode_powersOfTen_table ⟨k, hk⟩
  rw [Array.getD_eq_getD_getElem?, Array.getElem?_eq_getElem hk, Option.getD_some] at hdecode
  dsimp only at hexact
  have hvalue : ((10 ^ k * 2 ^ 52 / 2 ^ (10 ^ k).log2 : Nat) : ℚ) * 2 ^ (((10 ^ k).log2 : Int) - 52) =
      10 ^ k := by
    rw [Nat.cast_div hexact (by positivity), zpow_sub₀ two_ne_zero, zpow_natCast]
    push_cast
    field_simp
  refine ⟨_, _, hdecode, Nat.pos_of_ne_zero fun hzero => ?_, hvalue⟩
  rw [hzero, Nat.cast_zero, zero_mul] at hvalue
  exact absurd hvalue (by positivity)

/-- What rounds to a double is no smaller than half the smallest one. -/
theorem RoundsTo.two_zpow_le {q : ℚ} (h : RoundsTo m e q) (hc : Canonical m e) :
    2 ^ (-1075 : Int) ≤ q := by
  have hm : (1 : ℚ) ≤ m := by exact_mod_cast hc.pos
  have hreach := reachBelow_le m e
  have hhalf : (2 : ℚ) ^ (-1075 : Int) = 1 / 2 * 2 ^ (-1074 : Int) := by
    rw [show (-1075 : Int) = -1 + -1074 from rfl, zpow_add₀ two_ne_zero]
    norm_num
  rw [hhalf]
  refine le_trans (mul_le_mul ?_ (zpow_le_zpow_right₀ one_le_two hc.least) (by positivity) ?_) h.low
  · linarith
  · linarith

/-- A decimal that rounds to a double is not zero. -/
theorem RoundsTo.coefficient_pos {c : Nat} {k : Int} (h : RoundsTo m e (c * 10 ^ k))
    (hc : Canonical m e) : 0 < c := by
  rcases Nat.eq_zero_or_pos c with rfl | hpos
  · have hle := h.two_zpow_le hc
    rw [Nat.cast_zero, zero_mul] at hle
    exact absurd hle (not_le.mpr (by positivity))
  · exact hpos

/-- What rounds to a double is below every double's power of two. -/
theorem RoundsTo.lt_two_pow {q : ℚ} (h : RoundsTo m e q) (hc : Canonical m e) : q < 2 ^ 1024 := by
  rw [← zpow_natCast]
  refine lt_of_lt_of_le (h.lt_two_zpow hc.lt) (zpow_le_zpow_right₀ one_le_two ?_)
  have := hc.most
  show e + 52 + 1 ≤ 1024
  omega

/-- A decimal is below a power of ten by its binary digits, three to a decimal
digit. -/
theorem decimal_lt (c : Nat) (k : Int) : (c : ℚ) * 10 ^ k < 10 ^ (k + (c.log2 / 3 : Nat) + 1) := by
  have hnat : c < 10 ^ (c.log2 / 3 + 1) :=
    calc c < 2 ^ (c.log2 + 1) := Nat.lt_log2_self
      _ ≤ 2 ^ (3 * (c.log2 / 3 + 1)) := Nat.pow_le_pow_right two_pos (by omega)
      _ = 8 ^ (c.log2 / 3 + 1) := Nat.pow_mul 2 3 _
      _ ≤ 10 ^ (c.log2 / 3 + 1) := Nat.pow_le_pow_left (by decide) _
  have hsplit : (10 : ℚ) ^ (k + (c.log2 / 3 : Nat) + 1) = (10 ^ (c.log2 / 3 + 1) : Nat) * 10 ^ k := by
    rw [Nat.cast_pow, Nat.cast_ofNat, ← zpow_natCast, ← zpow_add₀ (by norm_num)]
    congr 1
    omega
  rw [hsplit]
  exact mul_lt_mul_of_pos_right (Nat.cast_lt.mpr hnat) (by positivity)

/-- A decimal is at least a power of ten by its binary digits, ten to three
decimal digits. -/
theorem le_decimal {c : Nat} (hpos : 0 < c) (k : Int) :
    (10 : ℚ) ^ (k + (c.log2 * 3 / 10 : Nat)) ≤ c * 10 ^ k := by
  have hnat : 10 ^ (c.log2 * 3 / 10) ≤ c := by
    refine Nat.le_trans ?_ (Nat.log2_self_le (Nat.ne_of_gt hpos))
    refine (Nat.pow_le_pow_iff_left (by decide : 10 ≠ 0)).mp ?_
    calc (10 ^ (c.log2 * 3 / 10)) ^ 10 = 10 ^ (c.log2 * 3 / 10 * 10) := (Nat.pow_mul ..).symm
      _ ≤ 10 ^ (3 * c.log2) := Nat.pow_le_pow_right (by decide) (by omega)
      _ = 1000 ^ c.log2 := Nat.pow_mul 10 3 _
      _ ≤ 1024 ^ c.log2 := Nat.pow_le_pow_left (by decide) _
      _ = (2 ^ c.log2) ^ 10 := by rw [← Nat.pow_mul, Nat.mul_comm, Nat.pow_mul]
  have hsplit : (10 : ℚ) ^ (k + (c.log2 * 3 / 10 : Nat)) = (10 ^ (c.log2 * 3 / 10) : Nat) * 10 ^ k := by
    rw [Nat.cast_pow, Nat.cast_ofNat, ← zpow_natCast, ← zpow_add₀ (by norm_num), Int.add_comm]
  rw [hsplit]
  exact mul_le_mul_of_nonneg_right (Nat.cast_le.mpr hnat) (by positivity)

/-- What is below this power of ten is below half the least double. -/
theorem ten_zpow_lt : (10 : ℚ) ^ (-400 : Int) < 2 ^ (-1075 : Int) := by
  have hnat : 2 ^ 1075 < 10 ^ 400 :=
    calc 2 ^ 1075 = (2 ^ 10) ^ 107 * 2 ^ 5 := by rw [← Nat.pow_mul, ← Nat.pow_add]
      _ < (10 ^ 4) ^ 99 * 10 ^ 4 := by norm_num
      _ = 10 ^ 400 := by rw [← Nat.pow_mul, ← Nat.pow_add]
  rw [show (-400 : Int) = -(400 : Nat) from rfl, show (-1075 : Int) = -(1075 : Nat) from rfl,
    zpow_neg, zpow_neg, zpow_natCast, zpow_natCast]
  exact inv_strictAnti₀ (by positivity) (by exact_mod_cast hnat)

/-- What is beyond this power of ten is beyond every double. -/
theorem two_pow_le_ten : (2 : ℚ) ^ 1024 ≤ 10 ^ (400 : Int) := by
  have hnat : 2 ^ 1024 ≤ 10 ^ 400 :=
    calc 2 ^ 1024 = (2 ^ 10) ^ 102 * 2 ^ 4 := by rw [← Nat.pow_mul, ← Nat.pow_add]
      _ ≤ (10 ^ 3) ^ 102 * 10 ^ 94 := by norm_num
      _ = 10 ^ 400 := by rw [← Nat.pow_mul, ← Nat.pow_add]
  rw [show (400 : Int) = (400 : Nat) from rfl, zpow_natCast]
  exact_mod_cast hnat

/-- What is taken for zero is below half the least double. -/
theorem decimal_lt_of_most {c : Nat} {k : Int} (h : k + ((c.log2 / 3 : Nat) : Int) < -400) :
    (c : ℚ) * 10 ^ k < 2 ^ (-1075 : Int) :=
  calc (c : ℚ) * 10 ^ k < 10 ^ (k + (c.log2 / 3 : Nat) + 1) := decimal_lt c k
    _ ≤ 10 ^ (-400 : Int) := zpow_le_zpow_right₀ (by norm_num) (by omega)
    _ < 2 ^ (-1075 : Int) := ten_zpow_lt

/-- What is taken for an infinity is beyond every double. -/
theorem le_decimal_of_least {c : Nat} (hpos : 0 < c) {k : Int}
    (h : 400 < k + ((c.log2 * 3 / 10 : Nat) : Int)) : (2 : ℚ) ^ 1024 ≤ c * 10 ^ k :=
  calc (2 : ℚ) ^ 1024 ≤ 10 ^ (400 : Int) := two_pow_le_ten
    _ ≤ 10 ^ (k + (c.log2 * 3 / 10 : Nat)) := zpow_le_zpow_right₀ (by norm_num) (by omega)
    _ ≤ c * 10 ^ k := le_decimal hpos k

/-- A decimal that rounds to a double is neither too small nor too large. -/
theorem RoundsTo.decimal_bounds {c : Nat} {k : Int} (h : RoundsTo m e (c * 10 ^ k))
    (hc : Canonical m e) (hpos : 0 < c) :
    -400 ≤ k + ((c.log2 / 3 : Nat) : Int) ∧ k + ((c.log2 * 3 / 10 : Nat) : Int) ≤ 400 := by
  refine ⟨not_lt.mp fun hsmall => ?_, not_lt.mp fun hlarge => ?_⟩
  · exact absurd (h.two_zpow_le hc) (not_le.mpr (decimal_lt_of_most hsmall))
  · exact absurd (h.lt_two_pow hc) (not_lt.mpr (le_decimal_of_least hpos hlarge))

/-- A decimal that is no shortcut is the exact quotient or product rounded. -/
theorem unpackedOfScientific_isRounded {c : Nat} {k : Int} (hpos : 0 < c) (hmost : k ≤ 2 ^ 11)
    (hleast : -((2 ^ 11 : Int) + c.log2) ≤ k) :
    IsRounded (UnpackedFloat.ofScientific Format.binary64 c k) .positive (c * 10 ^ k) := by
  unfold UnpackedFloat.ofScientific
  rw [dif_neg (Nat.ne_of_gt hpos), if_neg (show ¬k > 2 ^ 11 by omega),
    if_neg (show ¬k < -((2 ^ 11 : Int) + c.log2) by omega)]
  by_cases hk : 0 ≤ k
  · rw [if_pos hk]
    obtain ⟨n, rfl⟩ := Int.eq_ofNat_of_zero_le hk
    have hfull : 2 ^ 52 ≤ c <<< 53 := by
      rw [Nat.shiftLeft_eq]
      exact Nat.le_trans (Nat.pow_le_pow_right two_pos (by decide : 52 ≤ 53))
        (Nat.le_mul_of_pos_left _ hpos)
    have hvalue : ((c <<< 53 : Nat) : ℚ) * 2 ^ (-53 : Int) * ((10 ^ n : Nat) * 2 ^ (0 : Int)) =
        c * 10 ^ (n : Int) := by
      rw [Nat.shiftLeft_eq, zpow_neg, zpow_zero, zpow_natCast]
      push_cast
      field_simp
    rw [← hvalue]
    exact mul_isRounded (-53) 0 (by rw [Nat.shiftLeft_eq]; positivity) (by positivity) hfull
      .positive .positive
  · rw [if_neg hk]
    have hvalue : (c : ℚ) * 2 ^ (0 : Int) / ((10 ^ (-k).toNat : Nat) * 2 ^ (0 : Int)) = c * 10 ^ k := by
      have hexponent : k = -((-k).toNat : Int) := by omega
      rw [hexponent, zpow_neg, zpow_zero, zpow_natCast, Int.neg_neg, Int.toNat_natCast]
      push_cast
      field_simp
    rw [← hvalue]
    exact div_isRounded 0 0 hpos (by positivity) .positive .positive

theorem unpackedOfScientific_eq {c : Nat} {k : Int} (hpos : 0 < c) (hc : Canonical m e)
    (hr : RoundsTo m e (c * 10 ^ k)) :
    UnpackedFloat.ofScientific Format.binary64 c k = .finite .positive m e hc.pos := by
  obtain ⟨hleast, hmost⟩ := hr.decimal_bounds hc hpos
  exact (unpackedOfScientific_isRounded hpos (by omega) (by omega)).eq_finite hc.rounded hr

/-- A decimal with too many digits or too large an exponent is no shortcut. -/
theorem ofScientific_eq_pack {c : Nat} {k : Int} (h : ¬(c < 2 ^ 53 ∧ k.natAbs ≤ 22)) :
    Float.ofScientific c (k < 0) k.natAbs =
      .ofModel (.pack (UnpackedFloat.ofScientific Format.binary64 c k)) := by
  have hexponent : (if decide (k < 0) then Int.negOfNat k.natAbs else Int.ofNat k.natAbs) = k := by
    rw [Int.negOfNat_eq, Int.ofNat_eq_natCast]
    split
    · rename_i hk
      have := of_decide_eq_true hk
      omega
    · rename_i hk
      have := of_decide_eq_false (Bool.eq_false_iff.mpr hk)
      omega
  unfold Float.ofScientific
  rw [dif_neg h]
  dsimp only
  rw [hexponent]
  rfl

/-- **A decimal is read as the double that its value rounds to.** -/
theorem decode_ofScientific {c : Nat} {k : Int} (hpos : 0 < c) (hc : Canonical m e)
    (hr : RoundsTo m e (c * 10 ^ k)) :
    decode (Float.ofScientific c (k < 0) k.natAbs) = .finite false m e := by
  by_cases hfast : c < 2 ^ 53 ∧ k.natAbs ≤ 22
  · obtain ⟨m₁, e₁, hx, henough, hvalue₁⟩ := decode_toFloat hpos hfast.1
    obtain ⟨m₂, e₂, hy, hpos₂, hvalue₂⟩ := decode_powersOfTen (k := k.natAbs)
      (show k.natAbs < 23 by omega)
    unfold Float.ofScientific
    rw [dif_pos hfast]
    dsimp only
    split
    · rename_i hk
      refine decode_div hx hy (by omega) hpos₂ hc ?_
      rw [hvalue₁, hvalue₂]
      convert hr using 1
      have hk' : k = -(k.natAbs : Int) := by
        have := of_decide_eq_true hk
        omega
      rw [hk', zpow_neg, zpow_natCast, Int.natAbs_neg, Int.natAbs_natCast, div_eq_mul_inv]
    · rename_i hk
      refine decode_mul hx hy (by omega) hpos₂ henough hc ?_
      rw [hvalue₁, hvalue₂]
      convert hr using 1
      have hk' : k = (k.natAbs : Int) := by
        have := of_decide_eq_false (Bool.eq_false_iff.mpr hk)
        omega
      rw [hk', zpow_natCast, Int.natAbs_natCast]
  · rw [ofScientific_eq_pack hfast, unpackedOfScientific_eq hpos hc hr, decode_pack hc]
    rfl

/-- **A decimal that rounds to a number is read as that number**, with the
number's sign. -/
theorem ofDecimal_eq {negative : Bool} {c : Nat} {k : Int} (hx : decode x = .finite negative m e)
    (hm : 0 < m) (hr : RoundsTo m e (c * 10 ^ k)) : ofDecimal negative c k = x := by
  have hc := canonical_of_decode hx hm
  have hpos := hr.coefficient_pos hc
  have hdecimal := decode_ofScientific hpos hc hr
  obtain ⟨hleast, hmost⟩ := hr.decimal_bounds hc hpos
  unfold ofDecimal
  dsimp only
  rw [Int.ofNat_eq_natCast, Int.ofNat_eq_natCast,
    if_neg (show ¬(c = 0 ∨ k + ((c.log2 / 3 : Nat) : Int) < -400) by omega), if_neg (not_lt.mpr hmost)]
  cases negative with
  | false => exact eq_of_decode hdecimal hx
  | true => exact eq_of_decode (decode_neg hdecimal hm) hx

/-! ### Integers -/

/-- Zero for negative zero, and any other number itself. -/
def plainZero (x : Float) : Float := if decode x = .finite true 0 (-1074) then 0.0 else x

theorem isFinite_of_integer? {n : Int} (h : integer? x = some n) : isFinite x = true := by
  unfold integer? Exact.integer? at h
  split at h
  · rename_i hx
    unfold isFinite
    rw [hx]
  · cases h

theorem wholePart_zero : ∀ e : Int, wholePart 0 e = 0
  | .ofNat _ => Nat.zero_mul _
  | .negSucc _ => Nat.zero_div _

theorem hasFraction_zero : ∀ e : Int, hasFraction 0 e = false
  | .ofNat _ => rfl
  | .negSucc e => by
    show decide (0 % Nat.pow 2 (e + 1) ≠ 0) = false
    rw [Nat.zero_mod]
    rfl

theorem decode_zero : decode 0.0 = .finite false 0 (-1074) := by
  rw [decode_eq]
  rfl

/-- The exponent of a zero is the least one. -/
theorem exponent_of_zero {negative : Bool} (h : decode x = .finite negative 0 e) : e = -1074 := by
  unfold decode at h
  rw [ofBits_def] at h
  split at h
  · split at h <;> cases h
  · split at h
    · exact (Exact.finite.inj h).2.2.symm
    · have := (Exact.finite.inj h).2.1
      omega

/-- An integer value is the whole part. -/
theorem wholePart_eq : ∀ (m : Nat) (e : Int), hasFraction m e = false →
    (wholePart m e : ℚ) = m * 2 ^ e
  | m, .ofNat e, _ => by
    show ((m * 2 ^ e : Nat) : ℚ) = _
    rw [Int.ofNat_eq_natCast, zpow_natCast]
    push_cast
    rfl
  | m, .negSucc e, h => by
    have hdvd : 2 ^ (e + 1) ∣ m := Nat.dvd_of_mod_eq_zero (not_not.mp (of_decide_eq_false h))
    show ((m / 2 ^ (e + 1) : Nat) : ℚ) = _
    rw [zpow_negSucc, ← div_eq_mul_inv, Nat.cast_div hdvd (by positivity)]
    push_cast
    rfl

/-- An integral double is the double nearest to its integer. -/
theorem decode_ofNat {n : Nat} (hc : Canonical m e) (hn : (n : ℚ) = m * 2 ^ e) :
    decode (Float.ofNat n) = .finite false m e := by
  have hpos : (0 : ℚ) < n := by
    have hm : (0 : ℚ) < m := by exact_mod_cast hc.pos
    rw [hn]
    positivity
  have hr : RoundsTo m e (n * 10 ^ (0 : Int)) := by
    rw [zpow_zero, mul_one, hn]
    exact .self m e
  have hdecimal := decode_ofScientific (by exact_mod_cast hpos) hc hr
  rw [show decide ((0 : Int) < 0) = false from rfl] at hdecimal
  exact hdecimal

theorem ofInt?_of_decode {n : Int} {negative : Bool} (h : ofInt n = x)
    (hx : decode x = .finite negative m e) : ofInt? n = some x := by
  unfold ofInt? isInfinite
  dsimp only
  rw [h, hx]
  rfl

/-- **A number that is an integer is the double of that integer**, negative zero
apart, which is the same integer as zero. -/
theorem ofInt?_integer? {n : Int} (h : integer? x = some n) : ofInt? n = some (plainZero x) := by
  unfold integer? Exact.integer? at h
  split at h
  · rename_i negative m e hx
    split at h
    · cases h
    · rename_i hwhole
      cases h
      have hvalue := wholePart_eq m e (Bool.eq_false_iff.mpr hwhole)
      rcases Nat.eq_zero_or_pos m with rfl | hm
      · -- Either zero: the integer is zero.
        obtain rfl := exponent_of_zero hx
        have hplain : plainZero x = 0.0 := by
          unfold plainZero
          split
          · rfl
          · rename_i hne
            cases negative
            · exact eq_of_decode hx decode_zero
            · exact absurd hx hne
        rw [wholePart_zero, hplain]
        cases negative <;> exact ofInt?_of_decode rfl decode_zero
      · have hc := canonical_of_decode hx hm
        have hplain : plainZero x = x := by
          unfold plainZero
          rw [hx]
          exact if_neg fun h => by cases h; cases hm
        have hdecode := decode_ofNat hc hvalue
        rw [hplain]
        cases negative with
        | false => exact ofInt?_of_decode (eq_of_decode hdecode hx) hx
        | true =>
          have hpos : 0 < wholePart m e := by
            have : (0 : ℚ) < wholePart m e := by
              have hm' : (0 : ℚ) < m := by exact_mod_cast hm
              rw [hvalue]
              positivity
            exact_mod_cast this
          obtain ⟨n, hn⟩ : ∃ n, wholePart m e = n + 1 := ⟨wholePart m e - 1, by omega⟩
          rw [hn] at hdecode ⊢
          exact ofInt?_of_decode (eq_of_decode (decode_neg hdecode hm) hx) hx
  · cases h

end RuleScript.Number
