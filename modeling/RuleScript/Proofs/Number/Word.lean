/-
# Bitwise operators

The bitwise operators see a number as the 32-bit word of its whole part. That word
is the one integer from `-2 ^ 31` up to `2 ^ 31` that is congruent to the whole
part, and it can be had by masking the low bits and giving the highest of them its
sign (`lowWord`).

Integers have bits as well, in two's complement and without an end. An integer is a
word if all its bits from the highest of a word on are the same
(`isWord_iff_testBit`). So an operation on the bits of words gives a word, the same
one as on vectors of 32 bits, and to cut it to a word again changes nothing.

Key definitions: `IsWord`, `BitOp`.
Key theorems: `isWord_iff_testBit`, `lowWord_eq_bmod`, `eq_toWord_iff`,
`BitOp.toInt_onVectors`, `BitOp.onWords_onIntegers`, `bitwise_operators_work_on_words`.
-/
import Mathlib.Data.Int.Bitwise
import Mathlib.Data.Int.ModEq
import RuleScript.Number.Arithmetic
import RuleScript.Proofs.Number.Truncation
import RuleScript.Proofs.Reduction.Precedence

namespace RuleScript

namespace Number

variable {n : Int}

/-! ### Words -/

/-- An integer that 32 bits hold in two's complement. -/
def IsWord (n : Int) : Prop := -2 ^ 31 ≤ n ∧ n < 2 ^ 31

/-- The bits of a natural number below a power of two end there; of no other number
they become constant. -/
theorem lt_two_pow_iff_testBit (k w : Nat) :
    k < 2 ^ w ↔ ∀ i, w ≤ i → k.testBit i = k.testBit w := by
  constructor
  · intro hk i hi
    have hki : k < 2 ^ i := lt_of_lt_of_le hk (Nat.pow_le_pow_right (by decide) hi)
    rw [Nat.testBit_lt_two_pow hki, Nat.testBit_lt_two_pow hk]
  · intro hbits
    have hlarge : k < 2 ^ max w k :=
      lt_of_lt_of_le Nat.lt_two_pow_self (Nat.pow_le_pow_right (by decide) (le_max_right w k))
    have hnone : k.testBit w = false := by
      rw [← hbits (max w k) (le_max_left w k)]
      exact Nat.testBit_lt_two_pow hlarge
    apply Nat.lt_pow_two_of_testBit
    intro i hi
    rw [hbits i hi, hnone]

/-- **An integer is a word if its bits are the same from the highest of a word on.** -/
theorem isWord_iff_testBit : IsWord n ↔ ∀ i, 31 ≤ i → n.testBit i = n.testBit 31 := by
  unfold IsWord
  cases n with
  | ofNat k =>
    have hbits := lt_two_pow_iff_testBit k 31
    have hbound : (-2 ^ 31 ≤ Int.ofNat k ∧ Int.ofNat k < 2 ^ 31) ↔ k < 2 ^ 31 := by
      simp only [Int.ofNat_eq_natCast]
      omega
    rw [hbound, hbits]
    rfl
  | negSucc k =>
    have hbits := lt_two_pow_iff_testBit k 31
    have hbound : (-2 ^ 31 ≤ Int.negSucc k ∧ Int.negSucc k < 2 ^ 31) ↔ k < 2 ^ 31 := by
      simp only [Int.negSucc_eq]
      omega
    rw [hbound, hbits]
    simp only [Int.testBit, Bool.not_inj_iff]

/-- A vector of bits that is cut off an integer has the bits of the integer. -/
theorem getLsbD_ofInt (w : Nat) (n : Int) (i : Nat) :
    (BitVec.ofInt w n).getLsbD i = (decide (i < w) && n.testBit i) := by
  rw [BitVec.getLsbD, BitVec.toNat_ofInt]
  cases n with
  | ofNat k =>
    have hlow : (Int.ofNat k % ((2 ^ w : Nat) : Int)).toNat = k % 2 ^ w := by
      rw [Int.ofNat_eq_natCast, ← Int.natCast_emod, Int.toNat_natCast]
    rw [hlow, Nat.testBit_mod_two_pow]
    rfl
  | negSucc k =>
    have hlow : (Int.negSucc k % ((2 ^ w : Nat) : Int)).toNat = 2 ^ w - (k % 2 ^ w + 1) := by
      have hpos : 0 < 2 ^ w := Nat.two_pow_pos w
      rw [Int.negSucc_emod k (by exact_mod_cast hpos), ← Int.natCast_emod]
      omega
    rw [hlow, Nat.testBit_two_pow_sub_succ (Nat.mod_lt k (Nat.two_pow_pos w)), Nat.testBit_mod_two_pow]
    by_cases hi : i < w
    · simp [hi, Int.testBit]
    · simp [hi]

/-! The bits of integers are those of two's complement. -/

theorem integerAnd_eq_land : integerAnd = Int.land := by
  funext m n
  cases m <;> cases n <;> rfl

theorem integerOr_eq_lor : integerOr = Int.lor := by
  funext m n
  cases m <;> cases n <;> rfl

theorem integerXor_eq_xor : integerXor = Int.xor := by
  funext m n
  cases m <;> cases n <;> rfl

/-- To mask the low bits is to take the remainder. -/
theorem land_mask (n : Int) (w : Nat) : n.land (2 ^ w - 1) = n % 2 ^ w := by
  have hpos : 0 < 2 ^ w := Nat.two_pow_pos w
  have hmask : (2 ^ w - 1 : Int) = Int.ofNat (2 ^ w - 1) := by
    rw [Int.ofNat_eq_natCast, Nat.cast_sub hpos]
    push_cast
    rfl
  rw [hmask]
  cases n with
  | ofNat k =>
    show ((k &&& (2 ^ w - 1) : Nat) : Int) = (k : Int) % 2 ^ w
    rw [Nat.and_two_pow_sub_one_eq_mod]
    push_cast
    rfl
  | negSucc k =>
    have hbits : Nat.ldiff (2 ^ w - 1) k = 2 ^ w - (k % 2 ^ w + 1) := by
      apply Nat.eq_of_testBit_eq
      intro i
      rw [Nat.testBit_ldiff, Nat.testBit_two_pow_sub_one,
        Nat.testBit_two_pow_sub_succ (Nat.mod_lt k hpos), Nat.testBit_mod_two_pow]
      by_cases hi : i < w
      · simp [hi]
      · simp [hi]
    show ((Nat.ldiff (2 ^ w - 1) k : Nat) : Int) = Int.negSucc k % 2 ^ w
    rw [hbits, Int.negSucc_emod k (by exact_mod_cast hpos)]
    have hrest := Nat.mod_lt k hpos
    push_cast [Nat.cast_sub hrest]
    ring

/-- **Masking and giving the highest bit its sign is the remainder nearest to
zero.** -/
theorem lowWord_eq_bmod (n : Int) : lowWord n = n.bmod (2 ^ 32) := by
  have hlow : integerAnd n 0xFFFFFFFF = n % 2 ^ 32 := by
    rw [integerAnd_eq_land]
    exact land_mask n 32
  unfold lowWord Int.bmod
  rw [hlow]
  norm_num
  split <;> split <;> omega

theorem isWord_bmod (n : Int) : IsWord (n.bmod (2 ^ 32)) := by
  have hlow := Int.le_bmod (x := n) (m := 2 ^ 32) (by decide)
  have hhigh := Int.bmod_lt (x := n) (m := 2 ^ 32) (by decide)
  unfold IsWord
  norm_num at hlow hhigh ⊢
  omega

/-- A word is the one integer in its range that is congruent to an integer. -/
theorem eq_bmod_iff {w : Int} : w = n.bmod (2 ^ 32) ↔ IsWord w ∧ w ≡ n [ZMOD 2 ^ 32] := by
  constructor
  · rintro rfl
    exact ⟨isWord_bmod n, Int.bmod_emod⟩
  · rintro ⟨⟨hlow, hhigh⟩, hmod⟩
    obtain ⟨hlow', hhigh'⟩ := isWord_bmod n
    have hsame : w % 2 ^ 32 = n.bmod (2 ^ 32) % 2 ^ 32 := hmod.trans Int.bmod_emod.symm
    omega

/-- A word stays as it is. -/
theorem bmod_of_isWord (hn : IsWord n) : n.bmod (2 ^ 32) = n :=
  (eq_bmod_iff.mpr ⟨hn, rfl⟩).symm

/-- **The word of a number is the one word congruent to its whole part.** -/
theorem eq_toWord_iff {x : Float} (hx : isFinite x = true) {w : Int} :
    w = toWord x ↔ IsWord w ∧ w ≡ towardZero (rank x) [ZMOD 2 ^ 32] := by
  unfold toWord
  rw [truncate?_eq hx]
  show w = lowWord _ ↔ _
  rw [lowWord_eq_bmod]
  exact eq_bmod_iff

theorem isWord_toWord (x : Float) : IsWord (toWord x) := by
  unfold toWord
  split
  · rw [lowWord_eq_bmod]
    exact isWord_bmod _
  · exact ⟨by decide, by decide⟩

/-- Every integer of at most fifty-three bits is a number. -/
theorem integer?_ofInt (hn : n.natAbs ≤ 2 ^ 53) : integer? (ofInt n) = some n := by
  apply integer?_eq_some_iff.mpr
  cases n with
  | ofNat k => exact rank_ofInt hn
  | negSucc k =>
    obtain ⟨hfinite, hrank⟩ := rank_ofInt (n := k + 1) hn
    have hne : rank (ofInt ((k + 1 : Nat) : Int)) ≠ 0 := by
      rw [hrank]
      positivity
    obtain ⟨negative, m, e, hdecode, hc, hvalue⟩ := decode_of_rank_ne hfinite hne
    have hneg : decode (ofInt (Int.negSucc k)) = .finite (!negative) m e := decode_neg hdecode hc.pos
    refine ⟨isFinite_of_decode hneg, ?_⟩
    rw [rank_of_decode hneg, Int.cast_negSucc, ← hrank, hvalue]
    cases negative <;> simp [rational]

end Number

/-! ### Operations on bits -/

/-- An operation on bits. -/
inductive BitOp where
  | and | or | xor

namespace BitOp

open Number

/-- The operator of an operation on bits. -/
def operator : BitOp → Operator
  | .and => .bitAnd
  | .or => .bitOr
  | .xor => .bitXor

/-- An operation on single bits. -/
def onBits : BitOp → Bool → Bool → Bool
  | .and => (· && ·)
  | .or => (· || ·)
  | .xor => Bool.xor

/-- An operation on the bits of integers, which have no end. -/
def onIntegers : BitOp → Int → Int → Int
  | .and => Int.land
  | .or => Int.lor
  | .xor => Int.xor

/-- An operation on vectors of 32 bits. -/
def onVectors : BitOp → BitVec 32 → BitVec 32 → BitVec 32
  | .and => (· &&& ·)
  | .or => (· ||| ·)
  | .xor => (· ^^^ ·)

variable (op : BitOp) {a b : Int}

theorem testBit_onIntegers (a b : Int) (i : Nat) :
    (op.onIntegers a b).testBit i = op.onBits (a.testBit i) (b.testBit i) := by
  cases op with
  | and => exact Int.testBit_land a b i
  | or => exact Int.testBit_lor a b i
  | xor => exact Int.testBit_lxor a b i

theorem getLsbD_onVectors (u v : BitVec 32) (i : Nat) :
    (op.onVectors u v).getLsbD i = op.onBits (u.getLsbD i) (v.getLsbD i) := by
  cases op with
  | and => exact BitVec.getLsbD_and
  | or => exact BitVec.getLsbD_or
  | xor => exact BitVec.getLsbD_xor

/-- Words give a word. -/
theorem isWord_onIntegers (ha : IsWord a) (hb : IsWord b) : IsWord (op.onIntegers a b) := by
  rw [isWord_iff_testBit] at ha hb ⊢
  intro i hi
  rw [testBit_onIntegers, testBit_onIntegers, ha i hi, hb i hi]

/-- The low bits of the result are the result on the low bits. -/
theorem ofInt_onIntegers (a b : Int) :
    BitVec.ofInt 32 (op.onIntegers a b) = op.onVectors (BitVec.ofInt 32 a) (BitVec.ofInt 32 b) := by
  apply BitVec.eq_of_getLsbD_eq
  intro i hi
  rw [getLsbD_onVectors, getLsbD_ofInt, getLsbD_ofInt, getLsbD_ofInt, testBit_onIntegers]
  simp [hi]

/-- **On words, vectors of 32 bits and integers in two's complement give the same.** -/
theorem toInt_onVectors (ha : IsWord a) (hb : IsWord b) :
    (op.onVectors (BitVec.ofInt 32 a) (BitVec.ofInt 32 b)).toInt = op.onIntegers a b := by
  rw [← ofInt_onIntegers, BitVec.toInt_ofInt]
  exact bmod_of_isWord (op.isWord_onIntegers ha hb)

/-- What the operator makes of two numbers. -/
theorem combine?_operator (x y : Float) :
    op.operator.combine? (.number x) (.number y) = some (.number (onWords op.onIntegers x y)) := by
  cases op with
  | and =>
    show _ = some (Value.number (onWords Int.land x y))
    exact integerAnd_eq_land ▸ rfl
  | or =>
    show _ = some (Value.number (onWords Int.lor x y))
    exact integerOr_eq_lor ▸ rfl
  | xor =>
    show _ = some (Value.number (onWords Int.xor x y))
    exact integerXor_eq_xor ▸ rfl

/-- To cut the result on two words to a word changes nothing. -/
theorem lowWord_onIntegers (ha : IsWord a) (hb : IsWord b) :
    lowWord (op.onIntegers a b) = op.onIntegers a b := by
  rw [lowWord_eq_bmod, bmod_of_isWord (op.isWord_onIntegers ha hb)]

/-- **The operation on the masked and folded words is the one on their vectors.** -/
theorem onWords_onIntegers (x y : Float) :
    onWords op.onIntegers x y =
      ofInt (op.onVectors (BitVec.ofInt 32 (toWord x)) (BitVec.ofInt 32 (toWord y))).toInt := by
  have hx := isWord_toWord x
  have hy := isWord_toWord y
  rw [onWords, op.lowWord_onIntegers hx hy, op.toInt_onVectors hx hy]

theorem isBinary_operator : op.operator.isBinary = true := by cases op <;> rfl

/-- The operator between two numbers reduces to a number. -/
theorem reduce_operator (e : Engine) (ctx : Context) (p pl pr : Position) (x y : Float) (m : Machine) :
    ∃ m', m'.heap = m.heap ∧
      reduce e ctx [.value pl (.number x), .symbol p op.operator.symbol, .value pr (.number y)] m =
        (.ok (.number (onWords op.onIntegers x y)), m') := by
  let t : Expression :=
    .binary ⟨p, op.operator, op.isBinary_operator⟩ (.leaf pl (.number x)) (.leaf pr (.number y))
  have hfits : t.Fits 12 :=
    ⟨(Operator.level_of_isBinary op.isBinary_operator).2.1, trivial, trivial⟩
  have heval : t.eval m.heap = some (.number (onWords op.onIntegers x y)) := op.combine?_operator x y
  have hmirrors : Eval.Mirrors m.heap (reduce e ctx t.nodes) (t.eval m.heap) :=
    Expression.reduce_mirrors hfits
  rw [heval] at hmirrors
  obtain ⟨m', hrun, hheap⟩ := hmirrors m rfl
  exact ⟨m', hheap, hrun⟩

end BitOp

open Number

/-- **Bitwise operators work on 32-bit words in two's complement.** The word of a
finite number is the one integer from `-2 ^ 31` up to `2 ^ 31` that is congruent to
its whole part modulo `2 ^ 32`, which masking the low bits and giving the highest of
them its sign yields; that of any other number is zero. `&`, `|` and `^` between two
numbers reduce to the number that is exactly the signed value of the operation on the
bit vectors of their words. It is the operation on the two words as integers, and cut
to a word again it is the same. -/
theorem bitwise_operators_work_on_words :
    (∀ x, isFinite x = true →
      toWord x = lowWord (towardZero (rank x)) ∧
        ∀ w : Int, w = toWord x ↔
          -2 ^ 31 ≤ w ∧ w < 2 ^ 31 ∧ w ≡ towardZero (rank x) [ZMOD 2 ^ 32]) ∧
    (∀ x, isFinite x = false → toWord x = 0) ∧
    ∀ (op : BitOp) (e : Engine) (ctx : Context) (p pl pr : Position) (x y : Float) (m : Machine),
      let w := (op.onVectors (BitVec.ofInt 32 (toWord x)) (BitVec.ofInt 32 (toWord y))).toInt
      (∃ z m', reduce e ctx
          [.value pl (.number x), .symbol p op.operator.symbol, .value pr (.number y)] m =
            (.ok (.number z), m') ∧ m'.heap = m.heap ∧ integer? z = some w) ∧
        w = op.onIntegers (toWord x) (toWord y) ∧
        lowWord (op.onIntegers (toWord x) (toWord y)) = op.onIntegers (toWord x) (toWord y) := by
  refine ⟨fun x hx => ⟨?_, fun w => ?_⟩, fun x hx => ?_, fun op e ctx p pl pr x y m => ?_⟩
  · rw [lowWord_eq_bmod]
    exact ((eq_toWord_iff hx).mpr (eq_bmod_iff.mp rfl)).symm
  · rw [eq_toWord_iff hx, IsWord, and_assoc]
  · have hnone : truncate? x = none := by
      unfold isFinite at hx
      unfold truncate?
      cases hdecode : decode x with
      | nan => rfl
      | infinite negative => rfl
      | finite negative k e =>
        rw [hdecode] at hx
        cases hx
    rw [toWord, hnone]
  · have hword := op.isWord_onIntegers (isWord_toWord x) (isWord_toWord y)
    have hvectors := op.toInt_onVectors (isWord_toWord x) (isWord_toWord y)
    obtain ⟨m', hheap, hrun⟩ := op.reduce_operator e ctx p pl pr x y m
    have hexact : integer? (onWords op.onIntegers x y) =
        some (op.onVectors (BitVec.ofInt 32 (toWord x)) (BitVec.ofInt 32 (toWord y))).toInt := by
      rw [op.onWords_onIntegers]
      apply integer?_ofInt
      rw [hvectors]
      have hlow := hword.1
      have hhigh := hword.2
      omega
    exact ⟨⟨_, m', hrun, hheap, hexact⟩, hvectors,
      op.lowWord_onIntegers (isWord_toWord x) (isWord_toWord y)⟩

/-- A fraction beyond the words: the whole part `2 ^ 32 - 7` has the word `-7`, whose
common bits with `12` are `8`. -/
theorem bitwise_operators_work_on_words_beyond :
    let x : Float := 4294967289.5
    let p : Position := ⟨some 1, some 1, 0⟩
    (-7 = toWord x ↔ -2 ^ 31 ≤ (-7 : Int) ∧ (-7 : Int) < 2 ^ 31 ∧
      -7 ≡ towardZero (rank x) [ZMOD 2 ^ 32]) ∧
    toWord x = -7 ∧
    ∃ z m', reduce Engine.exhausted ⟨⟨0⟩, "", ⟨none, "", false, .usual⟩⟩
        [.value p (.number x), .symbol p "&", .value p (.number 12.0)] .initial =
          (.ok (.number z), m') ∧ integer? z = some 8 := by
  intro x p
  obtain ⟨hwords, -, hoperators⟩ := bitwise_operators_work_on_words
  have hx : isFinite x = true := by decide +kernel
  have hword : toWord x = -7 := by decide +kernel
  have hother : toWord 12.0 = 12 := by decide +kernel
  obtain ⟨⟨z, m', hrun, -, hexact⟩, hresult, -⟩ :=
    hoperators .and Engine.exhausted ⟨⟨0⟩, "", ⟨none, "", false, .usual⟩⟩ p p p x 12.0 .initial
  have hcommon : BitOp.and.onIntegers (-7) 12 = 8 := by decide +kernel
  rw [hresult, hword, hother, hcommon] at hexact
  exact ⟨(hwords x hx).2 (-7), hword, z, m', hrun, hexact⟩

end RuleScript
