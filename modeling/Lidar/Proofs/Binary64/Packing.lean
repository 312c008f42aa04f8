import Lidar.Proofs.Binary64.Rounding

/-!
# Words and the numbers they stand for

A finite word is a sign, a significand and an exponent in the one form that rounding gives them. So
what is rounded and does not get too large is packed into a word without a loss.
-/
namespace Lidar.Binary64

open Float.Model (Format totalExponent UnpackedFloat)
open Float.Model.UnpackedFloat

variable {x : Binary64}

def value (x : Binary64) : ℚ :=
  (if x.isNegative then -1 else 1) * x.significand * 2 ^ x.exponent

theorem isFinite_iff : x.isFinite = true ↔ x.exponentField < 2047 := by
  rw [isFinite, exponentField, decide_eq_true_iff]
  show x.magnitude < 9218868437227405312 ↔ x.magnitude / 4503599627370496 < 2047
  omega

theorem canonical_significand (x : Binary64) :
    x.significand < 2 ^ 53 ∧ -1074 ≤ x.exponent ∧ (2 ^ 52 ≤ x.significand ∨ x.exponent = -1074) := by
  have fraction : x.magnitude % (1 <<< 52) < 4503599627370496 := Nat.mod_lt _ (by decide)
  unfold significand exponent
  by_cases zero : x.exponentField = 0
  · simp only [zero, if_true]
    exact ⟨fraction.trans (by decide), le_refl _, .inr trivial⟩
  · simp only [zero, if_false]
    show 4503599627370496 + _ < 9007199254740992 ∧ _ ∧ (4503599627370496 ≤ 4503599627370496 + _ ∨ _)
    omega

theorem abs_value (x : Binary64) : |x.value| = x.significand * 2 ^ x.exponent := by
  rw [value, abs_mul, abs_mul, Nat.abs_cast,
    abs_of_pos (show (0 : ℚ) < 2 ^ x.exponent by positivity)]
  cases x.isNegative <;> simp

theorem abs_value_lt (finite : x.isFinite = true) : |x.value| < 2 ^ 1024 := by
  have field := isFinite_iff.1 finite
  have large : x.exponent ≤ 971 := by
    unfold exponent
    split <;> omega
  have few : (x.significand : ℚ) < 2 ^ 53 := by exact_mod_cast x.canonical_significand.1
  calc |x.value| = x.significand * 2 ^ x.exponent := x.abs_value
    _ < 2 ^ 53 * 2 ^ x.exponent := mul_lt_mul_of_pos_right few (by positivity)
    _ ≤ 2 ^ 53 * 2 ^ (971 : ℤ) :=
      mul_le_mul_of_nonneg_left (zpow_le_zpow_right₀ (by norm_num) large) (by positivity)
    _ = 2 ^ 1024 := by
      rw [show (971 : ℤ) = (971 : Nat) from rfl, zpow_natCast, ← pow_add]

theorem value_ne_zero (some : x.isZero = false) : x.value ≠ 0 := by
  have digits : x.significand ≠ 0 := by
    have some : x.magnitude ≠ 0 := by simpa [isZero] using some
    unfold significand exponentField
    show (if x.magnitude / 4503599627370496 = 0 then x.magnitude % 4503599627370496
      else 4503599627370496 + _) ≠ 0
    split <;> omega
  rw [← abs_pos, abs_value]
  have := Nat.pos_of_ne_zero digits
  positivity

theorem onGrid_value (x : Binary64) : OnGrid x.value := by
  have bottom := x.canonical_significand.2.1
  refine ⟨(if x.isNegative then -1 else 1) * x.significand * 2 ^ (x.exponent + 1074).toNat, ?_⟩
  have scaled : (2 : ℚ) ^ x.exponent = 2 ^ (x.exponent + 1074).toNat * 2 ^ (-1074 : ℤ) := by
    rw [← zpow_natCast, ← zpow_add₀ (by norm_num)]
    congr 1
    omega
  rw [value, scaled, ← mul_assoc]
  congr 1
  cases x.isNegative <;> simp

theorem toNat_unpackMantissa (b : BitVec Format.binary64.numBits) :
    (unpackMantissa b).toNat = b.toNat % 2 ^ 52 := by
  simp [unpackMantissa]

theorem toNat_unpackExponent (b : BitVec Format.binary64.numBits) :
    (unpackExponent b).toNat = b.toNat / 2 ^ 52 % 2 ^ 11 := by
  simp [unpackExponent, Nat.shiftRight_eq_div_pow]

theorem toNat_unpackSign (b : BitVec Format.binary64.numBits) :
    (unpackSign b).toNat = b.toNat / 2 ^ 63 := by
  have : b.toNat < 2 ^ 64 := b.isLt
  simp [unpackSign, Nat.shiftRight_eq_div_pow]
  omega

def word (x : Binary64) : BitVec Format.binary64.numBits := x.bits.toBitVec

def unpacked (x : Binary64) : UnpackedFloat := unpack Format.binary64 x.word

def sign (x : Binary64) : Sign := if x.isNegative then .negative else .positive

theorem fraction_eq (x : Binary64) :
    (unpackMantissa x.word).toNat = x.magnitude % (1 <<< 52) := by
  rw [toNat_unpackMantissa, magnitude]
  show x.bits.toNat % 4503599627370496 = x.bits.toNat % 9223372036854775808 % 4503599627370496
  omega

theorem exponentField_eq (x : Binary64) :
    (unpackExponent x.word).toNat = x.exponentField := by
  rw [toNat_unpackExponent, exponentField, magnitude]
  show x.bits.toNat / 4503599627370496 % 2048 =
    x.bits.toNat % 9223372036854775808 / 4503599627370496
  omega

theorem sign_eq (x : Binary64) :
    Sign.ofBitVec (unpackSign x.word) = x.sign := by
  have few := x.bits.toNat_lt
  have bit : unpackSign x.word = 0#1 ↔ x.isNegative = false := by
    rw [← BitVec.toNat_inj, toNat_unpackSign, isNegative]
    show x.bits.toNat / 9223372036854775808 = 0 ↔
      decide (9223372036854775808 ≤ x.bits.toNat) = false
    simp
  unfold Sign.ofBitVec sign
  simp only [bit]
  cases x.isNegative <;> rfl

theorem unpack_eq {b : BitVec Format.binary64.numBits} (finite : (unpackExponent b).toNat ≠ 2047) :
    unpack Format.binary64 b =
      if (unpackExponent b).toNat = 0 then
        if some : (unpackMantissa b).toNat = 0 then .zero (.ofBitVec (unpackSign b))
        else .finite (.ofBitVec (unpackSign b)) (unpackMantissa b).toNat (-1074)
          (Nat.pos_of_ne_zero some)
      else .finite (.ofBitVec (unpackSign b)) (2 ^ 52 + (unpackMantissa b).toNat)
        ((unpackExponent b).toNat - 1075) (by omega) := by
  have notAll : unpackExponent b ≠ -1#_ := by
    rwa [Ne, ← BitVec.toNat_inj]
  have none : unpackExponent b = 0#_ ↔ (unpackExponent b).toNat = 0 := by
    rw [← BitVec.toNat_inj]
    rfl
  have nothing : unpackMantissa b = 0#_ ↔ (unpackMantissa b).toNat = 0 := by
    rw [← BitVec.toNat_inj]
    rfl
  have whole : (1#1 ++ unpackMantissa b).toNat = 2 ^ 52 + (unpackMantissa b).toNat := by
    rw [BitVec.toNat_append, ← Nat.shiftLeft_add_eq_or_of_lt (BitVec.isLt _)]
    rfl
  unfold unpack
  simp only [notAll, if_false, none, nothing, whole]
  by_cases zero : (unpackExponent b).toNat = 0
  · simp only [zero, if_true]
    rfl
  · simp only [zero, if_false]
    rfl

theorem unpacked_eq (finite : x.isFinite = true) :
    x.unpacked = if some : x.significand = 0 then .zero x.sign
      else .finite x.sign x.significand x.exponent (Nat.pos_of_ne_zero some) := by
  have field := isFinite_iff.1 finite
  unfold unpacked
  rw [unpack_eq (by rw [exponentField_eq]; omega)]
  simp only [fraction_eq, exponentField_eq, sign_eq]
  unfold significand exponent
  by_cases zero : x.exponentField = 0
  · simp only [zero, if_true]
  · have some : 1 <<< 52 + x.magnitude % (1 <<< 52) ≠ 0 := by
      show 4503599627370496 + _ ≠ 0
      omega
    simp only [zero, if_false, some, dif_neg, not_false_eq_true]
    rfl

theorem value_eq (finite : x.isFinite = true) :
    x.value = unpackedValue x.unpacked := by
  have unit : (if x.isNegative then -1 else 1 : ℚ) = signum x.sign := by
    unfold sign
    cases x.isNegative <;> rfl
  rw [unpacked_eq finite, value, unit]
  split
  · next zero => simp [zero, unpackedValue]
  · rfl

theorem canonical_unpacked (finite : x.isFinite = true) : Canonical x.unpacked := by
  rw [unpacked_eq finite]
  split
  · trivial
  · exact x.canonical_significand

theorem isFinite_of_canonical (canonical : Canonical x.unpacked) :
    x.isFinite = true := by
  rw [isFinite_iff, ← exponentField_eq]
  by_contra large
  have few : (unpackExponent x.word).toNat < 2048 := BitVec.isLt _
  have all : unpackExponent x.word = -1#_ := by
    rw [← BitVec.toNat_inj]
    show _ = 2047
    omega
  unfold unpacked unpack at canonical
  simp only [all, if_true] at canonical
  split at canonical <;> exact canonical

theorem exponent_le {s : Sign} {m : Nat} {e : ℤ} {some : 0 < m}
    (canonical : Canonical (.finite s m e some))
    (small : |unpackedValue (.finite s m e some)| < 2 ^ 1024) : e ≤ 971 := by
  obtain ⟨-, -, full | least⟩ := canonical
  · have full : (2 ^ 52 : ℚ) ≤ m := by exact_mod_cast full
    have power : (2 : ℚ) ^ (52 + e) < 2 ^ (1024 : ℤ) :=
      calc (2 : ℚ) ^ (52 + e) = 2 ^ 52 * 2 ^ e := zpow_add₀ (by norm_num) 52 e
        _ ≤ m * 2 ^ e := mul_le_mul_of_nonneg_right full (by positivity)
        _ < 2 ^ 1024 := by rwa [← abs_unpackedValue s e some]
    have := (zpow_lt_zpow_iff_right₀ (show (1 : ℚ) < 2 by norm_num)).1 power
    omega
  · omega

theorem pack_finite (s : Sign) {m : Nat} {e : ℤ} (some : 0 < m) (bottom : -1074 ≤ e)
    (large : e ≤ 971) :
    pack Format.binary64 (.finite s m e some) =
      if m.log2 + 1 = 53 then
        packComponents Format.binary64 s (BitVec.ofNat 11 (e + 1075).toNat) (BitVec.ofNat 52 m)
      else packComponents Format.binary64 s 0#11 (BitVec.ofNat 52 m) := by
  have bias : e + (Format.binary64.exponentBias : ℤ) +
      (Format.binary64.mantissaBitsWithoutImplicit : ℤ) = e + 1075 := by
    show e + (1023 : ℤ) + (52 : ℤ) = e + 1075
    ring
  have room : ¬2 ^ Format.binary64.exponentBits ≤ (e + 1075).toNat + 1 := by
    show ¬2048 ≤ (e + 1075).toNat + 1
    omega
  simp only [pack, bias, room, if_false]
  rfl

theorem unpack_pack_normal (s : Sign) {m : Nat} {e : ℤ} (full : 2 ^ 52 ≤ m) (few : m < 2 ^ 53)
    (bottom : -1074 ≤ e) (large : e ≤ 971) :
    unpack Format.binary64 (pack Format.binary64 (.finite s m e (by omega))) =
      .finite s m e (by omega) := by
  have log : m.log2 + 1 = 53 := by
    rw [Nat.add_right_cancel_iff, Nat.log2_eq_iff (by omega)]
    exact ⟨full, few⟩
  have place : ((e + 1075).toNat : ℤ) = e + 1075 := Int.toNat_of_nonneg (by omega)
  have biased : (BitVec.ofNat 11 (e + 1075).toNat).toNat = (e + 1075).toNat := by
    rw [BitVec.toNat_ofNat, Nat.mod_eq_of_lt (by omega)]
  have rest : 2 ^ 52 + (BitVec.ofNat 52 m).toNat = m := by
    rw [BitVec.toNat_ofNat]
    omega
  rw [pack_finite s _ bottom large, if_pos log,
    unpack_eq (by rw [unpackExponent_packComponents, biased]; omega)]
  simp only [unpackExponent_packComponents, unpackMantissa_packComponents,
    unpackSign_packComponents, Sign.ofBitVec_toBitVec, biased]
  rw [if_neg (by omega)]
  simp only [rest, place, add_sub_cancel_right]

theorem unpack_pack_subnormal (s : Sign) {m : Nat} (some : 0 < m) (few : m < 2 ^ 52) :
    unpack Format.binary64 (pack Format.binary64 (.finite s m (-1074) some)) =
      .finite s m (-1074) some := by
  have log : m.log2 + 1 ≠ 53 := by
    have := (Nat.log2_lt some.ne').2 few
    omega
  have whole : (BitVec.ofNat 52 m).toNat = m := by
    rw [BitVec.toNat_ofNat, Nat.mod_eq_of_lt few]
  rw [pack_finite s some (by decide) (by decide), if_neg log,
    unpack_eq (by rw [unpackExponent_packComponents]; decide)]
  simp only [unpackExponent_packComponents, unpackMantissa_packComponents,
    unpackSign_packComponents, Sign.ofBitVec_toBitVec, whole, BitVec.toNat_ofNat, Nat.zero_mod,
    if_true, some.ne', dif_neg, not_false_eq_true]

theorem unpack_pack {f : UnpackedFloat} (canonical : Canonical f)
    (small : |unpackedValue f| < 2 ^ 1024) :
    unpack Format.binary64 (pack Format.binary64 f) = f := by
  rcases canonical.cases with ⟨s, rfl⟩ | ⟨s, m, e, some, rfl, few, bottom, full⟩
  · cases s <;> rfl
  · by_cases normal : 2 ^ 52 ≤ m
    · exact unpack_pack_normal s normal few bottom (exponent_le canonical small)
    · obtain rfl : e = -1074 := full.resolve_left normal
      exact unpack_pack_subnormal s some (Nat.lt_of_not_le normal)

end Lidar.Binary64
