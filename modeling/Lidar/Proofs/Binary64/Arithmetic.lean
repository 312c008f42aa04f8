import Lidar.Proofs.Binary64.Packing

/-!
# Arithmetic on words

A sum, a difference, a product and a quotient of two words is the exact one, rounded once. So their
errors are known without a look at their bits: `Nearest x r` says that the word `r` is the number
`x` rounded, and a chain of operations is followed with it. A stored integer is made into a word
without rounding, and is found again from any number less than a half away.
-/
namespace Lidar.Binary64

open Float.Model (Format totalExponent UnpackedFloat)
open Float.Model.UnpackedFloat

theorem apply_eq (s : Sign) (m : Nat) : ((s.apply m : ℤ) : ℚ) = signum s * m := by
  cases s <;> simp [Sign.apply, signum]

theorem decreaseExponent_eq (s : Sign) (m : Nat) {e t : ℤ} (le : t ≤ e) :
    ((s.apply (decreaseExponent m e t).1 : ℤ) : ℚ) * 2 ^ t = signum s * m * 2 ^ e := by
  have place : ((e - t).toNat : ℤ) = e - t := Int.toNat_of_nonneg (by omega)
  rw [apply_eq, decreaseExponent, Nat.shiftLeft_eq]
  push_cast
  rw [← zpow_natCast, place, mul_assoc, mul_assoc, ← zpow_add₀ (by norm_num), sub_add_cancel,
    mul_assoc]

theorem isRounded_add {f g : UnpackedFloat} (hf : Canonical f) (hg : Canonical g) :
    IsRounded (unpackedValue f + unpackedValue g) (add Format.binary64 f g) := by
  rcases hf.cases with ⟨s, rfl⟩ | ⟨s, m, e, some, rfl, -⟩
  · rw [unpackedValue_zero, zero_add]
    rcases hg.cases with ⟨s', rfl⟩ | ⟨s', m', e', some', rfl, -⟩
    · rw [unpackedValue_zero, add]
      split
      · exact isRounded_zero s
      · exact isRounded_zero _
    · exact isRounded_self hg
  · rcases hg.cases with ⟨s', rfl⟩ | ⟨s', m', e', some', rfl, -⟩
    · rw [unpackedValue_zero, add_zero]
      exact isRounded_self hf
    · rw [unpackedValue, unpackedValue, ← decreaseExponent_eq s m (min_le_left e e'),
        ← decreaseExponent_eq s' m' (min_le_right e e'), ← add_mul, ← Int.cast_add]
      exact isRounded_normalize _ _ _

theorem signum_neg (s : Sign) : signum (-s) = -signum s := by
  cases s
  · exact (neg_neg 1).symm
  · rfl

theorem signum_mul (s s' : Sign) : signum (s * s') = signum s * signum s' := by
  cases s <;> cases s'
  · show (1 : ℚ) = -1 * -1
    norm_num
  · show (-1 : ℚ) = -1 * 1
    norm_num
  · show (-1 : ℚ) = 1 * -1
    norm_num
  · show (1 : ℚ) = 1 * 1
    norm_num

theorem signum_div (s s' : Sign) : signum (s / s') = signum s / signum s' := by
  cases s <;> cases s'
  · show (1 : ℚ) = -1 / -1
    norm_num
  · show (-1 : ℚ) = -1 / 1
    norm_num
  · show (-1 : ℚ) = 1 / -1
    norm_num
  · show (1 : ℚ) = 1 / 1
    norm_num

theorem unpackedValue_neg (f : UnpackedFloat) : unpackedValue f.neg = -unpackedValue f := by
  cases f with
  | finite s m e some =>
    rw [neg, unpackedValue, unpackedValue, signum_neg]
    ring
  | _ => exact neg_zero.symm

theorem canonical_neg {f : UnpackedFloat} (canonical : Canonical f) : Canonical f.neg := by
  cases f <;> exact canonical

theorem sub_eq_add (f g : UnpackedFloat) :
    sub Format.binary64 f g = add Format.binary64 f g.neg := by
  cases f <;> cases g <;> try rfl
  next s m e _ s' m' e' _ =>
    have same (n : Int) : (-s').apply n = -s'.apply n := by
      cases s'
      · exact (neg_neg n).symm
      · rfl
    simp only [sub, add, neg, same, sub_eq_add_neg]

theorem isRounded_sub {f g : UnpackedFloat} (hf : Canonical f) (hg : Canonical g) :
    IsRounded (unpackedValue f - unpackedValue g) (sub Format.binary64 f g) := by
  rw [sub_eq_add, sub_eq_add_neg, ← unpackedValue_neg]
  exact isRounded_add hf (canonical_neg hg)

theorem fine_mul {m m' : Nat} {e e' : ℤ} (some : 0 < m) (some' : 0 < m')
    (full : 2 ^ 52 ≤ m ∨ e = -1074) (full' : 2 ^ 52 ≤ m' ∨ e' = -1074) :
    e + e' ≤ max ((m * m').log2 + (e + e') - 52) (-1074) := by
  by_cases tiny : e = -1074 ∧ e' = -1074
  · omega
  · have many : 2 ^ 52 ≤ m * m' := by
      rcases full with full | least
      · exact full.trans (Nat.le_mul_of_pos_right m some')
      · have full' := full'.resolve_right fun least' => tiny ⟨least, least'⟩
        exact full'.trans (Nat.le_mul_of_pos_left m' some)
    have := (Nat.le_log2 (Nat.mul_pos some some').ne').2 many
    omega

theorem isRounded_mul {f g : UnpackedFloat} (hf : Canonical f) (hg : Canonical g) :
    IsRounded (unpackedValue f * unpackedValue g) (mul Format.binary64 f g) := by
  rcases hf.cases with ⟨s, rfl⟩ | ⟨s, m, e, some, rfl, -, -, full⟩
  · rw [unpackedValue_zero, zero_mul]
    rcases hg.cases with ⟨s', rfl⟩ | ⟨s', m', e', some', rfl, -⟩
    · exact isRounded_zero _
    · exact isRounded_zero _
  · rcases hg.cases with ⟨s', rfl⟩ | ⟨s', m', e', some', rfl, -, -, full'⟩
    · rw [unpackedValue_zero, mul_zero]
      exact isRounded_zero _
    · have product : unpackedValue (.finite s m e some) * unpackedValue (.finite s' m' e' some') =
          signum (s * s') * ((m * m' : Nat) * 2 ^ (e + e')) := by
        rw [unpackedValue, unpackedValue, signum_mul, zpow_add₀ (by norm_num)]
        push_cast
        ring
      rw [product]
      exact isRounded_roundWithAccuracy (s * s') (cut_exact (m * m')) (fine_mul some some' full full')

/-- The remainder of a division tells on which side of the half the rest of the quotient is. -/
theorem cut_fraction (q : Nat) {r m : Nat} (rest : r < m) :
    Cut (.ofMantissaAndAccuracy q (accuracyOfFraction r m)) (q + r / m : ℚ) := by
  have positive : (0 : ℚ) < m := by exact_mod_cast Nat.zero_lt_of_lt rest
  have below : (r / m : ℚ) < 1 := (div_lt_one positive).2 (by exact_mod_cast rest)
  unfold accuracyOfFraction
  by_cases zero : r = 0
  · simp [zero, Cut, ExtendedMantissa.ofMantissaAndAccuracy]
  · have above : (0 : ℚ) < r / m := div_pos (by exact_mod_cast Nat.pos_of_ne_zero zero) positive
    rw [if_neg zero]
    rcases lt_trichotomy (2 * r) m with side | side | side
    · rw [Nat.compare_eq_lt.2 side]
      have : (r / m : ℚ) < 1 / 2 := by
        rw [div_lt_div_iff₀ positive (by norm_num)]
        exact_mod_cast (by omega : r * 2 < 1 * m)
      show (q : ℚ) < q + r / m ∧ (q + r / m : ℚ) < q + 1 / 2
      constructor <;> linarith
    · rw [Nat.compare_eq_eq.2 side]
      have : (r / m : ℚ) = 1 / 2 := by
        rw [div_eq_div_iff positive.ne' (by norm_num)]
        exact_mod_cast (by omega : r * 2 = 1 * m)
      show (q + r / m : ℚ) = q + 1 / 2
      rw [this]
    · rw [Nat.compare_eq_gt.2 side]
      have : (1 / 2 : ℚ) < r / m := by
        rw [div_lt_div_iff₀ (by norm_num) positive]
        exact_mod_cast (by omega : 1 * m < r * 2)
      show (q + 1 / 2 : ℚ) < q + r / m ∧ (q + r / m : ℚ) < q + 1
      constructor <;> linarith

theorem cut_div (m : Nat) {m' : Nat} (some : 0 < m') :
    Cut (.ofMantissaAndAccuracy (m / m') (accuracyOfFraction (m % m') m')) (m / m' : ℚ) := by
  have positive : (0 : ℚ) < m' := by exact_mod_cast some
  have parts : (m / m' : ℚ) = (m / m' : Nat) + (m % m' : Nat) / m' := by
    have : (m : ℚ) = m' * (m / m' : Nat) + (m % m' : Nat) := by
      exact_mod_cast (Nat.div_add_mod m m').symm
    field_simp
    linarith
  rw [parts]
  exact cut_fraction _ (Nat.mod_lt m some)

def quotientExponent (m m' : Nat) (e e' : ℤ) : ℤ :=
  min (e - e') (Format.binary64.targetExponent (totalExponent m e - totalExponent m' e'))

theorem fine_div {m m' : Nat} {e e' t : ℤ} (some : 0 < m) (some' : 0 < m')
    (target : quotientExponent m m' e e' = t) :
    t ≤ max ((m <<< (e - e' - t).toNat / m').log2 + t - 52) (-1074) := by
  have exponent : min (e - e') (max ((m.log2 + 1 + e) - (m'.log2 + 1 + e') - 53) (-1074)) = t :=
    target
  by_cases tiny : t ≤ -1074
  · omega
  · have room : m'.log2 + 53 ≤ m.log2 + (e - e' - t).toNat := by omega
    have many : 2 ^ 52 ≤ m <<< (e - e' - t).toNat / m' := by
      rw [Nat.le_div_iff_mul_le some', Nat.shiftLeft_eq]
      calc 2 ^ 52 * m' ≤ 2 ^ 52 * 2 ^ (m'.log2 + 1) := Nat.mul_le_mul_left _ Nat.lt_log2_self.le
        _ = 2 ^ (m'.log2 + 53) := by rw [← Nat.pow_add]; congr 1; omega
        _ ≤ 2 ^ (m.log2 + (e - e' - t).toNat) := Nat.pow_le_pow_right (by decide) room
        _ = 2 ^ m.log2 * 2 ^ (e - e' - t).toNat := Nat.pow_add _ _ _
        _ ≤ m * 2 ^ (e - e' - t).toNat := Nat.mul_le_mul_right _ (Nat.log2_self_le some.ne')
    have := (Nat.le_log2 (by omega)).2 many
    omega

theorem isRounded_div {f g : UnpackedFloat} (hf : Canonical f) (hg : Canonical g)
    (some : unpackedValue g ≠ 0) :
    IsRounded (unpackedValue f / unpackedValue g) (div Format.binary64 f g) := by
  rcases hg.cases with ⟨s', rfl⟩ | ⟨s', m', e', some', rfl, -⟩
  · exact absurd rfl some
  rcases hf.cases with ⟨s, rfl⟩ | ⟨s, m, e, some, rfl, -⟩
  · rw [unpackedValue_zero, zero_div]
    exact isRounded_zero _
  obtain ⟨t, target⟩ : ∃ t, quotientExponent m m' e e' = t := ⟨_, rfl⟩
  have quotient : unpackedValue (.finite s m e some) / unpackedValue (.finite s' m' e' some') =
      signum (s / s') * ((m <<< (e - e' - t).toNat : Nat) / m' * 2 ^ t) := by
    have place : ((e - e' - t).toNat : ℤ) = e - e' - t :=
      Int.toNat_of_nonneg (sub_nonneg.2 (target ▸ min_le_left _ _))
    have scaled : (2 : ℚ) ^ e = 2 ^ (e - e' - t).toNat * 2 ^ t * 2 ^ e' := by
      rw [← zpow_natCast, ← zpow_add₀ (by norm_num), ← zpow_add₀ (by norm_num), place]
      congr 1
      ring
    rw [unpackedValue, unpackedValue, signum_div, scaled, Nat.shiftLeft_eq]
    push_cast
    field_simp
  rw [quotient]
  have rounded := isRounded_roundWithAccuracy (s / s') (cut_div (m <<< (e - e' - t).toNat) some')
    (fine_div some some' target)
  rw [← target] at rounded ⊢
  exact rounded

theorem unpack_toFloat {x : Binary64} (finite : x.isFinite = true) :
    x.toFloat.toModel.unpack = x.unpacked :=
  unpack_pack (canonical_unpacked finite) (value_eq finite ▸ abs_value_lt finite)

structure Nearest (x : ℚ) (r : Binary64) : Prop where
  finite : r.isFinite = true
  rounded : IsRounded x r.unpacked

theorem nearest_pack {x : ℚ} {f : UnpackedFloat} (rounded : IsRounded x f)
    (small : |x| ≤ 3 * 2 ^ 1022) : Nearest x (ofFloat (.ofModel (.pack f))) := by
  have size : |unpackedValue f| < 2 ^ 1024 := by
    have close := rounded.close
    have least : (2 : ℚ) ^ (-1074 : ℤ) ≤ 1 := zpow_le_one_of_nonpos₀ (by norm_num) (by norm_num)
    have huge : (1 : ℚ) ≤ 2 ^ 1022 := one_le_pow₀ (by norm_num)
    have apart := abs_sub_abs_le_abs_sub (unpackedValue f) x
    rw [show 1024 = 1022 + 2 from rfl, pow_add]
    generalize (2 : ℚ) ^ 1022 = bound, (2 : ℚ) ^ (-1074 : ℤ) = unit at *
    norm_num at close ⊢
    linarith
  have same : (ofFloat (.ofModel (.pack f))).unpacked = f := unpack_pack rounded.canonical size
  constructor
  · apply isFinite_of_canonical
    rw [same]
    exact rounded.canonical
  · rwa [same]

variable {x y : Binary64}

theorem nearest_op {op : UnpackedFloat → UnpackedFloat → UnpackedFloat} {z : ℚ}
    (hx : x.isFinite = true) (hy : y.isFinite = true)
    (rounded : IsRounded z (op x.unpacked y.unpacked)) (small : |z| ≤ 3 * 2 ^ 1022) :
    Nearest z (ofFloat (.ofModel (.pack (op x.toFloat.toModel.unpack y.toFloat.toModel.unpack)))) := by
  rw [unpack_toFloat hx, unpack_toFloat hy]
  exact nearest_pack rounded small

theorem nearest_add (hx : x.isFinite = true) (hy : y.isFinite = true)
    (small : |x.value + y.value| ≤ 3 * 2 ^ 1022) : Nearest (x.value + y.value) (x + y) := by
  have rounded := isRounded_add (canonical_unpacked hx) (canonical_unpacked hy)
  rw [← value_eq hx, ← value_eq hy] at rounded
  exact nearest_op hx hy rounded small

theorem nearest_sub (hx : x.isFinite = true) (hy : y.isFinite = true)
    (small : |x.value - y.value| ≤ 3 * 2 ^ 1022) : Nearest (x.value - y.value) (x - y) := by
  have rounded := isRounded_sub (canonical_unpacked hx) (canonical_unpacked hy)
  rw [← value_eq hx, ← value_eq hy] at rounded
  exact nearest_op hx hy rounded small

theorem nearest_mul (hx : x.isFinite = true) (hy : y.isFinite = true)
    (small : |x.value * y.value| ≤ 3 * 2 ^ 1022) : Nearest (x.value * y.value) (x * y) := by
  have rounded := isRounded_mul (canonical_unpacked hx) (canonical_unpacked hy)
  rw [← value_eq hx, ← value_eq hy] at rounded
  exact nearest_op hx hy rounded small

theorem nearest_div (hx : x.isFinite = true) (hy : y.isFinite = true) (some : y.value ≠ 0)
    (small : |x.value / y.value| ≤ 3 * 2 ^ 1022) : Nearest (x.value / y.value) (x / y) := by
  have rounded := isRounded_div (canonical_unpacked hx) (canonical_unpacked hy)
    (value_eq hy ▸ some)
  rw [← value_eq hx, ← value_eq hy] at rounded
  exact nearest_op hx hy rounded small

theorem Nearest.exact {x : ℚ} {r : Binary64} (nearest : Nearest x r) {m e : ℤ}
    (whole : x = m * 2 ^ e) (few : |m| < 2 ^ 53) (bottom : -1074 ≤ e) : r.value = x := by
  rw [value_eq nearest.finite]
  exact nearest.rounded.exact whole few bottom

theorem Nearest.near {x : ℚ} {r : Binary64} (nearest : Nearest x r) (grid : OnGrid x) :
    |r.value - x| ≤ |x| / 2 ^ 53 := by
  rw [value_eq nearest.finite]
  exact nearest.rounded.near grid

theorem Nearest.close {x : ℚ} {r : Binary64} (nearest : Nearest x r) :
    |r.value - x| ≤ |x| / 2 ^ 53 + 2 ^ (-1074 : ℤ) / 2 := by
  rw [value_eq nearest.finite]
  exact nearest.rounded.close

theorem Nearest.exact_int {n : ℤ} {r : Binary64} (nearest : Nearest n r) (few : |n| < 2 ^ 53) :
    r.value = n :=
  nearest.exact (by simp : (n : ℚ) = n * 2 ^ (0 : ℤ)) few (by decide)

def one : UnpackedFloat := .finite .positive (2 ^ 52) (-52) (by decide)

theorem unpackedValue_one : unpackedValue one = 1 := by
  norm_num [unpackedValue, one, signum]

theorem small_of_few {x : ℚ} (few : |x| ≤ 2 ^ 53) : |x| ≤ 3 * 2 ^ 1022 :=
  calc |x| ≤ 2 ^ 53 := few
    _ ≤ 2 ^ 1022 := pow_le_pow_right₀ (by norm_num) (by decide)
    _ ≤ 3 * 2 ^ 1022 := le_mul_of_one_le_left (by positivity) (by norm_num)

/-- The number in parts that an integer literal starts from. -/
def ofDigits (n : Nat) : UnpackedFloat := .normalize Format.binary64 n 0 .positive

theorem isRounded_ofDigits (n : Nat) : IsRounded n (ofDigits n) := by
  have rounded := isRounded_normalize n 0 .positive
  rwa [zpow_zero, mul_one, Int.cast_natCast] at rounded

theorem unpackedValue_ofDigits {n : Nat} (few : n < 2 ^ 53) : unpackedValue (ofDigits n) = n := by
  apply (isRounded_ofDigits n).exact (by simp : (n : ℚ) = (n : ℤ) * 2 ^ (0 : ℤ)) _ (by decide)
  rw [Nat.abs_cast]
  exact_mod_cast few

theorem ofNat_eq {n : Nat} (few : n < 2 ^ 53) :
    Float.ofNat n = .ofModel (.pack (mul Format.binary64 (ofDigits n) one)) := by
  have wide : n.toUInt64.toNat = n := Nat.mod_eq_of_lt (few.trans (by decide))
  have first : n.toUInt64.toFloat.toModel.unpack = ofDigits n := by
    show unpack Format.binary64 (pack Format.binary64 (ofDigits n.toUInt64.toNat)) = _
    rw [wide]
    apply unpack_pack (isRounded_ofDigits n).canonical
    rw [unpackedValue_ofDigits few, Nat.abs_cast]
    calc (n : ℚ) < 2 ^ 53 := by exact_mod_cast few
      _ ≤ 2 ^ 1024 := pow_le_pow_right₀ (by norm_num) (by decide)
  have second : (Float.ofBits 0x3FF0000000000000).toModel.unpack = one := rfl
  rw [← first, ← second]
  show Float.ofScientific n false 0 = _
  unfold Float.ofScientific
  rw [dif_pos ⟨few, by decide⟩]
  rfl

theorem nearest_ofNat {n : Nat} (few : n < 2 ^ 53) : Nearest n (ofFloat (Float.ofNat n)) := by
  have product := isRounded_mul (isRounded_ofDigits n).canonical (g := one)
    ⟨by decide, by decide, .inl (Nat.le_refl _)⟩
  rw [unpackedValue_ofDigits few, unpackedValue_one, mul_one] at product
  rw [ofNat_eq few]
  apply nearest_pack product
  apply small_of_few
  rw [Nat.abs_cast]
  exact_mod_cast few.le

theorem nearest_neg {x : ℚ} {f : Float} (nearest : Nearest x (ofFloat f))
    (same : (ofFloat f).value = x) (small : |x| ≤ 3 * 2 ^ 1022) : Nearest (-x) (ofFloat f.neg) := by
  rw [← abs_neg, ← same, value_eq nearest.finite, ← unpackedValue_neg] at small
  rw [← same, value_eq nearest.finite, ← unpackedValue_neg]
  exact nearest_pack (isRounded_self (canonical_neg (canonical_unpacked nearest.finite))) small

theorem nearest_ofInt32 (n : Int32) : Nearest n.toInt (ofInt32 n) := by
  have low := n.le_toInt
  have high := n.toInt_lt
  unfold ofInt32
  cases same : n.toInt with
  | ofNat k =>
    rw [Int.ofNat_eq_natCast] at same
    exact nearest_ofNat (by omega)
  | negSucc k =>
    have nearest : Nearest ((k + 1 : Nat) : ℤ) (ofFloat (Float.ofNat (k + 1))) :=
      nearest_ofNat (by omega)
    have few : |((k + 1 : Nat) : ℤ)| < 2 ^ 53 := by
      rw [Nat.abs_cast]
      omega
    have := nearest_neg nearest (nearest.exact_int few)
      (small_of_few (by exact_mod_cast few.le))
    rwa [← Int.cast_neg] at this

theorem isFinite_ofInt32 (n : Int32) : (ofInt32 n).isFinite = true := (nearest_ofInt32 n).finite

theorem value_ofInt32 (n : Int32) : (ofInt32 n).value = n.toInt := by
  have low := n.le_toInt
  have high := n.toInt_lt
  apply (nearest_ofInt32 n).exact_int
  rw [abs_lt]
  omega

theorem half_up (m : Nat) {unit : Nat} (positive : 0 < unit) :
    |(((2 * m + unit) / (2 * unit) : Nat) : ℚ) - m / unit| ≤ 1 / 2 := by
  have parts := Nat.div_add_mod (2 * m + unit) (2 * unit)
  have rest := Nat.mod_lt (2 * m + unit) (show 0 < 2 * unit by omega)
  generalize (2 * m + unit) / (2 * unit) = q at parts ⊢
  have low : (2 * unit * q : ℚ) ≤ 2 * m + unit := by exact_mod_cast (by omega)
  have high : (2 * m + unit : ℚ) < 2 * unit * q + 2 * unit := by exact_mod_cast (by omega)
  have positive : (0 : ℚ) < unit := by exact_mod_cast positive
  rw [abs_le, neg_le_sub_iff_le_add, sub_le_iff_le_add, div_le_iff₀ positive]
  constructor
  · linarith
  · rw [← sub_le_iff_le_add', le_div_iff₀ positive]
    linarith

theorem exists_nearest (finite : x.isFinite = true) :
    ∃ n : Nat, x.nearestInt? = some (if x.isNegative then -(n : ℤ) else n) ∧
      |(n : ℚ) - x.significand * 2 ^ x.exponent| ≤ 1 / 2 := by
  unfold nearestInt?
  rw [if_pos finite]
  by_cases whole : 0 ≤ x.exponent
  · refine ⟨x.significand <<< x.exponent.toNat, by simp [whole], ?_⟩
    have power : (2 : ℚ) ^ x.exponent = 2 ^ x.exponent.toNat := by
      rw [← zpow_natCast, Int.toNat_of_nonneg whole]
    rw [power, Nat.shiftLeft_eq]
    push_cast
    rw [sub_self, abs_zero]
    norm_num
  · obtain ⟨digits, below⟩ : ∃ digits : Nat, x.exponent = -(digits : ℤ) :=
      ⟨(-x.exponent).toNat, by omega⟩
    have unit : (1 : Nat) <<< digits = 2 ^ digits := Nat.one_shiftLeft digits
    have scaled : (x.significand : ℚ) * 2 ^ x.exponent = x.significand / (2 ^ digits : Nat) := by
      rw [below, zpow_neg, zpow_natCast, ← div_eq_mul_inv]
      push_cast
      rfl
    refine ⟨(2 * x.significand + 2 ^ digits) / (2 * 2 ^ digits), ?_, ?_⟩
    · rw [below] at whole ⊢
      simp only [whole, if_false, neg_neg, Int.toNat_natCast, unit]
    · rw [scaled]
      exact half_up _ (Nat.two_pow_pos digits)

theorem nearestInt?_eq {n : ℤ} (finite : x.isFinite = true) (near : |x.value - n| < 1 / 2) :
    x.nearestInt? = some n := by
  obtain ⟨k, found, close⟩ := exists_nearest finite
  rw [found, Option.some_inj]
  have apart : |((if x.isNegative then -(k : ℤ) else k : ℤ) : ℚ) - n| < 1 := by
    rw [value] at near
    rw [abs_le] at close
    rw [abs_lt] at near ⊢
    cases negative : x.isNegative with
    | true =>
      simp [negative] at near ⊢
      constructor <;> linarith
    | false =>
      simp [negative] at near ⊢
      constructor <;> linarith
  have : |(if x.isNegative then -(k : ℤ) else k) - n| < 1 := by exact_mod_cast apart
  exact sub_eq_zero.1 (Int.abs_lt_one_iff.1 this)

end Lidar.Binary64
