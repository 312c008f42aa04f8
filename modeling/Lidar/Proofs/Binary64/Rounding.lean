import Mathlib
import Lidar.Binary64

/-!
# Rounding to the nearest number

Arithmetic takes the parts of its operands, makes a significand of the exact result with two bits
more, a round bit and a sticky bit, and rounds it to 53 bits. What comes out is the exact result
where that needs no more bits, and is otherwise off by at most half a step between neighbours.
-/
namespace Lidar.Binary64

open Float.Model (Format totalExponent UnpackedFloat)
open Float.Model.UnpackedFloat

/-- What a significand with its round bit and its sticky bit says of the number it was cut from. -/
def Cut (em : ExtendedMantissa) (y : ℚ) : Prop :=
  match em.roundBit, em.stickyBit with
  | false, false => y = em.mantissa
  | false, true => em.mantissa < y ∧ y < em.mantissa + 1 / 2
  | true, false => y = em.mantissa + 1 / 2
  | true, true => em.mantissa + 1 / 2 < y ∧ y < em.mantissa + 1

theorem cut_exact (m : Nat) : Cut (.ofMantissaAndAccuracy m .exact) m := rfl

theorem mantissa_ofMantissaAndAccuracy (m : Nat) (accuracy : Accuracy) :
    (ExtendedMantissa.ofMantissaAndAccuracy m accuracy).mantissa = m := by
  cases accuracy with
  | exact => rfl
  | inexact side => cases side <;> rfl

theorem Cut.shiftRightOne {em : ExtendedMantissa} {y : ℚ} (cut : Cut em y) :
    Cut em.shiftRightOne (y / 2) := by
  rcases em with ⟨m, round, sticky⟩
  have parts : (m : ℚ) = 2 * (m / 2 : Nat) + (m % 2 : Nat) := by
    exact_mod_cast (Nat.div_add_mod m 2).symm
  rcases Nat.mod_two_eq_zero_or_one m with bit | bit
  · cases round <;> cases sticky <;>
      simp [Cut, ExtendedMantissa.shiftRightOne, bit] at cut parts ⊢
    · linarith
    all_goals constructor <;> linarith
  · cases round <;> cases sticky <;>
      simp [Cut, ExtendedMantissa.shiftRightOne, bit] at cut parts ⊢
    · linarith
    all_goals constructor <;> linarith

theorem Cut.shiftRight {em : ExtendedMantissa} {y : ℚ} (cut : Cut em y) (n : Nat) :
    Cut (em >>> n) (y / 2 ^ n) := by
  show Cut (n.repeat ExtendedMantissa.shiftRightOne em) _
  induction n with
  | zero => simpa [Nat.repeat] using cut
  | succ n ih =>
    rw [pow_succ, ← div_div]
    exact ih.shiftRightOne

theorem Cut.floor {em : ExtendedMantissa} {y : ℚ} (cut : Cut em y) :
    em.mantissa ≤ y ∧ y < em.mantissa + 1 := by
  rcases em with ⟨m, round, sticky⟩
  cases round <;> cases sticky <;> simp only [Cut] at cut <;> constructor <;> linarith

theorem Cut.near {em : ExtendedMantissa} {y : ℚ} (cut : Cut em y) :
    |(em.roundedMantissa : ℚ) - y| ≤ 1 / 2 := by
  rcases em with ⟨m, round, sticky⟩
  rw [abs_le]
  cases round <;> cases sticky <;>
    simp only [Cut, ExtendedMantissa.roundedMantissa, ExtendedMantissa.accuracy,
      Accuracy.roundToNearestEven] at cut ⊢
  · constructor <;> linarith
  · constructor <;> linarith
  · -- a tie goes up or down
    rcases Nat.mod_two_eq_zero_or_one m with bit | bit <;> rw [bit] <;> push_cast <;>
      constructor <;> linarith
  · push_cast
    constructor <;> linarith

theorem Cut.exact {em : ExtendedMantissa} {k : ℤ} (cut : Cut em k) :
    (em.roundedMantissa : ℚ) = k := by
  rcases em with ⟨m, round, sticky⟩
  cases round <;> cases sticky <;>
    simp only [Cut, ExtendedMantissa.roundedMantissa, ExtendedMantissa.accuracy,
      Accuracy.roundToNearestEven] at cut ⊢
  · exact cut.symm
  -- there is no integer in the other three
  · have low : (m : ℤ) < k := by exact_mod_cast cut.1
    have high : (k : ℚ) < (m : ℤ) + 1 := by push_cast; linarith
    have : k < (m : ℤ) + 1 := by exact_mod_cast high
    omega
  · have twice : 2 * (k : ℚ) = 2 * m + 1 := by linarith
    have : 2 * k = 2 * (m : ℤ) + 1 := by exact_mod_cast twice
    omega
  · have low : (m : ℚ) < k := by linarith
    have low : (m : ℤ) < k := by exact_mod_cast low
    have high : k < (m : ℤ) + 1 := by exact_mod_cast cut.2
    omega

def signum : Sign → ℚ
  | .negative => -1
  | .positive => 1

theorem abs_signum (s : Sign) : |signum s| = 1 := by
  cases s <;> simp [signum]

def unpackedValue : UnpackedFloat → ℚ
  | .finite s m e _ => signum s * m * 2 ^ e
  | _ => 0

@[simp] theorem unpackedValue_zero (s : Sign) : unpackedValue (.zero s) = 0 := rfl

theorem abs_unpackedValue (s : Sign) {m : Nat} (e : ℤ) (some : 0 < m) :
    |unpackedValue (.finite s m e some)| = m * 2 ^ e := by
  rw [unpackedValue, abs_mul, abs_mul, abs_signum, one_mul, Nat.abs_cast,
    abs_of_pos (show (0 : ℚ) < 2 ^ e by positivity)]

/-- A finite number in the form that is packed: the significand has 53 bits, or fewer of them at the
least exponent. -/
def Canonical : UnpackedFloat → Prop
  | .zero _ => True
  | .finite _ m e _ => m < 2 ^ 53 ∧ -1074 ≤ e ∧ (2 ^ 52 ≤ m ∨ e = -1074)
  | _ => False

theorem Canonical.cases {f : UnpackedFloat} (canonical : Canonical f) :
    (∃ s, f = .zero s) ∨ ∃ s m e some, f = .finite s m e some ∧
      m < 2 ^ 53 ∧ -1074 ≤ e ∧ (2 ^ 52 ≤ m ∨ e = -1074) := by
  cases f with
  | infinity s => exact canonical.elim
  | notANumber => exact canonical.elim
  | zero s => exact .inl ⟨s, rfl⟩
  | finite s m e some => exact .inr ⟨s, m, e, some, rfl, canonical⟩

/-- A number `x` and what it is rounded to, where neighbours are `2 ^ t` apart. -/
structure RoundedBy (t : ℤ) (x : ℚ) (f : UnpackedFloat) : Prop where
  canonical : Canonical f
  above : t = -1074 ∨ 2 ^ 52 * 2 ^ t ≤ |x|
  near : |unpackedValue f - x| ≤ 2 ^ t / 2
  exact : ∀ k : ℤ, x = k * 2 ^ t → unpackedValue f = x

def IsRounded (x : ℚ) (f : UnpackedFloat) : Prop := ∃ t, RoundedBy t x f

theorem targetExponent_eq (m : Nat) (e : ℤ) :
    Format.binary64.targetExponent (totalExponent m e) = max (m.log2 + e - 52) (-1074) := by
  simp only [Format.targetExponent, totalExponent, Format.mantissaBits, Format.minExponent]
  norm_num
  omega

/-- What is left to do once a significand is rounded: it may have got one bit too many. -/
def settled (s : Sign) (r : Nat) (t : ℤ) : UnpackedFloat :=
  let (em, e) := shiftToTargetExponent Format.binary64 r t .exact
  if h : em.mantissa = 0 then .zero s else .finite s em.mantissa e (Nat.pos_of_ne_zero h)

theorem settled_carry (s : Sign) {t : ℤ} (bottom : -1074 ≤ t) :
    settled s (2 ^ 53) t = .finite s (2 ^ 52) (t + 1) (by decide) := by
  have target : Format.binary64.targetExponent (totalExponent (2 ^ 53) t) = t + 1 := by
    rw [targetExponent_eq, Nat.log2_two_pow]
    omega
  unfold settled shiftToTargetExponent shiftToExponent
  rw [target]
  simp [ExtendedMantissa.ofMantissaAndAccuracy, HShiftRight.hShiftRight, Nat.repeat,
    ExtendedMantissa.shiftRightOne]

theorem settled_small (s : Sign) {r : Nat} {t : ℤ} (small : r < 2 ^ 53) (bottom : -1074 ≤ t) :
    settled s r t = if h : r = 0 then .zero s else .finite s r t (Nat.pos_of_ne_zero h) := by
  have log : r.log2 ≤ 52 := by
    by_cases zero : r = 0
    · simp [zero]
    · have := (Nat.log2_lt zero).2 small
      omega
  have target : (Format.binary64.targetExponent (totalExponent r t) - t).toNat = 0 := by
    rw [targetExponent_eq]
    omega
  simp only [settled, shiftToTargetExponent, shiftToExponent, target]
  simp [ExtendedMantissa.ofMantissaAndAccuracy, HShiftRight.hShiftRight, Nat.repeat]

theorem settled_spec (s : Sign) {r : Nat} {t : ℤ} (small : r ≤ 2 ^ 53) (bottom : -1074 ≤ t)
    (full : 2 ^ 52 ≤ r ∨ t = -1074) :
    Canonical (settled s r t) ∧ unpackedValue (settled s r t) = signum s * r * 2 ^ t := by
  rcases Nat.lt_or_eq_of_le small with small | rfl
  · rw [settled_small s small bottom]
    split
    · next zero => simp [Canonical, zero]
    · exact ⟨⟨small, bottom, full⟩, rfl⟩
  · rw [settled_carry s bottom]
    refine ⟨⟨by decide, by omega, .inl (Nat.le_refl _)⟩, ?_⟩
    rw [unpackedValue, zpow_add_one₀ (by norm_num)]
    push_cast
    ring

theorem roundedBy_settled (s : Sign) {em : ExtendedMantissa} {z : ℚ} {t : ℤ} (cut : Cut em z)
    (bottom : -1074 ≤ t) (below : z < 2 ^ 53) (above : t = -1074 ∨ 2 ^ 52 ≤ z) :
    RoundedBy t (signum s * (z * 2 ^ t)) (settled s em.roundedMantissa t) := by
  have step : (0 : ℚ) < 2 ^ t := by positivity
  have near := cut.near
  have small : em.roundedMantissa ≤ 2 ^ 53 := by
    have : (em.roundedMantissa : ℚ) < (2 ^ 53 + 1 : Nat) := by
      push_cast
      linarith [(abs_le.1 near).2]
    exact Nat.le_of_lt_succ (by exact_mod_cast this)
  have full : 2 ^ 52 ≤ em.roundedMantissa ∨ t = -1074 := by
    rcases above with bottom | above
    · exact .inr bottom
    · have : ((2 ^ 52 : Nat) : ℚ) < (em.roundedMantissa + 1 : Nat) := by
        push_cast
        linarith [(abs_le.1 near).1]
      exact .inl (Nat.le_of_lt_succ (by exact_mod_cast this))
  obtain ⟨canonical, value⟩ := settled_spec s small bottom full
  have nonneg : 0 ≤ z := le_trans (Nat.cast_nonneg _) cut.floor.1
  constructor
  · exact canonical
  · rw [abs_mul, abs_signum, one_mul, abs_of_nonneg (by positivity)]
    exact above.imp_right fun above => mul_le_mul_of_nonneg_right above step.le
  · have apart : signum s * em.roundedMantissa * 2 ^ t - signum s * (z * 2 ^ t) =
        signum s * ((em.roundedMantissa - z) * 2 ^ t) := by ring
    rw [value, apart, abs_mul, abs_signum, one_mul, abs_mul, abs_of_pos step]
    linarith [mul_le_mul_of_nonneg_right near step.le]
  · intro k whole
    rw [← mul_assoc] at whole
    have whole : signum s * z = k := mul_right_cancel₀ step.ne' whole
    have exact : (em.roundedMantissa : ℚ) = z := by
      cases s with
      | positive =>
        have : z = k := by simpa [signum] using whole
        rw [this] at cut ⊢
        exact cut.exact
      | negative =>
        have : z = (-k : ℤ) := by
          simp [signum] at whole
          push_cast
          linarith
        rw [this] at cut ⊢
        exact cut.exact
    rw [value, exact]
    ring

/-- The grid is chosen so that a number takes at most 53 bits of it, and no fewer unless the grid is
the finest one. -/
theorem binade {m : Nat} {e t : ℤ} {y : ℚ} (floor : m ≤ y ∧ y < m + 1)
    (target : t = max (m.log2 + e - 52) (-1074)) (fine : e ≤ t) :
    y * 2 ^ e < 2 ^ 53 * 2 ^ t ∧ (t = -1074 ∨ 2 ^ 52 * 2 ^ t ≤ y * 2 ^ e) := by
  have power (n : Nat) (k : ℤ) : (2 : ℚ) ^ n * 2 ^ k = 2 ^ (n + k) := by
    rw [zpow_add₀ (by norm_num), zpow_natCast]
  constructor
  · have log : (m + 1 : ℚ) ≤ 2 ^ (m.log2 + 1) := by exact_mod_cast Nat.lt_log2_self
    calc y * 2 ^ e < 2 ^ (m.log2 + 1) * 2 ^ e :=
          mul_lt_mul_of_pos_right (floor.2.trans_le log) (by positivity)
      _ = 2 ^ ((m.log2 + 1 : Nat) + e) := power _ e
      _ ≤ 2 ^ ((53 : Nat) + t) := zpow_le_zpow_right₀ (by norm_num) (by omega)
      _ = 2 ^ 53 * 2 ^ t := (power 53 t).symm
  · by_cases bottom : t = -1074
    · exact .inl bottom
    · have some : m ≠ 0 := by
        rintro rfl
        simp at target
        omega
      have log : (2 ^ m.log2 : ℚ) ≤ m := by exact_mod_cast Nat.log2_self_le some
      right
      calc (2 : ℚ) ^ 52 * 2 ^ t = 2 ^ ((52 : Nat) + t) := power 52 t
        _ = 2 ^ (m.log2 + e) := by congr 1; omega
        _ = 2 ^ m.log2 * 2 ^ e := (power _ e).symm
        _ ≤ y * 2 ^ e := mul_le_mul_of_nonneg_right (log.trans floor.1) (by positivity)

theorem roundWithAccuracy_eq (s : Sign) {m : Nat} {e t : ℤ} (accuracy : Accuracy)
    (target : Format.binary64.targetExponent (totalExponent m e) = t) (fine : e ≤ t) :
    roundWithAccuracy Format.binary64 s m e accuracy =
      settled s (ExtendedMantissa.ofMantissaAndAccuracy m accuracy >>> (t - e).toNat).roundedMantissa
        t := by
  have place : e + ((t - e).toNat : ℤ) = t := by omega
  unfold roundWithAccuracy settled
  conv_lhs => rw [shiftToTargetExponent, shiftToExponent]
  simp only [target, place]

theorem isRounded_roundWithAccuracy (s : Sign) {m : Nat} {e : ℤ} {accuracy : Accuracy} {y : ℚ}
    (cut : Cut (.ofMantissaAndAccuracy m accuracy) y) (fine : e ≤ max (m.log2 + e - 52) (-1074)) :
    IsRounded (signum s * (y * 2 ^ e)) (roundWithAccuracy Format.binary64 s m e accuracy) := by
  obtain ⟨t, target⟩ : ∃ t, t = max (m.log2 + e - 52) (-1074) := ⟨_, rfl⟩
  rw [← target] at fine
  rw [roundWithAccuracy_eq s accuracy ((targetExponent_eq m e).trans target.symm) fine]
  have floor := cut.floor
  rw [mantissa_ofMantissaAndAccuracy] at floor
  have scaled : y * 2 ^ e = y / 2 ^ (t - e).toNat * 2 ^ t := by
    rw [← zpow_natCast, Int.toNat_of_nonneg (by omega), zpow_sub₀ (by norm_num)]
    field_simp
  obtain ⟨below, above⟩ := binade floor target fine
  have step : (0 : ℚ) < 2 ^ t := by positivity
  rw [scaled] at below above ⊢
  refine ⟨t, roundedBy_settled s (cut.shiftRight _) (target ▸ le_max_right _ _) ?_ ?_⟩
  · exact lt_of_mul_lt_mul_right below step.le
  · exact above.imp_right fun above => le_of_mul_le_mul_right above step

theorem isRounded_zero (s : Sign) : IsRounded 0 (.zero s) := by
  refine ⟨-1074, trivial, .inl rfl, ?_, fun _ _ => rfl⟩
  rw [unpackedValue_zero, sub_zero, abs_zero]
  positivity

theorem isRounded_self {f : UnpackedFloat} (canonical : Canonical f) :
    IsRounded (unpackedValue f) f := by
  rcases canonical.cases with ⟨s, rfl⟩ | ⟨s, m, e, some, rfl, -, -, full⟩
  · exact isRounded_zero s
  · refine ⟨e, canonical, ?_, ?_, fun _ _ => rfl⟩
    · rw [abs_unpackedValue]
      rcases full with full | least
      · right
        apply mul_le_mul_of_nonneg_right _ (by positivity)
        exact_mod_cast full
      · exact .inl least
    · rw [sub_self, abs_zero]
      positivity

theorem log2_shiftLeft {m : Nat} (some : m ≠ 0) (k : Nat) : (m <<< k).log2 = m.log2 + k := by
  induction k with
  | zero => rfl
  | succ k ih =>
    rw [Nat.shiftLeft_succ, Nat.log2_two_mul (by simp [some]), ih]
    rfl

theorem isRounded_round (s : Sign) {m : Nat} (some : m ≠ 0) (e : ℤ) :
    IsRounded (signum s * (m * 2 ^ e)) (UnpackedFloat.round Format.binary64 s m e) := by
  obtain ⟨k, shift⟩ : ∃ k, k = (e - max (m.log2 + e - 52) (-1074)).toNat := ⟨_, rfl⟩
  have scaled : (m * 2 ^ e : ℚ) = (m <<< k : Nat) * 2 ^ (e - k) := by
    rw [Nat.shiftLeft_eq, zpow_sub₀ (by norm_num), zpow_natCast]
    push_cast
    field_simp
  have rounded := isRounded_roundWithAccuracy s (cut_exact (m <<< k))
    (show e - k ≤ max ((m <<< k).log2 + (e - k) - 52) (-1074) by
      rw [log2_shiftLeft some]
      omega)
  rw [scaled]
  simp only [UnpackedFloat.round, decreaseExponent, targetExponent_eq, ← shift]
  exact rounded

theorem isRounded_normalize (m e : ℤ) (zeroSign : Sign) :
    IsRounded (m * 2 ^ e) (UnpackedFloat.normalize Format.binary64 m e zeroSign) := by
  unfold UnpackedFloat.normalize
  rcases lt_trichotomy m 0 with negative | zero | positive
  · have size : (m : ℚ) = signum .negative * (-m).toNat := by
      rw [← Int.cast_natCast, Int.toNat_of_nonneg (by omega)]
      simp [signum]
    rw [Int.compare_eq_lt.2 negative, size, mul_assoc]
    exact isRounded_round .negative (by omega) e
  · rw [Int.compare_eq_eq.2 zero, zero]
    simpa using isRounded_zero zeroSign
  · have size : (m : ℚ) = signum .positive * m.toNat := by
      rw [← Int.cast_natCast, Int.toNat_of_nonneg (by omega)]
      simp [signum]
    rw [Int.compare_eq_gt.2 positive, size, mul_assoc]
    exact isRounded_round .positive (by omega) e

def OnGrid (x : ℚ) : Prop := ∃ k : ℤ, x = k * 2 ^ (-1074 : ℤ)

theorem OnGrid.add {x y : ℚ} (hx : OnGrid x) (hy : OnGrid y) : OnGrid (x + y) := by
  obtain ⟨k, rfl⟩ := hx
  obtain ⟨l, rfl⟩ := hy
  exact ⟨k + l, by rw [Int.cast_add, add_mul]⟩

theorem OnGrid.sub {x y : ℚ} (hx : OnGrid x) (hy : OnGrid y) : OnGrid (x - y) := by
  obtain ⟨k, rfl⟩ := hx
  obtain ⟨l, rfl⟩ := hy
  exact ⟨k - l, by rw [Int.cast_sub, sub_mul]⟩

theorem OnGrid.mul_int {x : ℚ} (hx : OnGrid x) (n : ℤ) : OnGrid (x * n) := by
  obtain ⟨k, rfl⟩ := hx
  exact ⟨k * n, by rw [Int.cast_mul, mul_right_comm]⟩

namespace IsRounded

variable {x : ℚ} {f : UnpackedFloat}

theorem canonical (rounded : IsRounded x f) : Canonical f := rounded.choose_spec.canonical

theorem exact (rounded : IsRounded x f) {m e : ℤ} (whole : x = m * 2 ^ e) (few : |m| < 2 ^ 53)
    (bottom : -1074 ≤ e) : unpackedValue f = x := by
  obtain ⟨t, rounded⟩ := rounded
  have coarse : t ≤ e := by
    rcases rounded.above with least | above
    · omega
    · have size : |x| < 2 ^ 53 * 2 ^ e := by
        rw [whole, abs_mul, abs_of_pos (show (0 : ℚ) < 2 ^ e by positivity)]
        apply mul_lt_mul_of_pos_right _ (by positivity)
        exact_mod_cast few
      have power : (2 : ℚ) ^ t < 2 * 2 ^ e := by linarith [above.trans_lt size]
      rw [← zpow_one_add₀ (by norm_num)] at power
      have := (zpow_lt_zpow_iff_right₀ (show (1 : ℚ) < 2 by norm_num)).1 power
      omega
  apply rounded.exact (m * 2 ^ (e - t).toNat)
  push_cast
  rw [whole, mul_assoc, ← zpow_natCast, ← zpow_add₀ (by norm_num)]
  congr 2
  omega

theorem near (rounded : IsRounded x f) (grid : OnGrid x) :
    |unpackedValue f - x| ≤ |x| / 2 ^ 53 := by
  obtain ⟨t, rounded⟩ := rounded
  obtain ⟨k, whole⟩ := grid
  rcases rounded.above with rfl | above
  · rw [rounded.exact k whole, sub_self, abs_zero]
    positivity
  · linarith [rounded.near]

theorem close (rounded : IsRounded x f) :
    |unpackedValue f - x| ≤ |x| / 2 ^ 53 + 2 ^ (-1074 : ℤ) / 2 := by
  obtain ⟨t, rounded⟩ := rounded
  have near := rounded.near
  have size := abs_nonneg x
  rcases rounded.above with rfl | above
  · linarith [div_nonneg size (show (0 : ℚ) ≤ 2 ^ 53 by norm_num)]
  · have : (0 : ℚ) < 2 ^ (-1074 : ℤ) := by positivity
    generalize (2 : ℚ) ^ (-1074 : ℤ) = least at this ⊢
    linarith

end IsRounded

end Lidar.Binary64
