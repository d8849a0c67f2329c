import Mathlib.Tactic.FieldSimp
import Mathlib.Tactic.Linarith
import Mathlib.Tactic.Positivity
import Mathlib.Tactic.Ring
import AiSOC.FloatOrder

/-! # The error of floating-point arithmetic

The rational number that a finite number is, the order in terms of it, and how far the result of an
operation is from the exact one. The bounds are absolute, for results below a power of two, and
allow for one unit in the last place. -/
namespace FloatError

open Float.Model (Format UnpackedFloat totalExponent)
open Float.Model.UnpackedFloat
open FloatOrder (assemble)
open Float.Model.UnpackedFloat (unpackExponent unpackMantissa)

def value : UnpackedFloat → ℚ
  | .finite s m e _ => (s.apply m : ℤ) * 2 ^ e
  | _ => 0

/-- Zero for an infinity and for the NaN. -/
def val (a : Float) : ℚ := value a.toModel.unpack

def IsFinite (a : Float) : Prop := a.toModel.unpack.isFinite = true

/-! ## Rounding the mantissa -/

theorem mantissa_shift (em : ExtendedMantissa) (k : ℕ) :
    (em >>> k).mantissa = em.mantissa / 2 ^ k := by
  induction k with
  | zero => exact (Nat.div_one _).symm
  | succ k ih =>
    change (em >>> k).mantissa / 2 = _
    rw [ih, Nat.div_div_eq_div_mul, pow_succ]

theorem roundedMantissa_bounds (em : ExtendedMantissa) :
    em.mantissa ≤ em.roundedMantissa ∧ em.roundedMantissa ≤ em.mantissa + 1 := by
  obtain ⟨m, _ | _, _ | _⟩ := em
  · exact ⟨Nat.le_refl m, Nat.le_succ m⟩
  · exact ⟨Nat.le_refl m, Nat.le_succ m⟩
  · change m ≤ m + m % 2 ∧ m + m % 2 ≤ m + 1
    omega
  · exact ⟨Nat.le_succ m, Nat.le_refl (m + 1)⟩

/-- The exponent that the result is rounded to. -/
def target (m : ℕ) (e : ℤ) : ℤ := max (m.log2 + e - 52) (-1074)

theorem targetExponent_eq (m : ℕ) (e : ℤ) :
    Format.binary64.targetExponent (totalExponent m e) = target m e := by
  change max ((m.log2 : ℤ) + 1 + e - 53) (-1074) = _
  unfold target
  omega

/-- The mantissa before the last shift. -/
def rounded (m : ℕ) (e : ℤ) (acc : Accuracy) : ℕ :=
  (ExtendedMantissa.ofMantissaAndAccuracy m acc >>> (target m e - e).toNat).roundedMantissa

theorem mantissa_ofMantissaAndAccuracy (m : ℕ) (acc : Accuracy) :
    (ExtendedMantissa.ofMantissaAndAccuracy m acc).mantissa = m := by
  rcases acc with _ | ⟨_ | _ | _⟩ <;> rfl

variable {m : ℕ} {e : ℤ} {acc : Accuracy}

theorem rounded_bounds : m / 2 ^ (target m e - e).toNat ≤ rounded m e acc ∧
    rounded m e acc ≤ m / 2 ^ (target m e - e).toNat + 1 := by
  have h := roundedMantissa_bounds
    (ExtendedMantissa.ofMantissaAndAccuracy m acc >>> (target m e - e).toNat)
  rwa [mantissa_shift, mantissa_ofMantissaAndAccuracy] at h

/-- At most 53 bits are left, and all of them unless the number is subnormal. -/
theorem rounded_size (he : e ≤ target m e) : rounded m e acc ≤ 2 ^ 53 ∧
    (2 ^ 52 ≤ rounded m e acc ∨ target m e = -1074) := by
  obtain ⟨hlow, hhigh⟩ := @rounded_bounds m e acc
  have hlt : m < 2 ^ (m.log2 + 1) := Nat.lt_log2_self
  have hlog : m.log2 ≤ 52 + (target m e - e).toNat := by
    unfold target at he ⊢
    omega
  constructor
  · have hdiv : m / 2 ^ (target m e - e).toNat < 2 ^ 53 := by
      rw [Nat.div_lt_iff_lt_mul (Nat.two_pow_pos _), ← pow_add]
      exact hlt.trans_le (Nat.pow_le_pow_right Nat.two_pos (by omega))
    omega
  · by_cases hmin : target m e = -1074
    · exact Or.inr hmin
    · left
      have heq : m.log2 = 52 + (target m e - e).toNat := by
        unfold target at he hmin ⊢
        omega
      have hm : m ≠ 0 := by
        rintro rfl
        change 0 = _ at heq
        omega
      have hdiv : 2 ^ 52 ≤ m / 2 ^ (target m e - e).toNat := by
        rw [Nat.le_div_iff_mul_le (Nat.two_pow_pos _), ← pow_add, ← heq]
        exact Nat.log2_self_le hm
      omega

theorem shiftToTargetExponent_eq :
    shiftToTargetExponent .binary64 m e acc =
      (ExtendedMantissa.ofMantissaAndAccuracy m acc >>> (target m e - e).toNat,
        e + (target m e - e).toNat) := by
  rw [← targetExponent_eq]
  rfl

/-- The second shift only takes back the overflow of the first. -/
theorem roundWithAccuracy_eq (s : Sign) (he : e ≤ target m e) :
    roundWithAccuracy .binary64 s m e acc =
      if h : rounded m e acc = 0 then .zero s
      else if rounded m e acc < 2 ^ 53 then
        .finite s (rounded m e acc) (target m e) (Nat.pos_of_ne_zero h)
      else .finite s (2 ^ 52) (target m e + 1) (Nat.two_pow_pos 52) := by
  obtain ⟨hsize, -⟩ := @rounded_size m e acc he
  have hmin : -1074 ≤ target m e := Int.le_max_right _ _
  have hexponent : e + (target m e - e).toNat = target m e := by omega
  unfold roundWithAccuracy
  rw [shiftToTargetExponent_eq]
  dsimp only
  rw [hexponent]
  change (let p := shiftToTargetExponent .binary64 (rounded m e acc) (target m e) .exact
    if h : p.1.mantissa = 0 then UnpackedFloat.zero s
    else .finite s p.1.mantissa p.2 (Nat.pos_of_ne_zero h)) = _
  generalize rounded m e acc = r at *
  generalize target m e = t at *
  rw [shiftToTargetExponent_eq]
  dsimp only
  by_cases hlt : r < 2 ^ 53
  · have hlog : r.log2 ≤ 52 := by
      by_cases hr : r = 0
      · rw [hr]
        decide
      · have := (Nat.log2_lt hr).mpr hlt
        omega
    have hstay : (target r t - t).toNat = 0 := by
      unfold target
      omega
    rw [hstay]
    simp only [mantissa_shift, mantissa_ofMantissaAndAccuracy, pow_zero, Nat.div_one, if_pos hlt,
      Int.natCast_zero, add_zero]
  · obtain rfl : r = 2 ^ 53 := by omega
    have hstep : (target (2 ^ 53) t - t).toNat = 1 := by
      unfold target
      rw [Nat.log2_two_pow]
      omega
    rw [hstep]
    rfl

/-! ## Numbers that can be stored -/

/-- Normal, or subnormal with the least exponent. -/
def Canonical (m : ℕ) (e : ℤ) : Prop :=
  m < 2 ^ 52 ∧ e = -1074 ∨ 2 ^ 52 ≤ m ∧ m < 2 ^ 53 ∧ -1074 ≤ e ∧ e ≤ 971

theorem finite_congr {s : Sign} {m' : ℕ} {e' : ℤ} {hm : 0 < m} {hm' : 0 < m'} (h : m = m')
    (he : e = e') : UnpackedFloat.finite s m e hm = .finite s m' e' hm' := by
  subst h he
  rfl

theorem exists_assemble (s : Sign) (hm : 0 < m) (h : Canonical m e) :
    ∃ b f, UnpackedFloat.finite s m e hm = assemble s b f := by
  rcases h with ⟨hlt, rfl⟩ | ⟨hle, hlt, hmin, hmax⟩
  · refine ⟨0#11, BitVec.ofNat 52 m, ?_⟩
    have hnat : (BitVec.ofNat 52 m).toNat = m := by
      rw [BitVec.toNat_ofNat, Nat.mod_eq_of_lt hlt]
    have hne : BitVec.ofNat 52 m ≠ 0#52 := by
      intro heq
      rw [heq] at hnat
      exact hm.ne hnat
    rw [assemble, if_neg (by decide), if_pos rfl, dif_neg hne]
    exact finite_congr hnat.symm rfl
  · refine ⟨BitVec.ofNat 11 (e + 1075).toNat, BitVec.ofNat 52 (m - 2 ^ 52), ?_⟩
    have hexponent : (BitVec.ofNat 11 (e + 1075).toNat).toNat = (e + 1075).toNat := by
      rw [BitVec.toNat_ofNat, Nat.mod_eq_of_lt (by omega)]
    have hmantissa : (BitVec.ofNat 52 (m - 2 ^ 52)).toNat = m - 2 ^ 52 := by
      rw [BitVec.toNat_ofNat, Nat.mod_eq_of_lt (by omega)]
    have hinf : BitVec.ofNat 11 (e + 1075).toNat ≠ -1#11 := by
      intro heq
      have hnat := congrArg BitVec.toNat heq
      rw [hexponent] at hnat
      change _ = 2047 at hnat
      omega
    have hzero : BitVec.ofNat 11 (e + 1075).toNat ≠ 0#11 := by
      intro heq
      have hnat := congrArg BitVec.toNat heq
      rw [hexponent] at hnat
      change _ = 0 at hnat
      omega
    rw [assemble, if_neg hinf, if_neg hzero]
    exact finite_congr (by omega) (by omega)

theorem unpack_pack_finite (s : Sign) (hm : 0 < m) (h : Canonical m e) :
    (Float.Model.pack (.finite s m e hm)).unpack = .finite s m e hm := by
  obtain ⟨b, f, heq⟩ := exists_assemble s hm h
  rw [heq, FloatOrder.unpack_pack_assemble]

theorem unpack_pack_unpack (a : Float) :
    (Float.Model.pack a.toModel.unpack).unpack = a.toModel.unpack := by
  have hunpack : a.toModel.unpack = assemble _ _ _ := FloatOrder.unpack_eq_assemble _
  rw [hunpack, FloatOrder.unpack_pack_assemble]

theorem canonical_of_unpack {a : Float} {s : Sign} {hm : 0 < m}
    (h : a.toModel.unpack = .finite s m e hm) : Canonical m e := by
  have hunpack : a.toModel.unpack = assemble _ _ _ := FloatOrder.unpack_eq_assemble _
  rw [hunpack] at h
  generalize unpackExponent _ = b, unpackMantissa _ = f at h
  unfold assemble at h
  split_ifs at h with hinf hnan hzero hsub
  · cases h
    exact Or.inl ⟨f.isLt, rfl⟩
  · cases h
    have hmax : b.toNat ≠ 2047 := fun heq => hinf (BitVec.toNat_inj.mp heq)
    have hpos : b.toNat ≠ 0 := fun heq => hzero (BitVec.toNat_inj.mp heq)
    have hb : b.toNat < 2048 := b.isLt
    have hf : f.toNat < 2 ^ 52 := f.isLt
    exact Or.inr ⟨by omega, by omega, by omega, by omega⟩

/-! ## One rounding -/

/-- One or minus one. -/
def unit (s : Sign) : ℚ := (s.apply 1 : ℤ)

theorem unit_negative : unit .negative = -1 := rfl

theorem unit_positive : unit .positive = 1 := rfl

theorem value_finite (s : Sign) (hm : 0 < m) :
    value (.finite s m e hm) = unit s * (m * 2 ^ e) := by
  cases s <;> simp [value, unit, Sign.apply]

theorem abs_unit (s : Sign) : |unit s| = 1 := by
  cases s <;> simp [unit, Sign.apply]

variable {x : ℚ} {N : ℤ}

theorem target_le (he : e ≤ target m e) (hlow : m * (2 : ℚ) ^ e ≤ x) (hx : x < 2 ^ N)
    (hmin : -1021 ≤ N) : target m e ≤ N - 53 := by
  by_cases hm : m = 0
  · subst hm
    unfold target at he ⊢
    change e ≤ max (0 + e - 52) (-1074) at he
    change max (0 + e - 52) (-1074) ≤ _
    omega
  · have hpow : (2 : ℚ) ^ ((m.log2 : ℤ) + e) ≤ m * 2 ^ e := by
      rw [zpow_add₀ two_ne_zero, zpow_natCast]
      refine mul_le_mul_of_nonneg_right ?_ (zpow_pos two_pos e).le
      exact_mod_cast Nat.log2_self_le hm
    have hlt := (zpow_lt_zpow_iff_right₀ one_lt_two).mp ((hpow.trans hlow).trans_lt hx)
    unfold target
    omega

theorem rounded_near (he : e ≤ target m e) (hlow : m * (2 : ℚ) ^ e ≤ x)
    (hhigh : x ≤ (m + 1) * 2 ^ e) :
    |rounded m e acc * 2 ^ target m e - x| ≤ 2 ^ target m e := by
  obtain ⟨hfloor, hceil⟩ := @rounded_bounds m e acc
  generalize hk : (target m e - e).toNat = k at hfloor hceil
  have hexponent : target m e = k + e := by omega
  have hunit : (2 : ℚ) ^ target m e = 2 ^ k * 2 ^ e := by
    rw [hexponent, zpow_add₀ two_ne_zero, zpow_natCast]
  have hpos : (0 : ℚ) < 2 ^ e := zpow_pos two_pos e
  have hbelow : ((m / 2 ^ k : ℕ) : ℚ) * 2 ^ k ≤ m := by
    exact_mod_cast Nat.div_mul_le_self m (2 ^ k)
  have habove : (m : ℚ) + 1 ≤ ((m / 2 ^ k : ℕ) + 1) * 2 ^ k := by
    have hlt := Nat.lt_div_mul_add (a := m) (Nat.two_pow_pos k)
    have hle : m + 1 ≤ (m / 2 ^ k + 1) * 2 ^ k := by
      rw [add_mul, one_mul]
      exact hlt
    exact_mod_cast hle
  have hlow' : ((m / 2 ^ k : ℕ) : ℚ) * 2 ^ target m e ≤ x := by
    rw [hunit, ← mul_assoc]
    exact (mul_le_mul_of_nonneg_right hbelow hpos.le).trans hlow
  have hhigh' : x ≤ ((m / 2 ^ k : ℕ) + 1 : ℚ) * 2 ^ target m e := by
    rw [hunit, ← mul_assoc]
    exact hhigh.trans (mul_le_mul_of_nonneg_right habove hpos.le)
  have htarget : (0 : ℚ) ≤ 2 ^ target m e := (zpow_pos two_pos _).le
  have hr : ((m / 2 ^ k : ℕ) : ℚ) * 2 ^ target m e ≤ rounded m e acc * 2 ^ target m e :=
    mul_le_mul_of_nonneg_right (by exact_mod_cast hfloor) htarget
  have hr' : (rounded m e acc : ℚ) * 2 ^ target m e ≤
      ((m / 2 ^ k : ℕ) + 1 : ℚ) * 2 ^ target m e :=
    mul_le_mul_of_nonneg_right (by exact_mod_cast hceil) htarget
  rw [abs_le]
  constructor
  · linarith
  · linarith

/-- A rounded number can be stored when it is not too large. -/
theorem unpack_round (s : Sign) (he : e ≤ target m e) (hmax : target m e ≤ 970) :
    (Float.Model.pack (roundWithAccuracy .binary64 s m e acc)).unpack =
      roundWithAccuracy .binary64 s m e acc := by
  obtain ⟨hsize, hfull⟩ := @rounded_size m e acc he
  have hmin : -1074 ≤ target m e := Int.le_max_right _ _
  rw [roundWithAccuracy_eq s he]
  split_ifs with hzero hlt
  · exact FloatOrder.unpack_pack_assemble s 0#11 0#52
  · apply unpack_pack_finite
    unfold Canonical
    omega
  · apply unpack_pack_finite
    unfold Canonical
    omega

theorem value_round (s : Sign) (he : e ≤ target m e) :
    value (roundWithAccuracy .binary64 s m e acc) =
      unit s * (rounded m e acc * 2 ^ target m e) := by
  obtain ⟨hsize, -⟩ := @rounded_size m e acc he
  rw [roundWithAccuracy_eq s he]
  split_ifs with hzero hlt
  · rw [hzero, Nat.cast_zero, zero_mul, mul_zero]
    rfl
  · exact value_finite s _
  · have hr : rounded m e acc = 2 ^ 53 := by omega
    rw [value_finite, hr, zpow_add_one₀ two_ne_zero, mul_comm (2 ^ target m e) 2, ← mul_assoc _ 2]
    push_cast
    norm_num

theorem isFinite_round (s : Sign) (he : e ≤ target m e) :
    (roundWithAccuracy .binary64 s m e acc).isFinite = true := by
  rw [roundWithAccuracy_eq s he]
  split_ifs <;> rfl

/-- What is known of the number that an operation stores. -/
def Near (a : Float) (N : ℤ) (x : ℚ) : Prop := IsFinite a ∧ |val a - x| ≤ 2 ^ (N - 53)

theorem near_round (s : Sign) (he : e ≤ target m e) (hlow : m * (2 : ℚ) ^ e ≤ x)
    (hhigh : x ≤ (m + 1) * 2 ^ e) (hx : x < 2 ^ N) (hmin : -1021 ≤ N) (hmax : N ≤ 1023) :
    Near (Float.ofModel (Float.Model.pack (roundWithAccuracy .binary64 s m e acc))) N
      (unit s * x) := by
  have hle := target_le he hlow hx hmin
  unfold Near IsFinite val
  change (Float.Model.pack _).unpack.isFinite = true ∧ |value (Float.Model.pack _).unpack - _| ≤ _
  rw [unpack_round s he (by omega), value_round s he, ← mul_sub, abs_mul, abs_unit, one_mul]
  refine ⟨isFinite_round s he, (rounded_near he hlow hhigh).trans ?_⟩
  exact zpow_le_zpow_right₀ one_le_two hle

/-! ## Operations -/

theorem near_round_nearest (s : Sign) (hm : 0 < m) (hx : m * (2 : ℚ) ^ e < 2 ^ N)
    (hmin : -1021 ≤ N) (hmax : N ≤ 1023) :
    Near (Float.ofModel (Float.Model.pack (UnpackedFloat.round .binary64 s m e))) N
      (unit s * (m * 2 ^ e)) := by
  unfold UnpackedFloat.round decreaseExponent
  rw [targetExponent_eq]
  dsimp only
  rw [Nat.shiftLeft_eq]
  generalize hj : (e - target m e).toNat = j
  have hlog : (m * 2 ^ j).log2 = m.log2 + j := by
    rw [Nat.log2_eq_iff (by positivity), pow_add, add_right_comm, pow_add]
    constructor
    · exact Nat.mul_le_mul_right _ (Nat.log2_self_le hm.ne')
    · exact Nat.mul_lt_mul_of_pos_right Nat.lt_log2_self (Nat.two_pow_pos j)
  have htarget : e - j ≤ target (m * 2 ^ j) (e - j) := by
    unfold target at hj ⊢
    rw [hlog]
    omega
  have hexact : ((m * 2 ^ j : ℕ) : ℚ) * 2 ^ (e - j : ℤ) = m * 2 ^ e := by
    rw [zpow_sub₀ two_ne_zero, zpow_natCast]
    push_cast
    field_simp
  have hpos : (0 : ℚ) < 2 ^ (e - j : ℤ) := zpow_pos two_pos _
  refine near_round s htarget hexact.le ?_ hx hmin hmax
  rw [add_mul, hexact, one_mul]
  exact le_add_of_nonneg_right hpos.le

theorem pack_zero (z : Sign) : IsFinite (Float.ofModel (Float.Model.pack (.zero z))) ∧
    val (Float.ofModel (Float.Model.pack (.zero z))) = 0 := by
  have hunpack : (Float.Model.pack (.zero z)).unpack = .zero z :=
    FloatOrder.unpack_pack_assemble z 0#11 0#52
  unfold IsFinite val
  change (Float.Model.pack _).unpack.isFinite = true ∧ value (Float.Model.pack _).unpack = _
  rw [hunpack]
  exact ⟨rfl, rfl⟩

theorem near_zero (z : Sign) : Near (Float.ofModel (Float.Model.pack (.zero z))) N 0 := by
  obtain ⟨hfinite, hval⟩ := pack_zero z
  refine ⟨hfinite, ?_⟩
  rw [hval, sub_self, abs_zero]
  exact (zpow_pos two_pos _).le

theorem near_normalize (k e : ℤ) (z : Sign) (hx : |(k : ℚ) * 2 ^ e| < 2 ^ N)
    (hmin : -1021 ≤ N) (hmax : N ≤ 1023) :
    Near (Float.ofModel (Float.Model.pack (UnpackedFloat.normalize .binary64 k e z))) N
      (k * 2 ^ e) := by
  have hpos : (0 : ℚ) < 2 ^ e := zpow_pos two_pos e
  unfold UnpackedFloat.normalize
  rcases lt_trichotomy k 0 with hk | rfl | hk
  · have hcast : ((-k).toNat : ℚ) = -k := by
      have hnat : ((-k).toNat : ℤ) = -k := Int.toNat_of_nonneg (by omega)
      exact_mod_cast hnat
    rw [Int.compare_eq_lt.mpr hk]
    rw [abs_mul, abs_of_neg (by exact_mod_cast hk), abs_of_pos hpos, ← hcast] at hx
    have hnear := near_round_nearest .negative (by omega) hx hmin hmax
    rwa [hcast, unit_negative, neg_one_mul, neg_mul, neg_neg] at hnear
  · rw [Int.cast_zero, zero_mul]
    exact near_zero z
  · have hcast : (k.toNat : ℚ) = k := by
      have hnat : (k.toNat : ℤ) = k := Int.toNat_of_nonneg (by omega)
      exact_mod_cast hnat
    rw [Int.compare_eq_gt.mpr hk]
    rw [abs_mul, abs_of_pos (by exact_mod_cast hk), abs_of_pos hpos, ← hcast] at hx
    have hnear := near_round_nearest .positive (by omega) hx hmin hmax
    rwa [hcast, unit_positive, one_mul] at hnear

variable {a b : Float}

theorem finite_cases (ha : IsFinite a) :
    (∃ s, a.toModel.unpack = .zero s ∧ val a = 0) ∨
      ∃ s m e hm, a.toModel.unpack = .finite s m e hm ∧ val a = unit s * (m * 2 ^ e) := by
  unfold IsFinite at ha
  unfold val
  generalize a.toModel.unpack = u at *
  cases u with
  | infinity s => cases ha
  | notANumber => cases ha
  | zero s => exact Or.inl ⟨s, rfl, rfl⟩
  | finite s m e hm => exact Or.inr ⟨s, m, e, hm, rfl, value_finite s hm⟩

theorem near_self (ha : IsFinite a) :
    Near (Float.ofModel (Float.Model.pack a.toModel.unpack)) N (val a) := by
  unfold Near IsFinite val
  change (Float.Model.pack _).unpack.isFinite = true ∧ |value (Float.Model.pack _).unpack - _| ≤ _
  rw [unpack_pack_unpack, sub_self, abs_zero]
  exact ⟨ha, (zpow_pos two_pos _).le⟩

/-- A mantissa is shifted to a smaller exponent without loss. -/
theorem apply_shiftLeft (s : Sign) (m : ℕ) {e k : ℤ} (hk : k ≤ e) :
    ((s.apply (m <<< (e - k).toNat : ℕ) : ℤ) : ℚ) * 2 ^ k = unit s * (m * 2 ^ e) := by
  have hexponent : e = ((e - k).toNat : ℤ) + k := by omega
  have hpow : (2 : ℚ) ^ e = 2 ^ (e - k).toNat * 2 ^ k := by
    conv_lhs => rw [hexponent]
    rw [zpow_add₀ two_ne_zero, zpow_natCast]
  rw [hpow, Nat.shiftLeft_eq]
  cases s with
  | negative =>
    rw [unit_negative, Sign.apply]
    push_cast
    ring
  | positive =>
    rw [unit_positive, Sign.apply]
    push_cast
    ring

theorem near_add (ha : IsFinite a) (hb : IsFinite b) (h : |val a + val b| < 2 ^ N)
    (hmin : -1021 ≤ N) (hmax : N ≤ 1023) : Near (a + b) N (val a + val b) := by
  change Near (Float.ofModel (Float.Model.pack
    (UnpackedFloat.add .binary64 a.toModel.unpack b.toModel.unpack))) N _
  rcases finite_cases ha with ⟨s, hu, hval⟩ | ⟨s, m, e, hm, hu, hval⟩
  · rcases finite_cases hb with ⟨s', hv, hval'⟩ | ⟨s', m', e', hm', hv, hval'⟩
    · rw [hval, hval', hu, hv, add_zero]
      cases s <;> cases s' <;> exact near_zero _
    · have hnear := near_self (N := N) hb
      rw [hval, hu, zero_add]
      rw [hv] at hnear ⊢
      exact hnear
  · rcases finite_cases hb with ⟨s', hv, hval'⟩ | ⟨s', m', e', hm', hv, hval'⟩
    · have hnear := near_self (N := N) ha
      rw [hval', hv, add_zero]
      rw [hu] at hnear ⊢
      exact hnear
    · have hsum : val a + val b =
          ((s.apply (m <<< (e - min e e').toNat : ℕ) + s'.apply (m' <<< (e' - min e e').toNat : ℕ) :
            ℤ) : ℚ) * 2 ^ min e e' := by
        rw [hval, hval', Int.cast_add, add_mul, apply_shiftLeft s m (min_le_left e e'),
          apply_shiftLeft s' m' (min_le_right e e')]
      rw [hsum] at h ⊢
      rw [hu, hv]
      exact near_normalize _ _ .positive h hmin hmax

theorem unit_mul (s s' : Sign) : unit (s * s') = unit s * unit s' := by
  have happly : (s * s').apply 1 = s.apply 1 * s'.apply 1 := by
    cases s <;> cases s' <;> rfl
  rw [unit, happly, Int.cast_mul]
  rfl

theorem near_mul (ha : IsFinite a) (hb : IsFinite b) (h : |val a * val b| < 2 ^ N)
    (hmin : -1021 ≤ N) (hmax : N ≤ 1023) : Near (a * b) N (val a * val b) := by
  change Near (Float.ofModel (Float.Model.pack
    (UnpackedFloat.mul .binary64 a.toModel.unpack b.toModel.unpack))) N _
  rcases finite_cases ha with ⟨s, hu, hval⟩ | ⟨s, m, e, hm, hu, hval⟩
  · rw [hval, hu, zero_mul]
    rcases finite_cases hb with ⟨s', hv, -⟩ | ⟨s', m', e', hm', hv, -⟩
    · rw [hv]
      exact near_zero _
    · rw [hv]
      exact near_zero _
  · rcases finite_cases hb with ⟨s', hv, hval'⟩ | ⟨s', m', e', hm', hv, hval'⟩
    · rw [hval', hu, hv, mul_zero]
      exact near_zero _
    · have hsize := canonical_of_unpack hu
      have hsize' := canonical_of_unpack hv
      have hlog : e + e' ≤ target (m * m') (e + e') := by
        have hbits (hlarge : 2 ^ 52 ≤ m * m') : 52 ≤ (m * m').log2 :=
          (Nat.le_log2 (Nat.mul_pos hm hm').ne').mpr hlarge
        unfold target
        rcases hsize with ⟨-, he⟩ | ⟨hlarge, -⟩
        · rcases hsize' with ⟨-, he'⟩ | ⟨hlarge, -⟩
          · omega
          · have := hbits (hlarge.trans (Nat.le_mul_of_pos_left m' hm))
            omega
        · have := hbits (hlarge.trans (Nat.le_mul_of_pos_right m hm'))
          omega
      have hexact : ((m * m' : ℕ) : ℚ) * 2 ^ (e + e') = m * 2 ^ e * (m' * 2 ^ e') := by
        rw [zpow_add₀ two_ne_zero, Nat.cast_mul]
        ring
      have hpos : (0 : ℚ) < 2 ^ (e + e') := zpow_pos two_pos _
      have hsplit : val a * val b = unit (s * s') * (((m * m' : ℕ) : ℚ) * 2 ^ (e + e')) := by
        rw [hval, hval', hexact, unit_mul]
        ring
      rw [hsplit] at h ⊢
      rw [abs_mul, abs_unit, one_mul, abs_of_nonneg (by positivity)] at h
      rw [hu, hv]
      refine near_round (s * s') hlog le_rfl ?_ h hmin hmax
      exact mul_le_mul_of_nonneg_right (le_add_of_nonneg_right zero_le_one) hpos.le

/-- The quotient of two mantissas has enough bits, or the least exponent. -/
theorem divCore_spec {m m' : ℕ} (hm : 0 < m) (hm' : 0 < m') :
    ∃ (q j : ℕ) (acc : _), divCore .binary64 m 0 m' 0 = (q, -(j : ℤ), acc) ∧
      -j ≤ target q (-j) ∧
      q * (2 : ℚ) ^ (-j : ℤ) ≤ m / m' ∧ (m / m' : ℚ) ≤ (q + 1) * 2 ^ (-j : ℤ) := by
  have htotal : Format.binary64.targetExponent (totalExponent m 0 - totalExponent m' 0) =
      max ((m.log2 : ℤ) - m'.log2 - 53) (-1074) := by
    change max ((m.log2 : ℤ) + 1 + 0 - (m'.log2 + 1 + 0) - 53) (-1074) = _
    omega
  unfold divCore
  rw [htotal]
  dsimp only
  rw [sub_self]
  generalize ht : min 0 (max ((m.log2 : ℤ) - m'.log2 - 53) (-1074)) = t
  refine ⟨_, (0 - t).toNat, _, Prod.ext rfl (Prod.ext (by dsimp only; omega) rfl), ?_⟩
  rw [Nat.shiftLeft_eq]
  generalize hj : (0 - t).toNat = j
  have hpos : (0 : ℚ) < 2 ^ j := pow_pos two_pos j
  have hpos' : (0 : ℚ) < m' := Nat.cast_pos.mpr hm'
  rw [zpow_neg, zpow_natCast]
  refine ⟨?_, ?_, ?_⟩
  · unfold target
    by_cases hleast : t = -1074
    · omega
    · have hbits : m'.log2 + 1 + 52 ≤ m.log2 + j := by omega
      have hlarge : 2 ^ 52 * m' ≤ m * 2 ^ j := by
        calc 2 ^ 52 * m' ≤ 2 ^ 52 * 2 ^ (m'.log2 + 1) :=
              Nat.mul_le_mul_left _ Nat.lt_log2_self.le
          _ = 2 ^ (m'.log2 + 1 + 52) := by rw [← pow_add, add_comm]
          _ ≤ 2 ^ (m.log2 + j) := Nat.pow_le_pow_right Nat.two_pos hbits
          _ = 2 ^ m.log2 * 2 ^ j := pow_add 2 m.log2 j
          _ ≤ m * 2 ^ j := Nat.mul_le_mul_right _ (Nat.log2_self_le hm.ne')
      have hq : 2 ^ 52 ≤ m * 2 ^ j / m' := (Nat.le_div_iff_mul_le hm').mpr hlarge
      have hlog := (Nat.le_log2 (by omega)).mpr hq
      omega
  · rw [← div_eq_mul_inv, div_le_div_iff₀ hpos hpos']
    exact_mod_cast Nat.div_mul_le_self (m * 2 ^ j) m'
  · rw [← div_eq_mul_inv, div_le_div_iff₀ hpos' hpos]
    have hlt := Nat.lt_div_mul_add (a := m * 2 ^ j) hm'
    have hle : m * 2 ^ j ≤ (m * 2 ^ j / m' + 1) * m' := by
      rw [add_mul, one_mul]
      exact hlt.le
    exact_mod_cast hle

theorem near_trueDiv (n : ℕ) {d : ℕ} (hd : 0 < d) (h : (n : ℚ) / d < 2 ^ N)
    (hmin : -1021 ≤ N) (hmax : N ≤ 1023) : Near (FloatOrder.trueDiv n d) N (n / d) := by
  obtain ⟨d, rfl⟩ := Nat.exists_eq_add_one.mpr hd
  rcases n with _ | n
  · have hzero : ((0 : ℕ) : ℚ) / (d + 1 : ℕ) = 0 := by rw [Nat.cast_zero, zero_div]
    rw [hzero]
    exact near_zero .positive
  · obtain ⟨q, j, acc, hcore, htarget, hlow, hhigh⟩ := divCore_spec n.succ_pos d.succ_pos
    have hdiv : UnpackedFloat.div .binary64 (FloatOrder.exact (n + 1 : ℕ))
        (FloatOrder.exact (d + 1 : ℕ)) =
          roundWithAccuracy .binary64 .positive q (-j : ℤ) acc := by
      change (let p := divCore .binary64 (n + 1) 0 (d + 1) 0
        roundWithAccuracy .binary64 .positive p.1 p.2.1 p.2.2) = _
      rw [hcore]
    unfold FloatOrder.trueDiv
    rw [hdiv]
    rw [← one_mul (_ / _)]
    exact near_round .positive htarget hlow hhigh h hmin hmax

theorem val_trueDiv_zero {d : ℕ} (hd : 0 < d) : val (FloatOrder.trueDiv 0 d) = 0 := by
  obtain ⟨d, rfl⟩ := Nat.exists_eq_add_one.mpr hd
  exact (pack_zero .positive).2

/-! ## Order -/

open FloatOrder (rank rankOf rankOf_lt unpackedRank)

theorem Canonical.lt {m' : ℕ} {e' : ℤ} (h : Canonical m e) (h' : Canonical m' e')
    (hlt : e < e' ∨ e = e' ∧ m < m') : (m : ℚ) * 2 ^ e < m' * 2 ^ e' := by
  have hpos (e : ℤ) : (0 : ℚ) < 2 ^ e := zpow_pos two_pos e
  rcases hlt with hlt | ⟨rfl, hlt⟩
  · have hm : m < 2 ^ 53 := by
      unfold Canonical at h
      omega
    have hm' : 2 ^ 52 ≤ m' := by
      unfold Canonical at h h'
      omega
    calc (m : ℚ) * 2 ^ e < 2 ^ 53 * 2 ^ e :=
          mul_lt_mul_of_pos_right (by exact_mod_cast hm) (hpos e)
      _ = 2 ^ 52 * 2 ^ (e + 1) := by
          rw [zpow_add_one₀ two_ne_zero]
          ring
      _ ≤ 2 ^ 52 * 2 ^ e' :=
          mul_le_mul_of_nonneg_left (zpow_le_zpow_right₀ one_le_two hlt) (by positivity)
      _ ≤ m' * 2 ^ e' := mul_le_mul_of_nonneg_right (by exact_mod_cast hm') (hpos e').le
  · exact mul_lt_mul_of_pos_right (by exact_mod_cast hlt) (hpos e)

theorem finite_pos (hm : 0 < m) : (0 : ℚ) < m * 2 ^ e :=
  mul_pos (by exact_mod_cast hm) (zpow_pos two_pos e)

/-- The band of a rank is a sign, and its exponent and mantissa carry that sign. -/
theorem finite_rank (ha : IsFinite a) : ∃ (k e' m' : ℤ), rank a = some (rankOf k e' m') ∧
    (k = 0 ∧ e' = 0 ∧ m' = 0 ∧ val a = 0 ∨
      k = 1 ∧ (∃ m : ℕ, ∃ e, e' = e ∧ m' = m ∧ 0 < m ∧ Canonical m e ∧ val a = m * 2 ^ e) ∨
      k = -1 ∧ ∃ m : ℕ, ∃ e, e' = -e ∧ m' = -m ∧ 0 < m ∧ Canonical m e ∧
        val a = -(m * 2 ^ e)) := by
  unfold rank
  rcases finite_cases ha with ⟨s, hu, hval⟩ | ⟨_ | _, m, e, hm, hu, hval⟩
  · rw [hu]
    exact ⟨0, 0, 0, rfl, Or.inl ⟨rfl, rfl, rfl, hval⟩⟩
  · rw [unit_negative, neg_one_mul] at hval
    have hcanonical := canonical_of_unpack hu
    rw [hu]
    exact ⟨-1, -e, -m, rfl, Or.inr (Or.inr ⟨rfl, m, e, rfl, rfl, hm, hcanonical, hval⟩)⟩
  · rw [unit_positive, one_mul] at hval
    have hcanonical := canonical_of_unpack hu
    rw [hu]
    exact ⟨1, e, m, rfl, Or.inr (Or.inl ⟨rfl, m, e, rfl, rfl, hm, hcanonical, hval⟩)⟩

theorem val_lt_of_lt (ha : IsFinite a) (hb : IsFinite b) (h : a < b) : val a < val b := by
  obtain ⟨x, hx, y, hy, hlt⟩ := FloatOrder.lt_iff.mp h
  obtain ⟨k, e₁, m₁, hrank, ha⟩ := finite_rank ha
  obtain ⟨k', e₂, m₂, hrank', hb⟩ := finite_rank hb
  cases hrank.symm.trans hx
  cases hrank'.symm.trans hy
  rw [rankOf_lt] at hlt
  rcases ha with ⟨rfl, rfl, rfl, hval⟩ | ⟨rfl, m, e, rfl, rfl, hm, hsize, hval⟩ |
    ⟨rfl, m, e, rfl, rfl, hm, hsize, hval⟩
  · rcases hb with ⟨rfl, rfl, rfl, -⟩ | ⟨rfl, m', e', -, -, hm', -, hval'⟩ | ⟨rfl, -⟩
    · omega
    · rw [hval, hval']
      exact finite_pos hm'
    · omega
  · rcases hb with ⟨rfl, -⟩ | ⟨rfl, m', e', rfl, rfl, hm', hsize', hval'⟩ | ⟨rfl, -⟩
    · omega
    · rw [hval, hval']
      exact hsize.lt hsize' (by omega)
    · omega
  · rcases hb with ⟨rfl, -, -, hval'⟩ | ⟨rfl, m', e', -, -, hm', -, hval'⟩ |
      ⟨rfl, m', e', rfl, rfl, hm', hsize', hval'⟩
    · rw [hval, hval']
      exact neg_neg_of_pos (finite_pos hm)
    · rw [hval, hval']
      exact (neg_neg_of_pos (finite_pos hm)).trans (finite_pos hm')
    · rw [hval, hval']
      exact neg_lt_neg (hsize'.lt hsize (by omega))

theorem IsFinite.isNumber (ha : IsFinite a) : FloatOrder.IsNumber a := by
  obtain ⟨k, e, m, hrank, -⟩ := finite_rank ha
  exact ⟨_, hrank⟩

theorem val_eq_of_beq (ha : IsFinite a) (hb : IsFinite b) (h : (a == b) = true) : val a = val b := by
  obtain ⟨x, hx, hy⟩ := FloatOrder.beq_iff.mp h
  obtain ⟨k, e₁, m₁, hrank, ha⟩ := finite_rank ha
  obtain ⟨k', e₂, m₂, hrank', hb⟩ := finite_rank hb
  cases hrank.symm.trans hx
  obtain ⟨rfl, rfl, rfl⟩ := FloatOrder.rankOf_inj.mp (Option.some.inj (hrank'.symm.trans hy))
  rcases ha with ⟨rfl, -, -, hval⟩ | ⟨rfl, m, e, rfl, rfl, -, -, hval⟩ |
    ⟨rfl, m, e, rfl, rfl, -, -, hval⟩
  · rcases hb with ⟨-, -, -, hval'⟩ | ⟨hk, -⟩ | ⟨hk, -⟩
    · rw [hval, hval']
    · omega
    · omega
  · rcases hb with ⟨hk, -⟩ | ⟨-, m', e', rfl, hm, -, -, hval'⟩ | ⟨hk, -⟩
    · omega
    · rw [hval, hval', Int.natCast_inj.mp hm]
    · omega
  · rcases hb with ⟨hk, -⟩ | ⟨hk, -⟩ | ⟨-, m', e', he, hm, -, -, hval'⟩
    · omega
    · omega
    · rw [hval, hval', Int.natCast_inj.mp (neg_injective hm), neg_injective he]

/-- The order of finite numbers is the order of the rational numbers that they are. -/
theorem lt_iff_val (ha : IsFinite a) (hb : IsFinite b) : a < b ↔ val a < val b := by
  constructor
  · exact val_lt_of_lt ha hb
  · intro hlt
    rcases ha.isNumber.lt_or_le hb.isNumber with h | h
    · exact h
    · obtain ⟨y, hy, x, hx, hle⟩ := FloatOrder.le_iff.mp h
      rcases hle.lt_or_eq with hyx | rfl
      · have hval := val_lt_of_lt hb ha (FloatOrder.lt_iff.mpr ⟨y, hy, x, hx, hyx⟩)
        exact absurd hlt hval.not_gt
      · have hval := val_eq_of_beq ha hb (FloatOrder.beq_iff.mpr ⟨y, hx, hy⟩)
        exact absurd hval hlt.ne

theorem le_iff_val (ha : IsFinite a) (hb : IsFinite b) : a ≤ b ↔ val a ≤ val b := by
  constructor
  · intro h
    by_contra hlt
    exact FloatOrder.not_lt_of_le h ((lt_iff_val hb ha).mpr (not_le.mp hlt))
  · intro h
    rcases hb.isNumber.lt_or_le ha.isNumber with hlt | hle
    · exact absurd h (val_lt_of_lt hb ha hlt).not_ge
    · exact hle

theorem beq_iff_val (ha : IsFinite a) (hb : IsFinite b) : (a == b) = true ↔ val a = val b := by
  constructor
  · exact val_eq_of_beq ha hb
  · intro h
    exact FloatOrder.beq_of_le ((le_iff_val hb ha).mpr h.ge) ((le_iff_val ha hb).mpr h.le)

/-- The value of a positive number, read off its rank. -/
theorem val_of_rank {e m : ℤ} (h : rank a = some (rankOf 1 e m)) :
    IsFinite a ∧ val a = m * 2 ^ e := by
  unfold rank at h
  unfold IsFinite val
  generalize a.toModel.unpack = u at *
  rcases u with (_ | _) | _ | _ | ⟨_ | _, n, k, hn⟩
  case notANumber => cases h
  case finite.positive =>
    obtain ⟨-, rfl, rfl⟩ := FloatOrder.rankOf_inj.mp (Option.some.inj h)
    refine ⟨rfl, ?_⟩
    rw [value_finite, unit_positive, one_mul, Int.cast_natCast]
  all_goals
    obtain ⟨hband, -⟩ := FloatOrder.rankOf_inj.mp (Option.some.inj h)
    omega

theorem val_of_rank_zero (h : rank a = some (rankOf 0 0 0)) : IsFinite a ∧ val a = 0 := by
  unfold rank at h
  unfold IsFinite val
  generalize a.toModel.unpack = u at *
  rcases u with (_ | _) | _ | _ | ⟨_ | _, n, k, hn⟩
  case notANumber => cases h
  case zero => exact ⟨rfl, rfl⟩
  all_goals
    obtain ⟨hband, -⟩ := FloatOrder.rankOf_inj.mp (Option.some.inj h)
    omega

theorem val_neg (ha : IsFinite a) : IsFinite (-a) ∧ val (-a) = -val a := by
  unfold IsFinite val at *
  rw [FloatOrder.unpack_neg]
  generalize a.toModel.unpack = u at *
  rcases u with s | _ | s | ⟨_ | _, m, e, hm⟩
  · cases ha
  · cases ha
  · exact ⟨rfl, neg_zero.symm⟩
  · refine ⟨rfl, ?_⟩
    rw [value_finite, unit_negative, neg_one_mul, neg_neg]
    exact (value_finite .positive hm).trans (one_mul _)
  · refine ⟨rfl, ?_⟩
    rw [value_finite, unit_positive, one_mul]
    exact (value_finite .negative hm).trans (neg_one_mul _)

/-- No number stands between two of consecutive mantissas. -/
theorem succ_le_of_lt {a' : Float} {k e m : ℤ} (ha : rank a = some (rankOf k e m))
    (ha' : rank a' = some (rankOf k e (m + 1))) (h : a < b) : a' ≤ b := by
  obtain ⟨x, hx, ⟨k', e', m'⟩, hy, hlt⟩ := FloatOrder.lt_iff.mp h
  cases ha.symm.trans hx
  have hlt' : rankOf k e m < rankOf k' e' m' := hlt
  refine FloatOrder.le_iff.mpr ⟨_, ha', _, hy, not_lt.mp fun hgt => ?_⟩
  have hgt' : rankOf k' e' m' < rankOf k e (m + 1) := hgt
  rw [rankOf_lt] at hlt' hgt'
  omega

theorem IsFinite.of_between {c : Float} (ha : IsFinite a) (hb : IsFinite b) (hac : a ≤ c)
    (hcb : c ≤ b) : IsFinite c := by
  obtain ⟨x, hx, y, hy, hle⟩ := FloatOrder.le_iff.mp hac
  obtain ⟨y', hy', z, hz, hle'⟩ := FloatOrder.le_iff.mp hcb
  cases hy.symm.trans hy'
  obtain ⟨k, e, m, hrank, hcases⟩ := finite_rank ha
  obtain ⟨k', e', m', hrank', hcases'⟩ := finite_rank hb
  cases hrank.symm.trans hx
  cases hrank'.symm.trans hz
  have hk : -1 ≤ k := by omega
  have hk' : k' ≤ 1 := by omega
  unfold rank at hy
  unfold IsFinite
  generalize c.toModel.unpack = u at *
  rcases u with (_ | _) | _ | _ | _
  · cases hy
    have hlt : rankOf (-2) 0 0 < rankOf k e m := rankOf_lt.mpr (Or.inl (by omega))
    exact absurd hle hlt.not_ge
  · cases hy
    have hlt : rankOf k' e' m' < rankOf 2 0 0 := rankOf_lt.mpr (Or.inl (by omega))
    exact absurd hle' hlt.not_ge
  · cases hy
  · rfl
  · rfl

end FloatError
