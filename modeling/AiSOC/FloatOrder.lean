import Mathlib

/-! # The order of floating-point numbers

Comparisons of double-precision numbers, through a rank in a linear order that every number
has and the NaN has not, and the signs that arithmetic keeps. -/
namespace FloatOrder

open Float.Model (Format UnpackedFloat)
open Float.Model.UnpackedFloat (Sign packComponents unpackSign unpackMantissa unpackExponent)

/-- The band of the sign and size, then exponent and mantissa. -/
abbrev Rank := ℤ ×ₗ ℤ ×ₗ ℤ

@[grind =]
def rankOf (band exponent mantissa : ℤ) : Rank := toLex (band, toLex (exponent, mantissa))

@[grind =]
def unpackedRank : UnpackedFloat → Option Rank
  | .notANumber => none
  | .infinity .negative => some (rankOf (-2) 0 0)
  | .finite .negative m e _ => some (rankOf (-1) (-e) (-m))
  | .zero _ => some (rankOf 0 0 0)
  | .finite .positive m e _ => some (rankOf 1 e m)
  | .infinity .positive => some (rankOf 2 0 0)

/-- Equal for the two zeros. -/
@[grind =]
def rank (a : Float) : Option Rank := unpackedRank a.toModel.unpack

def IsNumber (a : Float) : Prop := ∃ x, rank a = some x

theorem rankOf_lt {a b c a' b' c' : ℤ} : rankOf a b c < rankOf a' b' c' ↔
    a < a' ∨ a = a' ∧ (b < b' ∨ b = b' ∧ c < c') := by
  simp only [rankOf, Prod.Lex.toLex_lt_toLex]

theorem rankOf_inj {a b c a' b' c' : ℤ} : rankOf a b c = rankOf a' b' c' ↔
    a = a' ∧ b = b' ∧ c = c' := by
  simp only [rankOf, EmbeddingLike.apply_eq_iff_eq, Prod.mk.injEq]

theorem sign_compare : compare Sign.negative Sign.positive = .lt ∧
    compare Sign.positive Sign.negative = .gt ∧ ∀ s : Sign, compare s s = .eq :=
  ⟨rfl, rfl, fun s => by cases s <;> rfl⟩

theorem compare_lt {u v : UnpackedFloat} : u.compare v = some .lt ↔
    ∃ x ∈ unpackedRank u, ∃ y ∈ unpackedRank v, x < y := by
  rcases u with (_ | _) | _ | _ | ⟨_ | _, m, e, _⟩ <;>
    rcases v with (_ | _) | _ | _ | ⟨_ | _, m', e', _⟩ <;>
    simp [UnpackedFloat.compare, unpackedRank, rankOf_lt, sign_compare, Ordering.then_eq_lt,
      Ordering.then_eq_gt, Int.compare_eq_lt, Int.compare_eq_gt, Nat.compare_eq_lt,
      Nat.compare_eq_gt]

theorem compare_eq {u v : UnpackedFloat} : u.compare v = some .eq ↔
    ∃ x ∈ unpackedRank u, ∃ y ∈ unpackedRank v, x = y := by
  rcases u with (_ | _) | _ | _ | ⟨_ | _, m, e, _⟩ <;>
    rcases v with (_ | _) | _ | _ | ⟨_ | _, m', e', _⟩ <;>
    simp [UnpackedFloat.compare, unpackedRank, rankOf_inj, sign_compare, Ordering.then_eq_eq,
      @eq_comm ℤ]

variable {a b c : Float}

theorem lt_iff : a < b ↔ ∃ x ∈ rank a, ∃ y ∈ rank b, x < y := by
  rw [rank, rank, ← compare_lt]
  change decide (a.toModel < b.toModel) = true ↔ _
  rw [decide_eq_true_iff]
  exact beq_iff_eq

theorem le_iff : a ≤ b ↔ ∃ x ∈ rank a, ∃ y ∈ rank b, x ≤ y := by
  have hle : a ≤ b ↔ (a.toModel.unpack.compare b.toModel.unpack).any (·.isLE) = true := by
    change decide (a.toModel ≤ b.toModel) = true ↔ _
    rw [decide_eq_true_iff]
    rfl
  have hlt := @compare_lt a.toModel.unpack b.toModel.unpack
  have heq := @compare_eq a.toModel.unpack b.toModel.unpack
  simp only [le_iff_lt_or_eq, and_or_left, exists_or]
  rw [hle, rank, rank, ← hlt, ← heq]
  rcases a.toModel.unpack.compare b.toModel.unpack with _ | ⟨_ | _ | _⟩ <;> simp

theorem beq_iff : (a == b) = true ↔ ∃ x ∈ rank a, x ∈ rank b := by
  have heq := @compare_eq a.toModel.unpack b.toModel.unpack
  simp only [exists_eq_right'] at heq
  rw [rank, rank, ← heq]
  change ((_ : Option Ordering) == some .eq) = true ↔ _
  exact beq_iff_eq

example : rank (-0) = rank 0 := by decide

theorem IsNumber.lt_or_le (ha : IsNumber a) (hb : IsNumber b) : a < b ∨ b ≤ a := by
  obtain ⟨x, hx⟩ := ha
  obtain ⟨y, hy⟩ := hb
  rcases lt_or_ge x y with h | h
  · exact Or.inl (lt_iff.mpr ⟨x, hx, y, hy, h⟩)
  · exact Or.inr (le_iff.mpr ⟨y, hy, x, hx, h⟩)

theorem le_trans (hab : a ≤ b) (hbc : b ≤ c) : a ≤ c := by
  obtain ⟨x, hx, y, hy, hxy⟩ := le_iff.mp hab
  obtain ⟨y', hy', z, hz, hyz⟩ := le_iff.mp hbc
  obtain rfl := Option.some.inj (hy.symm.trans hy')
  exact le_iff.mpr ⟨x, hx, z, hz, hxy.trans hyz⟩

theorem lt_trans (hab : a < b) (hbc : b < c) : a < c := by
  obtain ⟨x, hx, y, hy, hxy⟩ := lt_iff.mp hab
  obtain ⟨y', hy', z, hz, hyz⟩ := lt_iff.mp hbc
  obtain rfl := Option.some.inj (hy.symm.trans hy')
  exact lt_iff.mpr ⟨x, hx, z, hz, hxy.trans hyz⟩

theorem lt_of_lt_of_le (hab : a < b) (hbc : b ≤ c) : a < c := by
  obtain ⟨x, hx, y, hy, hxy⟩ := lt_iff.mp hab
  obtain ⟨y', hy', z, hz, hyz⟩ := le_iff.mp hbc
  obtain rfl := Option.some.inj (hy.symm.trans hy')
  exact lt_iff.mpr ⟨x, hx, z, hz, hxy.trans_le hyz⟩

theorem le_of_lt (h : a < b) : a ≤ b := by
  obtain ⟨x, hx, y, hy, hxy⟩ := lt_iff.mp h
  exact le_iff.mpr ⟨x, hx, y, hy, hxy.le⟩

theorem beq_of_le (hab : a ≤ b) (hba : b ≤ a) : (b == a) = true := by
  obtain ⟨x, hx, y, hy, hxy⟩ := le_iff.mp hab
  obtain ⟨y', hy', x', hx', hyx⟩ := le_iff.mp hba
  obtain rfl := Option.some.inj (hx.symm.trans hx')
  obtain rfl := Option.some.inj (hy.symm.trans hy')
  exact beq_iff.mpr ⟨y, hy, le_antisymm hxy hyx ▸ hx⟩

theorem not_lt_of_le (h : a ≤ b) : ¬ b < a := by
  obtain ⟨x, hx, y, hy, hxy⟩ := le_iff.mp h
  intro hlt
  obtain ⟨y', hy', x', hx', hyx⟩ := lt_iff.mp hlt
  obtain rfl := Option.some.inj (hx.symm.trans hx')
  obtain rfl := Option.some.inj (hy.symm.trans hy')
  exact absurd hyx (not_lt.mpr hxy)

theorem isNumber_left (h : a ≤ b) : IsNumber a := by
  obtain ⟨x, hx, -⟩ := le_iff.mp h
  exact ⟨x, hx⟩

theorem isNumber_right (h : a ≤ b) : IsNumber b := by
  obtain ⟨-, -, y, hy, -⟩ := le_iff.mp h
  exact ⟨y, hy⟩

theorem le_refl (h : IsNumber a) : a ≤ a := by
  obtain ⟨x, hx⟩ := h
  exact le_iff.mpr ⟨x, hx, x, hx, Std.le_refl x⟩

/-- The first argument, unless the second is smaller. -/
def minFirst (a b : Float) : Float := if b < a then b else a

/-- The first argument, unless the second is greater. -/
def maxFirst (a b : Float) : Float := if a < b then b else a

/-- Clamped between two bounds, whatever it was. -/
theorem clamp_mem (hb : c ≤ b) :
    c ≤ maxFirst c (minFirst b a) ∧ maxFirst c (minFirst b a) ≤ b := by
  have hlow : c ≤ c := le_refl (isNumber_left hb)
  have hrefl : b ≤ b := le_refl (isNumber_right hb)
  unfold maxFirst minFirst
  split_ifs with hab hpos hpos
  · exact ⟨le_of_lt hpos, le_of_lt hab⟩
  · exact ⟨hlow, hb⟩
  · exact ⟨hb, hrefl⟩
  · exact ⟨hlow, hb⟩

/-- A number whose sign bit is clear. -/
inductive Clear : UnpackedFloat → Prop where
  | zero : Clear (.zero .positive)
  | finite (m e hm) : Clear (.finite .positive m e hm)
  | infinity : Clear (.infinity .positive)

def SignClear (a : Float) : Prop := Clear a.toModel.unpack

theorem SignClear.isNumber (h : SignClear a) : IsNumber a := by
  unfold SignClear at h
  unfold IsNumber rank
  generalize a.toModel.unpack = u at h
  cases h <;> exact ⟨_, rfl⟩

theorem sign_packComponents {spec : Format} {s : Sign} {e : BitVec spec.exponentBits}
    {m : BitVec spec.mantissaBitsWithoutImplicit} :
    Sign.ofBitVec (unpackSign (packComponents spec s e m)) = s := by
  have hbit : unpackSign (packComponents spec s e m) = s.toBitVec := by
    ext i hi
    obtain rfl : i = 0 := by omega
    simp [unpackSign, packComponents, BitVec.getLsbD_append, BitVec.getElem_append]
  rw [hbit]
  cases s <;> rfl

theorem clear_packComponents {spec : Format} {e : BitVec spec.exponentBits}
    {m : BitVec spec.mantissaBitsWithoutImplicit} (h : e = -1#_ → m = 0#_) :
    Clear (UnpackedFloat.unpack spec (packComponents spec .positive e m)) := by
  unfold UnpackedFloat.unpack
  simp only [UnpackedFloat.unpackMantissa_packComponents,
    UnpackedFloat.unpackExponent_packComponents, sign_packComponents]
  split
  · rename_i he
    rw [if_pos (h he)]
    exact .infinity
  · split
    · split
      · exact .zero
      · exact .finite _ _ _
    · exact .finite _ _ _

theorem clear_pack {u : UnpackedFloat} (h : Clear u) : Clear (Float.Model.pack u).unpack := by
  change Clear (UnpackedFloat.unpack .binary64 (UnpackedFloat.pack .binary64 u))
  cases h with
  | infinity => exact clear_packComponents fun _ => rfl
  | zero => exact clear_packComponents fun _ => rfl
  | finite m e hm =>
    unfold UnpackedFloat.pack
    dsimp only
    split_ifs with hbiased
    · exact clear_packComponents fun _ => rfl
    · apply clear_packComponents
      intro he
      have hnat := congrArg BitVec.toNat he
      simp only [BitVec.toNat_ofNat, BitVec.neg_one_eq_allOnes, BitVec.toNat_allOnes] at hnat
      rw [Nat.mod_eq_of_lt (by omega)] at hnat
      omega
    · apply clear_packComponents
      intro he
      cases congrArg BitVec.toNat he

theorem clear_roundWithAccuracy (m : ℕ) (e : ℤ) (acc : UnpackedFloat.Accuracy) :
    Clear (UnpackedFloat.roundWithAccuracy .binary64 .positive m e acc) := by
  unfold UnpackedFloat.roundWithAccuracy
  dsimp only
  split
  · exact .zero
  · exact .finite _ _ _

theorem clear_normalize {m : ℤ} (h : 0 ≤ m) (e : ℤ) :
    Clear (UnpackedFloat.normalize .binary64 m e .positive) := by
  unfold UnpackedFloat.normalize
  split
  · rename_i hlt
    exact absurd (Int.compare_eq_lt.mp hlt) (by omega)
  · exact .zero
  · exact clear_roundWithAccuracy _ _ _

theorem SignClear.add (ha : SignClear a) (hb : SignClear b) : SignClear (a + b) := by
  apply clear_pack
  unfold SignClear at ha hb
  generalize a.toModel.unpack = u at ha
  generalize b.toModel.unpack = v at hb
  cases ha with
  | zero => cases hb <;> constructor
  | infinity => cases hb <;> constructor
  | finite m e hm =>
    cases hb with
    | zero => constructor
    | infinity => constructor
    | finite m' e' hm' =>
      exact clear_normalize (Int.add_nonneg (Int.natCast_nonneg _) (Int.natCast_nonneg _)) _

theorem rank_zero : rank 0 = some (rankOf 0 0 0) := by decide

theorem SignClear.nonneg (h : SignClear a) : 0 ≤ a := by
  unfold SignClear at h
  refine le_iff.mpr ⟨_, rank_zero, ?_⟩
  unfold rank
  generalize a.toModel.unpack = u at h
  cases h with
  | zero => exact ⟨_, rfl, le_rfl⟩
  | infinity => exact ⟨_, rfl, (rankOf_lt.mpr (Or.inl (by decide))).le⟩
  | finite m e hm => exact ⟨_, rfl, (rankOf_lt.mpr (Or.inl (by decide))).le⟩

theorem signClear_of_pos (h : 0 < a) : SignClear a := by
  obtain ⟨x, hx, y, hy, hlt⟩ := lt_iff.mp h
  cases rank_zero.symm.trans hx
  unfold rank at hy
  unfold SignClear
  generalize a.toModel.unpack = u at hy
  rcases u with (_ | _) | _ | (_ | _) | ⟨_ | _, m, e, hm⟩ <;> cases hy
  all_goals first | constructor | exact absurd (rankOf_lt.mp hlt) (by omega)

/-- A positive number that is not infinite. -/
def IsPositive (a : Float) : Prop := 0 < a ∧ a.toModel.isFinite = true

theorem IsPositive.unpack (h : IsPositive a) :
    ∃ m e hm, a.toModel.unpack = .finite .positive m e hm := by
  obtain ⟨hpos, hfinite⟩ := h
  obtain ⟨x, hx, y, hy, hlt⟩ := lt_iff.mp hpos
  cases rank_zero.symm.trans hx
  have hclear := signClear_of_pos hpos
  unfold Float.Model.isFinite at hfinite
  unfold rank at hy
  unfold SignClear at hclear
  generalize a.toModel.unpack = u at hy hfinite hclear
  cases hclear with
  | zero =>
    cases hy
    exact absurd hlt (lt_irrefl _)
  | infinity => cases hfinite
  | finite m e hm => exact ⟨m, e, hm, rfl⟩

theorem IsPositive.mul (ha : IsPositive a) (hb : SignClear b) : SignClear (a * b) := by
  obtain ⟨m, e, hm, ha⟩ := ha.unpack
  apply clear_pack
  rw [ha]
  unfold SignClear at hb
  generalize b.toModel.unpack = v at hb
  cases hb with
  | zero => constructor
  | infinity => constructor
  | finite m' e' hm' => exact clear_roundWithAccuracy _ _ _

theorem IsPositive.mul_right (ha : SignClear a) (hb : IsPositive b) : SignClear (a * b) := by
  obtain ⟨m, e, hm, hb⟩ := hb.unpack
  apply clear_pack
  rw [hb]
  unfold SignClear at ha
  generalize a.toModel.unpack = u at ha
  cases ha with
  | zero => constructor
  | infinity => constructor
  | finite m' e' hm' => exact clear_roundWithAccuracy _ _ _

theorem IsPositive.div_left (ha : IsPositive a) (hb : SignClear b) : SignClear (a / b) := by
  obtain ⟨m, e, hm, ha⟩ := ha.unpack
  apply clear_pack
  rw [ha]
  unfold SignClear at hb
  generalize b.toModel.unpack = v at hb
  cases hb with
  | zero => constructor
  | infinity => constructor
  | finite m' e' hm' => exact clear_roundWithAccuracy _ _ _

theorem IsPositive.div_right (ha : SignClear a) (hb : IsPositive b) : SignClear (a / b) := by
  obtain ⟨m, e, hm, hb⟩ := hb.unpack
  apply clear_pack
  rw [hb]
  unfold SignClear at ha
  generalize a.toModel.unpack = u at ha
  cases ha with
  | zero => constructor
  | infinity => constructor
  | finite m' e' hm' => exact clear_roundWithAccuracy _ _ _

/-- An integer, not rounded. -/
def exact : ℤ → UnpackedFloat
  | .ofNat 0 => .zero .positive
  | .ofNat (n + 1) => .finite .positive (n + 1) 0 n.succ_pos
  | .negSucc n => .finite .negative (n + 1) 0 n.succ_pos

/-- The quotient of two integers, rounded once. -/
def trueDiv (m n : ℤ) : Float :=
  Float.ofModel (Float.Model.pack (UnpackedFloat.div .binary64 (exact m) (exact n)))

def ofNat (n : ℕ) : Float := Float.ofModel (Float.Model.ofNat n)

theorem signClear_ofNat (n : ℕ) : SignClear (ofNat n) :=
  clear_pack (clear_normalize (Int.natCast_nonneg n) 0)

theorem signClear_trueDiv (m n : ℕ) : SignClear (trueDiv m (n + 1 : ℕ)) := by
  apply clear_pack
  cases m with
  | zero => exact .zero
  | succ m => exact clear_roundWithAccuracy _ _ _

/-- The number of a sign, an exponent field and a mantissa field. -/
@[grind =]
def assemble (s : Sign) (e : BitVec 11) (m : BitVec 52) : UnpackedFloat :=
  if e = -1#11 then if m = 0#52 then .infinity s else .notANumber
  else if e = 0#11 then
    if hm : m = 0#52 then .zero s
    else .finite s m.toNat (-1074) (by simpa [BitVec.toNat_pos, BitVec.pos_iff_ne_zero])
  else .finite s (2 ^ 52 + m.toNat) (e.toNat - 1075) (by omega)

theorem unpack_eq_assemble (b : BitVec Format.binary64.numBits) : UnpackedFloat.unpack .binary64 b =
    assemble (Sign.ofBitVec (unpackSign b)) (unpackExponent b) (unpackMantissa b) := by
  have happend (m : BitVec 52) : (1#1 ++ m).toNat = 2 ^ 52 + m.toNat := by
    rw [BitVec.toNat_append, ← Nat.shiftLeft_add_eq_or_of_lt m.isLt]
    rfl
  unfold UnpackedFloat.unpack assemble
  dsimp only
  split_ifs with hinf hm hzero hm
  · rfl
  · rfl
  · rfl
  · rw [hzero]
    rfl
  · congr 1
    exact happend _

theorem unpack_packComponents (s : Sign) (e : BitVec 11) (m : BitVec 52) :
    UnpackedFloat.unpack .binary64 (packComponents .binary64 s e m) = assemble s e m := by
  rw [unpack_eq_assemble]
  congr 1
  · exact sign_packComponents
  · exact UnpackedFloat.unpackExponent_packComponents
  · exact UnpackedFloat.unpackMantissa_packComponents

theorem pack_subnormal (s : Sign) {m : BitVec 52} (hm : 0 < m.toNat) :
    UnpackedFloat.pack .binary64 (.finite s m.toNat (-1074) hm) =
      packComponents .binary64 s 0#11 m := by
  have hlog : m.toNat.log2 < 52 := (Nat.log2_lt (by omega)).mpr m.isLt
  have hbits : ¬ m.toNat.log2 + 1 = Format.binary64.mantissaBits := by
    change ¬ m.toNat.log2 + 1 = 53
    omega
  have hofNat : BitVec.ofNat 52 m.toNat = m := BitVec.ofNat_toNat 52 m ▸ BitVec.setWidth_eq m
  unfold UnpackedFloat.pack
  dsimp only
  rw [if_neg (by decide), if_neg hbits]
  exact congrArg _ hofNat

theorem pack_normal (s : Sign) {e : BitVec 11} (m : BitVec 52) (hinf : e ≠ -1#11)
    (hm : 0 < 2 ^ 52 + m.toNat) :
    UnpackedFloat.pack .binary64 (.finite s (2 ^ 52 + m.toNat) (e.toNat - 1075) hm) =
      packComponents .binary64 s e m := by
  have hlog : (2 ^ 52 + m.toNat).log2 + 1 = Format.binary64.mantissaBits := by
    have hlog2 : (2 ^ 52 + m.toNat).log2 = 52 := (Nat.log2_eq_iff (by omega)).mpr (by omega)
    rw [hlog2]
    rfl
  have hbiased : ((e.toNat : ℤ) - 1075 + Format.binary64.exponentBias +
      Format.binary64.mantissaBitsWithoutImplicit).toNat = e.toNat := by
    change ((e.toNat : ℤ) - 1075 + 1023 + 52).toNat = e.toNat
    omega
  have hmax : e.toNat ≠ 2047 := fun h => hinf (BitVec.toNat_inj.mp h)
  have hfits : ¬ 2 ^ 11 ≤ e.toNat + 1 := by omega
  have hexponent : BitVec.ofNat 11 e.toNat = e := BitVec.ofNat_toNat 11 e ▸ BitVec.setWidth_eq e
  have hmantissa : BitVec.ofNat 52 (2 ^ 52 + m.toNat) = m := by
    apply BitVec.eq_of_toNat_eq
    rw [BitVec.toNat_ofNat]
    omega
  unfold UnpackedFloat.pack
  dsimp only
  rw [hbiased, if_neg hfits, if_pos hlog]
  exact congrArg₂ (packComponents .binary64 s) hexponent hmantissa

/-- The fields are packed without loss. -/
theorem unpack_pack_assemble (s : Sign) (e : BitVec 11) (m : BitVec 52) :
    (Float.Model.pack (assemble s e m)).unpack = assemble s e m := by
  change UnpackedFloat.unpack .binary64 (UnpackedFloat.pack .binary64 (assemble s e m)) = _
  by_cases hinf : e = -1#11
  · subst hinf
    by_cases hm : m = 0#52
    · subst hm
      exact unpack_packComponents s (-1#11) 0#52
    · rw [assemble, if_pos rfl, if_neg hm]
      exact unpack_packComponents .positive (-1#11) (1#52 <<< 51)
  by_cases hzero : e = 0#11
  · subst hzero
    by_cases hm : m = 0#52
    · subst hm
      exact unpack_packComponents s 0#11 0#52
    · have hpos : 0 < m.toNat := by simpa [BitVec.toNat_pos, BitVec.pos_iff_ne_zero]
      have heq : assemble s 0#11 m = .finite s m.toNat (-1074) hpos := by
        rw [assemble, if_neg hinf, if_pos rfl, dif_neg hm]
      rw [heq, pack_subnormal, unpack_packComponents, heq]
  · have heq : assemble s e m = .finite s (2 ^ 52 + m.toNat) (e.toNat - 1075) (by omega) := by
      rw [assemble, if_neg hinf, if_neg hzero]
    rw [heq, pack_normal s m hinf, unpack_packComponents, heq]

theorem unpack_neg : (-a).toModel.unpack = a.toModel.unpack.neg := by
  change (Float.Model.pack (UnpackedFloat.unpack .binary64 a.toModel.toBits.toBitVec).neg).unpack =
    (UnpackedFloat.unpack .binary64 a.toModel.toBits.toBitVec).neg
  have hneg (s : Sign) (e : BitVec 11) (m : BitVec 52) :
      (assemble s e m).neg = assemble (-s) e m := by
    unfold assemble
    split_ifs <;> rfl
  rw [unpack_eq_assemble, hneg, unpack_pack_assemble]

theorem compare_neg (u v : UnpackedFloat) : u.neg.compare v.neg = v.compare u := by
  rcases u with (_ | _) | _ | _ | ⟨_ | _, m, e, _⟩ <;>
    rcases v with (_ | _) | _ | _ | ⟨_ | _, m', e', _⟩
  all_goals
    first
    | rfl
    | exact congrArg some (by simp [Ordering.swap_then, Int.compare_swap, Nat.compare_swap])

/-- The sign reverses the order. -/
theorem neg_lt_neg_iff : -a < -b ↔ b < a := by
  rw [lt_iff, rank, rank, unpack_neg, unpack_neg, ← compare_lt, compare_neg, compare_lt]
  exact lt_iff.symm

theorem neg_beq_neg : (-a == -b) = (b == a) := by
  change (_ == some Ordering.eq) = (_ == some Ordering.eq)
  rw [unpack_neg, unpack_neg, compare_neg]

theorem IsNumber.neg (h : IsNumber a) : IsNumber (-a) := by
  unfold IsNumber rank at *
  rw [unpack_neg]
  generalize a.toModel.unpack = u at *
  rcases u with (_ | _) | _ | _ | ⟨_ | _, m, e, _⟩
  case notANumber =>
    obtain ⟨x, hx⟩ := h
    cases hx
  all_goals exact ⟨_, rfl⟩

end FloatOrder
