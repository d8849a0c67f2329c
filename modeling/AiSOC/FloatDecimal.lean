import AiSOC.FloatError
import AiSOC.FloatRound

/-! # Sums and decimals

How far a sum of floating-point numbers is from the exact one, whatever the order of its terms, and
where rounding to decimal places goes from one decimal to the next. -/
namespace FloatDecimal

open FloatError
open FloatOrder (maxFirst minFirst rank rankOf)
open FloatRound (decimal halfEven roundTo withSign)

variable {a b : Float} {N : ℤ}

theorem val_maxFirst (ha : IsFinite a) (hb : IsFinite b) :
    IsFinite (maxFirst a b) ∧ val (maxFirst a b) = max (val a) (val b) := by
  unfold maxFirst
  split_ifs with h
  · exact ⟨hb, (max_eq_right ((lt_iff_val ha hb).mp h).le).symm⟩
  · rw [lt_iff_val ha hb, not_lt] at h
    exact ⟨ha, (max_eq_left h).symm⟩

theorem val_minFirst (ha : IsFinite a) (hb : IsFinite b) :
    IsFinite (minFirst a b) ∧ val (minFirst a b) = min (val a) (val b) := by
  unfold minFirst
  split_ifs with h
  · exact ⟨hb, (min_eq_right ((lt_iff_val hb ha).mp h).le).symm⟩
  · rw [lt_iff_val hb ha, not_lt] at h
    exact ⟨ha, (min_eq_left h).symm⟩

/-! ## Sums -/

/-- A sum of small numbers is as far from the exact one as one unit for each of them. -/
theorem foldl_add_near {l : List Float} (hl : ∀ x ∈ l, IsFinite x ∧ |val x| ≤ 2) (ha : IsFinite a)
    (h : |val a| + 3 * l.length < 2 ^ N) (hmin : -1021 ≤ N) (hmax : N ≤ 53) :
    IsFinite (l.foldl (· + ·) a) ∧ |val (l.foldl (· + ·) a)| ≤ |val a| + 3 * l.length ∧
      |val (l.foldl (· + ·) a) - (val a + (l.map val).sum)| ≤ l.length * 2 ^ (N - 53) := by
  induction l generalizing a with
  | nil =>
    rw [List.map_nil, List.sum_nil, add_zero, List.foldl_nil, sub_self, abs_zero]
    rw [List.length_nil, Nat.cast_zero, mul_zero, zero_mul, add_zero]
    exact ⟨ha, le_rfl, le_rfl⟩
  | cons x l ih =>
    obtain ⟨⟨hx, hsmall⟩, hrest⟩ := List.forall_mem_cons.mp hl
    rw [List.length_cons, Nat.cast_succ] at h ⊢
    have hlength : (0 : ℚ) ≤ l.length := Nat.cast_nonneg _
    have hsum : |val a + val x| ≤ |val a| + 2 := (abs_add_le _ _).trans (by linarith)
    obtain ⟨hfinite, hnear⟩ := near_add ha hx (N := N) (by linarith) hmin (by omega)
    have hunit : (2 : ℚ) ^ (N - 53) ≤ 1 := zpow_le_one_of_nonpos₀ one_le_two (by omega)
    have hnext : |val (a + x)| ≤ |val a| + 3 := by
      have := abs_sub_abs_le_abs_sub (val (a + x)) (val a + val x)
      linarith
    obtain ⟨hfinite', hbound, hnear'⟩ := ih hrest hfinite (by linarith)
    refine ⟨hfinite', hbound.trans (by linarith), ?_⟩
    rw [List.map_cons, List.sum_cons, List.foldl_cons]
    rw [abs_le] at *
    constructor
    · linarith [hnear.1, hnear'.1]
    · linarith [hnear.2, hnear'.2]

/-! ## Rounding to decimal places -/

theorem halfEven_near (n : ℕ) {d : ℕ} (hd : 0 < d) : |(halfEven n d : ℚ) - n / d| ≤ 1 / 2 := by
  have hpos : (0 : ℚ) < d := Nat.cast_pos.mpr hd
  have hdiv : (n : ℚ) / d = (n / d : ℕ) + (n % d : ℕ) / d := by
    rw [div_eq_iff hpos.ne', add_mul, div_mul_cancel₀ _ hpos.ne']
    exact_mod_cast (Nat.div_add_mod' n d).symm
  have hrest : 0 ≤ ((n % d : ℕ) : ℚ) / d := by positivity
  have hrest' : ((n % d : ℕ) : ℚ) / d ≤ 1 :=
    (div_le_one hpos).mpr (by exact_mod_cast (Nat.mod_lt n hd).le)
  have hhalf (h : 2 * (n % d) ≤ d) : ((n % d : ℕ) : ℚ) / d ≤ 1 / 2 := by
    rw [div_le_div_iff₀ hpos two_pos, one_mul, mul_comm]
    exact_mod_cast h
  have hhalf' (h : d ≤ 2 * (n % d)) : 1 / 2 ≤ ((n % d : ℕ) : ℚ) / d := by
    rw [div_le_div_iff₀ two_pos hpos, one_mul, mul_comm]
    exact_mod_cast h
  rw [hdiv, abs_le]
  unfold halfEven
  split_ifs with hlt hgt
  · have := hhalf hlt.le
    constructor <;> linarith
  · have := hhalf' hgt.le
    push_cast
    constructor <;> linarith
  · have := hhalf (not_lt.mp hgt)
    have := hhalf' (not_lt.mp hlt)
    rcases Nat.mod_two_eq_zero_or_one (n / d) with heven | hodd
    · rw [heven]
      push_cast
      constructor <;> linarith
    · rw [hodd]
      push_cast
      constructor <;> linarith

theorem near_unit {digits q : ℕ} (hq : q ≤ 10 ^ digits) :
    Near (FloatOrder.trueDiv q (10 ^ digits : ℕ)) 1 (q / 10 ^ digits) := by
  have hten : (0 : ℚ) < 10 ^ digits := by positivity
  have hpow : ((10 ^ digits : ℕ) : ℚ) = 10 ^ digits := by
    rw [Nat.cast_pow, Nat.cast_ofNat]
  have hcast : (q : ℚ) ≤ 10 ^ digits := by exact_mod_cast hq
  rw [← hpow]
  refine near_trueDiv q (by positivity) ?_ (by decide) (by decide)
  rw [hpow, div_lt_iff₀ hten, zpow_one]
  linarith

/-- A number of the unit interval is rounded to a decimal of it. -/
theorem roundTo_unit (digits : ℕ) (ha : IsFinite a) (h : 0 ≤ val a) (h' : val a ≤ 1) :
    ∃ q : ℕ, q ≤ 10 ^ digits ∧ |q - val a * 10 ^ digits| ≤ 1 / 2 ∧
      IsFinite (roundTo digits a) ∧
      val (roundTo digits a) = val (FloatOrder.trueDiv q (10 ^ digits : ℕ)) := by
  have hten : (0 : ℚ) < 10 ^ digits := by positivity
  unfold roundTo
  rcases finite_cases ha with ⟨s, hu, hval⟩ | ⟨_ | _, m, e, hm, hu, hval⟩
  · rw [hu, hval]
    refine ⟨0, Nat.zero_le _, by norm_num, ha, ?_⟩
    rw [Nat.cast_zero, val_trueDiv_zero (by positivity)]
  · rw [hval, unit_negative, neg_one_mul] at h
    exact absurd (finite_pos hm) (neg_nonneg.mp h).not_gt
  · rw [hu]
    dsimp only [withSign]
    rw [hval, unit_positive, one_mul] at h' ⊢
    have hexact : ((m * 10 ^ digits * 2 ^ e.toNat : ℕ) : ℚ) / (2 ^ (-e).toNat : ℕ) =
        m * 2 ^ e * 10 ^ digits := by
      have hexponent : e = (e.toNat : ℤ) - (-e).toNat := by omega
      have hpow : (2 : ℚ) ^ e = 2 ^ e.toNat / 2 ^ (-e).toNat := by
        conv_lhs => rw [hexponent]
        rw [zpow_sub₀ two_ne_zero, zpow_natCast, zpow_natCast]
      rw [hpow]
      push_cast
      field_simp
    have hnear := halfEven_near (m * 10 ^ digits * 2 ^ e.toNat) (Nat.two_pow_pos (-e).toNat)
    rw [hexact] at hnear
    change |(decimal digits m e : ℚ) - _| ≤ _ at hnear
    generalize decimal digits m e = q at hnear ⊢
    have hq : q ≤ 10 ^ digits := by
      have hle : (m * 2 ^ e * 10 ^ digits : ℚ) ≤ 10 ^ digits := mul_le_of_le_one_left hten.le h'
      have hlt : (q : ℚ) < (10 ^ digits + 1 : ℕ) := by
        have := (abs_le.mp hnear).2
        push_cast
        linarith
      exact Nat.lt_succ_iff.mp (Nat.cast_lt.mp hlt)
    exact ⟨q, hq, hnear, (near_unit hq).1, rfl⟩

theorem trueDiv_lt {digits q q' : ℕ} (hdigits : digits ≤ 15) (hlt : q < q')
    (hq' : q' ≤ 10 ^ digits) : val (FloatOrder.trueDiv q (10 ^ digits : ℕ)) <
      val (FloatOrder.trueDiv q' (10 ^ digits : ℕ)) := by
  obtain ⟨-, hnear⟩ := near_unit (hlt.le.trans hq')
  obtain ⟨-, hnear'⟩ := near_unit hq'
  have hten : (0 : ℚ) < 10 ^ digits := by positivity
  have hstep : (q : ℚ) / 10 ^ digits + 1 / 10 ^ digits ≤ q' / 10 ^ digits := by
    rw [← add_div]
    gcongr
    exact_mod_cast hlt
  have hunit : (1 : ℚ) / 10 ^ 15 ≤ 1 / 10 ^ digits := by
    gcongr
    norm_num
  have hsmall : 2 * (2 : ℚ) ^ (1 - 53 : ℤ) < 1 / 10 ^ 15 := by norm_num
  rw [abs_le] at hnear hnear'
  linarith [hnear.2, hnear'.1]

/-- Rounding stays in the unit interval and near the number. -/
theorem roundTo_near {digits : ℕ} (hdigits : digits ≤ 15) (ha : IsFinite a) (h : 0 ≤ val a)
    (h' : val a ≤ 1) : IsFinite (roundTo digits a) ∧ 0 ≤ val (roundTo digits a) ∧
      val (roundTo digits a) ≤ val (FloatOrder.trueDiv (10 ^ digits : ℕ) (10 ^ digits : ℕ)) ∧
      |val (roundTo digits a) - val a| ≤ 1 / 2 / 10 ^ digits + 2 ^ (1 - 53 : ℤ) := by
  obtain ⟨q, hq, hround, hfinite, hval⟩ := roundTo_unit digits ha h h'
  obtain ⟨-, hnear⟩ := near_unit hq
  have hten : (0 : ℚ) < 10 ^ digits := by positivity
  refine ⟨hfinite, ?_, ?_, ?_⟩
  · rw [hval, ← val_trueDiv_zero (d := 10 ^ digits) (by positivity), ← Nat.cast_zero (R := ℤ)]
    rcases Nat.eq_zero_or_pos q with rfl | hpos
    · exact le_rfl
    · exact (trueDiv_lt hdigits hpos hq).le
  · rw [hval]
    rcases hq.lt_or_eq with hlt | rfl
    · exact (trueDiv_lt hdigits hlt le_rfl).le
    · exact le_rfl
  · have hquotient : |q / 10 ^ digits - val a| ≤ 1 / 2 / 10 ^ digits := by
      have hsplit : q / 10 ^ digits - val a = (q - val a * 10 ^ digits) / 10 ^ digits := by
        field_simp
      rw [hsplit, abs_div, abs_of_pos hten]
      exact div_le_div_of_nonneg_right hround hten.le
    rw [hval]
    refine (abs_sub_le _ (q / 10 ^ digits : ℚ) _).trans ?_
    rw [add_comm]
    exact add_le_add hquotient hnear

/-- A decimal is reached by the numbers from a boundary on, if the middle between the decimal and
the one below it lies just below the boundary. -/
theorem le_roundTo_iff {digits k : ℕ} {low high t : Float} {e m : ℤ} (hdigits : digits ≤ 15)
    (hk : k ≤ 10 ^ digits) (ht : IsFinite t ∧ val t = val (FloatOrder.trueDiv k (10 ^ digits : ℕ)))
    (hlow : rank low = some (rankOf 1 e m)) (hhigh : rank high = some (rankOf 1 e (m + 1)))
    (hbelow : (m : ℚ) * 2 ^ e * 10 ^ digits < k - 1 / 2)
    (habove : (k : ℚ) - 1 / 2 < ((m + 1 : ℤ) : ℚ) * 2 ^ e * 10 ^ digits)
    (ha : IsFinite a) (h : 0 ≤ val a) (h' : val a ≤ 1) : t ≤ roundTo digits a ↔ high ≤ a := by
  obtain ⟨q, hq, hnear, hfinite, hval⟩ := roundTo_unit digits ha h h'
  obtain ⟨hlowFinite, hlowVal⟩ := val_of_rank hlow
  obtain ⟨hhighFinite, hhighVal⟩ := val_of_rank hhigh
  have hten : (0 : ℚ) < 10 ^ digits := by positivity
  have hreach : t ≤ roundTo digits a ↔ k ≤ q := by
    rw [le_iff_val ht.1 hfinite, ht.2, hval]
    constructor
    · intro hle
      by_contra hlt
      exact absurd hle (trueDiv_lt hdigits (not_le.mp hlt) hk).not_ge
    · intro hle
      rcases hle.lt_or_eq with hlt | rfl
      · exact (trueDiv_lt hdigits hlt hq).le
      · exact le_rfl
  rw [hreach, abs_le] at *
  constructor
  · intro hle
    refine succ_le_of_lt hlow hhigh ?_
    rw [lt_iff_val hlowFinite ha, hlowVal]
    have hcast : (k : ℚ) ≤ q := by exact_mod_cast hle
    refine lt_of_mul_lt_mul_right (hbelow.trans_le ?_) hten.le
    linarith [hnear.2]
  · intro hle
    rw [le_iff_val hhighFinite ha, hhighVal] at hle
    have hmul := mul_le_mul_of_nonneg_right hle hten.le
    have hcast : (k : ℚ) < (q + 1 : ℕ) := by
      push_cast
      linarith [hnear.1]
    exact Nat.lt_succ_iff.mp (Nat.cast_lt.mp hcast)

end FloatDecimal
