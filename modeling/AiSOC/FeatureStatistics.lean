import Mathlib.Algebra.Order.BigOperators.Group.List
import Mathlib.Algebra.Order.Ring.Rat
import AiSOC.EntityBaseline

/-! # Statistics of features in exact arithmetic

The update of the statistics and the score of a value, over rational numbers, with what the two
functions raise: the root of a negative number and a division by zero. The root itself is a
parameter, since a rational number need not have one. -/
namespace FeatureStatistics

open EntityBaseline (FeatureStats)

inductive MathError where
  | domain
  | zeroDivision
  deriving DecidableEq, Repr

abbrev Stats := OrderedDict String (FeatureStats ℚ)

def divide (x y : ℚ) : Except MathError ℚ := if y = 0 then .error .zeroDivision else .ok (x / y)

variable (sqrt : ℚ → ℚ)

def mathSqrt (x : ℚ) : Except MathError ℚ := if x < 0 then .error .domain else .ok (sqrt x)

def sampleVariance (M2 : ℚ) (n : ℕ) : Except MathError ℚ :=
  if 1 < n then divide M2 (n - 1 : ℕ) else .ok 0

def welfordUpdate (stats : Stats) (feature : String) (value : ℚ) : Except MathError Stats := do
  let s := (stats.get feature).getD ⟨0, 0, 0, none⟩
  let n := s.count + 1
  let delta := value - s.mean
  let mean := s.mean + (← divide delta n)
  let delta2 := value - mean
  let M2 := s.M2 + delta * delta2
  let std ← mathSqrt sqrt (← sampleVariance M2 n)
  return stats.set feature ⟨mean, M2, n, some std⟩

/-- One value after the other, from the empty statistics. -/
def fold (es : List (String × ℚ)) : Except MathError Stats :=
  es.foldlM (fun stats e => welfordUpdate sqrt stats e.1 e.2) OrderedDict.empty

def computeZScore (stats : Stats) (feature : String) (value : ℚ) : Except MathError ℚ :=
  match stats.get feature with
  | none => .ok 0
  | some s =>
    let std := s.std.getD 0
    if std < 1 / 10 ^ 9 then .ok 0 else divide |value - s.mean| std

/-- The values of a feature, in their order. -/
def valuesOf (feature : String) (es : List (String × ℚ)) : List ℚ :=
  (es.filter fun e => e.1 = feature).map Prod.snd

/-- The statistics are those of the values. -/
structure Exact (values : List ℚ) (s : FeatureStats ℚ) : Prop where
  count : s.count = values.length
  mean : s.mean = values.sum / values.length
  M2 : s.M2 = (values.map fun x => (x - s.mean) ^ 2).sum
  M2_nonneg : 0 ≤ s.M2
  std : s.std = some (sqrt (if 1 < s.count then s.M2 / (s.count - 1 : ℕ) else 0))

variable {sqrt} {values values' : List ℚ} {es : List (String × ℚ)} {stats : Stats}
  {feature : String} {value : ℚ} {s s' : FeatureStats ℚ}

/-! ## One value -/

theorem divide_ok {x y : ℚ} (h : y ≠ 0) : divide x y = .ok (x / y) := if_neg h

theorem mathSqrt_ok {x : ℚ} (h : 0 ≤ x) : mathSqrt sqrt x = .ok (sqrt x) := if_neg h.not_gt

/-- What is stored for the moments of some values. -/
def statsOf (sqrt : ℚ → ℚ) (m : Welford.Moments ℚ) : FeatureStats ℚ :=
  ⟨m.mean, m.M2, m.count,
    some (sqrt (if 1 < m.count then m.M2 / (m.count - 1 : ℕ) else 0))⟩

theorem M2_nonneg (values : List ℚ) : 0 ≤ (Welford.moments values).M2 := by
  rw [Welford.M2_eq_sum_sq]
  apply List.sum_nonneg
  intro x hx
  obtain ⟨y, -, rfl⟩ := List.mem_map.mp hx
  exact sq_nonneg _

theorem variance_nonneg {M2 : ℚ} (h : 0 ≤ M2) (n : ℕ) :
    0 ≤ if 1 < n then M2 / (n - 1 : ℕ) else 0 := by
  split_ifs
  · exact div_nonneg h (Nat.cast_nonneg _)
  · exact le_refl 0

theorem sampleVariance_ok (M2 : ℚ) (n : ℕ) :
    sampleVariance M2 n = .ok (if 1 < n then M2 / (n - 1 : ℕ) else 0) := by
  rw [sampleVariance]
  split_ifs with hone
  · apply divide_ok
    exact Nat.cast_ne_zero.mpr (by omega)
  · rfl

/-- The entry of a feature after some values; there is none before the first. -/
def entryOf (sqrt : ℚ → ℚ) (values : List ℚ) : Option (FeatureStats ℚ) :=
  if values = [] then none else some (statsOf sqrt (Welford.moments values))

theorem welfordUpdate_ok (h : stats.get feature = entryOf sqrt values) :
    welfordUpdate sqrt stats feature value =
      .ok (stats.set feature (statsOf sqrt (Welford.moments (values ++ [value])))) := by
  set m := Welford.moments values with hm
  have hentry : ((stats.get feature).getD ⟨0, 0, 0, none⟩).count = m.count ∧
      ((stats.get feature).getD ⟨0, 0, 0, none⟩).mean = m.mean ∧
      ((stats.get feature).getD ⟨0, 0, 0, none⟩).M2 = m.M2 := by
    rw [h, entryOf]
    split_ifs with hnil
    · subst hnil
      exact ⟨rfl, rfl, rfl⟩
    · exact ⟨rfl, rfl, rfl⟩
  obtain ⟨hcount, hmean, hM2⟩ := hentry
  have hn : ((m.count + 1 : ℕ) : ℚ) ≠ 0 := Nat.cast_ne_zero.mpr (Nat.succ_ne_zero _)
  have hpush : Welford.moments (values ++ [value]) = Welford.push m value :=
    Welford.moments_append_singleton
  have hvariance : 0 ≤ (Welford.push m value).M2 := hpush ▸ M2_nonneg (values ++ [value])
  rw [welfordUpdate, hcount, hmean, hM2, divide_ok hn]
  change (sampleVariance (Welford.push m value).M2 (m.count + 1) >>= fun variance =>
    mathSqrt sqrt variance >>= _) = _
  rw [sampleVariance_ok]
  change (mathSqrt sqrt _ >>= _) = _
  rw [mathSqrt_ok (variance_nonneg hvariance (m.count + 1)), hpush]
  rfl

/-! ## Every sequence -/

theorem valuesOf_append_singleton (feature : String) (es : List (String × ℚ)) (e : String × ℚ) :
    valuesOf feature (es ++ [e]) =
      valuesOf feature es ++ if e.1 = feature then [e.2] else [] := by
  rw [valuesOf, List.filter_append, List.map_append]
  by_cases he : e.1 = feature
  · rw [List.filter_cons_of_pos (by simpa using he), if_pos he]
    rfl
  · rw [List.filter_cons_of_neg (by simpa using he), if_neg he]
    rfl

theorem fold_ok (sqrt : ℚ → ℚ) (es : List (String × ℚ)) : ∃ stats, fold sqrt es = .ok stats ∧
    ∀ feature, stats.get feature = entryOf sqrt (valuesOf feature es) := by
  induction es using List.reverseRecOn with
  | nil => exact ⟨_, rfl, fun _ => rfl⟩
  | append_singleton es e ih =>
    obtain ⟨stats, hfold, hstats⟩ := ih
    refine ⟨stats.set e.1 (statsOf sqrt (Welford.moments (valuesOf e.1 es ++ [e.2]))), ?_, ?_⟩
    · rw [fold, List.foldlM_append, ← fold, hfold]
      change (welfordUpdate sqrt stats e.1 e.2 >>= _) = _
      rw [welfordUpdate_ok (hstats e.1)]
      rfl
    · intro feature
      rw [OrderedDict.get_set, valuesOf_append_singleton]
      by_cases hfeature : feature = e.1
      · rw [if_pos hfeature, if_pos hfeature.symm, entryOf, if_neg (by simp), hfeature]
      · rw [if_neg hfeature, if_neg (Ne.symm hfeature), List.append_nil, hstats]

theorem exact_statsOf (h : values ≠ []) :
    Exact sqrt values (statsOf sqrt (Welford.moments values)) where
  count := Welford.moments_count values
  mean := by
    have hlength : (values.length : ℚ) ≠ 0 :=
      Nat.cast_ne_zero.mpr (mt List.length_eq_zero_iff.mp h)
    exact (eq_div_iff hlength).mpr (Welford.mean_mul_length values)
  M2 := Welford.M2_eq_sum_sq values
  M2_nonneg := M2_nonneg values
  std := rfl

/-- The values decide the statistics, whatever their order. -/
theorem Exact.perm (h : Exact sqrt values s) (h' : Exact sqrt values' s')
    (hperm : values.Perm values') : s = s' := by
  have hcount : s.count = s'.count := by rw [h.count, h'.count, hperm.length_eq]
  have hmean : s.mean = s'.mean := by rw [h.mean, h'.mean, hperm.sum_eq, hperm.length_eq]
  have hM2 : s.M2 = s'.M2 := by
    rw [h.M2, h'.M2, hmean]
    exact (hperm.map _).sum_eq
  have hstd : s.std = s'.std := by rw [h.std, h'.std, hcount, hM2]
  cases s
  cases s'
  congr

theorem entryOf_perm (h : values.Perm values') : entryOf sqrt values = entryOf sqrt values' := by
  rw [entryOf, entryOf]
  by_cases hnil : values = []
  · subst hnil
    rw [List.nil_perm.mp h]
  · have hnil' : values' ≠ [] := fun heq => hnil (List.perm_nil.mp (heq ▸ h))
    rw [if_neg hnil, if_neg hnil', (exact_statsOf hnil).perm (exact_statsOf hnil') h]

theorem computeZScore_ok (stats : Stats) (feature : String) (value : ℚ) :
    ∃ z, computeZScore stats feature value = .ok z := by
  rw [computeZScore]
  cases stats.get feature with
  | none => exact ⟨0, rfl⟩
  | some s =>
    dsimp only
    split_ifs with hsmall
    · exact ⟨0, rfl⟩
    · have hpos : (0 : ℚ) < s.std.getD 0 := lt_of_lt_of_le (by norm_num) (not_lt.mp hsmall)
      exact ⟨_, divide_ok hpos.ne'⟩

/-- Every sequence of values has statistics: those of the values of each feature, in whatever
order they come and whatever comes between them. -/
theorem statistics_exact (sqrt : ℚ → ℚ) (es : List (String × ℚ)) :
    ∃ stats, fold sqrt es = .ok stats ∧
      (∀ feature, valuesOf feature es = [] → stats.get feature = none) ∧
      (∀ feature, valuesOf feature es ≠ [] →
        ∃ s, stats.get feature = some s ∧ Exact sqrt (valuesOf feature es) s) ∧
      (∀ feature es', (valuesOf feature es').Perm (valuesOf feature es) →
        ∃ stats', fold sqrt es' = .ok stats' ∧ stats'.get feature = stats.get feature) ∧
      ∀ feature value, ∃ z, computeZScore stats feature value = .ok z := by
  obtain ⟨stats, hfold, hstats⟩ := fold_ok sqrt es
  refine ⟨stats, hfold, ?_, ?_, ?_, computeZScore_ok stats⟩
  · intro feature hnil
    rw [hstats, entryOf, if_pos hnil]
  · intro feature hvalues
    exact ⟨_, (hstats feature).trans (if_neg hvalues), exact_statsOf hvalues⟩
  · intro feature es' hperm
    obtain ⟨stats', hfold', hstats'⟩ := fold_ok sqrt es'
    exact ⟨stats', hfold', by rw [hstats', hstats, entryOf_perm hperm]⟩

end FeatureStatistics
