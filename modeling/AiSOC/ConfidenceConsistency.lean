import AiSOC.FloatDecimal
import AiSOC.FusedConfidence
import AiSOC.JsonParser

/-! # Consistency of the fused confidence

The label, the score and the rationale of an alert after scoring and after the boost. The score is
recomputed from the rationale by the formula it came from, in the order in which the factors are
listed. -/
namespace ConfidenceConsistency

open FloatDecimal (foldl_add_near le_roundTo_iff roundTo_unit val_maxFirst val_minFirst)
open FloatError (IsFinite near_add near_mul val val_of_rank le_iff_val lt_iff_val beq_iff_val)
open FloatOrder (maxFirst minFirst rank rankOf)
open FloatRound (roundTo)
open FusedConfidence
open PythonValue (Dict Objects Outcome)

/-! ## Factors -/

/-- The bounds of the fields of a factor. -/
structure Valid (f : ConfidenceFactor) : Prop where
  contribution : -1.0 ≤ f.contribution ∧ f.contribution ≤ 1.0
  weight : 0.0 ≤ f.weight ∧ f.weight ≤ 1.0

variable {Ω : Type} {objects : Objects Ω} {fused : FusedAlert Ω}
  {rationale : List ConfidenceFactor}

theorem severityContribution_mem (severity : FusionEngine.AlertSeverity) :
    -1.0 ≤ severityContribution severity ∧ severityContribution severity ≤ 1.0 := by
  cases severity <;> decide

theorem mlContribution_mem (value : Float) :
    -1.0 ≤ mlContribution value ∧ mlContribution value ≤ 1.0 :=
  FloatOrder.clamp_mem (by decide)

theorem mitreContribution_mem (n : ℕ) :
    -1.0 ≤ mitreContribution n ∧ mitreContribution n ≤ 1.0 := by
  match n with
  | 0 => decide
  | 1 => decide
  | 2 => decide
  | n + 3 =>
    have hfifth : FloatOrder.IsPositive 0.2 := by
      unfold FloatOrder.IsPositive
      decide
    have hclear : FloatOrder.SignClear (0.4 + FloatOrder.ofNat (n + 3 - 2) * 0.2) :=
      (FloatOrder.signClear_of_pos (by decide)).add
        (hfifth.mul_right (FloatOrder.signClear_ofNat _))
    have hzero : (-1.0 : Float) ≤ 0 := by decide
    have hnonneg : -1.0 ≤ 0.4 + FloatOrder.ofNat (n + 3 - 2) * 0.2 :=
      FloatOrder.le_trans hzero hclear.nonneg
    change -1.0 ≤ minFirst 1.0 _ ∧ minFirst 1.0 _ ≤ 1.0
    unfold minFirst
    split_ifs with hlt
    · exact ⟨hnonneg, FloatOrder.le_of_lt hlt⟩
    · decide

theorem iocDensityContribution_mem (alert : RawAlert) :
    -1.0 ≤ (iocDensityContribution alert).1 ∧ (iocDensityContribution alert).1 ≤ 1.0 := by
  unfold iocDensityContribution
  dsimp only
  split_ifs <;> decide

theorem tiContribution_mem {enrichments : Dict Ω} {c : Float} {value : String}
    (h : tiContribution objects enrichments = .ok (c, value)) : -1.0 ≤ c ∧ c ≤ 1.0 := by
  unfold tiContribution at h
  split_ifs at h
  · cases h
    decide
  · rcases hhits : tiSources.filterM fun source => matched objects enrichments source.1 with
      e | hits
    · rw [hhits] at h
      cases h
    · rw [hhits] at h
      change Except.ok _ = _ at h
      rcases hits with _ | ⟨source, _ | ⟨source', hits⟩⟩
      · cases h
        decide
      · cases h
        decide
      · cases h
        decide

theorem factors_valid (h : factors objects fused = .ok rationale) :
    rationale.length = 7 ∧ ∀ f ∈ rationale, Valid f := by
  unfold factors at h
  dsimp only at h
  rcases hti : tiContribution objects fused.enrichments with e | ⟨c, value⟩
  · rw [hti] at h
    cases h
  · rw [hti] at h
    cases h
    refine ⟨rfl, ?_⟩
    have hvalid {factor label text c w} (hc : -1.0 ≤ c ∧ c ≤ 1.0) (hw : 0.0 ≤ w ∧ w ≤ 1.0) :
        Valid ⟨factor, label, text, c, w⟩ := ⟨hc, hw⟩
    simp only [List.forall_mem_cons]
    exact ⟨hvalid (severityContribution_mem _) (by decide),
      hvalid (mlContribution_mem _) (by decide), hvalid (mlContribution_mem _) (by decide),
      hvalid (mitreContribution_mem _) (by decide), hvalid (tiContribution_mem hti) (by decide),
      hvalid (mlContribution_mem _) (by decide),
      hvalid (iocDensityContribution_mem _) (by decide), fun _ h => absurd h List.not_mem_nil⟩

/-! ## The exact sums -/

theorem val_zero : IsFinite 0.0 ∧ val 0.0 = 0 := FloatError.val_of_rank_zero (by decide)

theorem val_one : IsFinite 1.0 ∧ val 1.0 = 1 := by
  obtain ⟨hfinite, hval⟩ := val_of_rank (show rank 1.0 = some (rankOf 1 (-52) (2 ^ 52)) by decide)
  refine ⟨hfinite, hval.trans ?_⟩
  norm_num

theorem val_half : IsFinite 0.5 ∧ val 0.5 = 1 / 2 := by
  obtain ⟨hfinite, hval⟩ := val_of_rank (show rank 0.5 = some (rankOf 1 (-53) (2 ^ 52)) by decide)
  refine ⟨hfinite, hval.trans ?_⟩
  norm_num

theorem weighted_small {f : ConfidenceFactor} (h : Valid f) :
    IsFinite f.weighted ∧ |val f.weighted| ≤ 2 := by
  obtain ⟨hone, hvalOne⟩ := val_one
  obtain ⟨hzero, hvalZero⟩ := val_zero
  obtain ⟨hneg, hvalNeg⟩ := FloatError.val_neg hone
  have hc := hneg.of_between hone h.contribution.1 h.contribution.2
  have hw := hzero.of_between hone h.weight.1 h.weight.2
  have hc' : |val f.contribution| ≤ 1 := by
    rw [abs_le, ← hvalOne, ← hvalNeg, ← le_iff_val hneg hc, ← le_iff_val hc hone]
    exact h.contribution
  have hw' : |val f.weight| ≤ 1 := by
    rw [abs_of_nonneg, ← hvalOne, ← le_iff_val hw hone]
    · exact h.weight.2
    · rw [← hvalZero, ← le_iff_val hzero hw]
      exact h.weight.1
  have hproduct : |val f.contribution * val f.weight| ≤ 1 := by
    rw [abs_mul]
    exact mul_le_one₀ hc' (abs_nonneg _) hw'
  obtain ⟨hfinite, hnear⟩ := near_mul (N := 1) hc hw (hproduct.trans_lt (by norm_num)) (by decide)
    (by decide)
  refine ⟨hfinite, ?_⟩
  have := abs_sub_abs_le_abs_sub (val (f.contribution * f.weight))
    (val f.contribution * val f.weight)
  have hunit : (2 : ℚ) ^ (1 - 53 : ℤ) ≤ 1 := by norm_num
  unfold ConfidenceFactor.weighted
  linarith

/-- The sum of the weighted contributions without rounding. -/
def exactTotal (l : List ConfidenceFactor) : ℚ := (l.map fun f => val f.weighted).sum

variable {l : List ConfidenceFactor}

theorem raw_near (hlength : l.length ≤ 8) (h : ∀ f ∈ l, Valid f) :
    IsFinite (raw l) ∧ |val (raw l) - (1 / 2 + exactTotal l)| ≤ 1 / 10 ^ 12 := by
  obtain ⟨hzero, hvalZero⟩ := val_zero
  obtain ⟨hhalf, hvalHalf⟩ := val_half
  have hcast : (l.length : ℚ) ≤ 8 := by exact_mod_cast hlength
  have hsmall : ∀ x ∈ l.map ConfidenceFactor.weighted, IsFinite x ∧ |val x| ≤ 2 := by
    intro x hx
    obtain ⟨f, hf, rfl⟩ := List.mem_map.mp hx
    exact weighted_small (h f hf)
  obtain ⟨hfinite, hbound, hnear⟩ := foldl_add_near (N := 5) hsmall hzero
    (by rw [hvalZero, abs_zero, List.length_map]; norm_num; linarith) (by decide) (by decide)
  rw [hvalZero, zero_add, List.map_map, List.length_map] at hnear
  rw [hvalZero, abs_zero, zero_add, List.length_map] at hbound
  change |val (total l)| ≤ _ at hbound
  change |val (total l) - exactTotal l| ≤ _ at hnear
  obtain ⟨hraw, hrawNear⟩ := near_add (N := 5) hhalf hfinite (by
    rw [hvalHalf]
    refine (abs_add_le _ _).trans_lt ?_
    change |(1 / 2 : ℚ)| + |val (total l)| < _
    norm_num
    linarith) (by decide) (by decide)
  refine ⟨hraw, ?_⟩
  change |val (raw l) - (val 0.5 + val (total l))| ≤ _ at hrawNear
  rw [hvalHalf] at hrawNear
  rw [abs_le] at *
  norm_num at hnear hrawNear
  constructor
  · linarith [hnear.1, hrawNear.1]
  · linarith [hnear.2, hrawNear.2]

theorem clamped_val (hlength : l.length ≤ 8) (h : ∀ f ∈ l, Valid f) :
    IsFinite (clamped l) ∧ val (clamped l) = max 0 (min 1 (val (raw l))) := by
  obtain ⟨hraw, -⟩ := raw_near hlength h
  obtain ⟨hone, hvalOne⟩ := val_one
  obtain ⟨hzero, hvalZero⟩ := val_zero
  obtain ⟨hmin, hvalMin⟩ := val_minFirst hone hraw
  obtain ⟨hmax, hvalMax⟩ := val_maxFirst hzero hmin
  rw [hvalZero, hvalMin, hvalOne] at hvalMax
  exact ⟨hmax, hvalMax⟩

theorem clamped_mem (hlength : l.length ≤ 8) (h : ∀ f ∈ l, Valid f) :
    0 ≤ val (clamped l) ∧ val (clamped l) ≤ 1 := by
  rw [(clamped_val hlength h).2]
  exact ⟨le_max_left _ _, max_le zero_le_one (min_le_left _ _)⟩

theorem le_clamped_iff (hlength : l.length ≤ 8) (h : ∀ f ∈ l, Valid f) :
    0.99995 ≤ clamped l ↔ 0.99995 ≤ raw l := by
  obtain ⟨hraw, -⟩ := raw_near hlength h
  obtain ⟨hclamped, hval⟩ := clamped_val hlength h
  have hrank : rank 0.99995 = some (rankOf 1 (-53) 9006748894778255) := by decide
  obtain ⟨hbound, hvalBound⟩ := val_of_rank hrank
  rw [le_iff_val hbound hclamped, le_iff_val hbound hraw, hval, le_max_iff, le_min_iff, hvalBound]
  norm_num

/-! ## Decimals -/

variable {x : Float}

/-- From a boundary on, the score is rounded to 0.7 or more. -/
theorem le_roundTo_high (hx : IsFinite x) (h : 0 ≤ val x) (h' : val x ≤ 1) :
    0.70 ≤ roundTo 4 x ↔ 0.69995 < x := by
  have hseven : rank 0.70 = some (rankOf 1 (-53) 6305039478318694) := by decide
  have hquotient : rank (FloatOrder.trueDiv 7000 (10 ^ 4 : ℕ)) =
      some (rankOf 1 (-53) 6305039478318694) := by decide
  have ht : IsFinite 0.70 ∧ val 0.70 = val (FloatOrder.trueDiv 7000 (10 ^ 4 : ℕ)) :=
    ⟨(val_of_rank hseven).1, (val_of_rank hseven).2.trans (val_of_rank hquotient).2.symm⟩
  have hlow : rank 0.69995 = some (rankOf 1 (-53) 6304589118355957) := by decide
  have hhigh : rank 0.6999500000000001 = some (rankOf 1 (-53) (6304589118355957 + 1)) := by decide
  rw [le_roundTo_iff (by decide) (by decide) ht hlow hhigh (by norm_num) (by norm_num) hx h h']
  constructor
  · intro hle
    rw [le_iff_val (val_of_rank hhigh).1 hx, (val_of_rank hhigh).2] at hle
    rw [lt_iff_val (val_of_rank hlow).1 hx, (val_of_rank hlow).2]
    refine lt_of_lt_of_le ?_ hle
    norm_num
  · exact FloatError.succ_le_of_lt hlow hhigh

theorem le_roundTo_low (hx : IsFinite x) (h : 0 ≤ val x) (h' : val x ≤ 1) :
    0.40 ≤ roundTo 4 x ↔ 0.39995 ≤ x := by
  have hfour : rank 0.40 = some (rankOf 1 (-54) 7205759403792794) := by decide
  have hquotient : rank (FloatOrder.trueDiv 4000 (10 ^ 4 : ℕ)) =
      some (rankOf 1 (-54) 7205759403792794) := by decide
  have ht : IsFinite 0.40 ∧ val 0.40 = val (FloatOrder.trueDiv 4000 (10 ^ 4 : ℕ)) :=
    ⟨(val_of_rank hfour).1, (val_of_rank hfour).2.trans (val_of_rank hquotient).2.symm⟩
  have hlow : rank 0.39994999999999997 = some (rankOf 1 (-54) 7204858683867319) := by decide
  have hhigh : rank 0.39995 = some (rankOf 1 (-54) (7204858683867319 + 1)) := by decide
  exact le_roundTo_iff (by decide) (by decide) ht hlow hhigh (by norm_num) (by norm_num) hx h h'

theorem le_roundTo_one (hx : IsFinite x) (h : 0 ≤ val x) (h' : val x ≤ 1) :
    1.0 ≤ roundTo 4 x ↔ 0.99995 ≤ x := by
  have hone : rank 1.0 = some (rankOf 1 (-52) 4503599627370496) := by decide
  have hquotient : rank (FloatOrder.trueDiv 10000 (10 ^ 4 : ℕ)) =
      some (rankOf 1 (-52) 4503599627370496) := by decide
  have ht : IsFinite 1.0 ∧ val 1.0 = val (FloatOrder.trueDiv 10000 (10 ^ 4 : ℕ)) :=
    ⟨(val_of_rank hone).1, (val_of_rank hone).2.trans (val_of_rank hquotient).2.symm⟩
  have hlow : rank 0.9999499999999999 = some (rankOf 1 (-53) 9006748894778254) := by decide
  have hhigh : rank 0.99995 = some (rankOf 1 (-53) (9006748894778254 + 1)) := by decide
  exact le_roundTo_iff (by decide) (by decide) ht hlow hhigh (by norm_num) (by norm_num) hx h h'

theorem rounded_near (hx : IsFinite x) (h : 0 ≤ val x) (h' : val x ≤ 1) :
    IsFinite (roundTo 4 x) ∧ 0 ≤ val (roundTo 4 x) ∧ val (roundTo 4 x) ≤ 1 ∧
      |val (roundTo 4 x) - val x| ≤ 6 / 10 ^ 5 := by
  obtain ⟨hfinite, hnonneg, hle, hnear⟩ := @FloatDecimal.roundTo_near x 4 (by decide) hx h h'
  have hquotient : rank (FloatOrder.trueDiv (10 ^ 4 : ℕ) (10 ^ 4 : ℕ)) =
      some (rankOf 1 (-52) 4503599627370496) := by decide
  rw [(val_of_rank hquotient).2] at hle
  refine ⟨hfinite, hnonneg, hle.trans (by norm_num), hnear.trans (by norm_num)⟩

/-- The numbers that rounding takes across the lower bound of a band. -/
def Crosses (x : Float) : Prop := (0.69995 < x ∧ x < 0.70) ∨ (0.39995 ≤ x ∧ x < 0.40)

instance : Decidable (Crosses x) := inferInstanceAs (Decidable (_ ∨ _))

theorem band_roundTo_iff (hx : IsFinite x) (h : 0 ≤ val x) (h' : val x ≤ 1) :
    band x = band (roundTo 4 x) ↔ ¬ Crosses x := by
  obtain ⟨hround, -⟩ := rounded_near hx h h'
  have hflip {c y : Float} (hc : IsFinite c) (hy : IsFinite y) :
      y < c ↔ ¬ c ≤ y := by
    rw [lt_iff_val hy hc, le_iff_val hc hy, not_le]
  have hseven : IsFinite 0.70 := by
    unfold IsFinite
    decide
  have hfour : IsFinite 0.40 := by
    unfold IsFinite
    decide
  have hhigh : 0.70 ≤ x → 0.69995 < x := FloatOrder.lt_of_lt_of_le (by decide)
  have hlow : 0.40 ≤ x → 0.39995 ≤ x := FloatOrder.le_trans (by decide)
  have hmedium : 0.69995 < x → 0.40 ≤ x := fun hlt =>
    FloatOrder.le_trans (by decide) (FloatOrder.le_of_lt hlt)
  unfold band Crosses
  simp only [hflip hfour hx, hflip hfour hround, hflip hseven hx, le_roundTo_high hx h h',
    le_roundTo_low hx h h']
  by_cases hA : 0.70 ≤ x
  · simp [hA, hhigh hA, hlow (hmedium (hhigh hA)), hmedium (hhigh hA)]
  · by_cases hA' : 0.69995 < x
    · simp [hA, hA', hmedium hA']
    · by_cases hB : 0.40 ≤ x
      · simp [hA, hA', hB, hlow hB]
      · by_cases hB' : 0.39995 ≤ x
        · simp [hA, hA', hB, hB']
        · simp [hA, hA', hB, hB']

/-! ## Consistency -/

/-- The score that a reader of the rationale works out. -/
def recomputed (rationale : List ConfidenceFactor) : Float := roundTo 4 (clamped rationale)

structure Consistent (fused : FusedAlert Ω) : Prop where
  label : fused.confidenceLabel = band fused.confidenceScore
  range : 0.0 ≤ fused.confidenceScore ∧ fused.confidenceScore ≤ 1.0
  score : (fused.confidenceScore == recomputed fused.confidenceRationale) = true

/-- The factor that the boost adds, if it adds one. -/
def boosting (objects : Objects Ω) (enrichments : Dict Ω) : Option ConfidenceFactor :=
  match exploited objects enrichments with
  | .ok (vuln :: vulns) => (boostFactor objects vuln vulns).toOption
  | _ => none

/-- Without a boost, rounding crosses no band and does not depend on the order of the factors. With
one, the factors and the boost come to the whole interval. -/
def Steady (objects : Objects Ω) (fused : FusedAlert Ω) : Prop :=
  ∃ rationale, factors objects fused = .ok rationale ∧
    match boosting objects fused.enrichments with
    | none => ¬ Crosses (clamped rationale) ∧
        (recomputed rationale == recomputed (byImpact rationale)) = true
    | some boost => 0.99995 ≤ raw (byImpact rationale ++ [boost])

theorem score_ok {scored : FusedAlert Ω}
    (h : ConfidenceScorer.score objects ⟨true⟩ fused = .ok scored) :
    ∃ rationale, factors objects fused = .ok rationale ∧
      scored = { fused with
        confidenceScore := recomputed rationale
        confidenceLabel := band (clamped rationale)
        confidenceRationale := byImpact rationale } := by
  unfold ConfidenceScorer.score at h
  rcases hfactors : factors objects fused with e | rationale
  · rw [hfactors] at h
    cases h
  · rw [hfactors] at h
    cases h
    exact ⟨rationale, rfl, rfl⟩

theorem boosting_none (h : boosting objects fused.enrichments = none) :
    ∃ inWild, (applyVulnBoost objects fused).1 = { fused with exploitInWild := inWild } := by
  unfold boosting at h
  unfold applyVulnBoost
  rcases hvulns : exploited objects fused.enrichments with e | _ | ⟨vuln, vulns⟩
  · exact ⟨_, rfl⟩
  · exact ⟨_, rfl⟩
  · rw [hvulns] at h
    dsimp only at h ⊢
    rcases hfactor : boostFactor objects vuln vulns with e | boost
    · exact ⟨_, rfl⟩
    · rw [hfactor] at h
      cases h

theorem boostFactor_ok {vuln : Dict Ω} {vulns : List (Dict Ω)} {boost : ConfidenceFactor}
    (h : boostFactor objects vuln vulns = .ok boost) :
    boost.contribution = 0.25 ∧ boost.weight = 0.15 := by
  obtain ⟨top, -, htop⟩ := JsonParser.bind_ok h
  obtain ⟨cve, -, hcve⟩ := JsonParser.bind_ok htop
  obtain ⟨cvss, -, hcvss⟩ := JsonParser.bind_ok hcve
  cases hcvss
  exact ⟨rfl, rfl⟩

theorem boosting_some {boost : ConfidenceFactor}
    (h : boosting objects fused.enrichments = some boost) :
    boost.contribution = 0.25 ∧ boost.weight = 0.15 ∧
      (applyVulnBoost objects fused).1 = { fused with
        exploitInWild := true
        confidenceRationale := fused.confidenceRationale ++ [boost]
        confidenceScore := minFirst 1.0 (fused.confidenceScore + 0.15) } := by
  unfold boosting at h
  unfold applyVulnBoost
  rcases hvulns : exploited objects fused.enrichments with e | _ | ⟨vuln, vulns⟩
  · rw [hvulns] at h
    cases h
  · rw [hvulns] at h
    cases h
  · rw [hvulns] at h
    dsimp only at h ⊢
    rcases hfactor : boostFactor objects vuln vulns with e | factor
    · rw [hfactor] at h
      cases h
    · rw [hfactor] at h
      cases h
      obtain ⟨hcontribution, hweight⟩ := boostFactor_ok hfactor
      exact ⟨hcontribution, hweight, rfl⟩

theorem perm_byImpact : (byImpact rationale).Perm rationale := List.perm_insertionSort _ _

theorem boosted_valid (h : rationale.length = 7 ∧ ∀ f ∈ rationale, Valid f)
    {boost : ConfidenceFactor} (hvalid : Valid boost) :
    (byImpact rationale ++ [boost]).length ≤ 8 ∧ ∀ f ∈ byImpact rationale ++ [boost], Valid f := by
  constructor
  · rw [List.length_append, perm_byImpact.length_eq, h.1, List.length_singleton]
  · intro f hf
    rcases List.mem_append.mp hf with hf | hf
    · exact h.2 f (perm_byImpact.mem_iff.mp hf)
    · rwa [List.mem_singleton.mp hf]

/-! ## Agreement of the parts -/

/-- The exact sum after the boost, in whatever order. -/
theorem exactTotal_boost {boost : ConfidenceFactor} (hboost : boost.weighted = 0.25 * 0.15) :
    exactTotal (byImpact rationale ++ [boost]) ≤ exactTotal rationale + 3751 / 10 ^ 5 ∧
      exactTotal rationale ≤ exactTotal (byImpact rationale ++ [boost]) := by
  have hrank : rank (0.25 * 0.15) = some (rankOf 1 (-57) 5404319552844595) := by decide
  have hperm : ((byImpact rationale).map fun f => val f.weighted).sum = exactTotal rationale :=
    (perm_byImpact.map _).sum_eq
  have hsum : exactTotal (byImpact rationale ++ [boost]) =
      exactTotal rationale + val (0.25 * 0.15) := by
    rw [exactTotal, List.map_append, List.sum_append, hperm, List.map_singleton,
      List.sum_singleton, hboost]
  rw [hsum, (val_of_rank hrank).2]
  constructor
  · norm_num
  · refine le_add_of_nonneg_right ?_
    norm_num

theorem clip_le {a b d : ℚ} (hd : 0 ≤ d) (h : b ≤ a + d) :
    max 0 (min 1 b) ≤ max 0 (min 1 a) + d := by
  have hpos : 0 ≤ max 0 (min 1 a) := le_max_left _ _
  have hmin : min 1 b ≤ min 1 a + d := by
    rcases le_total 1 a with ha | ha
    · rw [min_eq_left ha]
      exact (min_le_left _ _).trans (le_add_of_nonneg_right hd)
    · rw [min_eq_right ha]
      exact (min_le_right _ _).trans h
  refine max_le (add_nonneg hpos hd) (hmin.trans ?_)
  exact add_le_add_left (le_max_right _ _) d

/-- The boost raises the recomputed score by little. -/
theorem clamped_boost (h : rationale.length = 7 ∧ ∀ f ∈ rationale, Valid f)
    {boost : ConfidenceFactor} (hvalid : Valid boost) (hboost : boost.weighted = 0.25 * 0.15) :
    val (clamped (byImpact rationale ++ [boost])) ≤ val (clamped rationale) + 376 / 10 ^ 4 := by
  have hle : rationale.length ≤ 8 := by omega
  obtain ⟨hlength, hall⟩ := boosted_valid h hvalid
  rw [(clamped_val hlength hall).2, (clamped_val hle h.2).2]
  have hnear := (raw_near hle h.2).2
  have hnear' := (raw_near hlength hall).2
  have hsum := (@exactTotal_boost rationale boost hboost).1
  refine clip_le (by norm_num) ?_
  rw [abs_le] at hnear hnear'
  norm_num at hnear hnear' hsum ⊢
  linarith [hnear.1, hnear'.2]

theorem consistent_scored_iff (h : rationale.length = 7 ∧ ∀ f ∈ rationale, Valid f)
    {inWild : Bool} : Consistent { fused with
      exploitInWild := inWild
      confidenceScore := recomputed rationale
      confidenceLabel := band (clamped rationale)
      confidenceRationale := byImpact rationale } ↔ ¬ Crosses (clamped rationale) ∧
        (recomputed rationale == recomputed (byImpact rationale)) = true := by
  have hlength : rationale.length ≤ 8 := by omega
  obtain ⟨hfinite, -⟩ := clamped_val hlength h.2
  obtain ⟨hnonneg, hle⟩ := clamped_mem hlength h.2
  obtain ⟨hround, hlow, hhigh, -⟩ := rounded_near hfinite hnonneg hle
  rw [← band_roundTo_iff hfinite hnonneg hle]
  constructor
  · intro hconsistent
    exact ⟨hconsistent.label, hconsistent.score⟩
  · rintro ⟨hlabel, hscore⟩
    refine ⟨hlabel, ⟨?_, ?_⟩, hscore⟩
    · exact (le_iff_val val_zero.1 hround).mpr (val_zero.2.trans_le hlow)
    · exact (le_iff_val hround val_one.1).mpr (hhigh.trans_eq val_one.2.symm)

/-- The score that the boost makes is the recomputed one only where both are one. -/
theorem consistent_boosted_iff (h : rationale.length = 7 ∧ ∀ f ∈ rationale, Valid f)
    {boost : ConfidenceFactor} (hcontribution : boost.contribution = 0.25)
    (hweight : boost.weight = 0.15) : Consistent { fused with
      exploitInWild := true
      confidenceScore := minFirst 1.0 (recomputed rationale + 0.15)
      confidenceLabel := band (clamped rationale)
      confidenceRationale := byImpact rationale ++ [boost] } ↔
        0.99995 ≤ raw (byImpact rationale ++ [boost]) := by
  have hvalid : Valid boost := by
    constructor
    · rw [hcontribution]
      decide
    · rw [hweight]
      decide
  have hboost : boost.weighted = 0.25 * 0.15 := by
    rw [ConfidenceFactor.weighted, hcontribution, hweight]
  have hlength : rationale.length ≤ 8 := by omega
  obtain ⟨hlength', hall⟩ := boosted_valid h hvalid
  obtain ⟨hone, hvalOne⟩ := val_one
  obtain ⟨hx, -⟩ := clamped_val hlength h.2
  obtain ⟨hx₀, hx₁⟩ := clamped_mem hlength h.2
  obtain ⟨hr, hr₀, hr₁, hrx⟩ := rounded_near hx hx₀ hx₁
  obtain ⟨hy, -⟩ := clamped_val hlength' hall
  obtain ⟨hy₀, hy₁⟩ := clamped_mem hlength' hall
  obtain ⟨hs, hs₀, hs₁, hsy⟩ := rounded_near hy hy₀ hy₁
  have hyx := clamped_boost h hvalid hboost
  rw [← le_clamped_iff hlength' hall, ← le_roundTo_one hy hy₀ hy₁]
  have hstep : rank 0.15 = some (rankOf 1 (-55) 5404319552844595) := by decide
  obtain ⟨hfifteen, hvalFifteen⟩ := val_of_rank hstep
  norm_num at hvalFifteen
  obtain ⟨hadded, hnear⟩ := near_add (N := 1) hr hfifteen (by
    rw [abs_of_nonneg (by linarith), hvalFifteen]
    norm_num
    linarith) (by decide) (by decide)
  rw [hvalFifteen] at hnear
  change IsFinite (recomputed rationale + 0.15) at hadded
  rw [abs_le] at hnear hrx hsy
  norm_num at hnear
  change _ ↔ 1.0 ≤ recomputed (byImpact rationale ++ [boost])
  change IsFinite (recomputed (byImpact rationale ++ [boost])) at hs
  rw [le_iff_val hone hs, hvalOne]
  unfold recomputed at *
  by_cases hcapped : roundTo 4 (clamped rationale) + 0.15 < 1.0
  · -- not capped, so the score is further up than the recomputed one can be
    have hscore : minFirst 1.0 (roundTo 4 (clamped rationale) + 0.15) =
        roundTo 4 (clamped rationale) + 0.15 := if_pos hcapped
    rw [lt_iff_val hadded hone, hvalOne] at hcapped
    constructor
    · intro hconsistent
      have heq := hconsistent.score
      dsimp only at heq
      rw [hscore, recomputed, beq_iff_val hadded hs] at heq
      linarith [hnear.1, hrx.1, hsy.2]
    · intro hle
      linarith [hnear.1, hrx.1, hsy.2]
  · have hscore : minFirst 1.0 (roundTo 4 (clamped rationale) + 0.15) = 1.0 := if_neg hcapped
    rw [lt_iff_val hadded hone, hvalOne, not_lt] at hcapped
    rw [hscore]
    constructor
    · intro hconsistent
      have heq := hconsistent.score
      dsimp only at heq
      rw [recomputed, beq_iff_val hone hs, hvalOne] at heq
      exact heq.le
    · intro hle
      have hhigh : 0.70 ≤ clamped rationale := by
        have hrank : rank 0.70 = some (rankOf 1 (-53) 6305039478318694) := by decide
        rw [le_iff_val (val_of_rank hrank).1 hx, (val_of_rank hrank).2]
        norm_num
        linarith [hnear.2, hrx.2]
      constructor
      · change band _ = band 1.0
        rw [band, if_pos hhigh]
        decide
      · change 0.0 ≤ 1.0 ∧ 1.0 ≤ 1.0
        decide
      · change (1.0 == recomputed _) = true
        rw [recomputed, beq_iff_val hone hs, hvalOne]
        exact le_antisymm hle hs₁

/-- After scoring and the boost, an alert is consistent where its evidence is steady. -/
theorem boosted_consistent_iff {scored : FusedAlert Ω}
    (h : ConfidenceScorer.score objects ⟨true⟩ fused = .ok scored) :
    Consistent (applyVulnBoost objects scored).1 ↔ Steady objects fused := by
  obtain ⟨rationale, hfactors, rfl⟩ := score_ok h
  have hvalid := factors_valid hfactors
  have hsteady : Steady objects fused ↔ (match boosting objects fused.enrichments with
      | none => ¬ Crosses (clamped rationale) ∧
          (recomputed rationale == recomputed (byImpact rationale)) = true
      | some boost => 0.99995 ≤ raw (byImpact rationale ++ [boost])) := by
    constructor
    · rintro ⟨rationale', hfactors', hcases⟩
      cases hfactors.symm.trans hfactors'
      exact hcases
    · intro hcases
      exact ⟨rationale, hfactors, hcases⟩
  rw [hsteady]
  rcases hboosting : boosting objects fused.enrichments with _ | boost
  · obtain ⟨inWild, heq⟩ := @boosting_none Ω objects { fused with
      confidenceScore := recomputed rationale
      confidenceLabel := band (clamped rationale)
      confidenceRationale := byImpact rationale } hboosting
    rw [heq]
    exact consistent_scored_iff hvalid
  · obtain ⟨hcontribution, hweight, heq⟩ := @boosting_some Ω objects { fused with
      confidenceScore := recomputed rationale
      confidenceLabel := band (clamped rationale)
      confidenceRationale := byImpact rationale } boost hboosting
    rw [heq]
    exact consistent_boosted_iff hvalid hcontribution hweight

/-- Nothing but the values of the interpreter. -/
def noObjects : Objects Empty where
  str := fun
    | .str s => .ok s
    | _ => .ok []
  truthy := nofun
  items := nofun
  eq _ _ := .ok false
  rich _ _ _ := .ok false
  contains := nofun
  isSet := nofun

def scannerAlert : RawAlert where
  id := 1
  tenantId := 2
  source := "scanner"
  title := "Exposed service"
  severity := .high
  srcIp := none
  dstIp := none
  hostname := some "web-1"
  username := none
  fileHash := none
  domain := none
  mitreTactics := []
  mitreTechniques := ["T1190"]
  createdAt := 0
  url := none
  riskScore := 0.5

def scannerFused (enrichments : Dict Empty) : FusedAlert Empty :=
  { newFused scannerAlert enrichments with
    anomalyScore := 0.5
    priorityScore := 0.5 }

def exploitedVulns : Dict Empty :=
  [(.str (CodeText.text "vulnerabilities"),
    .list [.dict [(.str (CodeText.text "cve_id"), .str (CodeText.text "CVE-2024-1234")),
      (.str (CodeText.text "is_exploited"), .bool true),
      (.str (CodeText.text "cvss_score"), .float 9.8)]])]

set_option maxRecDepth 10000 in
theorem scanner_consistent :
    ∃ scored, ConfidenceScorer.score noObjects ⟨true⟩ (scannerFused []) = .ok scored ∧
      Consistent (applyVulnBoost noObjects scored).1 := by
  refine ⟨_, rfl, (@boosted_consistent_iff _ _ (scannerFused []) _ rfl).mpr ⟨_, rfl, ?_⟩⟩
  constructor
  · decide
  · decide

set_option maxRecDepth 10000 in
theorem scanner_inconsistent :
    ∃ scored, ConfidenceScorer.score noObjects ⟨true⟩ (scannerFused exploitedVulns) = .ok scored ∧
      (applyVulnBoost noObjects scored).1.confidenceLabel = .medium ∧
      band (applyVulnBoost noObjects scored).1.confidenceScore = .high ∧
      ¬ Consistent (applyVulnBoost noObjects scored).1 := by
  refine ⟨_, rfl, by decide, by decide, ?_⟩
  intro h
  have hscore := h.score
  revert hscore
  decide

end ConfidenceConsistency
