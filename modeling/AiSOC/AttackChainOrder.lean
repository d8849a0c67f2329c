import AiSOC.AttackChainRanker
import AiSOC.Pagination

/-! # The order of a chain

Scores are numbers, so links are ordered by a key, and sorting them is stable. -/
namespace AttackChainOrder

open FloatOrder AttackChainRanker Pagination

theorem weights_positive : IsPositive wDistance ∧ IsPositive wTemporal ∧ IsPositive wRisk := by
  refine ⟨⟨?_, ?_⟩, ⟨?_, ?_⟩, ⟨?_, ?_⟩⟩ <;> decide

theorem signClear_zero : SignClear 0 := by
  have hunpack : (0 : Float).toModel.unpack = .zero .positive := rfl
  unfold SignClear
  rw [hunpack]
  exact .zero

theorem temporalScore_clear (seedTime candidateTime window : ℤ) :
    SignClear (temporalScore seedTime candidateTime window).1 := by
  unfold temporalScore maxFirst
  dsimp only
  split_ifs with hwindow hpos
  · exact signClear_zero
  · exact signClear_of_pos hpos
  · exact signClear_zero

theorem distanceScore_clear (distance : ℕ) : SignClear (distanceScore distance) := by
  have hone : IsPositive 1.0 := by constructor <;> decide
  unfold distanceScore
  split_ifs
  · exact signClear_zero
  · exact hone.div_left (signClear_ofNat distance)

theorem riskOverlap_clear (seed cand : CandidateAlert) : SignClear (riskOverlap seed cand) := by
  have hfive : IsPositive 5.0 := by constructor <;> decide
  have htwo : IsPositive 2.0 := by constructor <;> decide
  have hratio (m n : ℕ) : SignClear (trueDiv m (max 1 n)) := by
    obtain ⟨k, hk⟩ : ∃ k : ℕ, max 1 (n : ℤ) = (k + 1 : ℕ) := ⟨max 1 n - 1, by omega⟩
    rw [hk]
    exact signClear_trueDiv m k
  unfold riskOverlap
  dsimp only
  refine htwo.div_right (SignClear.add ?_ (hfive.div_right (signClear_ofNat _)))
  split_ifs
  · exact hratio _ _
  · exact signClear_zero

/-- A score is never NaN. -/
theorem score_isNumber (seed cand : CandidateAlert) (distance : ℕ) (window : ℤ) :
    IsNumber (chainLink seed cand distance window).score := by
  obtain ⟨hdistance, htemporal, hrisk⟩ := weights_positive
  exact (((hdistance.mul (distanceScore_clear distance)).add
    (htemporal.mul (temporalScore_clear _ _ _))).add
      (hrisk.mul (riskOverlap_clear seed cand))).isNumber

/-- For scores that are numbers: the score downwards, then the time. -/
def sortKey (link : ChainLink) : Rank ×ₗ ℤ :=
  toLex ((rank (-link.score)).getD (rankOf 0 0 0), link.eventTime)

variable {a b : ChainLink} {chain : List ChainLink}

theorem keyLt_iff (ha : IsNumber a.score) (hb : IsNumber b.score) :
    keyLt a b = true ↔ sortKey a < sortKey b := by
  obtain ⟨x, hx⟩ := ha.neg
  obtain ⟨y, hy⟩ := hb.neg
  have hbeq : (-a.score == -b.score) = true ↔ x = y := by
    rw [beq_iff, hx, hy]
    simp [eq_comm]
  have hlt : -a.score < -b.score ↔ x < y := by
    rw [lt_iff, hx, hy]
    simp
  rw [keyLt, sortKey, sortKey, hx, hy, Option.getD_some, Option.getD_some, Prod.Lex.toLex_lt_toLex]
  split_ifs with heq
  · have hxy := hbeq.mp heq
    simp [hxy]
  · have hxy : x ≠ y := fun h => heq (hbeq.mpr h)
    simp [hlt, hxy]

/-- The chain is sorted by the key. -/
theorem sortChain_eq (h : ∀ link ∈ chain, IsNumber link.score) :
    sortChain chain = sortRows sortKey chain := by
  have hle : ∀ a ∈ chain, ∀ b ∈ chain, (!keyLt b a) = decide (sortKey (id a) ≤ sortKey (id b)) := by
    intro a ha b hb
    rw [Bool.eq_iff_iff, Bool.not_eq_true', ← Bool.not_eq_true, keyLt_iff (h b hb) (h a ha),
      decide_eq_true_iff]
    exact not_lt
  have hmap := List.map_mergeSort (r := fun a b => !keyLt b a)
    (s := fun a b => decide (sortKey a ≤ sortKey b)) (f := id) hle
  rw [List.map_id, List.map_id] at hmap
  exact hmap

theorem mem_chainLinks {seed : CandidateAlert} {window : ℤ} {known : Known} {link : ChainLink} :
    link ∈ chainLinks seed window known ↔
      ∃ e ∈ known.entries, e.1 ≠ seed.id ∧ link = chainLink seed e.2.1 e.2.2 window := by
  simp only [chainLinks, List.mem_map, List.mem_filter, decide_eq_true_eq, and_assoc,
    @eq_comm _ link]

theorem chainLinks_isNumber {seed : CandidateAlert} {window : ℤ} {known : Known} :
    ∀ link ∈ chainLinks seed window known, IsNumber link.score := by
  intro link hlink
  obtain ⟨e, -, -, rfl⟩ := mem_chainLinks.mp hlink
  exact score_isNumber seed _ _ _

/-- The documented order. -/
theorem sortKey_le (ha : IsNumber a.score) (hb : IsNumber b.score) (h : sortKey a ≤ sortKey b) :
    b.score < a.score ∨ (a.score == b.score) = true ∧ a.eventTime ≤ b.eventTime := by
  have hnot : ¬ keyLt b a = true := (keyLt_iff hb ha).not.mpr (not_lt.mpr h)
  rw [keyLt, neg_beq_neg] at hnot
  split_ifs at hnot with heq
  · exact Or.inr ⟨heq, by simpa using hnot⟩
  · rw [decide_eq_true_iff, neg_lt_neg_iff] at hnot
    left
    rcases ha.lt_or_le hb with hlt | hle
    · exact absurd hlt hnot
    · rcases hb.lt_or_le ha with hlt | hle'
      · exact hlt
      · exact absurd (beq_of_le hle hle') heq

end AttackChainOrder
