import Mathlib.Algebra.Order.Field.Basic
import Mathlib.Tactic.Linarith
import Mathlib.Tactic.Ring

/-! # Token buckets

A bucket holds at most its capacity and is refilled at a constant rate. The refill is lazy: what
the bucket holds is only worked out when something is taken from it. Times and amounts are in
any ordered field. -/
namespace TokenBucket

variable {K : Type*} [Field K] [LinearOrder K]

structure Policy (K : Type*) [Field K] [LinearOrder K] where
  capacity : K
  rate : K
  capacity_nonneg : 0 ≤ capacity
  rate_nonneg : 0 ≤ rate

/-- What a bucket with `x` tokens holds after a while. -/
def Policy.refill (p : Policy K) (x elapsed : K) : K := min p.capacity (x + p.rate * elapsed)

variable {p : Policy K} {x y s t u : K} {takes : List (K × K)}

theorem refill_le_capacity : p.refill x s ≤ p.capacity := min_le_left _ _

theorem refill_le : p.refill x s ≤ x + p.rate * s := min_le_right _ _

theorem le_refill_iff {a : K} (ha : a ≤ p.capacity) : a ≤ p.refill x s ↔ a ≤ x + p.rate * s := by
  rw [Policy.refill, le_min_iff, and_iff_right ha]

theorem refill_zero (hx : x ≤ p.capacity) : p.refill x 0 = x := by
  rw [Policy.refill, mul_zero, add_zero, min_eq_right hx]

/-- Amounts taken at their times, from a bucket that held `x` at time `t`. -/
inductive Takes (p : Policy K) : K → K → List (K × K) → Prop where
  | nil {x t : K} : Takes p x t []
  | take {x t u a : K} {takes : List (K × K)} : t ≤ u → 0 ≤ a → a ≤ p.refill x (u - t) →
      Takes p (p.refill x (u - t) - a) u takes → Takes p x t ((u, a) :: takes)

/-- What was taken from time `s` to time `t`. -/
def taken (s t : K) (takes : List (K × K)) : K :=
  ((takes.filter fun e => s ≤ e.1 ∧ e.1 ≤ t).map Prod.snd).sum

@[simp] theorem taken_nil : taken s t [] = 0 := rfl

theorem taken_cons_of_mem {a : K} (hs : s ≤ u) (ht : u ≤ t) :
    taken s t ((u, a) :: takes) = a + taken s t takes := by
  simp [taken, hs, ht]

theorem taken_cons_of_before {a : K} (h : u < s) :
    taken s t ((u, a) :: takes) = taken s t takes := by
  simp [taken, not_le.mpr h]

theorem taken_cons_of_after {a : K} (h : t < u) :
    taken s t ((u, a) :: takes) = taken s t takes := by
  simp [taken, not_le.mpr h]

theorem Takes.taken_past (h : Takes p x u takes) (ht : t < u) : taken s t takes = 0 := by
  induction h with
  | nil => rfl
  | take huv _ _ _ ih =>
    rw [taken_cons_of_after (lt_of_lt_of_le ht huv)]
    exact ih (lt_of_lt_of_le ht huv)

variable [IsStrictOrderedRing K]

theorem refill_nonneg (hx : 0 ≤ x) (hs : 0 ≤ s) : 0 ≤ p.refill x s := by
  apply le_min p.capacity_nonneg
  have hgain := mul_nonneg p.rate_nonneg hs
  linarith

theorem refill_full (hs : 0 ≤ s) : p.refill p.capacity s = p.capacity := by
  apply min_eq_left
  have hgain := mul_nonneg p.rate_nonneg hs
  linarith

/-- To look in between changes nothing. -/
theorem refill_refill (ht : 0 ≤ t) : p.refill (p.refill x s) t = p.refill x (s + t) := by
  have hgain := mul_nonneg p.rate_nonneg ht
  have hsplit : x + p.rate * (s + t) = x + p.rate * s + p.rate * t := by ring
  rw [Policy.refill, Policy.refill, Policy.refill, hsplit, ← min_add_add_right, ← min_assoc,
    min_eq_left (by linarith : p.capacity ≤ p.capacity + p.rate * t)]

/-- From now to a later time no more is taken than there is now and comes in until then. -/
theorem Takes.taken_le (h : Takes p x u takes) (hx : 0 ≤ x) (hu : u ≤ t) :
    taken s t takes ≤ x + p.rate * (t - u) := by
  have hgain : ∀ {v : K}, v ≤ t → 0 ≤ p.rate * (t - v) :=
    fun hv => mul_nonneg p.rate_nonneg (sub_nonneg.mpr hv)
  induction h with
  | nil =>
    have := hgain hu
    rw [taken_nil]
    linarith
  | @take x u v a takes huv ha hle htakes ih =>
    by_cases hv : v ≤ t
    · have hrest := ih (sub_nonneg.mpr hle) hv
      have hlevel := @refill_le _ _ _ p x (v - u)
      have hsplit : p.rate * (t - u) = p.rate * (v - u) + p.rate * (t - v) := by ring
      by_cases hs : s ≤ v
      · rw [taken_cons_of_mem hs hv]
        linarith
      · rw [taken_cons_of_before (not_le.mp hs)]
        linarith
    · have hlate := not_le.mp hv
      have := hgain hu
      rw [taken_cons_of_after hlate, htakes.taken_past hlate]
      linarith

/-- In no interval is more taken than the capacity and what comes in during the interval. -/
theorem Takes.bound (h : Takes p x u takes) (hx : 0 ≤ x) (hcap : x ≤ p.capacity) (hst : s ≤ t) :
    taken s t takes ≤ p.capacity + p.rate * (t - s) := by
  have hgain := mul_nonneg p.rate_nonneg (sub_nonneg.mpr hst)
  induction h with
  | nil =>
    have hpos := p.capacity_nonneg
    rw [taken_nil]
    linarith
  | @take x u v a takes huv ha hle htakes ih =>
    have hlevel := @refill_le_capacity _ _ _ p x (v - u)
    by_cases hs : s ≤ v
    · by_cases hv : v ≤ t
      · have hrest := htakes.taken_le (s := s) (sub_nonneg.mpr hle) hv
        have hlate : p.rate * (t - v) ≤ p.rate * (t - s) := by
          apply mul_le_mul_of_nonneg_left _ p.rate_nonneg
          linarith
        rw [taken_cons_of_mem hs hv]
        linarith
      · rw [taken_cons_of_after (not_le.mp hv), htakes.taken_past (not_le.mp hv)]
        linarith [p.capacity_nonneg]
    · rw [taken_cons_of_before (not_le.mp hs)]
      apply ih (sub_nonneg.mpr hle)
      linarith

end TokenBucket
