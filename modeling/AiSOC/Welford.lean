import Mathlib.Algebra.BigOperators.Group.List.Basic
import Mathlib.Algebra.CharZero.Defs
import Mathlib.Data.List.Induction
import Mathlib.Data.Nat.Cast.Basic
import Mathlib.Tactic.FieldSimp
import Mathlib.Tactic.LinearCombination
import Mathlib.Tactic.Ring

/-! # Mean and squared deviations, one value after the other

In exact arithmetic the recurrence gives the mean and the sum of the squared deviations from it
of all values so far. -/
namespace Welford

structure Moments (K : Type*) where
  count : ℕ
  mean : K
  M2 : K

variable {K : Type*} [Field K]

def zero : Moments K := ⟨0, 0, 0⟩

def push (m : Moments K) (x : K) : Moments K :=
  let mean := m.mean + (x - m.mean) / (m.count + 1 : ℕ)
  ⟨m.count + 1, mean, m.M2 + (x - m.mean) * (x - mean)⟩

def moments (xs : List K) : Moments K := xs.foldl push zero

variable {xs : List K} {x : K}

theorem moments_append_singleton : moments (xs ++ [x]) = push (moments xs) x := by
  rw [moments, List.foldl_append]
  rfl

theorem moments_count (xs : List K) : (moments xs).count = xs.length := by
  induction xs using List.reverseRecOn with
  | nil => rfl
  | append_singleton xs x ih =>
    rw [moments_append_singleton, List.length_append, List.length_singleton, ← ih]
    rfl

variable [CharZero K]

theorem push_mean (m : Moments K) (x : K) :
    (push m x).mean * (m.count + 1 : ℕ) = m.mean * m.count + x := by
  have hcount : ((m.count + 1 : ℕ) : K) ≠ 0 := Nat.cast_ne_zero.mpr (Nat.succ_ne_zero _)
  simp only [push]
  field_simp
  push_cast
  ring

theorem mean_mul_length (xs : List K) : (moments xs).mean * xs.length = xs.sum := by
  induction xs using List.reverseRecOn with
  | nil => simp
  | append_singleton xs x ih =>
    rw [moments_append_singleton, List.length_append, List.length_singleton, List.sum_append,
      List.sum_singleton, ← ih, ← moments_count xs]
    exact push_mean (moments xs) x

/-- The squares of the values are shared between their mean and the deviations from it. -/
theorem M2_add_sq (xs : List K) :
    (moments xs).M2 + xs.length * (moments xs).mean ^ 2 = (xs.map fun x => x ^ 2).sum := by
  induction xs using List.reverseRecOn with
  | nil => simp [moments, zero]
  | append_singleton xs x ih =>
    have hmean := push_mean (moments xs) x
    rw [moments_append_singleton, List.length_append, List.length_singleton, List.map_append,
      List.sum_append, ← ih, List.map_singleton, List.sum_singleton, ← moments_count xs]
    simp only [push, Nat.cast_add, Nat.cast_one] at hmean ⊢
    generalize (moments xs).mean + (x - (moments xs).mean) / ((moments xs).count + 1) = mean
      at hmean ⊢
    linear_combination ((moments xs).mean + mean) * hmean

theorem M2_eq_sum_sq (xs : List K) :
    (moments xs).M2 = (xs.map fun x => (x - (moments xs).mean) ^ 2).sum := by
  have hexpand : ∀ (ys : List K) (m : K), (ys.map fun x => (x - m) ^ 2).sum =
      (ys.map fun x => x ^ 2).sum - 2 * m * ys.sum + ys.length * m ^ 2 := by
    intro ys m
    induction ys with
    | nil => simp
    | cons y ys ih =>
      simp only [List.map_cons, List.sum_cons, List.length_cons, Nat.cast_add, Nat.cast_one, ih]
      ring
  rw [hexpand, ← M2_add_sq, ← mean_mul_length]
  ring

end Welford
