import Mathlib.Data.List.Sort
import Mathlib.Data.Prod.Lex

/-! # Sets ranked by score

The members of a set with a score each, in ascending order of score and then of member, as the
sorted sets of a data store keep them. Ranks count from the lowest; negative ranks count from the
end. -/
namespace RankedSet

variable {μ σ L : Type*} [LinearOrder μ] [LinearOrder L] {rank : σ → L}

def NotAfter (rank : σ → L) (a b : μ × σ) : Prop :=
  toLex (rank a.2, a.1) ≤ toLex (rank b.2, b.1)

instance (rank : σ → L) : DecidableRel (@NotAfter μ σ L _ _ rank) :=
  fun _ _ => inferInstanceAs (Decidable (_ ≤ _))

instance (rank : σ → L) : Std.Total (@NotAfter μ σ L _ _ rank) := ⟨fun _ _ => le_total _ _⟩

instance (rank : σ → L) : IsTrans (μ × σ) (NotAfter rank) := ⟨fun _ _ _ => le_trans⟩

structure Ranking (μ : Type*) [LinearOrder μ] (rank : σ → L) where
  entries : List (μ × σ)
  ranked : entries.Pairwise (NotAfter rank)
  nodup : (entries.map Prod.fst).Nodup

/-- The first index of a range of ranks, and the one past it. -/
def bounds (n : ℕ) (start stop : ℤ) : ℕ × ℕ :=
  ((if start < 0 then n + start else start).toNat,
    ((if stop < 0 then n + stop else stop) + 1).toNat)

def slice {α : Type*} (l : List α) (start stop : ℤ) : List α :=
  (l.take (bounds l.length start stop).2).drop (bounds l.length start stop).1

def removeSlice {α : Type*} (l : List α) (start stop : ℤ) : List α :=
  l.take (bounds l.length start stop).1 ++
    l.drop (max (bounds l.length start stop).1 (bounds l.length start stop).2)

theorem removeSlice_sublist {α : Type*} (l : List α) (start stop : ℤ) :
    (removeSlice l start stop).Sublist l := by
  have hdrop := List.drop_sublist_drop_left l
    (le_max_left (bounds l.length start stop).1 (bounds l.length start stop).2)
  have happend := hdrop.append_left (l.take (bounds l.length start stop).1)
  rwa [List.take_append_drop] at happend

namespace Ranking

variable {r : Ranking μ rank} {m k : μ} {x y : σ}

def empty (rank : σ → L) : Ranking μ rank := ⟨[], List.Pairwise.nil, List.nodup_nil⟩

/-- The member takes the place that its new score gives it. -/
def add (r : Ranking μ rank) (m : μ) (x : σ) : Ranking μ rank where
  entries := (r.entries.filter (·.1 ≠ m)).orderedInsert (NotAfter rank) (m, x)
  ranked := List.Pairwise.orderedInsert (m, x) _ (r.ranked.filter _)
  nodup := by
    have hperm := (List.perm_orderedInsert (NotAfter rank) (m, x)
      (r.entries.filter (·.1 ≠ m))).map Prod.fst
    rw [hperm.nodup_iff, List.map_cons, List.nodup_cons]
    constructor
    · intro hmem
      obtain ⟨e, he, heq⟩ := List.mem_map.mp hmem
      exact of_decide_eq_true (List.mem_filter.mp he).2 heq
    · exact r.nodup.sublist (List.filter_sublist.map _)

def removeRangeByRank (r : Ranking μ rank) (start stop : ℤ) : Ranking μ rank where
  entries := removeSlice r.entries start stop
  ranked := r.ranked.sublist (removeSlice_sublist _ start stop)
  nodup := r.nodup.sublist ((removeSlice_sublist _ start stop).map _)

/-- A range of the ranks from the highest downwards. -/
def revRange (r : Ranking μ rank) (start stop : ℤ) : List (μ × σ) :=
  slice r.entries.reverse start stop

theorem mem_add : (k, y) ∈ (r.add m x).entries ↔
    k = m ∧ y = x ∨ k ≠ m ∧ (k, y) ∈ r.entries := by
  simp only [add, List.mem_orderedInsert, List.mem_filter, decide_eq_true_eq, Prod.mk.injEq]
  tauto

theorem mem_of_mem_removeRange {start stop : ℤ} {e : μ × σ}
    (h : e ∈ (r.removeRangeByRank start stop).entries) : e ∈ r.entries :=
  (removeSlice_sublist _ start stop).subset h

/-- All but the highest are removed. -/
theorem removeRange_lowest {n : ℕ} :
    (r.removeRangeByRank 0 (-(n + 1 : ℕ))).entries =
      r.entries.drop (r.entries.length - n) := by
  have hbounds : bounds r.entries.length 0 (-(n + 1 : ℕ)) = (0, r.entries.length - n) := by
    rw [bounds, if_neg (by decide), if_pos (by omega)]
    congr 1
    omega
  rw [removeRangeByRank]
  simp only [removeSlice, hbounds, List.take_zero, List.nil_append, Nat.zero_max]

theorem length_removeRange_lowest {n : ℕ} :
    (r.removeRangeByRank 0 (-(n + 1 : ℕ))).entries.length ≤ n := by
  rw [removeRange_lowest, List.length_drop]
  omega

theorem revRange_highest {n : ℕ} : r.revRange 0 n = r.entries.reverse.take (n + 1) := by
  have hbounds : bounds r.entries.reverse.length 0 n = (0, n + 1) := by
    rw [bounds, if_neg (by decide), if_neg (by omega)]
    rfl
  rw [revRange, slice, hbounds, List.drop_zero]

end Ranking

end RankedSet
