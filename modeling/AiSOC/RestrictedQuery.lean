import Mathlib.Data.List.Basic

/-! # Queries that see a part of a table

Two tables that agree on the rows of a predicate give the same answer to every query whose
condition implies the predicate. -/
namespace RestrictedQuery

variable {α β : Type*} {p q : α → Bool} {xs ys zs : List α}

def SameRows (p : α → Bool) (xs ys : List α) : Prop := xs.filter p = ys.filter p

theorem SameRows.refl (p : α → Bool) (xs : List α) : SameRows p xs xs := rfl

theorem SameRows.symm (h : SameRows p xs ys) : SameRows p ys xs := Eq.symm h

theorem SameRows.filter (h : SameRows p xs ys) (hq : ∀ a, q a = true → p a = true) :
    xs.filter q = ys.filter q := by
  have hand : ∀ a, (q a && p a) = q a := by
    intro a
    cases hqa : q a with
    | false => rfl
    | true => rw [hq a hqa, Bool.and_self]
  calc
    xs.filter q = (xs.filter p).filter q := by simp only [List.filter_filter, hand]
    _ = (ys.filter p).filter q := by rw [h]
    _ = ys.filter q := by simp only [List.filter_filter, hand]

theorem SameRows.find? (h : SameRows p xs ys) (hq : ∀ a, q a = true → p a = true) :
    xs.find? q = ys.find? q := by
  rw [← List.head?_filter, ← List.head?_filter, h.filter hq]

/-- Rows outside of the part may be added. -/
theorem SameRows.append (hzs : ∀ a ∈ zs, p a = false) : SameRows p xs (xs ++ zs) := by
  have hnone : zs.filter p = [] := by
    rw [List.filter_eq_nil_iff]
    intro a ha
    rw [hzs a ha]
    exact Bool.false_ne_true
  rw [SameRows, List.filter_append, hnone, List.append_nil]

/-- Or all be taken away. -/
theorem SameRows.filter_self : SameRows p xs (xs.filter p) := by
  rw [SameRows, List.filter_filter]
  simp only [Bool.and_self]

/-- What is found for a list of keys gets longer with every key that is found besides. -/
theorem length_filterMap_lt {f g : β → Option α} {ks : List β}
    (h : ∀ k, (f k).isSome = true → (g k).isSome = true) {k : β} (hk : k ∈ ks) (hf : f k = none)
    (hg : (g k).isSome = true) : (ks.filterMap f).length < (ks.filterMap g).length := by
  have hle : ∀ ks : List β, (ks.filterMap f).length ≤ (ks.filterMap g).length := by
    intro ks
    induction ks with
    | nil => exact Nat.le_refl _
    | cons k ks ih =>
      cases hfk : f k with
      | none =>
        rw [List.filterMap_cons_none hfk]
        cases hgk : g k with
        | none => rwa [List.filterMap_cons_none hgk]
        | some b =>
          rw [List.filterMap_cons_some hgk, List.length_cons]
          omega
      | some a =>
        obtain ⟨b, hgk⟩ := Option.isSome_iff_exists.mp (h k (by rw [hfk]; rfl))
        rw [List.filterMap_cons_some hfk, List.filterMap_cons_some hgk, List.length_cons,
          List.length_cons]
        omega
  obtain ⟨before, after, rfl⟩ := List.append_of_mem hk
  obtain ⟨b, hb⟩ := Option.isSome_iff_exists.mp hg
  have hbefore := hle before
  have hafter := hle after
  rw [List.filterMap_append, List.filterMap_append, List.filterMap_cons_none hf,
    List.filterMap_cons_some hb, List.length_append, List.length_append, List.length_cons]
  omega

end RestrictedQuery
