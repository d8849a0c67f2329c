import Mathlib.Data.List.Nodup
import Mathlib.Data.List.Perm.Basic

/-! # Appending what is new

Elements are appended to a list unless it has one of their key. What was there stays in front, no
key is added twice, and the keys are those of both lists. -/
namespace KeyedUnion

variable {α κ : Type*} [DecidableEq κ]

def addNew (key : α → κ) (xs : List α) (y : α) : List α :=
  if key y ∈ xs.map key then xs else xs ++ [y]

def addAll (key : α → κ) (xs ys : List α) : List α := ys.foldl (addNew key) xs

variable {key : α → κ} {xs ys zs : List α} {k : κ} {a : α}

theorem addAll_append : addAll key xs (ys ++ zs) = addAll key (addAll key xs ys) zs :=
  List.foldl_append

theorem mem_keys_addNew : k ∈ (addNew key xs a).map key ↔ k ∈ xs.map key ∨ k = key a := by
  rw [addNew]
  split_ifs with h
  · exact ⟨Or.inl, fun hk => hk.elim id fun heq => heq ▸ h⟩
  · rw [List.map_append, List.mem_append, List.map_singleton, List.mem_singleton]

theorem mem_keys_addAll : k ∈ (addAll key xs ys).map key ↔ k ∈ xs.map key ∨ k ∈ ys.map key := by
  induction ys generalizing xs with
  | nil => simp [addAll]
  | cons y ys ih =>
    rw [addAll, List.foldl_cons, ← addAll, ih, mem_keys_addNew, List.map_cons, List.mem_cons,
      or_assoc]

/-- What was appended. -/
structure Added (key : α → κ) (xs ys added : List α) : Prop where
  mem : ∀ a ∈ added, a ∈ ys
  nodup : (added.map key).Nodup
  fresh : ∀ a ∈ added, key a ∉ xs.map key

theorem exists_added (key : α → κ) (xs ys : List α) :
    ∃ added, addAll key xs ys = xs ++ added ∧ Added key xs ys added := by
  induction ys generalizing xs with
  | nil => exact ⟨[], (List.append_nil xs).symm, nofun, List.nodup_nil, nofun⟩
  | cons y ys ih =>
    rw [addAll, List.foldl_cons, ← addAll, addNew]
    by_cases hy : key y ∈ xs.map key
    · obtain ⟨added, heq, h⟩ := ih xs
      rw [if_pos hy]
      exact ⟨added, heq, fun a ha => List.mem_cons_of_mem y (h.mem a ha), h.nodup, h.fresh⟩
    · obtain ⟨added, heq, h⟩ := ih (xs ++ [y])
      have hfresh : ∀ a ∈ added, key a ∉ xs.map key ∧ key a ≠ key y := by
        intro a ha
        have hnot := h.fresh a ha
        rw [List.map_append, List.mem_append, not_or, List.map_singleton,
          List.mem_singleton] at hnot
        exact hnot
      refine ⟨y :: added, ?_, ?_, ?_, ?_⟩
      · rw [if_neg hy, heq, List.append_assoc, List.singleton_append]
      · exact List.forall_mem_cons.mpr
          ⟨List.mem_cons_self, fun a ha => List.mem_cons_of_mem y (h.mem a ha)⟩
      · rw [List.map_cons, List.nodup_cons]
        refine ⟨fun hmem => ?_, h.nodup⟩
        obtain ⟨a, ha, hkey⟩ := List.mem_map.mp hmem
        exact (hfresh a ha).2 hkey
      · exact List.forall_mem_cons.mpr ⟨hy, fun a ha => (hfresh a ha).1⟩

end KeyedUnion
