import Mathlib.Data.List.Basic
import Mathlib.Logic.Function.Basic
import Mathlib.Tactic.SplitIfs
import Mathlib.Tactic.Tauto

/-! # Rows and the sets that index them

Every row has keys, and the set of a key holds the ids of the rows that have it. -/
namespace SecondaryIndex

variable {ι κ ρ : Type*} [DecidableEq ι] [DecidableEq κ]

def addAll (sets : κ → List ι) (id : ι) (ks : List κ) : κ → List ι :=
  ks.foldl (fun sets k => Function.update sets k ((sets k).insert id)) sets

def removeAll (sets : κ → List ι) (id : ι) (ks : List κ) : κ → List ι :=
  ks.foldl (fun sets k => Function.update sets k ((sets k).filter (· ≠ id))) sets

/-- The sets hold what is stored, and nothing else. -/
def Exact (keysOf : ρ → List κ) (rows : ι → Option ρ) (sets : κ → List ι) : Prop :=
  ∀ k id, id ∈ sets k ↔ ∃ r, rows id = some r ∧ k ∈ keysOf r

variable {keysOf : ρ → List κ} {rows : ι → Option ρ} {sets : κ → List ι} {id id' : ι}
  {ks dropped : List κ} {k : κ} {e r : ρ}

theorem mem_addAll : id' ∈ addAll sets id ks k ↔ id' ∈ sets k ∨ id' = id ∧ k ∈ ks := by
  induction ks generalizing sets with
  | nil => simp [addAll]
  | cons x ks ih =>
    rw [addAll, List.foldl_cons, ← addAll, ih, Function.update_apply, List.mem_cons]
    split_ifs with hx
    · rw [List.mem_insert_iff, hx]
      tauto
    · tauto

theorem mem_removeAll : id' ∈ removeAll sets id ks k ↔ id' ∈ sets k ∧ ¬(id' = id ∧ k ∈ ks) := by
  induction ks generalizing sets with
  | nil => simp [removeAll]
  | cons x ks ih =>
    rw [removeAll, List.foldl_cons, ← removeAll, ih, Function.update_apply, List.mem_cons]
    split_ifs with hx
    · rw [List.mem_filter, decide_eq_true_iff, hx]
      tauto
    · tauto

omit [DecidableEq ι] [DecidableEq κ] in
theorem exact_empty (keysOf : ρ → List κ) : Exact keysOf (fun _ : ι => none) fun _ => [] := by
  intro k id
  simp

/-- A row is put in the place of another: the keys it lost are dropped. -/
theorem Exact.put (h : Exact keysOf rows sets)
    (hold : ∀ e, rows id = some e → ∀ k ∈ keysOf e, k ∈ keysOf r ∨ k ∈ dropped)
    (hdropped : ∀ k ∈ dropped, k ∉ keysOf r) :
    Exact keysOf (Function.update rows id (some r))
      (removeAll (addAll sets id (keysOf r)) id dropped) := by
  intro k id'
  rw [mem_removeAll, mem_addAll, h k id']
  by_cases hid : id' = id
  · subst hid
    simp only [Function.update_self, Option.some.injEq, exists_eq_left', true_and]
    constructor
    · rintro ⟨⟨e, he, hk⟩ | hk, hnot⟩
      · exact (hold e he k hk).resolve_right hnot
      · exact hk
    · exact fun hk => ⟨Or.inr hk, fun hdrop => hdropped k hdrop hk⟩
  · simp only [Function.update_of_ne hid, hid, false_and, or_false, not_false_eq_true, and_true]

theorem Exact.erase (h : Exact keysOf rows sets) (hr : rows id = some r) :
    Exact keysOf (Function.update rows id none) (removeAll sets id (keysOf r)) := by
  intro k id'
  rw [mem_removeAll, h k id']
  by_cases hid : id' = id
  · subst hid
    simp only [hr, Function.update_self, Option.some.injEq, exists_eq_left', true_and,
      and_not_self_iff, reduceCtorEq, false_and, exists_false]
  · simp only [Function.update_of_ne hid, hid, false_and, not_false_eq_true, and_true]

omit [DecidableEq κ] in
/-- A row of the same keys may take the place of another. -/
theorem Exact.replace (h : Exact keysOf rows sets) (he : rows id = some e)
    (hkeys : ∀ k, k ∈ keysOf r ↔ k ∈ keysOf e) :
    Exact keysOf (Function.update rows id (some r)) sets := by
  intro k id'
  rw [h k id']
  by_cases hid : id' = id
  · subst hid
    simp only [he, Function.update_self, Option.some.injEq, exists_eq_left', hkeys]
  · simp only [Function.update_of_ne hid]

end SecondaryIndex
