import Mathlib.Data.List.Basic
import Mathlib.Tactic.ByContra

/-! # Bloom filters

A filter answers for a key when every position of the key is marked. It then answers for the
keys that were added and for those whose positions all belong to added keys. -/
namespace BloomFilter

abbrev Bits := ℕ → Bool

def noBits : Bits := fun _ => false

def setAll (bits : Bits) (ps : List ℕ) : Bits := fun p => bits p || decide (p ∈ ps)

def getAll (bits : Bits) (ps : List ℕ) : Bool := ps.all bits

variable {κ : Type*} {positions : κ → List ℕ} {keys others : List κ} {k e : κ} {bits : Bits}

/-- Every position of the key is one of those of the keys. -/
def Covers (positions : κ → List ℕ) (keys : List κ) (k : κ) : Prop :=
  ∀ p ∈ positions k, ∃ e ∈ keys, p ∈ positions e

/-- The marked positions are those of the keys. -/
def Marks (positions : κ → List ℕ) (keys : List κ) (bits : Bits) : Prop :=
  ∀ p, bits p = true ↔ ∃ e ∈ keys, p ∈ positions e

theorem Covers.mono (h : Covers positions keys k) (hsub : keys ⊆ others) :
    Covers positions others k := by
  intro p hp
  obtain ⟨e, he, hpe⟩ := h p hp
  exact ⟨e, hsub he, hpe⟩

theorem marks_noBits (positions : κ → List ℕ) : Marks positions [] noBits := by
  intro p
  simp [noBits]

theorem Marks.getAll_iff (h : Marks positions keys bits) :
    getAll bits (positions k) = true ↔ Covers positions keys k := by
  rw [getAll, List.all_eq_true]
  exact forall₂_congr fun p _ => h p

theorem Marks.setAll (h : Marks positions keys bits) (k : κ) :
    Marks positions (keys ++ [k]) (setAll bits (positions k)) := by
  intro p
  rw [BloomFilter.setAll, Bool.or_eq_true, decide_eq_true_eq, h p]
  simp only [List.mem_append, List.mem_singleton, or_and_right, exists_or, exists_eq_left]

/-- A covered key marks nothing more. -/
theorem Marks.append_covered (h : Marks positions keys bits) (hk : Covers positions keys k) :
    Marks positions (keys ++ [k]) bits := by
  intro p
  simp only [List.mem_append, List.mem_singleton, or_and_right, exists_or, exists_eq_left]
  rw [h p]
  exact (or_iff_left_of_imp (hk p)).symm

end BloomFilter
