import Mathlib.Logic.Function.Basic

/-! # Key-value store with expiry

The commands `GET` and `SET .. EX` of a store whose keys expire by themselves. An entry
stays in place after its time is over; the reads are what ignores it. -/
namespace ExpiringStore

variable {κ ν : Type*}

structure Entry (ν : Type*) where
  value : ν
  expires : Nat
  deriving DecidableEq, Repr

abbrev Store (κ ν : Type*) := κ → Option (Entry ν)

def get (s : Store κ ν) (now : Nat) (k : κ) : Option ν :=
  ((s k).filter fun e => now < e.expires).map Entry.value

theorem get_eq_some_iff {s : Store κ ν} {now : Nat} {k : κ} {v : ν} :
    get s now k = some v ↔ ∃ t, s k = some ⟨v, t⟩ ∧ now < t := by
  constructor
  · intro h
    obtain ⟨⟨v', t⟩, he, rfl⟩ := Option.map_eq_some_iff.mp h
    simp only [Option.filter_eq_some_iff, decide_eq_true_eq] at he
    exact ⟨t, he⟩
  · rintro ⟨t, hs, ht⟩
    simp [get, hs, ht, Option.filter]

/-- A key that is not there does not come back by waiting. -/
theorem get_eq_none_of_le {s : Store κ ν} {now t : Nat} {k : κ} (ht : now ≤ t)
    (h : get s now k = none) : get s t k = none := by
  rcases hv : get s t k with _ | v
  · rfl
  · obtain ⟨x, hx, hlt⟩ := get_eq_some_iff.mp hv
    rw [get_eq_some_iff.mpr ⟨x, hx, Nat.lt_of_le_of_lt ht hlt⟩] at h
    cases h

variable [DecidableEq κ]

def setEx (s : Store κ ν) (now ttl : Nat) (k : κ) (v : ν) : Store κ ν :=
  Function.update s k (some ⟨v, now + ttl⟩)

theorem get_setEx_self {s : Store κ ν} {now t ttl : Nat} {k : κ} {v : ν} (ht : t < now + ttl) :
    get (setEx s now ttl k v) t k = some v :=
  get_eq_some_iff.mpr ⟨now + ttl, by simp [setEx], ht⟩

theorem setEx_of_ne {s : Store κ ν} {now ttl : Nat} {j k : κ} {v : ν} (hj : j ≠ k) :
    setEx s now ttl k v j = s j := Function.update_of_ne hj _ _

/-- Setting an absent key with a positive time to live changes the store. -/
theorem setEx_ne_self {s : Store κ ν} {now ttl : Nat} {k : κ} {v : ν} (httl : 0 < ttl)
    (h : get s now k = none) : setEx s now ttl k v ≠ s := by
  intro heq
  have hset : get (setEx s now ttl k v) now k = some v :=
    get_setEx_self (Nat.lt_add_of_pos_right httl)
  rw [heq, h] at hset
  cases hset

end ExpiringStore
