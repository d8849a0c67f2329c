import Mathlib.Data.Int.Notation
import Mathlib.Logic.Function.Basic
import Mathlib.Tactic.SplitIfs

/-! # Keys with a deadline

A key-value store whose keys may have a deadline. A command that meets a key after its deadline
removes it first, and a command that changes a value leaves the deadline as it is. -/
namespace ExpiringKeys

variable {κ ν : Type*}

structure Stamped (ν : Type*) where
  value : ν
  deadline : Option ℤ
  deriving DecidableEq

abbrev Keyspace (κ ν : Type*) := κ → Option (Stamped ν)

def Stamped.liveAt (e : Stamped ν) (t : ℤ) : Bool := e.deadline.all (t < ·)

variable {s : Keyspace κ ν} {t ttl : ℤ} {k j : κ} {e : Stamped ν} {v : ν} {f : Option ν → Option ν}
  {P : κ → ν → Prop}

def live (s : Keyspace κ ν) (t : ℤ) (k : κ) : Option (Stamped ν) := (s k).filter (·.liveAt t)

def read (s : Keyspace κ ν) (t : ℤ) (k : κ) : Option ν := (live s t k).map Stamped.value

theorem mem_of_live (h : live s t k = some e) : s k = some e :=
  (Option.filter_eq_some_iff.mp h).1

theorem mem_of_read (h : read s t k = some v) : ∃ e, s k = some e ∧ e.value = v := by
  obtain ⟨e, he, hv⟩ := Option.map_eq_some_iff.mp h
  exact ⟨e, mem_of_live he, hv⟩

/-- The values of a store, those after their deadline among them. -/
def AllValues (P : κ → ν → Prop) (s : Keyspace κ ν) : Prop :=
  ∀ k e, s k = some e → P k e.value

theorem AllValues.read (h : AllValues P s) (hv : read s t k = some v) : P k v := by
  obtain ⟨e, he, rfl⟩ := mem_of_read hv
  exact h k e he

/-- The values under the other keys. -/
def OtherValues (P : κ → ν → Prop) (k : κ) (s : Keyspace κ ν) : Prop :=
  ∀ j e, j ≠ k → s j = some e → P j e.value

theorem AllValues.others (h : AllValues P s) (k : κ) : OtherValues P k s := fun j e _ he => h j e he

variable [DecidableEq κ]

/-- A key met after its deadline is gone. -/
def sweep (s : Keyspace κ ν) (t : ℤ) (k : κ) : Keyspace κ ν := Function.update s k (live s t k)

/-- The value becomes another; a key without a value is removed. -/
def alter (s : Keyspace κ ν) (t : ℤ) (k : κ) (f : Option ν → Option ν) : Keyspace κ ν :=
  Function.update s k
    ((f (read s t k)).map fun v => ⟨v, (live s t k).bind Stamped.deadline⟩)

/-- A time to live that is not positive removes the key. -/
def expire (s : Keyspace κ ν) (t : ℤ) (k : κ) (ttl : ℤ) : Keyspace κ ν :=
  Function.update s k
    (if ttl ≤ 0 then none else (read s t k).map fun v => ⟨v, some (t + ttl)⟩)

theorem sweep_of_ne (h : j ≠ k) : sweep s t k j = s j := Function.update_of_ne h _ _

theorem OtherValues.update {o : Option (Stamped ν)} (h : OtherValues P k s) :
    OtherValues P k (Function.update s k o) := by
  intro j e hj he
  rw [Function.update_of_ne hj] at he
  exact h j e hj he

theorem OtherValues.allValues {o : Option (Stamped ν)} (h : OtherValues P k s)
    (ho : ∀ e, o = some e → P k e.value) : AllValues P (Function.update s k o) := by
  intro j e he
  by_cases hj : j = k
  · subst hj
    rw [Function.update_self] at he
    exact ho e he
  · rw [Function.update_of_ne hj] at he
    exact h j e hj he

/-- Whatever the key had, it has a value of the new kind or none. -/
theorem OtherValues.alter (h : OtherValues P k s)
    (hf : ∀ v, f (read s t k) = some v → P k v) : AllValues P (alter s t k f) := by
  apply h.allValues
  intro e he
  obtain ⟨v, hv, rfl⟩ := Option.map_eq_some_iff.mp he
  exact hf v hv

theorem AllValues.sweep (h : AllValues P s) : AllValues P (sweep s t k) :=
  (h.others k).allValues fun e he => h k e (mem_of_live he)

theorem AllValues.expire (h : AllValues P s) : AllValues P (expire s t k ttl) := by
  apply (h.others k).allValues
  intro e he
  split_ifs at he
  obtain ⟨v, hv, rfl⟩ := Option.map_eq_some_iff.mp he
  exact h.read hv

end ExpiringKeys
