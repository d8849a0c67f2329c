import Mathlib.Tactic.SplitIfs
import AiSOC.OrderedDict

/-! # Dictionaries of shared objects

The objects are at their addresses, and a dictionary holds addresses. A copy of a dictionary
shares its objects: what is changed in place is changed in both. -/
namespace SharedObjects

variable {κ α : Type*} [DecidableEq κ]

/-- What a dictionary shows under a key. -/
def lookup (heap : List α) (refs : OrderedDict κ ℕ) (k : κ) : Option α :=
  (refs.get k).bind fun r => heap[r]?

/-- Every value becomes an object of its own. -/
def load (d : OrderedDict κ α) : List α × OrderedDict κ ℕ :=
  (d.values, ⟨d.keys.zipIdx, by rw [List.zipIdx_map_fst]; exact d.nodup⟩)

/-- The addresses are those of objects, and different keys have different objects. -/
structure Separate (heap : List α) (refs : OrderedDict κ ℕ) : Prop where
  bound : ∀ k r, refs.get k = some r → r < heap.length
  inj : ∀ k k' r, refs.get k = some r → refs.get k' = some r → k = k'

/-- The values as they are when they are written out. -/
def dump (heap : List α) (refs : OrderedDict κ ℕ) : OrderedDict κ α :=
  OrderedDict.ofList (refs.entries.filterMap fun e => (heap[e.2]?).map fun a => (e.1, a))

/-- Dictionaries of the same values, as the language compares them. -/
def Same (heap : List α) (refs refs' : OrderedDict κ ℕ) : Prop :=
  ∀ k ∈ refs.keys ++ refs'.keys, lookup heap refs k = lookup heap refs' k

instance [DecidableEq α] (heap : List α) (refs refs' : OrderedDict κ ℕ) :
    Decidable (Same heap refs refs') :=
  inferInstanceAs (Decidable (∀ k ∈ _, _))

variable {heap : List α} {refs refs' : OrderedDict κ ℕ} {d : OrderedDict κ α} {k k' : κ} {r : ℕ}
  {a : α}

theorem get_load : (load d).2.get k = some r ↔ d.keys[r]? = some k := by
  rw [OrderedDict.get_eq_some, load, List.mem_zipIdx_iff_getElem?]

omit [DecidableEq κ] in
theorem keys_load (d : OrderedDict κ α) : (load d).2.keys = d.keys := by
  rw [load, OrderedDict.keys, List.zipIdx_map_fst]

theorem lookup_load : lookup (load d).1 (load d).2 k = d.get k := by
  apply Option.ext
  intro a
  rw [OrderedDict.get_eq_some, lookup, Option.bind_eq_some_iff]
  constructor
  · rintro ⟨r, hr, ha⟩
    rw [get_load, OrderedDict.keys, List.getElem?_map, Option.map_eq_some_iff] at hr
    obtain ⟨e, he, rfl⟩ := hr
    have hvalue : d.values[r]? = some e.2 := by rw [OrderedDict.values, List.getElem?_map, he]; rfl
    have heq : e.2 = a := Option.some.inj (hvalue.symm.trans ha)
    rw [← heq]
    exact List.mem_of_getElem? he
  · intro hmem
    obtain ⟨r, hr⟩ := List.mem_iff_getElem?.mp hmem
    refine ⟨r, ?_, ?_⟩
    · rw [get_load, OrderedDict.keys, List.getElem?_map, hr]
      rfl
    · rw [load, OrderedDict.values, List.getElem?_map, hr]
      rfl

theorem separate_load (d : OrderedDict κ α) : Separate (load d).1 (load d).2 := by
  constructor
  case bound =>
    intro k r hr
    rw [get_load] at hr
    obtain ⟨hlt, -⟩ := List.getElem?_eq_some_iff.mp hr
    rw [load, OrderedDict.values, List.length_map]
    rwa [OrderedDict.keys, List.length_map] at hlt
  case inj =>
    intro k k' r hr hr'
    rw [get_load] at hr hr'
    exact Option.some.inj (hr.symm.trans hr')

theorem lookup_of_notMem (h : k ∉ refs.keys) : lookup heap refs k = none := by
  rw [lookup, OrderedDict.get_eq_none.mpr h, Option.bind_none]

theorem same_iff : Same heap refs refs' ↔ ∀ k, lookup heap refs k = lookup heap refs' k := by
  constructor
  · intro h k
    by_cases hk : k ∈ refs.keys ++ refs'.keys
    · exact h k hk
    · rw [List.mem_append, not_or] at hk
      rw [lookup_of_notMem hk.1, lookup_of_notMem hk.2]
  · exact fun h k _ => h k

theorem lookup_dump : (dump heap refs).get k = lookup heap refs k := by
  have hnodup : ((refs.entries.filterMap fun e => (heap[e.2]?).map fun a => (e.1, a)).map
      Prod.fst).Nodup := by
    have hsub : ((refs.entries.filterMap fun e => (heap[e.2]?).map fun a => (e.1, a)).map
        Prod.fst).Sublist (refs.entries.map Prod.fst) := by
      induction refs.entries with
      | nil => exact List.Sublist.refl _
      | cons e es ih =>
        cases h : heap[e.2]? with
        | none => simpa [h] using ih.cons e.1
        | some a => simpa [h] using ih
    exact hsub.nodup refs.nodup
  apply Option.ext
  intro a
  rw [dump, OrderedDict.get_ofList_eq_some hnodup, lookup, Option.bind_eq_some_iff]
  simp only [List.mem_filterMap, Option.map_eq_some_iff, Prod.mk.injEq, Prod.exists,
    OrderedDict.get_eq_some]
  constructor
  · rintro ⟨k', r, hmem, a', ha, rfl, rfl⟩
    exact ⟨r, hmem, ha⟩
  · rintro ⟨r, hmem, ha⟩
    exact ⟨k, r, hmem, a, ha, rfl, rfl⟩

/-- A new object under a new key. -/
theorem lookup_alloc (h : Separate heap refs) :
    lookup (heap ++ [a]) (refs.set k heap.length) k' =
      if k' = k then some a else lookup heap refs k' := by
  rw [lookup, OrderedDict.get_set]
  split_ifs with hk
  · simp
  · cases hr : refs.get k' with
    | none => simp [lookup, hr]
    | some r => simp [lookup, hr, List.getElem?_append_left (h.bound k' r hr)]

theorem Separate.alloc (h : Separate heap refs) :
    Separate (heap ++ [a]) (refs.set k heap.length) := by
  constructor
  case bound =>
    intro k' r hr
    rw [OrderedDict.get_set] at hr
    rw [List.length_append, List.length_singleton]
    split_ifs at hr with hk
    · have := Option.some.inj hr
      omega
    · have := h.bound k' r hr
      omega
  case inj =>
    intro k₁ k₂ r h₁ h₂
    rw [OrderedDict.get_set] at h₁ h₂
    split_ifs at h₁ h₂ with hk₁ hk₂ hk₂
    · rw [hk₁, hk₂]
    · have := h.bound k₂ r h₂
      have := Option.some.inj h₁
      omega
    · have := h.bound k₁ r h₁
      have := Option.some.inj h₂
      omega
    · exact h.inj k₁ k₂ r h₁ h₂

/-- An object that is changed in place shows under its key only. -/
theorem lookup_modify (h : Separate heap refs) (hr : refs.get k = some r) (f : α → α) :
    lookup (heap.modify r f) refs k' =
      if k' = k then (lookup heap refs k).map f else lookup heap refs k' := by
  split_ifs with hk
  · rw [hk, lookup, lookup, hr]
    simp
  · cases hr' : refs.get k' with
    | none => simp [lookup, hr']
    | some r' =>
      have hne : r ≠ r' := by
        intro heq
        exact hk (h.inj k' k r (heq ▸ hr') hr)
      simp [lookup, hr', hne]

theorem Separate.modify (h : Separate heap refs) (f : α → α) (r : ℕ) :
    Separate (heap.modify r f) refs :=
  ⟨fun k r' hr => by rw [List.length_modify]; exact h.bound k r' hr, h.inj⟩

end SharedObjects
