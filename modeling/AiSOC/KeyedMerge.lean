import Mathlib.Data.List.Nodup

/-! # Merging by key

Elements are sent to a list: those of a key that the list has take the place of its element, the
others are appended. If no new key is sent twice, the list has after any number of merges the last
element of every key that was in it or sent. -/
namespace KeyedMerge

variable {α κ : Type*} [DecidableEq κ]

/-- The last element of a key. -/
def last (key : α → κ) (xs : List α) (k : κ) : Option α := (xs.filter fun a => key a = k).getLast?

/-- Each element, or the last one sent of its key. -/
def replaced (key : α → κ) (xs sent : List α) : List α :=
  xs.map fun x => (last key sent (key x)).getD x

/-- What is sent with a key that is not there. -/
def unknown (key : α → κ) (xs sent : List α) : List α :=
  sent.filter fun a => key a ∉ xs.map key

/-- One element for each key of those known, and that the last. -/
structure Holds (key : α → κ) (known xs : List α) : Prop where
  nodup : (xs.map key).Nodup
  mem : ∀ a, a ∈ xs ↔ last key known (key a) = some a

variable {key : α → κ} {known xs ys sent : List α} {a b x z : α} {k : κ}

/-! ## The last element of a key -/

theorem last_append : last key (xs ++ ys) k = (last key ys k).or (last key xs k) := by
  rw [last, List.filter_append, List.getLast?_append, last, last]

theorem last_singleton : last key [z] k = if key z = k then some z else none := by
  rw [last, List.filter_singleton]
  by_cases h : key z = k <;> simp [h]

theorem of_last (h : last key xs k = some a) : a ∈ xs ∧ key a = k := by
  have hmem := List.mem_filter.mp (List.mem_of_getLast? h)
  exact ⟨hmem.1, of_decide_eq_true hmem.2⟩

theorem last_eq_none : last key xs k = none ↔ k ∉ xs.map key := by
  rw [last, List.getLast?_eq_none_iff, List.filter_eq_nil_iff]
  simp [eq_comm]

theorem exists_last (h : k ∈ xs.map key) : ∃ a, last key xs k = some a := by
  rw [← Option.isSome_iff_exists, Option.isSome_iff_ne_none]
  exact fun hnone => last_eq_none.mp hnone h

/-- Where no key is twice, each element is the last of its key. -/
theorem holds_self (h : (xs.map key).Nodup) : Holds key xs xs := by
  refine ⟨h, fun a => ⟨fun ha => ?_, fun hlast => (of_last hlast).1⟩⟩
  obtain ⟨b, hb⟩ := exists_last (List.mem_map_of_mem (f := key) ha)
  obtain ⟨hmem, hkey⟩ := of_last hb
  rw [hb, List.inj_on_of_nodup_map h hmem ha hkey]

/-! ## One merge -/

theorem key_replaced : key ((last key sent (key x)).getD x) = key x := by
  cases h : last key sent (key x) with
  | none => rfl
  | some a => exact (of_last h).2

theorem keys_replaced : (replaced key xs sent).map key = xs.map key := by
  rw [replaced, List.map_map]
  exact List.map_congr_left fun x _ => key_replaced

theorem replaced_nil : replaced key xs [] = xs := List.map_id' xs

theorem mem_unknown : a ∈ unknown key xs sent ↔ a ∈ sent ∧ key a ∉ xs.map key := by
  rw [unknown, List.mem_filter, decide_eq_true_iff]

theorem unknown_nil : unknown key xs [] = [] := rfl

theorem unknown_concat_of_mem (h : key z ∈ xs.map key) :
    unknown key xs (sent ++ [z]) = unknown key xs sent := by
  rw [unknown, List.filter_append, List.filter_cons_of_neg (by simpa using h),
    List.filter_nil, List.append_nil, unknown]

theorem unknown_concat_of_notMem (h : key z ∉ xs.map key) :
    unknown key xs (sent ++ [z]) = unknown key xs sent ++ [z] := by
  rw [unknown, List.filter_append, List.filter_cons_of_pos (by simpa using h), List.filter_nil,
    unknown]

/-- Only the keys that are there matter. -/
theorem unknown_congr (h : ∀ k, k ∈ xs.map key ↔ k ∈ ys.map key) :
    unknown key xs sent = unknown key ys sent :=
  List.filter_congr fun a _ => by rw [decide_eq_decide, h]

/-- The keys of a list with what was unknown are those of both. -/
theorem mem_keys_append_unknown : k ∈ xs.map key ∨ k ∈ (unknown key xs sent).map key ↔
    k ∈ xs.map key ∨ k ∈ sent.map key := by
  refine ⟨Or.imp_right fun h => ?_, ?_⟩
  · obtain ⟨a, ha, rfl⟩ := List.mem_map.mp h
    exact List.mem_map_of_mem (mem_unknown.mp ha).1
  · rintro (h | h)
    · exact .inl h
    · by_cases hold : k ∈ xs.map key
      · exact .inl hold
      · obtain ⟨a, ha, rfl⟩ := List.mem_map.mp h
        exact .inr (List.mem_map_of_mem (mem_unknown.mpr ⟨ha, hold⟩))

/-- Keys that are there are none of those appended. -/
theorem nodup_append_unknown : (xs.map key ++ (unknown key xs sent).map key).Nodup ↔
    (xs.map key).Nodup ∧ ((unknown key xs sent).map key).Nodup := by
  rw [List.nodup_append']
  refine ⟨fun h => ⟨h.1, h.2.1⟩, fun h => ⟨h.1, h.2, fun k hk hnew => ?_⟩⟩
  obtain ⟨a, ha, rfl⟩ := List.mem_map.mp hnew
  exact (mem_unknown.mp ha).2 hk

theorem Holds.mem_keys (h : Holds key known xs) : k ∈ xs.map key ↔ k ∈ known.map key := by
  constructor
  · intro hk
    obtain ⟨a, ha, rfl⟩ := List.mem_map.mp hk
    exact List.mem_map_of_mem (of_last ((h.mem a).mp ha)).1
  · intro hk
    obtain ⟨a, ha⟩ := exists_last hk
    obtain rfl := (of_last ha).2
    exact List.mem_map_of_mem ((h.mem a).mpr ha)

theorem mem_replaced : a ∈ replaced key xs sent ↔
    ∃ x ∈ xs, key x = key a ∧ (last key sent (key a)).getD x = a := by
  rw [replaced, List.mem_map]
  refine exists_congr fun x => and_congr_right fun _ => ⟨fun h => ?_, fun ⟨hkey, h⟩ => ?_⟩
  · have hkey : key x = key a := h ▸ key_replaced.symm
    exact ⟨hkey, by rwa [← hkey]⟩
  · rwa [hkey]

/-- A merge in which no unknown key is twice keeps the last element of every key. -/
theorem Holds.merge (h : Holds key known xs) (hunique : ((unknown key xs sent).map key).Nodup) :
    Holds key (known ++ sent) (replaced key xs sent ++ unknown key xs sent) := by
  refine ⟨?_, fun a => ?_⟩
  · rw [List.map_append, keys_replaced]
    exact nodup_append_unknown.mpr ⟨h.nodup, hunique⟩
  · rw [List.mem_append, mem_replaced, mem_unknown, last_append]
    cases hlast : last key sent (key a) with
    | none =>
      have hnot : a ∉ sent := fun ha => last_eq_none.mp hlast (List.mem_map_of_mem ha)
      simp only [hnot, false_and, or_false, Option.getD_none, Option.none_or, ← h.mem a]
      exact ⟨fun ⟨x, hx, _, heq⟩ => heq ▸ hx, fun ha => ⟨a, ha, rfl, rfl⟩⟩
    | some b =>
      obtain ⟨hb, hkey⟩ := of_last hlast
      simp only [Option.getD_some, Option.some_or, Option.some.injEq]
      constructor
      · rintro (⟨x, -, -, rfl⟩ | ⟨ha, hnew⟩)
        · rfl
        · exact List.inj_on_of_nodup_map hunique (mem_unknown.mpr ⟨hb, hkey ▸ hnew⟩)
            (mem_unknown.mpr ⟨ha, hnew⟩) hkey
      · rintro rfl
        by_cases hold : key b ∈ xs.map key
        · obtain ⟨x, hx, hxkey⟩ := List.mem_map.mp hold
          exact .inl ⟨x, hx, hxkey, rfl⟩
        · exact .inr ⟨hb, hold⟩

/-- What was sent last changes nothing when it is sent again. -/
theorem Holds.merge_again (h : Holds key (known ++ sent) xs) :
    replaced key xs sent ++ unknown key xs sent = xs := by
  have hkeys : ∀ a ∈ sent, key a ∈ xs.map key := by
    intro a ha
    rw [h.mem_keys, List.map_append]
    exact List.mem_append_right _ (List.mem_map_of_mem ha)
  have hnone : unknown key xs sent = [] :=
    List.filter_eq_nil_iff.mpr fun a ha => by simpa using hkeys a ha
  have hsame : ∀ x ∈ xs, (last key sent (key x)).getD x = x := by
    intro x hx
    have hlast := (h.mem x).mp hx
    rw [last_append] at hlast
    cases hsent : last key sent (key x) with
    | none => rfl
    | some a =>
      rw [hsent, Option.some_or] at hlast
      exact Option.some.inj hlast
  rw [hnone, List.append_nil, replaced, List.map_congr_left hsame, List.map_id']

end KeyedMerge
