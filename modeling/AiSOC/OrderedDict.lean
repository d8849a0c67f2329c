import Mathlib.Data.List.Nodup

/-! # Dictionaries in insertion order

Rows of different keys are found by their key, whatever order they are in. In a dictionary a key
keeps the place at which it was first set. Two dictionaries that give the same value for every
key are equal as the language compares them, whatever their order. -/
namespace OrderedDict

variable {κ ν μ : Type*} [DecidableEq κ]

section

variable {α : Type*} {key : α → κ} {xs ys : List α} {a : α} {k : κ}

theorem filter_key (h : (xs.map key).Nodup) :
    (xs.filter fun a => key a = k) = (xs.find? fun a => key a = k).toList := by
  induction xs with
  | nil => rfl
  | cons x xs ih =>
    obtain ⟨hx, hxs⟩ := List.nodup_cons.mp h
    by_cases hk : key x = k
    · have hnone : (xs.filter fun a => key a = k) = [] := by
        rw [List.filter_eq_nil_iff]
        intro a ha
        rw [decide_eq_true_iff]
        intro heq
        exact hx (hk ▸ heq ▸ List.mem_map_of_mem ha)
      rw [List.filter_cons_of_pos (by simpa using hk), List.find?_cons_of_pos (by simpa using hk),
        hnone]
      rfl
    · rw [List.filter_cons_of_neg (by simpa using hk), List.find?_cons_of_neg (by simpa using hk),
        ih hxs]

theorem find?_key (h : (xs.map key).Nodup) :
    (xs.find? fun a => key a = k) = some a ↔ a ∈ xs ∧ key a = k := by
  constructor
  · intro hfind
    have hk := List.find?_some hfind
    rw [decide_eq_true_iff] at hk
    exact ⟨List.mem_of_find?_eq_some hfind, hk⟩
  · rintro ⟨ha, hk⟩
    have hmem : a ∈ xs.filter fun a => key a = k :=
      List.mem_filter.mpr ⟨ha, decide_eq_true hk⟩
    rw [filter_key h, Option.mem_toList] at hmem
    exact hmem

/-- Rows with different keys are found alike in every order. -/
theorem find?_key_perm (h : (xs.map key).Nodup) (hperm : xs.Perm ys) :
    (xs.find? fun a => key a = k) = ys.find? fun a => key a = k := by
  apply Option.ext
  intro a
  rw [find?_key h, find?_key ((hperm.map key).nodup_iff.mp h), hperm.mem_iff]

end

/-- The entries after a key was set. -/
@[grind =]
def setEntry (k : κ) (v : ν) : List (κ × ν) → List (κ × ν)
  | [] => [(k, v)]
  | e :: es => if e.1 = k then (k, v) :: es else e :: setEntry k v es

theorem mem_keys_setEntry {k k' : κ} {v : ν} {es : List (κ × ν)} :
    k' ∈ (setEntry k v es).map Prod.fst ↔ k' = k ∨ k' ∈ es.map Prod.fst := by
  induction es with
  | nil => simp [setEntry]
  | cons e es ih =>
    by_cases he : e.1 = k
    · simp [setEntry, he]
    · simp only [setEntry, if_neg he, List.map_cons, List.mem_cons, ih]
      tauto

theorem nodup_setEntry {k : κ} {v : ν} {es : List (κ × ν)} (h : (es.map Prod.fst).Nodup) :
    ((setEntry k v es).map Prod.fst).Nodup := by
  induction es with
  | nil => exact List.nodup_singleton k
  | cons e es ih =>
    obtain ⟨hnotMem, hes⟩ := List.nodup_cons.mp h
    by_cases he : e.1 = k
    · simp only [setEntry, if_pos he, List.map_cons]
      exact List.nodup_cons.mpr ⟨he ▸ hnotMem, hes⟩
    · simp only [setEntry, if_neg he, List.map_cons]
      refine List.nodup_cons.mpr ⟨?_, ih hes⟩
      rw [mem_keys_setEntry]
      exact not_or.mpr ⟨he, hnotMem⟩

end OrderedDict

/-- Keys with their values; no key twice. -/
structure OrderedDict (κ ν : Type*) where
  entries : List (κ × ν)
  nodup : (entries.map Prod.fst).Nodup

namespace OrderedDict

variable {κ ν μ : Type*} [DecidableEq κ]

def empty : OrderedDict κ ν := ⟨[], List.nodup_nil⟩

@[grind =]
def keys (d : OrderedDict κ ν) : List κ := d.entries.map Prod.fst

def values (d : OrderedDict κ ν) : List ν := d.entries.map Prod.snd

@[grind =]
def get (d : OrderedDict κ ν) (k : κ) : Option ν :=
  (d.entries.find? fun e => e.1 = k).map Prod.snd

@[grind =]
def set (d : OrderedDict κ ν) (k : κ) (v : ν) : OrderedDict κ ν :=
  ⟨setEntry k v d.entries, nodup_setEntry d.nodup⟩

def erase (d : OrderedDict κ ν) (k : κ) : OrderedDict κ ν :=
  ⟨d.entries.filter fun e => e.1 ≠ k, (List.filter_sublist.map Prod.fst).nodup d.nodup⟩

/-- Sets the entries one after the other. -/
@[grind =]
def setAll (d : OrderedDict κ ν) (es : List (κ × ν)) : OrderedDict κ ν :=
  es.foldl (fun d e => d.set e.1 e.2) d

def update (d e : OrderedDict κ ν) : OrderedDict κ ν := d.setAll e.entries

def ofList (es : List (κ × ν)) : OrderedDict κ ν := empty.setAll es

variable {d e : OrderedDict κ ν} {k k' : κ} {v : ν}

theorem get_eq_some : d.get k = some v ↔ (k, v) ∈ d.entries := by
  rw [get, Option.map_eq_some_iff]
  constructor
  · rintro ⟨e, he, rfl⟩
    obtain ⟨hmem, rfl⟩ := (find?_key d.nodup).mp he
    exact hmem
  · intro hmem
    exact ⟨(k, v), (find?_key d.nodup).mpr ⟨hmem, rfl⟩, rfl⟩

theorem get_isSome : (d.get k).isSome ↔ k ∈ d.keys := by
  simp only [Option.isSome_iff_exists, get_eq_some, keys, List.mem_map, Prod.exists,
    exists_and_right, exists_eq_right]

theorem get_eq_none : d.get k = none ↔ k ∉ d.keys := by
  rw [← get_isSome, Bool.not_eq_true, Option.isSome_eq_false_iff, Option.isNone_iff_eq_none]

@[simp] theorem get_empty : (empty : OrderedDict κ ν).get k = none := rfl

@[simp] theorem get_set : (d.set k v).get k' = if k' = k then some v else d.get k' := by
  obtain ⟨es, hes⟩ := d
  simp only [get, set]
  clear hes
  induction es with
  | nil =>
    by_cases hk : k' = k
    · simp [setEntry, hk]
    · simp [setEntry, hk, Ne.symm hk]
  | cons x xs ih =>
    by_cases hx : x.1 = k
    · subst hx
      by_cases hk : k' = x.1
      · simp [setEntry, hk]
      · simp [setEntry, hk, Ne.symm hk]
    · simp only [setEntry, if_neg hx]
      by_cases hk : x.1 = k'
      · subst hk
        simp [hx]
      · rw [List.find?_cons_of_neg (by simpa using hk), ih,
          List.find?_cons_of_neg (by simpa using hk)]

@[simp] theorem get_erase : (d.erase k).get k' = if k' = k then none else d.get k' := by
  ext v
  rw [get_eq_some, erase, List.mem_filter, ← get_eq_some]
  by_cases hk : k' = k
  · simp [hk]
  · simp [hk]

theorem entries_set_of_notMem (h : k ∉ d.keys) :
    (d.set k v).entries = d.entries ++ [(k, v)] := by
  obtain ⟨es, hes⟩ := d
  simp only [set, keys] at h ⊢
  clear hes
  induction es with
  | nil => rfl
  | cons e es ih =>
    obtain ⟨he, hes⟩ := not_or.mp (List.mem_cons.not.mp h)
    rw [setEntry, if_neg (Ne.symm he), ih hes, List.cons_append]

theorem mem_keys_set : k' ∈ (d.set k v).keys ↔ k' = k ∨ k' ∈ d.keys := mem_keys_setEntry

/-- Whatever holds of the values that were there and of the one that is set holds of all. -/
theorem forall_set {P : κ → ν → Prop} (hd : ∀ e ∈ d.entries, P e.1 e.2) (hv : P k v) :
    ∀ e ∈ (d.set k v).entries, P e.1 e.2 := by
  rintro ⟨k', v'⟩ hmem
  rw [← get_eq_some, get_set] at hmem
  split_ifs at hmem with hk
  · cases hmem
    exact hk ▸ hv
  · exact hd (k', v') (get_eq_some.mp hmem)

theorem forall_setAll {P : κ → ν → Prop} {es : List (κ × ν)} (hd : ∀ e ∈ d.entries, P e.1 e.2)
    (hes : ∀ e ∈ es, P e.1 e.2) : ∀ e ∈ (d.setAll es).entries, P e.1 e.2 := by
  induction es generalizing d with
  | nil => exact hd
  | cons x xs ih =>
    obtain ⟨hx, hxs⟩ := List.forall_mem_cons.mp hes
    exact ih (forall_set hd hx) hxs

theorem mem_keys_setAll {es : List (κ × ν)} (h : k ∈ (d.setAll es).keys) :
    k ∈ d.keys ∨ k ∈ es.map Prod.fst := by
  induction es generalizing d with
  | nil => exact Or.inl h
  | cons x xs ih =>
    rcases ih h with hset | hxs
    · rcases mem_keys_set.mp hset with rfl | hd
      · exact Or.inr List.mem_cons_self
      · exact Or.inl hd
    · exact Or.inr (List.mem_cons_of_mem x.1 hxs)

theorem get_setAll_of_notMem {es : List (κ × ν)} (h : k ∉ es.map Prod.fst) :
    (d.setAll es).get k = d.get k := by
  induction es generalizing d with
  | nil => rfl
  | cons x xs ih =>
    rw [List.map_cons, List.mem_cons, not_or] at h
    rw [setAll, List.foldl_cons, ← setAll, ih h.2, get_set, if_neg h.1]

/-- The last value that the entries give a key. -/
def lastValue (k : κ) : List (κ × ν) → Option ν
  | [] => none
  | e :: es => (lastValue k es).or (if e.1 = k then some e.2 else none)

theorem get_setAll {es : List (κ × ν)} :
    (d.setAll es).get k = (lastValue k es).or (d.get k) := by
  induction es generalizing d with
  | nil => rfl
  | cons x xs ih =>
    rw [setAll, List.foldl_cons, ← setAll, ih, get_set, lastValue, Option.or_assoc]
    by_cases hk : x.1 = k
    · rw [if_pos hk, if_pos hk.symm, Option.some_or]
    · rw [if_neg hk, if_neg (Ne.symm hk), Option.none_or]

/-- Entries of new and different keys are appended. -/
theorem entries_setAll_of_nodup {es : List (κ × ν)} (h : (d.keys ++ es.map Prod.fst).Nodup) :
    (d.setAll es).entries = d.entries ++ es := by
  induction es generalizing d with
  | nil => exact (List.append_nil d.entries).symm
  | cons x xs ih =>
    have hx : x.1 ∉ d.keys := fun hmem =>
      (List.nodup_append.mp h).2.2 x.1 hmem x.1 List.mem_cons_self rfl
    have hentries : (d.set x.1 x.2).entries = d.entries ++ [x] := entries_set_of_notMem hx
    have hkeys : (d.set x.1 x.2).keys = d.keys ++ [x.1] := by
      rw [keys, hentries, List.map_append]
      rfl
    rw [setAll, List.foldl_cons, ← setAll, ih, hentries, List.append_assoc]
    · rfl
    · rw [hkeys, List.append_assoc]
      exact h

/-- Entries of different keys. -/
theorem get_setAll_of_nodup {es : List (κ × ν)} (hes : (es.map Prod.fst).Nodup) :
    (d.setAll es).get k = ((es.find? fun e => e.1 = k).map Prod.snd).or (d.get k) := by
  induction es generalizing d with
  | nil => rfl
  | cons x xs ih =>
    obtain ⟨hx, hxs⟩ := List.nodup_cons.mp hes
    rw [setAll, List.foldl_cons, ← setAll, ih hxs, get_set]
    by_cases hk : x.1 = k
    · have hnone : (xs.find? fun e => e.1 = k) = none := by
        rw [List.find?_eq_none]
        intro e he
        rw [decide_eq_true_iff]
        intro heq
        exact hx (hk ▸ heq ▸ List.mem_map_of_mem he)
      simp [hnone, hk]
    · rw [List.find?_cons_of_neg (by simpa using hk), if_neg (Ne.symm hk)]

theorem get_update : (d.update e).get k = (e.get k).or (d.get k) := get_setAll_of_nodup e.nodup

theorem get_ofList_eq_some {es : List (κ × ν)} (hes : (es.map Prod.fst).Nodup) :
    (ofList es).get k = some v ↔ (k, v) ∈ es := by
  have hdict : (⟨es, hes⟩ : OrderedDict κ ν).get k = some v ↔ (k, v) ∈ es := get_eq_some
  rw [ofList, get_setAll_of_nodup hes, get_empty, Option.or_none]
  exact hdict

/-- Steps that each touch the slot of one key touch it in the order of their inputs. -/
theorem get_foldl {α : Type*} {key : α → κ} {slot : Option ν → α → Option ν}
    {step : OrderedDict κ ν → α → OrderedDict κ ν}
    (hstep : ∀ d a k, (step d a).get k = if k = key a then slot (d.get k) a else d.get k)
    (xs : List α) (d : OrderedDict κ ν) (k : κ) :
    (xs.foldl step d).get k = (xs.filter fun a => key a = k).foldl slot (d.get k) := by
  induction xs generalizing d with
  | nil => rfl
  | cons a xs ih =>
    rw [List.foldl_cons, ih, hstep]
    by_cases hk : key a = k
    · rw [List.filter_cons_of_pos (by simpa using hk), if_pos hk.symm, List.foldl_cons]
    · rw [List.filter_cons_of_neg (by simpa using hk), if_neg (Ne.symm hk)]

/-! ## Some of the keys -/

variable {p : κ → Bool}

/-- The entries under the keys that `p` picks. -/
@[grind =]
def filterKeys (p : κ → Bool) (d : OrderedDict κ ν) : OrderedDict κ ν :=
  ⟨d.entries.filter fun e => p e.1, (List.filter_sublist.map Prod.fst).nodup d.nodup⟩

omit [DecidableEq κ] in
theorem eq_of_entries (h : d.entries = e.entries) : d = e := by
  cases d
  cases e
  congr

omit [DecidableEq κ] in
theorem filterKeys_empty : (empty : OrderedDict κ ν).filterKeys p = empty := rfl

theorem get_filterKeys : (d.filterKeys p).get k = if p k then d.get k else none := by
  apply Option.ext
  intro v
  rw [get_eq_some, filterKeys, List.mem_filter]
  split_ifs with hp
  · rw [get_eq_some, and_iff_left hp]
  · exact iff_of_false (fun h => hp h.2) nofun

theorem mem_keys_filterKeys : k ∈ (d.filterKeys p).keys ↔ k ∈ d.keys ∧ p k = true := by
  rw [← get_isSome, ← get_isSome, get_filterKeys]
  split_ifs with hp
  · rw [and_iff_left hp]
  · exact iff_of_false nofun fun h => hp h.2

theorem filter_setEntry (es : List (κ × ν)) : (setEntry k v es).filter (fun e => p e.1) =
    if p k then setEntry k v (es.filter fun e => p e.1) else es.filter fun e => p e.1 := by
  induction es with
  | nil => rw [setEntry, List.filter_cons, List.filter_nil, setEntry]
  | cons e es ih =>
    by_cases he : e.1 = k
    · rw [setEntry, if_pos he, List.filter_cons, List.filter_cons, he]
      split_ifs
      · rw [setEntry, if_pos he]
      · rfl
    · rw [setEntry, if_neg he, List.filter_cons, List.filter_cons, ih]
      split_ifs
      · rw [setEntry, if_neg he]
      · rfl
      · rfl
      · rfl

theorem filterKeys_set : (d.set k v).filterKeys p =
    if p k then (d.filterKeys p).set k v else d.filterKeys p := by
  have hentries := @filter_setEntry _ _ _ k v p d.entries
  split_ifs with hp
  · rw [if_pos hp] at hentries
    exact eq_of_entries hentries
  · rw [if_neg hp] at hentries
    exact eq_of_entries hentries

theorem filterKeys_erase : (d.erase k).filterKeys p = (d.filterKeys p).erase k :=
  eq_of_entries (List.filter_comm _ _ _)

theorem filterKeys_erase_of_not (hp : ¬ p k = true) : (d.erase k).filterKeys p = d.filterKeys p := by
  refine eq_of_entries ?_
  change (d.entries.filter _).filter _ = d.entries.filter _
  rw [List.filter_filter]
  apply List.filter_congr
  intro e _
  by_cases hk : e.1 = k
  · rw [hk, Bool.eq_false_iff.mpr hp, Bool.false_and]
  · rw [decide_eq_true hk, Bool.and_true]

omit [DecidableEq κ] in
/-- Steps that each touch the slot of one key touch the picked entries as they touch all. -/
theorem filterKeys_foldl {α : Type*} {key : α → κ} {step : OrderedDict κ ν → α → OrderedDict κ ν}
    (hstep : ∀ d a, (step d a).filterKeys p =
      if p (key a) then step (d.filterKeys p) a else d.filterKeys p)
    (xs : List α) (d : OrderedDict κ ν) :
    (xs.foldl step d).filterKeys p =
      (xs.filter fun a => p (key a)).foldl step (d.filterKeys p) := by
  induction xs generalizing d with
  | nil => rfl
  | cons a xs ih =>
    rw [List.foldl_cons, ih, hstep, List.filter_cons]
    split_ifs
    · rfl
    · rfl

/-- Where a value tells its key, the picked values are those whose keys are picked. -/
theorem values_filterKeys {q : ν → Bool} (h : ∀ k v, d.get k = some v → q v = p k) :
    (d.filterKeys p).values = d.values.filter q := by
  rw [values, values, filterKeys, List.filter_map]
  congr 1
  apply List.filter_congr
  intro e he
  exact (h e.1 e.2 (get_eq_some.mpr he)).symm

end OrderedDict
