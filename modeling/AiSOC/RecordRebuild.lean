import AiSOC.OrderedDict

/-! # Dictionaries rebuilt from their records

Records that carry their own key are read one after the other; `none` is a record that does not
read. A dictionary is rebuilt from its records exactly if all of them read, and as they were. -/
namespace RecordRebuild

variable {κ ν : Type*} [DecidableEq κ] {key : ν → κ}

/-- Records that do not read are skipped, and the first one of a key stays. -/
def addMissing (key : ν → κ) (d : OrderedDict κ ν) (reads : List (Option ν)) : OrderedDict κ ν :=
  reads.foldl (fun d read =>
    match read with
    | some v => if key v ∈ d.keys then d else d.set (key v) v
    | none => d) d

/-- The last record of a key stays, and the first one that does not read ends the reading. -/
def setWhileReadable (key : ν → κ) : OrderedDict κ ν → List (Option ν) → OrderedDict κ ν
  | d, some v :: reads => setWhileReadable key (d.set (key v) v) reads
  | d, _ => d

variable {d saved : OrderedDict κ ν} {reads : List (Option ν)} {P : κ → ν → Prop} {k : κ}

theorem forall_addMissing (hd : ∀ e ∈ d.entries, P e.1 e.2)
    (hreads : ∀ v, some v ∈ reads → P (key v) v) :
    ∀ e ∈ (addMissing key d reads).entries, P e.1 e.2 := by
  induction reads generalizing d with
  | nil => exact hd
  | cons read reads ih =>
    have hrest : ∀ v, some v ∈ reads → P (key v) v :=
      fun v hv => hreads v (List.mem_cons_of_mem read hv)
    cases read with
    | none => exact ih hd hrest
    | some v =>
      apply ih _ hrest
      dsimp only
      split
      · exact hd
      · exact OrderedDict.forall_set hd (hreads v List.mem_cons_self)

theorem forall_setWhileReadable (hd : ∀ e ∈ d.entries, P e.1 e.2)
    (hreads : ∀ v, some v ∈ reads → P (key v) v) :
    ∀ e ∈ (setWhileReadable key d reads).entries, P e.1 e.2 := by
  induction reads generalizing d with
  | nil => exact hd
  | cons read reads ih =>
    cases read with
    | none => exact hd
    | some v =>
      exact ih (OrderedDict.forall_set hd (hreads v List.mem_cons_self))
        fun v hv => hreads v (List.mem_cons_of_mem _ hv)

theorem mem_keys_addMissing : k ∈ (addMissing key d reads).keys ↔
    k ∈ d.keys ∨ ∃ v, some v ∈ reads ∧ key v = k := by
  induction reads generalizing d with
  | nil => simp [addMissing]
  | cons read reads ih =>
    rw [addMissing, List.foldl_cons, ← addMissing, ih]
    cases read with
    | none => simp
    | some v =>
      by_cases hv : key v ∈ d.keys
      · simp only [hv, if_true, List.mem_cons, Option.some.injEq, or_and_right, exists_or,
          exists_eq_left]
        constructor
        · rintro (h | h)
          · exact Or.inl h
          · exact Or.inr (Or.inr h)
        · rintro (h | rfl | h)
          · exact Or.inl h
          · exact Or.inl hv
          · exact Or.inr h
      · simp only [hv, if_false, OrderedDict.mem_keys_set, List.mem_cons, Option.some.injEq,
          or_and_right, exists_or, exists_eq_left]
        tauto

theorem mem_keys_setWhileReadable (h : k ∈ d.keys) : k ∈ (setWhileReadable key d reads).keys := by
  induction reads generalizing d with
  | nil => exact h
  | cons read reads ih =>
    cases read with
    | none => exact h
    | some v => exact ih (OrderedDict.mem_keys_set.mpr (Or.inr h))

theorem setWhileReadable_some (values : List ν) :
    setWhileReadable key d (values.map some) = d.setAll (values.map fun v => (key v, v)) := by
  induction values generalizing d with
  | nil => rfl
  | cons v values ih => exact ih

/-- The records of a dictionary rebuild it, over any dictionary of fewer keys. -/
theorem get_setWhileReadable_values (hkeyed : ∀ e ∈ saved.entries, key e.2 = e.1)
    (hd : ∀ k ∈ d.keys, k ∈ saved.keys) :
    (setWhileReadable key d (saved.values.map some)).get k = saved.get k := by
  have hentries : (saved.values.map fun v => (key v, v)) = saved.entries := by
    rw [OrderedDict.values, List.map_map]
    refine (List.map_congr_left fun e he => ?_).trans (List.map_id _)
    exact Prod.ext (hkeyed e he) rfl
  have hupdate : d.setAll saved.entries = d.update saved := rfl
  rw [setWhileReadable_some, hentries, hupdate, OrderedDict.get_update]
  by_cases hk : k ∈ saved.keys
  · obtain ⟨v, hv⟩ := Option.isSome_iff_exists.mp (OrderedDict.get_isSome.mpr hk)
    rw [hv, Option.some_or]
  · rw [OrderedDict.get_eq_none.mpr hk, Option.none_or]
    exact OrderedDict.get_eq_none.mpr fun hmem => hk (hd k hmem)

end RecordRebuild
