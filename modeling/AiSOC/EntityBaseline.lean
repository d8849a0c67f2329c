import AiSOC.CallHistory
import AiSOC.SharedObjects
import AiSOC.Welford

/-! # Baselines of entities

The baseline of one entity over calls that each load the row into a new session and commit. An
assigned attribute is written at the flush if it differs then from the object that was loaded. -/
namespace EntityBaseline

open SharedObjects (lookup load Same dump Separate)

/-- The operations on numbers that the code uses. -/
structure Arithmetic (R : Type*) where
  zero : R
  add : R → R → R
  sub : R → R → R
  mul : R → R → R
  div : R → ℕ → R
  sqrt : R → R

/-- The deviation is missing before the first value. -/
structure FeatureStats (R : Type*) where
  mean : R
  M2 : R
  count : ℕ
  std : Option R
  deriving DecidableEq

variable {R : Type*}

def fresh (ar : Arithmetic R) : FeatureStats R := ⟨ar.zero, ar.zero, 0, none⟩

/-- What the update does to the entry of its feature. -/
def pushValue (ar : Arithmetic R) (value : R) (s : FeatureStats R) : FeatureStats R :=
  let n := s.count + 1
  let delta := ar.sub value s.mean
  let mean := ar.add s.mean (ar.div delta n)
  let delta2 := ar.sub value mean
  let M2 := ar.add s.M2 (ar.mul delta delta2)
  let variance := if 1 < n then ar.div M2 (n - 1) else ar.zero
  ⟨mean, M2, n, some (ar.sqrt variance)⟩

def welfordUpdate (ar : Arithmetic R) (heap : List (FeatureStats R)) (stats : OrderedDict String ℕ)
    (feature : String) (value : R) : List (FeatureStats R) × OrderedDict String ℕ :=
  match stats.get feature with
  | some s => (heap.modify s (pushValue ar value), stats)
  | none => ((heap ++ [fresh ar]).modify heap.length (pushValue ar value),
      stats.set feature heap.length)

/-- The values of a call, one after the other. -/
def pushAll (ar : Arithmetic R) (es : List (String × R))
    (c : List (FeatureStats R) × OrderedDict String ℕ) :
    List (FeatureStats R) × OrderedDict String ℕ :=
  es.foldl (fun c e => welfordUpdate ar c.1 c.2 e.1 e.2) c

abbrev Row (R : Type*) := OrderedDict String (FeatureStats R)

/-- A row that is not there is inserted without features. -/
def getOrCreate (row : Option (Row R)) : Row R := row.getD OrderedDict.empty

/-- The copy has the same addresses as the loaded object. -/
def update [DecidableEq R] (ar : Arithmetic R) (row : Option (Row R))
    (features : OrderedDict String R) : Row R :=
  let baseline := load (getOrCreate row)
  let changed := pushAll ar features.entries baseline
  if Same changed.1 changed.2 baseline.2 then getOrCreate row else dump changed.1 changed.2

def run [DecidableEq R] (ar : Arithmetic R) (calls : List (OrderedDict String R)) :
    Option (Row R) :=
  calls.foldl (fun row features => some (update ar row features)) none

/-- What a new session reads. -/
def stored (row : Option (Row R)) (feature : String) : Option (FeatureStats R) :=
  (getOrCreate row).get feature

/-- The values of a feature, in the order of the calls. -/
def observed (calls : List (OrderedDict String R)) (feature : String) : List R :=
  calls.filterMap fun features => features.get feature

/-- The statistics of the values; there are none without a value. -/
def welford (ar : Arithmetic R) (values : List R) : Option (FeatureStats R) :=
  values.foldl (fun s value => some (pushValue ar value (s.getD (fresh ar)))) none

/-- Every feature has the statistics of all its values. -/
def Accumulated [DecidableEq R] (ar : Arithmetic R) (calls : List (OrderedDict String R)) : Prop :=
  ∀ feature, stored (run ar calls) feature = welford ar (observed calls feature)

/-- The call has no features, or one that no earlier call had. -/
def BringsNew (before : List (OrderedDict String R)) (features : OrderedDict String R) : Prop :=
  features.keys = [] ∨ ∃ feature ∈ features.keys, ∀ earlier ∈ before, feature ∉ earlier.keys

def EachBringsNew (calls : List (OrderedDict String R)) : Prop :=
  ∀ before features after, calls = before ++ features :: after → BringsNew before features

variable {ar : Arithmetic R} {heap : List (FeatureStats R)} {stats : OrderedDict String ℕ}
  {row : Option (Row R)} {features : OrderedDict String R}
  {calls before : List (OrderedDict String R)}
  {feature k : String} {value : R} {values : List R}

/-! ## One call -/

/-- The entry after a value, if there is one. -/
def pushed (ar : Arithmetic R) (s : Option (FeatureStats R)) (value : Option R) :
    Option (FeatureStats R) :=
  match value with
  | some value => some (pushValue ar value (s.getD (fresh ar)))
  | none => s

theorem lookup_welfordUpdate (h : Separate heap stats) :
    lookup (welfordUpdate ar heap stats feature value).1
        (welfordUpdate ar heap stats feature value).2 k =
      if k = feature then pushed ar (lookup heap stats feature) (some value)
      else lookup heap stats k := by
  rw [welfordUpdate]
  cases hs : stats.get feature with
  | some s =>
    have hbound := h.bound feature s hs
    have hlookup : lookup heap stats feature = some heap[s] := by
      rw [lookup, hs, Option.bind_some, List.getElem?_eq_getElem hbound]
    simp only [SharedObjects.lookup_modify h hs, hlookup]
    rfl
  | none =>
    have hnew : (stats.set feature heap.length).get feature = some heap.length := by
      rw [OrderedDict.get_set, if_pos rfl]
    have hlookup : lookup heap stats feature = none := by rw [lookup, hs, Option.bind_none]
    simp only [SharedObjects.lookup_modify h.alloc hnew, SharedObjects.lookup_alloc h, hlookup]
    by_cases hk : k = feature
    · simp only [if_pos hk]
      rfl
    · simp only [if_neg hk]

theorem separate_welfordUpdate (h : Separate heap stats) :
    Separate (welfordUpdate ar heap stats feature value).1
      (welfordUpdate ar heap stats feature value).2 := by
  rw [welfordUpdate]
  cases stats.get feature with
  | some s => exact h.modify _ s
  | none => exact h.alloc.modify _ _

/-- Features keep their entry, and the new ones are those of the values. -/
theorem get_welfordUpdate :
    (welfordUpdate ar heap stats feature value).2.get k =
      (stats.get k).or (if k = feature then some heap.length else none) := by
  rw [welfordUpdate]
  cases hs : stats.get feature with
  | some s =>
    by_cases hk : k = feature
    · rw [hk, hs]
      rfl
    · rw [if_neg hk, Option.or_none]
  | none =>
    rw [OrderedDict.get_set]
    by_cases hk : k = feature
    · rw [if_pos hk, if_pos hk, hk, hs]
      rfl
    · rw [if_neg hk, if_neg hk, Option.or_none]

theorem get_pushAll {es : List (String × R)} {c : List (FeatureStats R) × OrderedDict String ℕ}
    {r : ℕ} (hr : c.2.get k = some r) : (pushAll ar es c).2.get k = some r := by
  induction es generalizing c with
  | nil => exact hr
  | cons e es ih =>
    apply ih
    rw [get_welfordUpdate, hr]
    rfl

theorem lookup_pushAll {es : List (String × R)} {c : List (FeatureStats R) × OrderedDict String ℕ}
    (h : Separate c.1 c.2) (hes : (es.map Prod.fst).Nodup) :
    lookup (pushAll ar es c).1 (pushAll ar es c).2 k =
      pushed ar (lookup c.1 c.2 k) ((es.find? fun e => e.1 = k).map Prod.snd) := by
  induction es generalizing c with
  | nil => rfl
  | cons e es ih =>
    obtain ⟨he, hes⟩ := List.nodup_cons.mp hes
    have hseparate : Separate (welfordUpdate ar c.1 c.2 e.1 e.2).1
        (welfordUpdate ar c.1 c.2 e.1 e.2).2 := separate_welfordUpdate h
    have hstep := ih hseparate hes
    rw [lookup_welfordUpdate h] at hstep
    rw [pushAll, List.foldl_cons]
    refine hstep.trans ?_
    by_cases hk : e.1 = k
    · have hnone : (es.find? fun e => e.1 = k) = none := by
        rw [List.find?_eq_none]
        intro x hx heq
        rw [decide_eq_true_eq] at heq
        exact he (hk ▸ heq ▸ List.mem_map_of_mem hx)
      rw [if_pos hk.symm, hnone, hk, List.find?_cons_of_pos (by simpa using hk)]
      rfl
    · rw [if_neg (Ne.symm hk), List.find?_cons_of_neg (by simpa using hk)]

/-- What is shared with the loaded object looks the same in it. -/
theorem same_pushAll (ar : Arithmetic R) {d : Row R} :
    Same (pushAll ar features.entries (load d)).1 (pushAll ar features.entries (load d)).2
      (load d).2 ↔ ∀ f ∈ features.keys, f ∈ d.keys := by
  have hload : ∀ k, (load d).2.get k = none ↔ k ∉ d.keys := by
    intro k
    rw [OrderedDict.get_eq_none, SharedObjects.keys_load]
  rw [SharedObjects.same_iff]
  constructor
  · intro h f hf
    by_contra hd
    have hsame := h f
    rw [lookup_pushAll (SharedObjects.separate_load d) features.nodup, lookup, lookup,
      (hload f).mpr hd] at hsame
    obtain ⟨v, hv⟩ := Option.isSome_iff_exists.mp (OrderedDict.get_isSome.mpr hf)
    rw [OrderedDict.get] at hv
    rw [hv] at hsame
    exact Option.some_ne_none _ hsame
  · intro h k
    cases hr : (load d).2.get k with
    | some r => rw [lookup, lookup, hr, get_pushAll hr]
    | none =>
      have hd := (hload k).mp hr
      have hf : features.get k = none := OrderedDict.get_eq_none.mpr fun hf => hd (h k hf)
      rw [OrderedDict.get] at hf
      rw [lookup_pushAll (SharedObjects.separate_load d) features.nodup, lookup, lookup, hr, hf]
      rfl

/-- A call is kept only if one of its features is new to the row. -/
theorem get_update [DecidableEq R] :
    (update ar row features).get k =
      if ∀ f ∈ features.keys, f ∈ (getOrCreate row).keys then (getOrCreate row).get k
      else pushed ar ((getOrCreate row).get k) (features.get k) := by
  by_cases h : ∀ f ∈ features.keys, f ∈ (getOrCreate row).keys
  · have hsame := (same_pushAll ar).mpr h
    rw [if_pos h, update]
    exact congrArg (OrderedDict.get · k) (if_pos hsame)
  · have hsame := mt (same_pushAll ar).mp h
    rw [if_neg h, update]
    refine (congrArg (OrderedDict.get · k) (if_neg hsame)).trans ?_
    rw [SharedObjects.lookup_dump, lookup_pushAll (SharedObjects.separate_load _) features.nodup,
      SharedObjects.lookup_load]
    rfl

/-! ## Every run -/

theorem run_append_singleton [DecidableEq R] :
    run ar (before ++ [features]) = some (update ar (run ar before) features) := by
  rw [run, List.foldl_append]
  rfl

theorem stored_append_singleton [DecidableEq R] :
    stored (run ar (before ++ [features])) k =
      if ∀ f ∈ features.keys, f ∈ (getOrCreate (run ar before)).keys then stored (run ar before) k
      else pushed ar (stored (run ar before) k) (features.get k) := by
  rw [run_append_singleton, stored, getOrCreate, Option.getD_some, get_update]
  rfl

theorem observed_append_singleton :
    observed (before ++ [features]) k = observed before k ++ (features.get k).toList := by
  rw [observed, List.filterMap_append]
  cases h : features.get k with
  | none => simp [observed, h]
  | some v => simp [observed, h]

theorem welford_append (ar : Arithmetic R) (values : List R) (value : Option R) :
    welford ar (values ++ value.toList) = pushed ar (welford ar values) value := by
  rw [welford, List.foldl_append]
  cases value with
  | none => rfl
  | some v => rfl

theorem welford_count (ar : Arithmetic R) (values : List R) :
    ((welford ar values).map FeatureStats.count).getD 0 = values.length := by
  induction values using List.reverseRecOn with
  | nil => rfl
  | append_singleton vs v ih =>
    have hstep := welford_append ar vs (some v)
    rw [Option.toList_some] at hstep
    rw [hstep, List.length_append, List.length_singleton, ← ih]
    cases welford ar vs with
    | none => rfl
    | some s => rfl

theorem observed_ne_nil : observed before k ≠ [] ↔ ∃ earlier ∈ before, k ∈ earlier.keys := by
  constructor
  · intro h
    obtain ⟨v, hv⟩ := List.exists_mem_of_ne_nil _ h
    obtain ⟨earlier, hmem, hv⟩ := List.mem_filterMap.mp hv
    exact ⟨earlier, hmem, OrderedDict.get_isSome.mp (Option.isSome_iff_exists.mpr ⟨v, hv⟩)⟩
  · rintro ⟨earlier, hmem, hk⟩
    obtain ⟨v, hv⟩ := Option.isSome_iff_exists.mp (OrderedDict.get_isSome.mpr hk)
    have hobserved : v ∈ observed before k := List.mem_filterMap.mpr ⟨earlier, hmem, hv⟩
    exact List.ne_nil_of_mem hobserved

theorem welford_isSome (ar : Arithmetic R) : (welford ar values).isSome ↔ values ≠ [] := by
  have hcount := welford_count ar values
  cases h : welford ar values with
  | none =>
    rw [h] at hcount
    simp [List.length_eq_zero_iff.mp hcount.symm]
  | some s =>
    refine iff_of_true rfl ?_
    rintro rfl
    exact Option.some_ne_none s h.symm

theorem pushed_count (s : Option (FeatureStats R)) (value : Option R) :
    ((pushed ar s value).map FeatureStats.count).getD 0 =
      (s.map FeatureStats.count).getD 0 + value.toList.length := by
  cases value with
  | none => rfl
  | some v =>
    cases s with
    | none => rfl
    | some s => rfl

theorem eachBringsNew_append_singleton :
    EachBringsNew (before ++ [features]) ↔ EachBringsNew before ∧ BringsNew before features :=
  CallHistory.eachCall_append_singleton

section

variable [DecidableEq R]

/-- While nothing was lost, the row has the features of the earlier calls. -/
theorem Accumulated.mem_keys (h : Accumulated ar before) :
    k ∈ (getOrCreate (run ar before)).keys ↔ ∃ earlier ∈ before, k ∈ earlier.keys := by
  rw [← OrderedDict.get_isSome, ← observed_ne_nil, ← welford_isSome ar, ← h k]
  rfl

theorem Accumulated.kept (h : Accumulated ar before) :
    (∀ f ∈ features.keys, f ∈ (getOrCreate (run ar before)).keys) ↔
      ∀ f ∈ features.keys, ∃ earlier ∈ before, f ∈ earlier.keys :=
  forall₂_congr fun _ _ => h.mem_keys

theorem Accumulated.append_singleton (h : Accumulated ar before)
    (hnew : BringsNew before features) :
    Accumulated ar (before ++ [features]) := by
  intro k
  rw [stored_append_singleton, observed_append_singleton, welford_append, h k]
  rcases hnew with hnone | ⟨f, hf, hnot⟩
  · have hk : features.get k = none := OrderedDict.get_eq_none.mpr (hnone ▸ List.not_mem_nil)
    rw [hk]
    exact ite_self _
  · rw [if_neg]
    intro hall
    obtain ⟨earlier, hmem, hkey⟩ := h.mem_keys.mp (hall f hf)
    exact hnot earlier hmem hkey

/-- How many values the row has of a feature. -/
def storedCount (ar : Arithmetic R) (calls : List (OrderedDict String R)) (k : String) : ℕ :=
  ((stored (run ar calls) k).map FeatureStats.count).getD 0

theorem storedCount_append_singleton :
    storedCount ar (before ++ [features]) k =
      if ∀ f ∈ features.keys, f ∈ (getOrCreate (run ar before)).keys then storedCount ar before k
      else storedCount ar before k + (features.get k).toList.length := by
  rw [storedCount, stored_append_singleton]
  split_ifs with h
  · rfl
  · rw [pushed_count]
    rfl

theorem storedCount_le (ar : Arithmetic R) (calls : List (OrderedDict String R)) (k : String) :
    storedCount ar calls k ≤ (observed calls k).length := by
  induction calls using List.reverseRecOn with
  | nil => exact Nat.le_refl 0
  | append_singleton before features ih =>
    rw [storedCount_append_singleton, observed_append_singleton, List.length_append]
    split_ifs
    · exact Nat.le_add_right_of_le ih
    · exact Nat.add_le_add_right ih _

/-- Every feature has as many values as were observed. -/
def Counted (ar : Arithmetic R) (calls : List (OrderedDict String R)) : Prop :=
  ∀ k, storedCount ar calls k = (observed calls k).length

theorem Accumulated.counted (h : Accumulated ar calls) : Counted ar calls := by
  intro k
  rw [storedCount, h k, welford_count]

/-- A value that was lost stays lost. -/
theorem Counted.of_append_singleton (h : Counted ar (before ++ [features])) :
    Counted ar before := by
  intro k
  have hk := h k
  have hle := storedCount_le ar before k
  rw [storedCount_append_singleton, observed_append_singleton, List.length_append] at hk
  split_ifs at hk
  · omega
  · omega

theorem Counted.bringsNew (h : Counted ar (before ++ [features]))
    (hbefore : Accumulated ar before) :
    BringsNew before features := by
  by_contra hnew
  obtain ⟨hsome, hold⟩ := not_or.mp hnew
  push Not at hold
  obtain ⟨f, hf⟩ := List.exists_mem_of_ne_nil _ hsome
  obtain ⟨v, hv⟩ := Option.isSome_iff_exists.mp (OrderedDict.get_isSome.mpr hf)
  have hcount := h f
  have hearlier := hbefore.counted f
  rw [storedCount_append_singleton, if_pos (hbefore.kept.mpr hold), observed_append_singleton, hv,
    List.length_append, Option.toList_some, List.length_singleton] at hcount
  omega

/-- Nothing is lost exactly when each call brings a feature that no earlier call had. -/
theorem accumulated_iff (ar : Arithmetic R) (calls : List (OrderedDict String R)) :
    Accumulated ar calls ↔ EachBringsNew calls := by
  constructor
  · intro h
    have hboth : ∀ cs, Counted ar cs → Accumulated ar cs ∧ EachBringsNew cs := by
      intro cs
      induction cs using List.reverseRecOn with
      | nil => exact fun _ => ⟨fun _ => rfl, fun bs c as heq => by simp at heq⟩
      | append_singleton before features ih =>
        intro hcounted
        obtain ⟨hbefore, hnews⟩ := ih hcounted.of_append_singleton
        have hnew := hcounted.bringsNew hbefore
        exact ⟨hbefore.append_singleton hnew, eachBringsNew_append_singleton.mpr ⟨hnews, hnew⟩⟩
    exact (hboth calls h.counted).2
  · induction calls using List.reverseRecOn with
    | nil => exact fun _ _ => rfl
    | append_singleton before features ih =>
      intro h
      obtain ⟨hbefore, hnew⟩ := eachBringsNew_append_singleton.mp h
      exact (ih hbefore).append_singleton hnew

end

def intArithmetic : Arithmetic ℤ where
  zero := 0
  add x y := x + y
  sub x y := x - y
  mul x y := x * y
  div x n := x / n
  sqrt x := x.sqrt

def oneLogin : OrderedDict String ℤ := OrderedDict.ofList [("logins", 1)]

/-- The second value of the feature is not counted. -/
theorem second_value_lost : ¬Accumulated intArithmetic [oneLogin, oneLogin] := by
  intro h
  have hstored : stored (run intArithmetic [oneLogin, oneLogin]) "logins" =
      some ⟨1, 0, 1, some 0⟩ := by
    decide
  have hall : welford intArithmetic (observed [oneLogin, oneLogin] "logins") =
      some ⟨1, 0, 2, some 0⟩ := by
    decide
  have heq := hstored.symm.trans ((h "logins").trans hall)
  exact absurd heq (by decide)

/-! ## Exact numbers -/

section

variable {K : Type*} [Field K]

def fieldArithmetic (sqrt : K → K) : Arithmetic K where
  zero := 0
  add x y := x + y
  sub x y := x - y
  mul x y := x * y
  div x n := x / n
  sqrt := sqrt

def FeatureStats.moments (s : FeatureStats K) : Welford.Moments K := ⟨s.count, s.mean, s.M2⟩

theorem welford_moments (sqrt : K → K) (xs : List K) :
    (((welford (fieldArithmetic sqrt) xs).map FeatureStats.moments).getD Welford.zero) =
      Welford.moments xs := by
  induction xs using List.reverseRecOn with
  | nil => rfl
  | append_singleton xs x ih =>
    have hstep := welford_append (fieldArithmetic sqrt) xs (some x)
    rw [Option.toList_some] at hstep
    rw [hstep, Welford.moments_append_singleton, ← ih]
    cases welford (fieldArithmetic sqrt) xs with
    | none => rfl
    | some s => rfl

/-- While nothing is lost, a feature of the row has the mean of its values and the sum of their
squared deviations from it. -/
theorem stored_mean [DecidableEq K] [CharZero K] {sqrt : K → K}
    {calls : List (OrderedDict String K)}
    (h : EachBringsNew calls) {s : FeatureStats K}
    (hs : stored (run (fieldArithmetic sqrt) calls) k = some s) :
    s.mean * (observed calls k).length = (observed calls k).sum ∧
      s.M2 = ((observed calls k).map fun x => (x - s.mean) ^ 2).sum := by
  have hmoments := welford_moments sqrt (observed calls k)
  rw [← (accumulated_iff (fieldArithmetic sqrt) calls).mpr h k, hs, Option.map_some,
    Option.getD_some] at hmoments
  have hmean := Welford.mean_mul_length (observed calls k)
  have hM2 := Welford.M2_eq_sum_sq (observed calls k)
  rw [← hmoments] at hmean hM2
  exact ⟨hmean, hM2⟩

end

end EntityBaseline
