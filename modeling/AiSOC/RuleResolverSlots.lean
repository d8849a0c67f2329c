import AiSOC.RuleResolver

/-! # The slot of a rule

What the resolver holds for one rule: its base, the packs that cover it in the order of the rows,
the parameters that the last of them sets, and the override of the tenant. -/
namespace RuleResolver

variable {V : Type} (db : Database V) (tenantId : TenantId) (options : Options)

theorem get_mergeParams {params overrides : Params V} (key : String) :
    (mergeParams params overrides).get key = (overrides.get key).or (params.get key) := by
  unfold mergeParams
  split_ifs with hempty
  · have hnone : overrides.get key = none := by
      rw [OrderedDict.get, List.isEmpty_iff.mp hempty]
      rfl
    rw [hnone, Option.none_or]
  · exact OrderedDict.get_update

/-- The rule without what the packs add. -/
def bare (rr : ResolvedRule V) : ResolvedRule V :=
  { rr with packIds := [], parameterOverrides := .empty }

/-- What the last row that has the key sets it to. -/
def lastSet (paramsOf : PackId → Params V) (rows : List (PackId × DetectionRule)) (key : String) :
    Option V := rows.reverse.findSome? fun row => (paramsOf row.1).get key

/-- A base rule covered by the packs of some rows. -/
structure Covered (paramsOf : PackId → Params V) (base : ResolvedRule V)
    (rows : List (PackId × DetectionRule)) (rr : ResolvedRule V) : Prop where
  bare : bare rr = base
  packIds : rr.packIds = rows.map Prod.fst
  params : ∀ key, rr.parameterOverrides.get key = lastSet paramsOf rows key

variable {paramsOf : PackId → Params V} {base rr : ResolvedRule V}
  {rows : List (PackId × DetectionRule)} {row : PackId × DetectionRule}

theorem Covered.step (h : Covered paramsOf base rows rr) (row : PackId × DetectionRule) :
    Covered paramsOf base (rows ++ [row]) (coverBy row.1 (paramsOf row.1) rr) where
  bare := h.bare
  packIds := by
    rw [coverBy, h.packIds, List.map_append]
    rfl
  params key := by
    rw [coverBy, get_mergeParams, h.params, lastSet, lastSet, List.reverse_append,
      List.reverse_singleton, List.singleton_append, List.findSome?_cons]
    cases (paramsOf row.1).get key <;> rfl

def nextSlot (paramsOf : PackId → Params V) (slot : Option (ResolvedRule V))
    (row : PackId × DetectionRule) : Option (ResolvedRule V) := some (coverSlot paramsOf slot row)

theorem Covered.foldl (h : Covered paramsOf base rows rr)
    (more : List (PackId × DetectionRule)) :
    ∃ next, more.foldl (nextSlot paramsOf) (some rr) = some next ∧
      Covered paramsOf base (rows ++ more) next := by
  induction more generalizing rows rr with
  | nil => exact ⟨rr, rfl, (List.append_nil rows).symm ▸ h⟩
  | cons row more ih =>
    obtain ⟨next, hnext, hcovered⟩ := ih (h.step row)
    rw [List.append_assoc, List.singleton_append] at hcovered
    exact ⟨next, hnext, hcovered⟩

/-- A rule that only packs bring, before any of them. -/
def packBase (rule : DetectionRule) : ResolvedRule V := bare (packRule "" .empty rule)

theorem covered_packRule : Covered paramsOf (packBase row.2) [row]
    (packRule row.1 (paramsOf row.1) row.2) where
  bare := rfl
  packIds := rfl
  params key := by
    rw [lastSet, List.reverse_singleton, List.findSome?_singleton]
    rfl

theorem covered_directRule (rule : DetectionRule) :
    Covered paramsOf (directRule rule) [] (directRule rule) := ⟨rfl, rfl, fun _ => rfl⟩

theorem get_addPackRow (resolved : Resolved V) (row : PackId × DetectionRule) (id : RuleId) :
    (addPackRow paramsOf resolved row).get id =
      if id = row.2.id then nextSlot paramsOf (resolved.get id) row else resolved.get id := by
  rw [addPackRow, OrderedDict.get_set]
  split_ifs with hid
  · rw [hid]
    rfl
  · rfl

/-- The direct row of a rule. -/
def directOf (id : RuleId) : Option DetectionRule :=
  (directRows db tenantId options).find? fun r => r.id = id

theorem directRows_nodup : ((directRows db tenantId options).map DetectionRule.id).Nodup :=
  (List.filter_sublist.map DetectionRule.id).nodup db.rules_nodup

theorem get_withDirect (id : RuleId) :
    (withDirect db tenantId options).get id = (directOf db tenantId options id).map directRule := by
  have hslots := @OrderedDict.get_foldl _ _ _ _ DetectionRule.id
    (fun _ r => some (directRule (V := V) r)) addDirect (fun _ _ _ => OrderedDict.get_set)
    (directRows db tenantId options) .empty id
  rw [withDirect, hslots, OrderedDict.filter_key (directRows_nodup db tenantId options), directOf]
  cases (directRows db tenantId options).find? fun r => r.id = id <;> rfl

/-- The rows of a rule. -/
def packRowsOf (id : RuleId) : List (PackId × DetectionRule) :=
  if options.includePacks then (packRows db tenantId options).filter fun row => row.2.id = id
  else []

theorem packRows_of_no_assignments (h : assignmentRows db tenantId = []) :
    packRows db tenantId options = [] := by
  have hkeys : (packIdToOverrides db tenantId).keys = [] := by
    rw [packIdToOverrides, h]
    rfl
  rw [packRows, hkeys]
  simp

theorem get_withPacks (id : RuleId) : (withPacks db tenantId options).get id =
    (packRowsOf db tenantId options id).foldl (nextSlot (overridesOf db tenantId))
      ((directOf db tenantId options id).map directRule) := by
  rw [withPacks, packRowsOf, ← get_withDirect]
  by_cases hpacks : options.includePacks = true
  · by_cases hrows : assignmentRows db tenantId = []
    · rw [packRows_of_no_assignments db tenantId options hrows, if_neg fun h => h.2 hrows,
        if_pos hpacks]
      rfl
    · rw [if_pos ⟨hpacks, hrows⟩, if_pos hpacks]
      exact OrderedDict.get_foldl get_addPackRow _ _ id
  · rw [if_neg fun h => hpacks h.1, if_neg hpacks]
    rfl

/-- What a rule is before packs and overrides. -/
def baseOf (id : RuleId) : Option (ResolvedRule V) :=
  ((directOf db tenantId options id).map directRule).or
    ((packRowsOf db tenantId options id).head?.map fun row => packBase row.2)

/-- After the packs a rule is its base, covered by them. -/
theorem withPacks_covered {id : RuleId} (hbase : baseOf db tenantId options id = some base) :
    ∃ rr, (withPacks db tenantId options).get id = some rr ∧
      Covered (overridesOf db tenantId) base (packRowsOf db tenantId options id) rr := by
  rw [get_withPacks]
  unfold baseOf at hbase
  cases hdirect : directOf db tenantId options id with
  | some rule =>
    rw [hdirect] at hbase
    cases hbase
    exact (covered_directRule rule).foldl _
  | none =>
    rw [hdirect] at hbase
    cases hrows : packRowsOf db tenantId options id with
    | nil =>
      rw [hrows] at hbase
      cases hbase
    | cons row rows =>
      rw [hrows] at hbase
      cases hbase
      exact covered_packRule.foldl rows

theorem withPacks_none {id : RuleId} (hbase : baseOf db tenantId options id = none) :
    (withPacks db tenantId options).get id = none := by
  obtain ⟨hdirect, hrows⟩ := Option.or_eq_none_iff.mp hbase
  rw [Option.map_eq_none_iff, List.head?_eq_none_iff] at hrows
  rw [get_withPacks, hrows, hdirect]
  rfl

theorem baseOf_of_withPacks {id : RuleId} (h : (withPacks db tenantId options).get id = some rr) :
    ∃ base, baseOf db tenantId options id = some base ∧
      Covered (overridesOf db tenantId) base (packRowsOf db tenantId options id) rr := by
  cases hbase : baseOf db tenantId options id with
  | none =>
    rw [withPacks_none db tenantId options hbase] at h
    cases h
  | some base =>
    obtain ⟨rr', hrr, hcovered⟩ := withPacks_covered db tenantId options hbase
    cases hrr.symm.trans h
    exact ⟨base, rfl, hcovered⟩

/-- What the override of a rule makes of it. -/
def overrideSlot (ov : RuleOverride V) (rr : ResolvedRule V) : Option (ResolvedRule V) :=
  if ov.action = "exclude" then none else some (customize ov rr)

def overriddenSlot (slot : Option (ResolvedRule V)) (ov : RuleOverride V) :
    Option (ResolvedRule V) := slot.bind (overrideSlot ov)

theorem get_applyOverride (resolved : Resolved V) (ov : RuleOverride V) (id : RuleId) :
    (applyOverride resolved ov).get id =
      if id = ov.ruleId then overriddenSlot (resolved.get id) ov else resolved.get id := by
  unfold applyOverride overriddenSlot
  cases hget : resolved.get ov.ruleId with
  | none =>
    by_cases hid : id = ov.ruleId
    · rw [if_pos hid, hid, hget]
      rfl
    · rw [if_neg hid]
  | some rr =>
    dsimp only
    by_cases hexclude : ov.action = "exclude"
    · rw [if_pos hexclude, OrderedDict.get_erase]
      by_cases hid : id = ov.ruleId
      · rw [if_pos hid, if_pos hid, hid, hget, Option.bind_some, overrideSlot, if_pos hexclude]
      · rw [if_neg hid, if_neg hid]
    · rw [if_neg hexclude, OrderedDict.get_set]
      by_cases hid : id = ov.ruleId
      · rw [if_pos hid, if_pos hid, hid, hget, Option.bind_some, overrideSlot, if_neg hexclude]
      · rw [if_neg hid, if_neg hid]

/-- The override that the tenant has for a rule. -/
def overrideOf (id : RuleId) : Option (RuleOverride V) :=
  db.overrides.find? fun o => (o.childTenantId, o.ruleId) = (tenantId, id)

theorem overrideOf_eq_some {id : RuleId} {ov : RuleOverride V} :
    overrideOf db tenantId id = some ov ↔
      ov ∈ db.overrides ∧ ov.childTenantId = tenantId ∧ ov.ruleId = id := by
  rw [overrideOf, OrderedDict.find?_key db.overrides_nodup, Prod.mk.injEq]

/-- Among the rows of the query there is at most this one. -/
theorem overrideRows_filter {ids : List RuleId} {id : RuleId} (hid : id ∈ ids) :
    ((overrideRows db tenantId ids).filter fun o => o.ruleId = id) =
      (overrideOf db tenantId id).toList := by
  rw [overrideOf, ← OrderedDict.filter_key db.overrides_nodup, overrideRows, List.filter_filter]
  apply List.filter_congr
  intro o _
  rw [Bool.eq_iff_iff]
  simp only [Bool.and_eq_true, decide_eq_true_iff, Prod.mk.injEq]
  constructor
  · rintro ⟨hrule, htenant, -⟩
    exact ⟨htenant, hrule⟩
  · rintro ⟨htenant, hrule⟩
    exact ⟨hrule, htenant, hrule ▸ hid⟩

def finalRules : Resolved V :=
  (overrideRows db tenantId (withPacks db tenantId options).keys).foldl applyOverride
    (withPacks db tenantId options)

theorem resolveEffectiveRules_eq :
    resolveEffectiveRules db tenantId options = (finalRules db tenantId options).values := by
  unfold resolveEffectiveRules finalRules
  dsimp only
  by_cases hempty : (withPacks db tenantId options).entries.isEmpty = true
  · have hentries := List.isEmpty_iff.mp hempty
    have hrows : overrideRows db tenantId (withPacks db tenantId options).keys = [] := by
      rw [overrideRows, List.filter_eq_nil_iff, OrderedDict.keys, hentries]
      simp
    rw [if_pos hempty, hrows, List.foldl_nil, OrderedDict.values, hentries]
    rfl
  · rw [if_neg hempty]

theorem get_finalRules (id : RuleId) : (finalRules db tenantId options).get id =
    match overrideOf db tenantId id with
    | none => (withPacks db tenantId options).get id
    | some ov => overriddenSlot ((withPacks db tenantId options).get id) ov := by
  rw [finalRules, OrderedDict.get_foldl get_applyOverride]
  by_cases hid : id ∈ (withPacks db tenantId options).keys
  · rw [overrideRows_filter db tenantId hid]
    cases overrideOf db tenantId id <;> rfl
  · rw [OrderedDict.get_eq_none.mpr hid]
    have hnone (ovs : List (RuleOverride V)) :
        ovs.foldl overriddenSlot none = none := by
      induction ovs with
      | nil => rfl
      | cons ov ovs ih => exact ih
    rw [hnone]
    cases overrideOf db tenantId id <;> rfl

end RuleResolver
