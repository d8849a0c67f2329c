import AiSOC.RuleResolverSlots

/-! # Effective rules and the order of the rows

The order in which the database returns its rows shows in the effective rules only where two
packs set one parameter of a rule to different values. -/
namespace RuleResolver

variable {V : Type} {db other : Database V} {tenantId : TenantId} {options : Options}

/-- The same rows, each table in an order of its own. -/
structure Reordered (db other : Database V) : Prop where
  rules : db.rules.Perm other.rules
  packRules : db.packRules.Perm other.packRules
  assignments : db.assignments.Perm other.assignments
  overrides : db.overrides.Perm other.overrides

theorem Reordered.symm (h : Reordered db other) : Reordered other db :=
  ⟨h.rules.symm, h.packRules.symm, h.assignments.symm, h.overrides.symm⟩

theorem Reordered.trans {third : Database V} (h : Reordered db other)
    (h' : Reordered other third) : Reordered db third :=
  ⟨h.rules.trans h'.rules, h.packRules.trans h'.packRules, h.assignments.trans h'.assignments,
    h.overrides.trans h'.overrides⟩

/-- Equal, the packs as a set and the parameters as a dictionary. -/
structure SameRule (a b : ResolvedRule V) : Prop where
  bare : bare a = bare b
  packIds : a.packIds.Perm b.packIds
  params : ∀ key, a.parameterOverrides.get key = b.parameterOverrides.get key

def SameRules (xs ys : List (ResolvedRule V)) : Prop :=
  (∀ a ∈ xs, ∃ b ∈ ys, SameRule a b) ∧ ∀ b ∈ ys, ∃ a ∈ xs, SameRule a b

def Excluded (db : Database V) (tenantId : TenantId) (id : RuleId) : Prop :=
  ∃ ov ∈ db.overrides, ov.childTenantId = tenantId ∧ ov.ruleId = id ∧ ov.action = "exclude"

/-- A pack that is assigned to the tenant with some parameters brings the rule. -/
structure Covers (db : Database V) (tenantId : TenantId) (options : Options) (rule : DetectionRule)
    (packId : PackId) (params : Params V) : Prop where
  includePacks : options.includePacks = true
  assigned : ∃ a ∈ db.assignments, a.childTenantId = tenantId ∧ a.enabled = true ∧
    a.packId = packId ∧ a.parameterOverrides = params
  contains : ⟨packId, rule.id⟩ ∈ db.packRules
  rule_mem : rule ∈ db.rules
  admitted : options.admits rule = true

theorem assignmentRows_nodup (db : Database V) (tenantId : TenantId) :
    ((assignmentRows db tenantId).map RulePackAssignment.packId).Nodup := by
  have hpairs : ((assignmentRows db tenantId).map fun a => (a.packId, a.childTenantId)).Nodup :=
    (List.filter_sublist.map _).nodup db.assignments_nodup
  have hmap : ((assignmentRows db tenantId).map fun a => (a.packId, a.childTenantId)) =
      ((assignmentRows db tenantId).map RulePackAssignment.packId).map (·, tenantId) := by
    rw [List.map_map]
    apply List.map_congr_left
    intro a ha
    obtain ⟨htenant, -⟩ := of_decide_eq_true (List.mem_filter.mp ha).2
    rw [Function.comp_apply, htenant]
  rw [hmap] at hpairs
  exact hpairs.of_map

/-- The parameters of a pack are those of its assignment. -/
theorem get_packIdToOverrides {packId : PackId} {params : Params V} :
    (packIdToOverrides db tenantId).get packId = some params ↔
      ∃ a ∈ db.assignments, a.childTenantId = tenantId ∧ a.enabled = true ∧ a.packId = packId ∧
        a.parameterOverrides = params := by
  have hnodup : (((assignmentRows db tenantId).map fun a =>
      (a.packId, a.parameterOverrides)).map Prod.fst).Nodup := by
    rw [List.map_map]
    exact assignmentRows_nodup db tenantId
  rw [packIdToOverrides, OrderedDict.get_ofList_eq_some hnodup, List.mem_map]
  simp only [assignmentRows, List.mem_filter, decide_eq_true_iff, Prod.mk.injEq, and_assoc]

theorem mem_packRows {packId : PackId} {rule : DetectionRule} :
    (packId, rule) ∈ packRows db tenantId options ↔
      packId ∈ (packIdToOverrides db tenantId).keys ∧ ⟨packId, rule.id⟩ ∈ db.packRules ∧
        rule ∈ db.rules ∧ options.admits rule = true := by
  rw [packRows, List.mem_flatMap]
  constructor
  · rintro ⟨⟨p, id⟩, hpr, hrow⟩
    obtain ⟨hmem, hkey⟩ := List.mem_filter.mp hpr
    obtain ⟨r, hr, heq⟩ := List.mem_map.mp hrow
    obtain ⟨hrule, hadmits⟩ := List.mem_filter.mp hr
    obtain ⟨hid, hadmitted⟩ := of_decide_eq_true hadmits
    cases heq
    cases hid
    exact ⟨of_decide_eq_true hkey, hmem, hrule, hadmitted⟩
  · rintro ⟨hkey, hmem, hrule, hadmitted⟩
    refine ⟨_, List.mem_filter.mpr ⟨hmem, decide_eq_true hkey⟩, List.mem_map.mpr ⟨rule, ?_, rfl⟩⟩
    exact List.mem_filter.mpr ⟨hrule, decide_eq_true ⟨rfl, hadmitted⟩⟩

theorem Covers.mem_keys {rule : DetectionRule} {packId : PackId} {params : Params V}
    (h : Covers db tenantId options rule packId params) :
    packId ∈ (packIdToOverrides db tenantId).keys := by
  rw [← OrderedDict.get_isSome, get_packIdToOverrides.mpr h.assigned, Option.isSome_some]

/-- The rows of a rule are the packs that cover it. -/
theorem mem_packRowsOf {packId : PackId} {rule : DetectionRule} {id : RuleId} :
    (packId, rule) ∈ packRowsOf db tenantId options id ↔
      rule.id = id ∧ Covers db tenantId options rule packId (overridesOf db tenantId packId) := by
  constructor
  · intro hrow
    unfold packRowsOf at hrow
    split_ifs at hrow with hpacks
    · obtain ⟨hmem, hid⟩ := List.mem_filter.mp hrow
      obtain ⟨hkey, hcontains, hrule, hadmitted⟩ := mem_packRows.mp hmem
      obtain ⟨params, hparams⟩ := Option.isSome_iff_exists.mp (OrderedDict.get_isSome.mpr hkey)
      refine ⟨of_decide_eq_true hid, hpacks, ?_, hcontains, hrule, hadmitted⟩
      rw [overridesOf, hparams]
      exact get_packIdToOverrides.mp hparams
    · cases hrow
  · rintro ⟨hid, hcovers⟩
    rw [packRowsOf, if_pos hcovers.includePacks]
    exact List.mem_filter.mpr ⟨mem_packRows.mpr
      ⟨hcovers.mem_keys, hcovers.contains, hcovers.rule_mem, hcovers.admitted⟩, decide_eq_true hid⟩

theorem Covers.overridesOf_eq {rule : DetectionRule} {packId : PackId} {params : Params V}
    (h : Covers db tenantId options rule packId params) :
    overridesOf db tenantId packId = params := by
  rw [overridesOf, get_packIdToOverrides.mpr h.assigned, Option.getD_some]

theorem Reordered.covers (h : Reordered db other) {rule : DetectionRule} {packId : PackId}
    {params : Params V} (hcovers : Covers db tenantId options rule packId params) :
    Covers other tenantId options rule packId params := by
  obtain ⟨a, ha, hassigned⟩ := hcovers.assigned
  exact ⟨hcovers.includePacks, ⟨a, h.assignments.mem_iff.mp ha, hassigned⟩,
    h.packRules.mem_iff.mp hcovers.contains, h.rules.mem_iff.mp hcovers.rule_mem,
    hcovers.admitted⟩

theorem Reordered.excluded_iff (h : Reordered db other) (id : RuleId) :
    Excluded db tenantId id ↔ Excluded other tenantId id := by
  unfold Excluded
  simp only [h.overrides.mem_iff]

theorem Reordered.overridesOf_eq (h : Reordered db other) :
    overridesOf other tenantId = overridesOf db tenantId := by
  have hget (packId : PackId) : (packIdToOverrides other tenantId).get packId =
      (packIdToOverrides db tenantId).get packId := by
    apply Option.ext
    intro params
    rw [get_packIdToOverrides, get_packIdToOverrides]
    simp only [h.assignments.mem_iff]
  funext packId
  rw [overridesOf, overridesOf, hget]

theorem Reordered.overrideOf_eq (h : Reordered db other) (id : RuleId) :
    overrideOf other tenantId id = overrideOf db tenantId id := by
  apply Option.ext
  intro ov
  rw [overrideOf_eq_some, overrideOf_eq_some, h.overrides.mem_iff]

theorem Reordered.directOf_eq (h : Reordered db other) (id : RuleId) :
    directOf other tenantId options id = directOf db tenantId options id :=
  (OrderedDict.find?_key_perm (directRows_nodup db tenantId options) (h.rules.filter _)).symm

theorem packRows_nodup : (packRows db tenantId options).Nodup := by
  rw [packRows, List.nodup_flatMap]
  constructor
  · intro pr _
    apply List.Nodup.map
    · intro r r' heq
      exact (Prod.mk.inj heq).2
    · exact (List.Nodup.of_map _ db.rules_nodup).filter _
  · refine (db.packRules_nodup.filter _).imp ?_
    rintro ⟨p, id⟩ ⟨p', id'⟩ hne row hrow hrow'
    obtain ⟨r, hr, rfl⟩ := List.mem_map.mp hrow
    obtain ⟨r', hr', heq⟩ := List.mem_map.mp hrow'
    obtain ⟨hid, -⟩ := of_decide_eq_true (List.mem_filter.mp hr).2
    obtain ⟨hid', -⟩ := of_decide_eq_true (List.mem_filter.mp hr').2
    cases heq
    exact hne (RulePackRule.mk.injEq .. ▸ ⟨rfl, hid.symm.trans hid'⟩)

theorem packRowsOf_nodup (id : RuleId) : (packRowsOf db tenantId options id).Nodup := by
  unfold packRowsOf
  split_ifs
  · exact packRows_nodup.filter _
  · exact List.nodup_nil

theorem Reordered.packRowsOf_perm (h : Reordered db other) (id : RuleId) :
    (packRowsOf db tenantId options id).Perm (packRowsOf other tenantId options id) := by
  rw [List.perm_ext_iff_of_nodup (packRowsOf_nodup id) (packRowsOf_nodup id)]
  rintro ⟨packId, rule⟩
  rw [mem_packRowsOf, mem_packRowsOf, h.overridesOf_eq]
  constructor
  · rintro ⟨hid, hcovers⟩
    exact ⟨hid, h.covers hcovers⟩
  · rintro ⟨hid, hcovers⟩
    exact ⟨hid, h.symm.covers hcovers⟩

theorem rule_eq_of_id {r r' : DetectionRule} (hr : r ∈ db.rules) (hr' : r' ∈ db.rules)
    (h : r.id = r'.id) : r = r' := List.inj_on_of_nodup_map db.rules_nodup hr hr' h

theorem Reordered.baseOf_eq (h : Reordered db other) (id : RuleId) :
    baseOf other tenantId options id = baseOf db tenantId options id := by
  rw [baseOf, baseOf, h.directOf_eq]
  congr 1
  have hperm : (packRowsOf db tenantId options id).Perm (packRowsOf other tenantId options id) :=
    h.packRowsOf_perm id
  cases hrows : packRowsOf db tenantId options id with
  | nil =>
    rw [hrows] at hperm
    rw [hperm.symm.eq_nil]
  | cons row rows =>
    cases hother : packRowsOf other tenantId options id with
    | nil =>
      rw [hother, hrows] at hperm
      cases hperm.eq_nil
    | cons row' rows' =>
      obtain ⟨hid, hcovers⟩ := mem_packRowsOf.mp (hrows ▸ List.mem_cons_self)
      have hmem : row' ∈ packRowsOf db tenantId options id :=
        hperm.symm.subset (hother ▸ List.mem_cons_self)
      obtain ⟨hid', hcovers'⟩ := mem_packRowsOf.mp hmem
      have hrule := rule_eq_of_id hcovers'.rule_mem hcovers.rule_mem (hid'.trans hid.symm)
      simp only [List.head?_cons, Option.map_some, hrule]

/-- Packs that cover one rule agree on every parameter that the tenant does not set itself. -/
def PacksAgree (db : Database V) (tenantId : TenantId) (options : Options) : Prop :=
  ∀ rule p ps q qs, Covers db tenantId options rule p ps → Covers db tenantId options rule q qs →
    ¬ Excluded db tenantId rule.id → ∀ key v w, ps.get key = some v → qs.get key = some w →
      v = w ∨ ∃ ov ∈ db.overrides, ov.childTenantId = tenantId ∧ ov.ruleId = rule.id ∧
        key ∈ ov.parameterOverrides.keys

theorem Reordered.packsAgree (h : Reordered db other) (hagree : PacksAgree db tenantId options) :
    PacksAgree other tenantId options := by
  intro rule p ps q qs hp hq hexcluded key v w hv hw
  have hsame := hagree rule p ps q qs (h.symm.covers hp) (h.symm.covers hq)
    (mt (h.excluded_iff rule.id).mp hexcluded) key v w hv hw
  simp only [h.overrides.mem_iff] at hsame
  exact hsame

theorem lastSet_eq_some {paramsOf : PackId → Params V} {rows : List (PackId × DetectionRule)}
    {key : String} {v : V} (hagree : ∀ row ∈ rows, ∀ row' ∈ rows, ∀ v w,
      (paramsOf row.1).get key = some v → (paramsOf row'.1).get key = some w → v = w) :
    lastSet paramsOf rows key = some v ↔ ∃ row ∈ rows, (paramsOf row.1).get key = some v := by
  constructor
  · intro hlast
    obtain ⟨row, hrow, hv⟩ := List.exists_of_findSome?_eq_some hlast
    exact ⟨row, List.mem_reverse.mp hrow, hv⟩
  · rintro ⟨row, hrow, hv⟩
    have hsome : (lastSet paramsOf rows key).isSome = true := by
      rw [lastSet, List.findSome?_isSome_iff]
      exact ⟨row, List.mem_reverse.mpr hrow, by rw [hv]; rfl⟩
    obtain ⟨w, hw⟩ := Option.isSome_iff_exists.mp hsome
    obtain ⟨row', hrow', hw'⟩ := List.exists_of_findSome?_eq_some hw
    rw [hw, hagree row hrow row' (List.mem_reverse.mp hrow') v w hv hw']

/-- Where the packs agree, it does not matter which of them comes last. -/
theorem lastSet_perm {paramsOf : PackId → Params V} {rows rows' : List (PackId × DetectionRule)}
    {key : String} (hperm : rows.Perm rows') (hagree : ∀ row ∈ rows, ∀ row' ∈ rows, ∀ v w,
      (paramsOf row.1).get key = some v → (paramsOf row'.1).get key = some w → v = w) :
    lastSet paramsOf rows key = lastSet paramsOf rows' key := by
  apply Option.ext
  intro v
  rw [lastSet_eq_some hagree, lastSet_eq_some]
  · simp only [hperm.mem_iff]
  · intro row hrow row' hrow'
    exact hagree row (hperm.symm.subset hrow) row' (hperm.symm.subset hrow')

theorem excluded_iff_overrideOf {id : RuleId} :
    Excluded db tenantId id ↔
      ∃ ov, overrideOf db tenantId id = some ov ∧ ov.action = "exclude" := by
  simp only [Excluded, overrideOf_eq_some, and_assoc]

/-- On a parameter that the override of the tenant does not set, the rows of a rule agree. -/
theorem PacksAgree.rows (hagree : PacksAgree db tenantId options) {id : RuleId} {key : String}
    (hexcluded : ¬ Excluded db tenantId id)
    (hunset : ∀ ov, overrideOf db tenantId id = some ov → key ∉ ov.parameterOverrides.keys) :
    ∀ row ∈ packRowsOf db tenantId options id, ∀ row' ∈ packRowsOf db tenantId options id,
      ∀ v w, (overridesOf db tenantId row.1).get key = some v →
        (overridesOf db tenantId row'.1).get key = some w → v = w := by
  intro row hrow row' hrow' v w hv hw
  obtain ⟨hid, hcovers⟩ := mem_packRowsOf.mp hrow
  obtain ⟨hid', hcovers'⟩ := mem_packRowsOf.mp hrow'
  rw [rule_eq_of_id hcovers'.rule_mem hcovers.rule_mem (hid'.trans hid.symm)] at hcovers'
  rw [← hid] at hexcluded
  rcases hagree _ _ _ _ _ hcovers hcovers' hexcluded key v w hv hw with heq | hset
  · exact heq
  · obtain ⟨ov, hov, htenant, hrule, hkey⟩ := hset
    exact absurd hkey (hunset ov ((overrideOf_eq_some db tenantId).mpr
      ⟨hov, htenant, hrule.trans hid⟩))

/-- If the packs agree, a rule is the same in every order. -/
theorem Reordered.finalRules_same (h : Reordered db other)
    (hagree : PacksAgree db tenantId options) {id : RuleId} {a : ResolvedRule V}
    (ha : (finalRules db tenantId options).get id = some a) :
    ∃ b, (finalRules other tenantId options).get id = some b ∧ SameRule a b := by
  have hrows : (packRowsOf db tenantId options id).Perm (packRowsOf other tenantId options id) :=
    h.packRowsOf_perm id
  rw [get_finalRules] at ha
  rw [get_finalRules, h.overrideOf_eq]
  cases hpacks : (withPacks db tenantId options).get id with
  | none =>
    rw [hpacks] at ha
    cases hov : overrideOf db tenantId id <;> rw [hov] at ha <;> cases ha
  | some rr =>
    obtain ⟨base, hbase, hcovered⟩ := baseOf_of_withPacks db tenantId options hpacks
    rw [← h.baseOf_eq] at hbase
    obtain ⟨rr', hrr', hcovered'⟩ := withPacks_covered other tenantId options hbase
    rw [h.overridesOf_eq] at hcovered'
    have hpackIds : rr.packIds.Perm rr'.packIds := by
      rw [hcovered.packIds, hcovered'.packIds]
      exact hrows.map Prod.fst
    have hbare := hcovered.bare.trans hcovered'.bare.symm
    rw [hpacks] at ha
    rw [hrr']
    cases hov : overrideOf db tenantId id with
    | none =>
      rw [hov] at ha
      cases ha
      have hexcluded : ¬ Excluded db tenantId id := by
        rw [excluded_iff_overrideOf, hov]
        simp
      refine ⟨rr', rfl, hbare, hpackIds, ?_⟩
      intro key
      rw [hcovered.params, hcovered'.params]
      apply lastSet_perm hrows
      exact hagree.rows hexcluded (by simp [hov])
    | some ov =>
      rw [hov] at ha
      dsimp only [overriddenSlot, Option.bind_some, overrideSlot] at ha ⊢
      split_ifs at ha ⊢ with hexclude
      cases ha
      have hexcluded : ¬ Excluded db tenantId id := by
        rw [excluded_iff_overrideOf, hov]
        simpa using hexclude
      refine ⟨customize ov rr', rfl, ?_, hpackIds, ?_⟩
      · have hcustomize (x : ResolvedRule V) :
            bare (customize ov x) = bare (customize ov (bare x)) := rfl
        rw [hcustomize, hbare, ← hcustomize]
      · intro key
        rw [customize, customize, get_mergeParams, get_mergeParams, hcovered.params,
          hcovered'.params]
        cases hkey : ov.parameterOverrides.get key with
        | some v => rfl
        | none =>
          have hunset : ∀ ov', overrideOf db tenantId id = some ov' →
              key ∉ ov'.parameterOverrides.keys := by
            intro ov' hov'
            cases hov.symm.trans hov'
            exact OrderedDict.get_eq_none.mp hkey
          rw [lastSet_perm hrows (hagree.rows hexcluded hunset)]

theorem baseOf_id {id : RuleId} {base : ResolvedRule V}
    (h : baseOf db tenantId options id = some base) : base.id = id := by
  rcases Option.or_eq_some_iff.mp h with hdirect | ⟨-, hpack⟩
  · obtain ⟨rule, hrule, rfl⟩ := Option.map_eq_some_iff.mp hdirect
    exact ((OrderedDict.find?_key (directRows_nodup db tenantId options)).mp hrule).2
  · obtain ⟨row, hrow, rfl⟩ := Option.map_eq_some_iff.mp hpack
    exact (mem_packRowsOf.mp (List.mem_of_head? hrow)).1

theorem get_finalRules_id {id : RuleId} {a : ResolvedRule V}
    (ha : (finalRules db tenantId options).get id = some a) : a.id = id := by
  have hwith {rr : ResolvedRule V} (hrr : (withPacks db tenantId options).get id = some rr) :
      rr.id = id := by
    obtain ⟨base, hbase, hcovered⟩ := baseOf_of_withPacks db tenantId options hrr
    exact (congrArg ResolvedRule.id hcovered.bare).trans (baseOf_id hbase)
  rw [get_finalRules] at ha
  cases hov : overrideOf db tenantId id with
  | none =>
    rw [hov] at ha
    exact hwith ha
  | some ov =>
    rw [hov] at ha
    obtain ⟨rr, hrr, hslot⟩ := Option.bind_eq_some_iff.mp ha
    unfold overrideSlot at hslot
    split_ifs at hslot
    cases hslot
    have hid := hwith hrr
    exact hid

theorem mem_resolveEffectiveRules {a : ResolvedRule V} :
    a ∈ resolveEffectiveRules db tenantId options ↔
      (finalRules db tenantId options).get a.id = some a := by
  rw [resolveEffectiveRules_eq, OrderedDict.values, List.mem_map]
  constructor
  · rintro ⟨⟨id, rr⟩, he, rfl⟩
    have hget := OrderedDict.get_eq_some.mpr he
    rwa [get_finalRules_id hget]
  · intro hget
    exact ⟨_, OrderedDict.get_eq_some.mp hget, rfl⟩

theorem resolveEffectiveRules_nodup :
    ((resolveEffectiveRules db tenantId options).map ResolvedRule.id).Nodup := by
  have hids : (resolveEffectiveRules db tenantId options).map ResolvedRule.id =
      (finalRules db tenantId options).entries.map Prod.fst := by
    rw [resolveEffectiveRules_eq, OrderedDict.values, List.map_map]
    apply List.map_congr_left
    intro e he
    exact get_finalRules_id (OrderedDict.get_eq_some.mpr he)
  rw [hids]
  exact (finalRules db tenantId options).nodup

theorem resolveEffectiveRules_not_excluded {a : ResolvedRule V}
    (ha : a ∈ resolveEffectiveRules db tenantId options) : ¬ Excluded db tenantId a.id := by
  intro hexcluded
  obtain ⟨ov, hov, hexclude⟩ := excluded_iff_overrideOf.mp hexcluded
  have hget := mem_resolveEffectiveRules.mp ha
  rw [get_finalRules, hov] at hget
  obtain ⟨rr, -, hslot⟩ := Option.bind_eq_some_iff.mp hget
  rw [overrideSlot, if_pos hexclude] at hslot
  cases hslot

theorem SameRule.symm {a b : ResolvedRule V} (h : SameRule a b) : SameRule b a :=
  ⟨h.bare.symm, h.packIds.symm, fun key => (h.params key).symm⟩

theorem Reordered.mem_same (h : Reordered db other) (hagree : PacksAgree db tenantId options)
    {a : ResolvedRule V} (ha : a ∈ resolveEffectiveRules db tenantId options) :
    ∃ b ∈ resolveEffectiveRules other tenantId options, SameRule a b := by
  obtain ⟨b, hb, hsame⟩ := h.finalRules_same hagree (mem_resolveEffectiveRules.mp ha)
  refine ⟨b, mem_resolveEffectiveRules.mpr ?_, hsame⟩
  rwa [get_finalRules_id hb]

/-- One row of the pack rules moved to the end. -/
def promoteLast (db : Database V) (pr : RulePackRule) (h : pr ∈ db.packRules) : Database V where
  rules := db.rules
  packRules := db.packRules.erase pr ++ [pr]
  assignments := db.assignments
  overrides := db.overrides
  rules_nodup := db.rules_nodup
  packRules_nodup := ((List.perm_append_singleton pr _).trans
    (List.perm_cons_erase h).symm).nodup_iff.mpr db.packRules_nodup
  assignments_nodup := db.assignments_nodup
  overrides_nodup := db.overrides_nodup

theorem promoteLast_reordered {pr : RulePackRule} (h : pr ∈ db.packRules) :
    Reordered db (promoteLast db pr h) :=
  ⟨.refl _, (List.perm_cons_erase h).trans (List.perm_append_singleton pr _).symm, .refl _,
    .refl _⟩

theorem Covers.joinRule_eq {rule : DetectionRule} {packId : PackId} {params : Params V}
    (h : Covers db tenantId options rule packId params) :
    joinRule db options ⟨packId, rule.id⟩ = [(packId, rule)] := by
  have hfind := (OrderedDict.find?_key db.rules_nodup).mpr ⟨h.rule_mem, rfl⟩
  have hsplit : (db.rules.filter fun r => r.id = rule.id ∧ options.admits r) =
      (db.rules.filter fun r => r.id = rule.id).filter fun r => options.admits r := by
    rw [List.filter_filter]
    apply List.filter_congr
    intro r _
    rw [Bool.eq_iff_iff]
    simp [and_comm]
  rw [joinRule, hsplit, OrderedDict.filter_key db.rules_nodup, hfind, Option.toList_some,
    List.filter_cons_of_pos (by simpa using h.admitted), List.filter_nil, List.map_singleton]

theorem packRows_promoteLast {pr : RulePackRule} (h : pr ∈ db.packRules)
    (hkey : pr.packId ∈ (packIdToOverrides db tenantId).keys) :
    ∃ rows, packRows (promoteLast db pr h) tenantId options = rows ++ joinRule db options pr := by
  have hjoined : packRows (promoteLast db pr h) tenantId options =
      ((db.packRules.erase pr ++ [pr]).filter fun pr =>
        pr.packId ∈ (packIdToOverrides db tenantId).keys).flatMap (joinRule db options) := rfl
  rw [hjoined, List.filter_append, List.filter_cons_of_pos (by simpa using hkey), List.filter_nil,
    List.flatMap_append, List.flatMap_singleton]
  exact ⟨_, rfl⟩

/-- The row of the pack then is the last one of its rule. -/
theorem packRowsOf_promoteLast {rule : DetectionRule} {packId : PackId} {params : Params V}
    (h : Covers db tenantId options rule packId params) :
    ∃ rows, packRowsOf (promoteLast db _ h.contains) tenantId options rule.id =
      rows ++ [(packId, rule)] := by
  obtain ⟨rows, hlast⟩ : ∃ rows, packRows (promoteLast db _ h.contains) tenantId options =
      rows ++ joinRule db options ⟨packId, rule.id⟩ :=
    packRows_promoteLast h.contains h.mem_keys
  rw [packRowsOf, if_pos h.includePacks, hlast, h.joinRule_eq, List.filter_append,
    List.filter_cons_of_pos (by simp), List.filter_nil]
  exact ⟨_, rfl⟩

/-- So its parameters are those of the pack. -/
theorem promoteLast_params {rule : DetectionRule} {packId : PackId} {params : Params V}
    (h : Covers db tenantId options rule packId params) (hexcluded : ¬ Excluded db tenantId rule.id)
    {key : String} {v : V} (hv : params.get key = some v)
    (hunset : ∀ ov, overrideOf db tenantId rule.id = some ov → key ∉ ov.parameterOverrides.keys) :
    ∃ a ∈ resolveEffectiveRules (promoteLast db _ h.contains) tenantId options,
      a.id = rule.id ∧ a.parameterOverrides.get key = some v := by
  have hreordered := promoteLast_reordered h.contains
  obtain ⟨rows, hrows⟩ := packRowsOf_promoteLast h
  have hlast : lastSet (overridesOf (promoteLast db _ h.contains) tenantId)
      (packRowsOf (promoteLast db _ h.contains) tenantId options rule.id) key = some v := by
    rw [hrows, lastSet, List.reverse_append, List.reverse_singleton, List.singleton_append,
      List.findSome?_cons, (hreordered.covers h).overridesOf_eq, hv]
  have hsome : (baseOf (promoteLast db _ h.contains) tenantId options rule.id).isSome = true := by
    rw [baseOf, hrows]
    cases directOf (promoteLast db _ h.contains) tenantId options rule.id <;> cases rows <;> rfl
  obtain ⟨base, hbase⟩ := Option.isSome_iff_exists.mp hsome
  obtain ⟨rr, hrr, hcovered⟩ := withPacks_covered _ tenantId options hbase
  rw [← hcovered.params] at hlast
  suffices hfinal : ∃ a, (finalRules (promoteLast db _ h.contains) tenantId options).get rule.id =
      some a ∧ a.parameterOverrides.get key = some v by
    obtain ⟨a, ha, hparams⟩ := hfinal
    have hid := get_finalRules_id ha
    exact ⟨a, mem_resolveEffectiveRules.mpr (hid.symm ▸ ha), hid, hparams⟩
  rw [get_finalRules, hreordered.overrideOf_eq, hrr]
  cases hov : overrideOf db tenantId rule.id with
  | none => exact ⟨rr, rfl, hlast⟩
  | some ov =>
    have hkeep : ¬ ov.action = "exclude" := by
      intro hexclude
      exact hexcluded (excluded_iff_overrideOf.mpr ⟨ov, hov, hexclude⟩)
    refine ⟨customize ov rr, ?_, ?_⟩
    · dsimp only [overriddenSlot, Option.bind_some, overrideSlot]
      rw [if_neg hkeep]
    · rw [customize, get_mergeParams, OrderedDict.get_eq_none.mpr (hunset ov hov),
        Option.none_or, hlast]

/-- The effective rules are determined by the contents of the database. -/
structure Determined (db : Database V) (tenantId : TenantId) (options : Options) : Prop where
  same : ∀ first second, Reordered db first → Reordered db second →
    SameRules (resolveEffectiveRules first tenantId options)
      (resolveEffectiveRules second tenantId options)
  once : ∀ other, Reordered db other →
    ((resolveEffectiveRules other tenantId options).map ResolvedRule.id).Nodup
  not_excluded : ∀ other, Reordered db other →
    ∀ rr ∈ resolveEffectiveRules other tenantId options, ¬ Excluded db tenantId rr.id

/-- If two packs disagree, each of them can have the last word. -/
theorem packsAgree_of_same
    (hsame : ∀ first second, Reordered db first → Reordered db second →
      SameRules (resolveEffectiveRules first tenantId options)
        (resolveEffectiveRules second tenantId options)) : PacksAgree db tenantId options := by
  intro rule p ps q qs hp hq hexcluded key v w hv hw
  by_cases hset : ∃ ov ∈ db.overrides, ov.childTenantId = tenantId ∧ ov.ruleId = rule.id ∧
      key ∈ ov.parameterOverrides.keys
  · exact Or.inr hset
  · left
    have hunset : ∀ ov, overrideOf db tenantId rule.id = some ov →
        key ∉ ov.parameterOverrides.keys := by
      intro ov hov hkey
      obtain ⟨hmem, htenant, hrule⟩ := (overrideOf_eq_some db tenantId).mp hov
      exact hset ⟨ov, hmem, htenant, hrule, hkey⟩
    obtain ⟨a, ha, hida, hva⟩ := promoteLast_params hp hexcluded hv hunset
    obtain ⟨b, hb, hidb, hwb⟩ := promoteLast_params hq hexcluded hw hunset
    obtain ⟨b', hb', hab⟩ := (hsame _ _ (promoteLast_reordered hp.contains)
      (promoteLast_reordered hq.contains)).1 a ha
    have hid : b'.id = a.id := (congrArg ResolvedRule.id hab.bare).symm
    have hget := mem_resolveEffectiveRules.mp hb
    have hget' := mem_resolveEffectiveRules.mp hb'
    rw [hid, hida] at hget'
    rw [hidb] at hget
    obtain rfl := Option.some.inj (hget.symm.trans hget')
    rw [hab.params, hwb] at hva
    exact (Option.some.inj hva).symm

/-- The order of the rows does not show if and only if the packs agree. -/
theorem determined_iff (db : Database V) (tenantId : TenantId) (options : Options) :
    Determined db tenantId options ↔ PacksAgree db tenantId options := by
  constructor
  · intro h
    exact packsAgree_of_same h.same
  · intro hagree
    refine ⟨?_, ?_, ?_⟩
    · intro first second hfirst hsecond
      constructor
      · intro a ha
        exact (hfirst.symm.trans hsecond).mem_same (hfirst.packsAgree hagree) ha
      · intro b hb
        obtain ⟨a, ha, hsame⟩ :=
          (hsecond.symm.trans hfirst).mem_same (hsecond.packsAgree hagree) hb
        exact ⟨a, ha, hsame.symm⟩
    · intro other _
      exact resolveEffectiveRules_nodup
    · intro other hother rr hrr hexcluded
      exact resolveEffectiveRules_not_excluded hrr ((hother.excluded_iff rr.id).mp hexcluded)

def bruteForceRule : DetectionRule where
  id := "brute-force"
  tenantId := none
  name := "Brute force"
  ruleLanguage := "sigma"
  ruleBody := ""
  category := "identity"
  status := "active"
  severity := "high"
  isBuiltin := true

theorem nodup_bruteForceRule : ([bruteForceRule].map DetectionRule.id).Nodup :=
  List.nodup_singleton _

def threshold (n : ℕ) : Params ℕ := ⟨[("threshold", n)], List.nodup_singleton _⟩

/-- Two packs of one tenant set the threshold of one rule, to five and to ten. -/
def twoThresholds : Database ℕ where
  rules := [bruteForceRule]
  packRules := [⟨"pack-a", "brute-force"⟩, ⟨"pack-b", "brute-force"⟩]
  assignments := [⟨"pack-a", "child", true, threshold 5⟩, ⟨"pack-b", "child", true, threshold 10⟩]
  overrides := []
  rules_nodup := by decide
  packRules_nodup := by decide
  assignments_nodup := by decide
  overrides_nodup := by decide

theorem twoThresholds_covers {packId : PackId} {n : ℕ}
    (hassigned : ⟨packId, "child", true, threshold n⟩ ∈ twoThresholds.assignments)
    (hcontains : ⟨packId, "brute-force"⟩ ∈ twoThresholds.packRules) :
    Covers twoThresholds "child" defaultOptions bruteForceRule packId (threshold n) :=
  ⟨rfl, ⟨_, hassigned, rfl, rfl, rfl, rfl⟩, hcontains, List.mem_cons_self, by decide⟩

/-- The threshold is that of the pack whose row comes last. -/
theorem twoThresholds_undetermined : ¬ Determined twoThresholds "child" defaultOptions := by
  intro h
  have hfirst : Covers twoThresholds "child" defaultOptions bruteForceRule "pack-a" (threshold 5) :=
    twoThresholds_covers List.mem_cons_self List.mem_cons_self
  have hsecond : Covers twoThresholds "child" defaultOptions bruteForceRule "pack-b"
      (threshold 10) :=
    twoThresholds_covers (List.mem_cons_of_mem _ List.mem_cons_self)
      (List.mem_cons_of_mem _ List.mem_cons_self)
  have hexcluded : ¬ Excluded twoThresholds "child" bruteForceRule.id := by
    rintro ⟨ov, hov, -⟩
    cases hov
  rcases packsAgree_of_same h.same _ _ _ _ _ hfirst hsecond hexcluded "threshold" 5 10 rfl rfl with
    heq | ⟨ov, hov, -⟩
  · exact absurd heq (by decide)
  · cases hov

end RuleResolver
