import AiSOC.RuleResolverOrder

/-! # Allowlists of rules and the number of rules

What the resolver gives under an allowlist of rule ids, beside what it gives without one, and how
many rules the counter of the dashboards reports. -/
namespace RuleAllowlist

open RuleResolver

variable {V : Type} {db : Database V} {tenantId : TenantId} {options narrow : Options}
  {p : RuleId → Bool}

/-! ## Narrower options -/

/-- The narrower options admit the rules that `p` picks from the others. -/
structure Narrows (db : Database V) (options narrow : Options) (p : RuleId → Bool) : Prop where
  builtin : narrow.includeBuiltin = options.includeBuiltin
  packs : narrow.includePacks = options.includePacks
  admits : ∀ rule ∈ db.rules, narrow.admits rule = (options.admits rule && p rule.id)

theorem Narrows.directRows (h : Narrows db options narrow p) :
    directRows db tenantId narrow = (directRows db tenantId options).filter fun r => p r.id := by
  rw [RuleResolver.directRows, RuleResolver.directRows, List.filter_filter]
  apply List.filter_congr
  intro rule hrule
  rw [Bool.eq_iff_iff]
  simp only [isDirect, h.builtin, h.admits rule hrule, Bool.and_eq_true, decide_eq_true_eq]
  tauto

theorem Narrows.packRows (h : Narrows db options narrow p) :
    packRows db tenantId narrow = (packRows db tenantId options).filter fun row => p row.2.id := by
  have hjoin (pr : RulePackRule) : joinRule db narrow pr =
      (joinRule db options pr).filter fun row => p row.2.id := by
    rw [joinRule, joinRule, List.filter_map, List.filter_filter]
    congr 1
    apply List.filter_congr
    intro rule hrule
    rw [Bool.eq_iff_iff]
    simp only [h.admits rule hrule, Function.comp_apply, Bool.and_eq_true, decide_eq_true_eq]
    tauto
  rw [RuleResolver.packRows, RuleResolver.packRows, List.filter_flatMap]
  congr 1
  funext pr
  exact hjoin pr

theorem filterKeys_addDirect (resolved : Resolved V) (rule : DetectionRule) :
    (addDirect resolved rule).filterKeys p =
      if p rule.id then addDirect (resolved.filterKeys p) rule else resolved.filterKeys p :=
  OrderedDict.filterKeys_set

theorem filterKeys_addPackRow (paramsOf : PackId → Params V) (resolved : Resolved V)
    (row : PackId × DetectionRule) : (addPackRow paramsOf resolved row).filterKeys p =
      if p row.2.id then addPackRow paramsOf (resolved.filterKeys p) row
      else resolved.filterKeys p := by
  rw [addPackRow, OrderedDict.filterKeys_set]
  split_ifs with hp
  · rw [addPackRow, OrderedDict.get_filterKeys, if_pos hp]
  · rfl

theorem filterKeys_applyOverride (resolved : Resolved V) (ov : RuleOverride V) :
    (applyOverride resolved ov).filterKeys p =
      if p ov.ruleId then applyOverride (resolved.filterKeys p) ov else resolved.filterKeys p := by
  rw [applyOverride, applyOverride, OrderedDict.get_filterKeys]
  by_cases hp : p ov.ruleId = true
  · rw [if_pos hp, if_pos hp]
    cases resolved.get ov.ruleId with
    | none => rfl
    | some rr =>
      dsimp only
      split_ifs
      · exact OrderedDict.filterKeys_erase
      · rw [OrderedDict.filterKeys_set, if_pos hp]
  · rw [if_neg hp]
    cases resolved.get ov.ruleId with
    | none => rfl
    | some rr =>
      dsimp only
      split_ifs
      · exact OrderedDict.filterKeys_erase_of_not hp
      · rw [OrderedDict.filterKeys_set, if_neg hp]

theorem Narrows.withPacks (h : Narrows db options narrow p) :
    withPacks db tenantId narrow = (withPacks db tenantId options).filterKeys p := by
  have hdirect : withDirect db tenantId narrow =
      (withDirect db tenantId options).filterKeys p := by
    rw [withDirect, withDirect, h.directRows,
      OrderedDict.filterKeys_foldl filterKeys_addDirect, OrderedDict.filterKeys_empty]
  rw [RuleResolver.withPacks, RuleResolver.withPacks, h.packs, h.packRows, hdirect]
  split_ifs
  · rw [OrderedDict.filterKeys_foldl (filterKeys_addPackRow _)]
  · rfl

/-- Narrower options give the rules that `p` picks, each as it was and in the same order. -/
theorem Narrows.resolve (h : Narrows db options narrow p) :
    resolveEffectiveRules db tenantId narrow =
      (resolveEffectiveRules db tenantId options).filter fun rr => p rr.id := by
  have hrows : overrideRows db tenantId (RuleResolver.withPacks db tenantId narrow).keys =
      (overrideRows db tenantId (RuleResolver.withPacks db tenantId options).keys).filter
        fun ov => p ov.ruleId := by
    rw [overrideRows, overrideRows, List.filter_filter, h.withPacks]
    apply List.filter_congr
    intro ov _
    rw [Bool.eq_iff_iff]
    simp only [OrderedDict.mem_keys_filterKeys, Bool.and_eq_true, decide_eq_true_eq]
    tauto
  have hfinal : finalRules db tenantId narrow = (finalRules db tenantId options).filterKeys p := by
    rw [finalRules, finalRules, OrderedDict.filterKeys_foldl filterKeys_applyOverride, hrows,
      h.withPacks]
  rw [resolveEffectiveRules_eq, resolveEffectiveRules_eq, hfinal]
  refine OrderedDict.values_filterKeys fun id rr hrr => ?_
  rw [get_finalRules_id hrr]

/-! ## The counter -/

/-- What is counted under a source goes up by one. -/
def countSource (counts : OrderedDict String ℕ) (rr : ResolvedRule V) : OrderedDict String ℕ :=
  counts.set rr.source ((counts.get rr.source).getD 0 + 1)

def allRules (includeBuiltin includePacks : Bool) : Options :=
  { defaultOptions with includeBuiltin := includeBuiltin, includePacks := includePacks
                        onlyActive := false }

def countEffectiveRules (db : Database V) (tenantId : TenantId)
    (includeBuiltin includePacks : Bool) : OrderedDict String ℕ :=
  let rules := resolveEffectiveRules db tenantId (allRules includeBuiltin includePacks)
  let excluded := db.overrides.filter fun ov =>
    ov.childTenantId = tenantId ∧ ov.action = "exclude"
  rules.foldl countSource (.ofList [("total", rules.length), ("tenant", 0), ("builtin", 0),
    ("pack", 0), ("excluded", excluded.length)])

def sources : List String := ["tenant", "builtin", "pack"]

theorem baseOf_source {id : RuleId} {base : ResolvedRule V}
    (h : baseOf db tenantId options id = some base) : base.source ∈ sources := by
  rcases Option.or_eq_some_iff.mp h with hdirect | ⟨-, hpack⟩
  · obtain ⟨rule, -, rfl⟩ := Option.map_eq_some_iff.mp hdirect
    rw [directRule]
    dsimp only
    split_ifs
    · decide
    · decide
  · obtain ⟨row, -, rfl⟩ := Option.map_eq_some_iff.mp hpack
    exact List.mem_cons_of_mem _ (List.mem_cons_of_mem _ List.mem_cons_self)

theorem source_mem {rr : ResolvedRule V} (h : rr ∈ resolveEffectiveRules db tenantId options) :
    rr.source ∈ sources := by
  have hwith {id : RuleId} {rr : ResolvedRule V}
      (hrr : (RuleResolver.withPacks db tenantId options).get id = some rr) :
      rr.source ∈ sources := by
    obtain ⟨base, hbase, hcovered⟩ := baseOf_of_withPacks db tenantId options hrr
    have hsource : (bare rr).source = base.source := by
      rw [hcovered.bare]
    exact hsource ▸ baseOf_source hbase
  have hget := mem_resolveEffectiveRules.mp h
  rw [get_finalRules] at hget
  cases hov : overrideOf db tenantId rr.id with
  | none =>
    rw [hov] at hget
    exact hwith hget
  | some ov =>
    rw [hov] at hget
    obtain ⟨rr', hrr', hslot⟩ := Option.bind_eq_some_iff.mp hget
    unfold overrideSlot at hslot
    split_ifs at hslot
    obtain rfl := Option.some.inj hslot
    have hsource := hwith hrr'
    exact hsource

theorem get_countSource_of_ne {key : String} (rules : List (ResolvedRule V))
    (h : ∀ rr ∈ rules, rr.source ≠ key) (counts : OrderedDict String ℕ) :
    (rules.foldl countSource counts).get key = counts.get key := by
  induction rules generalizing counts with
  | nil => rfl
  | cons rr rules ih =>
    rw [List.foldl_cons, ih fun rr' hrr' => h rr' (List.mem_cons_of_mem _ hrr'), countSource,
      OrderedDict.get_set, if_neg (Ne.symm (h rr List.mem_cons_self))]

theorem countEffectiveRules_total (includeBuiltin includePacks : Bool) :
    (countEffectiveRules db tenantId includeBuiltin includePacks).get "total" =
      some (resolveEffectiveRules db tenantId (allRules includeBuiltin includePacks)).length := by
  have hne : "total" ∉ sources := by decide
  rw [countEffectiveRules, get_countSource_of_ne]
  · rfl
  · intro rr hrr heq
    exact hne (heq ▸ source_mem hrr)

/-! ## The allowlist -/

def withIds (options : Options) (ids : Option (List RuleId)) : Options :=
  { options with ruleIds := ids }

theorem narrows_withIds {ids : List RuleId} (hids : ids ≠ []) :
    Narrows db (withIds options none) (withIds options (some ids)) fun id => id ∈ ids where
  builtin := rfl
  packs := rfl
  admits rule _ := by
    rw [Bool.eq_iff_iff]
    simp only [Options.admits, withIds, idFilter, hids, Bool.and_eq_true, decide_eq_true_eq,
      false_or, and_true]
    tauto

/-- The status of the rule with an id. -/
def statusOf (db : Database V) (id : RuleId) : Option String :=
  (db.rules.find? fun r => r.id = id).map DetectionRule.status

theorem narrows_active (includeBuiltin includePacks : Bool) :
    Narrows db (allRules includeBuiltin includePacks)
      { allRules includeBuiltin includePacks with onlyActive := true }
      fun id => statusOf db id = some "active" where
  builtin := rfl
  packs := rfl
  admits rule hrule := by
    have hfind : (db.rules.find? fun r => r.id = rule.id) = some rule :=
      (OrderedDict.find?_key db.rules_nodup).mpr ⟨hrule, rfl⟩
    rw [statusOf, hfind, Bool.eq_iff_iff]
    simp [Options.admits, allRules, defaultOptions, idFilter, textFilter]

/-- An allowlist restricts the effective rules unless it is empty and there are any. The total of
the counter is the number of all effective rules, which is that of the active ones where no other
is effective. -/
theorem allowlist_restricts_iff (db : Database V) (tenantId : TenantId) (options : Options)
    (ids : List RuleId) (includeBuiltin includePacks : Bool) :
    (resolveEffectiveRules db tenantId (withIds options (some ids)) =
        (resolveEffectiveRules db tenantId (withIds options none)).filter (fun rr => rr.id ∈ ids) ↔
      ids ≠ [] ∨ resolveEffectiveRules db tenantId (withIds options none) = []) ∧
    (countEffectiveRules db tenantId includeBuiltin includePacks).get "total" =
      some (resolveEffectiveRules db tenantId (allRules includeBuiltin includePacks)).length ∧
    ((countEffectiveRules db tenantId includeBuiltin includePacks).get "total" =
        some (resolveEffectiveRules db tenantId
          { allRules includeBuiltin includePacks with onlyActive := true }).length ↔
      ∀ rr ∈ resolveEffectiveRules db tenantId (allRules includeBuiltin includePacks),
        statusOf db rr.id = some "active") := by
  refine ⟨?_, countEffectiveRules_total includeBuiltin includePacks, ?_⟩
  · by_cases hids : ids = []
    · subst hids
      have hsame : resolveEffectiveRules db tenantId (withIds options (some [])) =
          resolveEffectiveRules db tenantId (withIds options none) := by
        have hnarrows : Narrows db (withIds options none) (withIds options (some []))
            fun _ => true :=
          ⟨rfl, rfl, fun rule _ => by simp [Options.admits, withIds, idFilter]⟩
        rw [hnarrows.resolve, List.filter_true]
      rw [hsame]
      simp
    · exact iff_of_true (narrows_withIds hids).resolve (Or.inl hids)
  · rw [countEffectiveRules_total, (narrows_active includeBuiltin includePacks).resolve,
      Option.some.injEq, eq_comm, List.length_filter_eq_length_iff]
    simp only [decide_eq_true_eq]

/-- The platform has one rule. -/
def oneRule : Database ℕ where
  rules := [bruteForceRule]
  packRules := []
  assignments := []
  overrides := []
  rules_nodup := nodup_bruteForceRule
  packRules_nodup := List.nodup_nil
  assignments_nodup := List.nodup_nil
  overrides_nodup := List.nodup_nil

/-- Under an allowlist without ids the rule is given all the same. -/
theorem empty_allowlist_ignored :
    resolveEffectiveRules oneRule "child" (withIds defaultOptions (some [])) ≠
      (resolveEffectiveRules oneRule "child" (withIds defaultOptions none)).filter
        fun rr => rr.id ∈ ([] : List RuleId) := by
  intro h
  have hlength := congrArg List.length h
  exact absurd hlength (by decide)

end RuleAllowlist
