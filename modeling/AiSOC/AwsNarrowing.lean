import AiSOC.AwsDenials

/-! # What denials and control policies take away

The control policies of the organisation and every further denial narrow what is reported, and
what they take away of the allow side is shown as shadowed. -/
namespace AwsNarrowing

open AwsPermissions AwsDenials

def shadowed (d : Option ResolvedPermission) : List String :=
  (d.map ResolvedPermission.denyActions).getD []

/-- The policy with one more statement, which denies. -/
def addDeny (position : ℕ) (st : Statement) (policy : Policy) : Policy :=
  { policy with document := some ⟨some (.many
    (policy.statements.insertIdx position { st with effect := some "Deny" }))⟩ }

def addDenyTo (policyId : String) (position : ℕ) (st : Statement) (snap : Snapshot) : Snapshot :=
  { snap with policies := snap.policies.map fun policy =>
      if policy.id = policyId then addDeny position st policy else policy }

/-- Some identity or resource policy allows the action. -/
def AllowedBeforeScps (snap : Snapshot) (principal : Principal) (resource : Resource)
    (catalogue : List String) (action : String) : Prop :=
  ∃ p ∈ patternsOf .allow (callOf principal resource) (grantingPolicies snap principal resource),
    Catches catalogue p action

variable {snap snap' : Snapshot} {principal : Principal} {resource : Resource}
  {catalogue : List String} {call : Call} {e : Effect} {a : String}
  {d : Option ResolvedPermission}

theorem exists_catalogue (hd : snap.resolveResource principal resource = .ok d) :
    ∃ catalogue, serviceCatalogue resource snap.actionCatalogue = .ok catalogue := by
  unfold Snapshot.resolveResource resolveResource at hd
  rcases hcatalogue : serviceCatalogue resource snap.actionCatalogue with error | catalogue
  · rw [hcatalogue] at hd
    cases hd
  · exact ⟨catalogue, rfl⟩

theorem exists_decision
    (hcatalogue : serviceCatalogue resource snap.actionCatalogue = .ok catalogue) :
    ∃ d, snap.resolveResource principal resource = .ok d := by
  unfold Snapshot.resolveResource resolveResource
  rw [hcatalogue]
  exact ⟨_, rfl⟩

theorem mem_shadowed_decision {scpIds : List String} {policies scps : Collected} :
    a ∈ shadowed (decision principal resource scpIds policies scps) ↔ a ∈ policies.allow ∧
      ((a ∈ policies.deny ∨ a ∈ scps.deny) ∨ scpIds ≠ [] ∧ a ∉ scps.allow) := by
  unfold decision
  extract_lets preScpAllow candidateDeny scpBlocked candidateAllow finalActions shadowedDenies
  have hshadowed : a ∈ shadowedDenies ↔ a ∈ policies.allow ∧
      ((a ∈ policies.deny ∨ a ∈ scps.deny) ∨ scpIds ≠ [] ∧ a ∉ scps.allow) := by
    by_cases hscps : scpIds = []
    · simp [shadowedDenies, scpBlocked, candidateDeny, preScpAllow, hscps]
    · simp [shadowedDenies, scpBlocked, candidateDeny, preScpAllow, hscps, and_or_left]
  rw [← hshadowed]
  split
  · rename_i hempty
    simp [shadowed, hempty.2]
  · simp [shadowed]

/-- What is allowed before the control policies is either reported or shadowed. -/
theorem allowed_iff (hcatalogue : serviceCatalogue resource snap.actionCatalogue = .ok catalogue)
    (hd : snap.resolveResource principal resource = .ok d) :
    (AllowedBeforeScps snap principal resource catalogue a ↔ a ∈ reported d ∨ a ∈ shadowed d) ∧
      ¬ (a ∈ reported d ∧ a ∈ shadowed d) := by
  unfold Snapshot.resolveResource resolveResource at hd
  rw [hcatalogue] at hd
  cases hd
  rw [mem_reported_decision, mem_shadowed_decision, AllowedBeforeScps, ← mem_collected_granting]
  constructor
  · rw [← and_or_left, Collected.side, side]
    refine (and_iff_left ?_).symm
    tauto
  · tauto

/-! ## Narrowing -/

theorem reported_without_scps
    (hcatalogue : serviceCatalogue resource snap.actionCatalogue = .ok catalogue)
    (hd : snap.resolveResource principal resource = .ok d) {d₀ : Option ResolvedPermission}
    (hd₀ : ({ snap with scps := [] } : Snapshot).resolveResource principal resource = .ok d₀)
    (ha : a ∈ reported d) : a ∈ reported d₀ := by
  have hcatalogue₀ : serviceCatalogue resource
      ({ snap with scps := [] } : Snapshot).actionCatalogue = .ok catalogue := hcatalogue
  obtain ⟨hgranted, hdenied⟩ := (mem_reported_iff hcatalogue hd).mp ha
  refine (mem_reported_iff hcatalogue₀ hd₀).mpr ⟨⟨hgranted.1, fun h => absurd rfl h⟩, ?_⟩
  rintro ⟨p, hp, hcatch⟩
  refine hdenied ⟨p, ?_, hcatch⟩
  rw [denyPatterns, patternsOf, List.mem_flatMap] at hp ⊢
  obtain ⟨policy, hpolicy, hp⟩ := hp
  refine ⟨policy, ?_, hp⟩
  rw [show controlPolicies { snap with scps := [] } = [] from rfl, List.append_nil] at hpolicy
  exact List.mem_append_left _ hpolicy

/-- The policies that `find'` looks up have at most the patterns of those that `find` does. -/
def Within (e : Effect) (find' find : String → Option Policy) : Prop :=
  ∀ key policy', find' key = some policy' → ∃ policy, find key = some policy ∧
    ∀ call required, policy'.patterns e call required ⊆ policy.patterns e call required

theorem patternsOf_granting (h : Within e snap'.policiesById snap.policiesById)
    (hgroups : snap'.groups = snap.groups) :
    patternsOf e call (grantingPolicies snap' principal resource) ⊆
      patternsOf e call (grantingPolicies snap principal resource) := by
  intro p hp
  rw [patternsOf, List.mem_flatMap] at hp ⊢
  obtain ⟨pair, hpair, hp⟩ := hp
  rw [grantingPolicies, List.mem_append, List.mem_map, List.mem_map] at hpair
  rcases hpair with ⟨policy', hpolicy', rfl⟩ | ⟨policy', hpolicy', rfl⟩
  · obtain ⟨ref, href, hfind⟩ := List.mem_filterMap.mp hpolicy'
    obtain ⟨policy, hpolicy, hpatterns⟩ := h ref.1 policy' hfind
    rw [Snapshot.identityPolicyRefs, hgroups] at href
    refine ⟨(policy, false), ?_, hpatterns call false hp⟩
    exact List.mem_append_left _
      (List.mem_map_of_mem (List.mem_filterMap.mpr ⟨ref, href, hpolicy⟩))
  · obtain ⟨key, hkey, hfind⟩ := Option.bind_eq_some_iff.mp (Option.mem_toList.mp hpolicy')
    obtain ⟨policy, hpolicy, hpatterns⟩ := h key policy' hfind
    refine ⟨(policy, true), ?_, hpatterns call true hp⟩
    refine List.mem_append_right _ (List.mem_map_of_mem (Option.mem_toList.mpr ?_))
    exact Option.bind_eq_some_iff.mpr ⟨key, hkey, hpolicy⟩

theorem patternsOf_control (h : Within e snap'.policiesById snap.policiesById)
    (hscps : snap'.scps = snap.scps) :
    patternsOf e call (controlPolicies snap') ⊆ patternsOf e call (controlPolicies snap) := by
  intro p hp
  rw [patternsOf, List.mem_flatMap] at hp ⊢
  obtain ⟨pair, hpair, hp⟩ := hp
  obtain ⟨policy', hpolicy', rfl⟩ := List.mem_map.mp hpair
  obtain ⟨key, hkey, hfind⟩ := List.mem_filterMap.mp hpolicy'
  obtain ⟨policy, hpolicy, hpatterns⟩ := h key policy' hfind
  rw [hscps] at hkey
  refine ⟨(policy, false), ?_, hpatterns call false hp⟩
  exact List.mem_map_of_mem (List.mem_filterMap.mpr ⟨key, hkey, hpolicy⟩)

/-- Policies that allow no more and deny no less report no more. -/
theorem reported_mono (hallow : Within .allow snap'.policiesById snap.policiesById)
    (hdeny : Within .deny snap.policiesById snap'.policiesById)
    (hgroups : snap'.groups = snap.groups) (hscps : snap'.scps = snap.scps)
    (hcatalogues : snap'.actionCatalogue = snap.actionCatalogue)
    {d' : Option ResolvedPermission} (hd : snap.resolveResource principal resource = .ok d)
    (hd' : snap'.resolveResource principal resource = .ok d') (ha : a ∈ reported d') :
    a ∈ reported d := by
  obtain ⟨catalogue, hcatalogue⟩ := exists_catalogue hd
  have hcatalogue' : serviceCatalogue resource snap'.actionCatalogue = .ok catalogue := by
    rw [hcatalogues]
    exact hcatalogue
  obtain ⟨⟨⟨p, hp, hcatch⟩, hcontrol⟩, hdenied⟩ := (mem_reported_iff hcatalogue' hd').mp ha
  refine (mem_reported_iff hcatalogue hd).mpr ⟨⟨⟨p, ?_, hcatch⟩, ?_⟩, ?_⟩
  · exact patternsOf_granting hallow hgroups hp
  · intro hne
    rw [← hscps] at hne
    obtain ⟨q, hq, hcatch⟩ := hcontrol hne
    exact ⟨q, patternsOf_control hallow hscps hq, hcatch⟩
  · rw [exists_denyPatterns] at hdenied ⊢
    rintro (⟨q, hq, hcatch⟩ | ⟨q, hq, hcatch⟩)
    · exact hdenied (Or.inl ⟨q, patternsOf_granting hdeny hgroups.symm hq, hcatch⟩)
    · exact hdenied (Or.inr ⟨q, patternsOf_control hdeny hscps.symm hq, hcatch⟩)

theorem statements_addDeny (position : ℕ) (st : Statement) (policy : Policy) :
    (addDeny position st policy).statements =
      policy.statements.insertIdx position { st with effect := some "Deny" } := rfl

theorem mem_patterns {policy : Policy} {required : Bool} {p : String} :
    p ∈ policy.patterns e call required ↔ ∃ st ∈ policy.statements,
      st.applies call required = true ∧ st.effectText = e.text ∧ p ∈ asList st.action := by
  simp only [Policy.patterns, List.mem_flatMap, List.mem_filter, Bool.and_eq_true, beq_iff_eq,
    and_assoc]

theorem patterns_addDeny_allow (position : ℕ) (st : Statement) (policy : Policy)
    (required : Bool) : (addDeny position st policy).patterns .allow call required ⊆
      policy.patterns .allow call required := by
  intro p hp
  rw [mem_patterns, statements_addDeny] at hp
  obtain ⟨st', hst', happlies, heffect, hp⟩ := hp
  rw [mem_patterns]
  rcases List.eq_or_mem_of_mem_insertIdx hst' with rfl | hold
  · have hne : "Deny" ≠ "Allow" := by decide
    exact absurd heffect hne
  · exact ⟨st', hold, happlies, heffect, hp⟩

theorem patterns_addDeny_deny (position : ℕ) (st : Statement) (policy : Policy)
    (required : Bool) : policy.patterns .deny call required ⊆
      (addDeny position st policy).patterns .deny call required := by
  intro p hp
  rw [mem_patterns] at hp
  obtain ⟨st', hst', hrest⟩ := hp
  rw [mem_patterns, statements_addDeny]
  refine ⟨st', ?_, hrest⟩
  by_cases hposition : position ≤ policy.statements.length
  · exact (List.mem_insertIdx hposition).mpr (Or.inr hst')
  · rw [List.insertIdx_of_length_lt (by omega)]
    exact hst'

theorem policiesById_addDenyTo (policyId : String) (position : ℕ) (st : Statement)
    (key : String) : (addDenyTo policyId position st snap).policiesById key =
      (snap.policiesById key).map fun policy =>
        if policy.id = policyId then addDeny position st policy else policy := by
  have hid : ∀ policy : Policy,
      (if policy.id = policyId then addDeny position st policy else policy).id = policy.id := by
    intro policy
    split_ifs <;> rfl
  rw [Snapshot.policiesById, Snapshot.policiesById, byId, byId, addDenyTo, ← List.map_reverse,
    List.find?_map]
  congr 2
  funext policy
  rw [Function.comp_apply, hid]

theorem within_addDenyTo_allow (policyId : String) (position : ℕ) (st : Statement) :
    Within .allow (addDenyTo policyId position st snap).policiesById snap.policiesById := by
  intro key policy' hpolicy'
  rw [policiesById_addDenyTo] at hpolicy'
  obtain ⟨policy, hpolicy, rfl⟩ := Option.map_eq_some_iff.mp hpolicy'
  refine ⟨policy, hpolicy, fun call required => ?_⟩
  split_ifs
  · exact patterns_addDeny_allow position st policy required
  · exact List.Subset.refl _

theorem within_addDenyTo_deny (policyId : String) (position : ℕ) (st : Statement) :
    Within .deny snap.policiesById (addDenyTo policyId position st snap).policiesById := by
  intro key policy hpolicy
  refine ⟨if policy.id = policyId then addDeny position st policy else policy, ?_,
    fun call required => ?_⟩
  · rw [policiesById_addDenyTo, hpolicy, Option.map_some]
  · split_ifs
    · exact patterns_addDeny_deny position st policy required
    · exact List.Subset.refl _

theorem denials_only_narrow (snap : Snapshot) (principal : Principal) (resource : Resource)
    (d : Option ResolvedPermission) (hd : snap.resolveResource principal resource = .ok d) :
    (∃ d₀, ({ snap with scps := [] } : Snapshot).resolveResource principal resource = .ok d₀ ∧
      ∀ a ∈ reported d, a ∈ reported d₀) ∧
    (∀ policyId position st, ∃ d',
      (addDenyTo policyId position st snap).resolveResource principal resource = .ok d' ∧
        ∀ a ∈ reported d', a ∈ reported d) ∧
    ∃ catalogue, serviceCatalogue resource snap.actionCatalogue = .ok catalogue ∧
      ∀ a, (AllowedBeforeScps snap principal resource catalogue a ↔
          a ∈ reported d ∨ a ∈ shadowed d) ∧ ¬ (a ∈ reported d ∧ a ∈ shadowed d) := by
  obtain ⟨catalogue, hcatalogue⟩ := exists_catalogue hd
  refine ⟨?_, ?_, catalogue, hcatalogue, fun a => allowed_iff hcatalogue hd⟩
  · obtain ⟨d₀, hd₀⟩ : ∃ d₀,
        ({ snap with scps := [] } : Snapshot).resolveResource principal resource = .ok d₀ :=
      exists_decision hcatalogue
    exact ⟨d₀, hd₀, fun a ha => reported_without_scps hcatalogue hd hd₀ ha⟩
  · intro policyId position st
    obtain ⟨d', hd'⟩ : ∃ d', (addDenyTo policyId position st snap).resolveResource principal
        resource = .ok d' := exists_decision hcatalogue
    exact ⟨d', hd', fun a ha => reported_mono (within_addDenyTo_allow policyId position st)
      (within_addDenyTo_deny policyId position st) rfl rfl rfl hd hd' ha⟩

/-- A denial that is added to a policy of the user. -/
theorem bucket_narrows : ∃ d,
    (onePolicy "s3:*" "s3:Delete*").resolveResource analyst bucket = .ok d ∧
    ∃ d', (addDenyTo "p1" 0 ⟨none, some (.one "s3:Get*"), none, none, []⟩
        (onePolicy "s3:*" "s3:Delete*")).resolveResource analyst bucket = .ok d' ∧
      ∀ a ∈ reported d', a ∈ reported d :=
  ⟨_, rfl, (denials_only_narrow (onePolicy "s3:*" "s3:Delete*") analyst bucket _ rfl).2.1 "p1" 0
    ⟨none, some (.one "s3:Get*"), none, none, []⟩⟩

end AwsNarrowing
