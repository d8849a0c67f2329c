import AiSOC.AwsPermissions

/-! # Explicit denials

Which actions the resolver reports, in terms of the policies of the snapshot, and when no
applicable `Deny` pattern matches one of them. Patterns of both effects are expanded against
the catalogue before the sets are subtracted, so a denial only takes effect on the actions
its own expansion contains. -/
namespace AwsDenials

open AwsPermissions
open GlobPattern (globTokens fnmatchcase language matchTokens)

/-- `*` stands for any text and `?` for one character. -/
def IamMatches (pattern action : String) : Prop :=
  action.toList ∈ language (globTokens pattern.toList)

instance (pattern action : String) : Decidable (IamMatches pattern action) :=
  decidable_of_iff _ GlobPattern.matchTokens_iff

/-- The policies that allow and deny, with whether they name the principals they are for. -/
def grantingPolicies (snap : Snapshot) (principal : Principal) (resource : Resource) :
    List (Policy × Bool) :=
  ((snap.identityPolicyRefs principal).filterMap fun ref => snap.policiesById ref.1).map
      (·, false) ++
    ((resource.resourcePolicyId.filter fun id => id ≠ "").bind snap.policiesById).toList.map
      (·, true)

def controlPolicies (snap : Snapshot) : List (Policy × Bool) :=
  (snap.scps.filterMap snap.policiesById).map (·, false)

def patternsOf (e : Effect) (call : Call) (policies : List (Policy × Bool)) : List String :=
  policies.flatMap fun policy => policy.1.patterns e call policy.2

/-- The action patterns of every `Deny` statement that applies, whichever policy it is in. -/
def denyPatterns (snap : Snapshot) (principal : Principal) (resource : Resource) :
    List String :=
  patternsOf .deny (callOf principal resource)
    (grantingPolicies snap principal resource ++ controlPolicies snap)

/-- The allow side: granted by a policy and let through by the organisation. -/
def Granted (snap : Snapshot) (principal : Principal) (resource : Resource)
    (catalogue : List String) (action : String) : Prop :=
  (∃ p ∈ patternsOf .allow (callOf principal resource) (grantingPolicies snap principal resource),
    Catches catalogue p action) ∧
  (snap.scps ≠ [] →
    ∃ p ∈ patternsOf .allow (callOf principal resource) (controlPolicies snap),
      Catches catalogue p action)

def reported (d : Option ResolvedPermission) : List String :=
  (d.map ResolvedPermission.actions).getD []

/-- No reported action is matched by a pattern that denies it. -/
def DenyWins (snap : Snapshot) (principal : Principal) (resource : Resource)
    (d : Option ResolvedPermission) : Prop :=
  ∀ a ∈ reported d, ∀ p ∈ denyPatterns snap principal resource, ¬ IamMatches p a

/-- Whatever a denial matches of the allow side is in the expansion of some denial. -/
def DenialsExpanded (snap : Snapshot) (principal : Principal) (resource : Resource)
    (catalogue : List String) : Prop :=
  ∀ a, Granted snap principal resource catalogue a →
    (∃ p ∈ denyPatterns snap principal resource, IamMatches p a) →
      ∃ p ∈ denyPatterns snap principal resource, Catches catalogue p a

variable {snap : Snapshot} {principal : Principal} {resource : Resource} {call : Call}
variable {catalogue : List String} {e : Effect} {a : String}

theorem mem_patternsOf {policies : List (Policy × Bool)} :
    (∃ p ∈ patternsOf e call policies, Catches catalogue p a) ↔
      ∃ policy ∈ policies, a ∈ side e (evaluatePolicy policy.1 call catalogue policy.2) := by
  simp only [patternsOf, List.mem_flatMap, mem_evaluatePolicy]
  constructor
  · rintro ⟨p, ⟨policy, hpolicy, hp⟩, hcatch⟩
    exact ⟨policy, hpolicy, p, hp, hcatch⟩
  · rintro ⟨policy, hpolicy, p, hp, hcatch⟩
    exact ⟨p, ⟨policy, hpolicy, hp⟩, hcatch⟩

/-- A loop that adds the policies it finds collects what they hold. -/
theorem mem_foldl_policies {α : Type} {step : Collected → α → Collected}
    {find : α → Option Policy} (h : ∀ c x, (step c x).side e = c.side e ∪
      (find x).elim ∅ fun policy => side e (evaluatePolicy policy call catalogue false))
    (xs : List α) : a ∈ (xs.foldl step ⟨[], ∅, ∅⟩).side e ↔
      ∃ policy ∈ xs.filterMap find, a ∈ side e (evaluatePolicy policy call catalogue false) := by
  have hstart : a ∉ Collected.side e ⟨[], ∅, ∅⟩ := by cases e <;> simp [Collected.side, side]
  rw [mem_foldl_union (g := Collected.side e) h]
  simp only [hstart, false_or, List.mem_filterMap]
  constructor
  · rintro ⟨x, hx, ha⟩
    rcases hfind : find x with _ | policy
    · simp [hfind] at ha
    · rw [hfind] at ha
      exact ⟨policy, ⟨x, hx, hfind⟩, ha⟩
  · rintro ⟨policy, ⟨x, hx, hfind⟩, ha⟩
    refine ⟨x, hx, ?_⟩
    rwa [hfind]

theorem mem_collectIdentity {refs : List (String × Option String)}
    {policiesById : String → Option Policy} :
    a ∈ (collectIdentity refs policiesById call catalogue).side e ↔
      ∃ policy ∈ refs.filterMap fun ref => policiesById ref.1,
        a ∈ side e (evaluatePolicy policy call catalogue false) := by
  refine mem_foldl_policies (fun c ref => ?_) refs
  rcases policiesById ref.1 with _ | policy
  · exact (Finset.union_empty _).symm
  · exact addPolicy_side c _ _ _ _

theorem mem_collectResource {policiesById : String → Option Policy} {c : Collected} :
    a ∈ (collectResource resource policiesById call catalogue c).side e ↔ a ∈ c.side e ∨
      ∃ policy ∈ ((resource.resourcePolicyId.filter fun id => id ≠ "").bind policiesById).toList,
        a ∈ side e (evaluatePolicy policy call catalogue true) := by
  unfold collectResource
  rcases resource.resourcePolicyId.filter fun id => id ≠ "" with _ | policyId
  · simp
  · rcases hpolicy : policiesById policyId with _ | policy
    · simp [hpolicy]
    · simp [hpolicy, addPolicy_side]

theorem mem_collectScps {scpIds : List String} {policiesById : String → Option Policy} :
    a ∈ (collectScps scpIds policiesById call catalogue ⟨[], ∅, ∅⟩).side e ↔
      ∃ policy ∈ scpIds.filterMap policiesById,
        a ∈ side e (evaluatePolicy policy call catalogue false) := by
  refine mem_foldl_policies (fun c scpId => ?_) scpIds
  rcases policiesById scpId with _ | policy
  · exact (Finset.union_empty _).symm
  · exact addScp_side c _ _

theorem mem_reported_decision {scpIds : List String} {policies scps : Collected} :
    a ∈ reported (decision principal resource scpIds policies scps) ↔
      a ∈ policies.allow ∧ (scpIds ≠ [] → a ∈ scps.allow) ∧ ¬ (a ∈ policies.deny ∨ a ∈ scps.deny) := by
  unfold decision
  extract_lets preScpAllow candidateDeny scpBlocked candidateAllow finalActions shadowedDenies
  have hfinal : a ∈ finalActions ↔ a ∈ policies.allow ∧ (scpIds ≠ [] → a ∈ scps.allow) ∧
      ¬ (a ∈ policies.deny ∨ a ∈ scps.deny) := by
    by_cases hscps : scpIds = []
    · simp [finalActions, candidateAllow, candidateDeny, preScpAllow, hscps]
    · simp [finalActions, candidateAllow, candidateDeny, preScpAllow, hscps, and_assoc]
  rw [← hfinal]
  split
  · rename_i hempty
    simp [reported, hempty.1]
  · simp [reported]

theorem mem_collected_granting :
    a ∈ (collectResource resource snap.policiesById call catalogue
        (collectIdentity (snap.identityPolicyRefs principal) snap.policiesById call
          catalogue)).side e ↔
      ∃ p ∈ patternsOf e call (grantingPolicies snap principal resource),
        Catches catalogue p a := by
  rw [mem_collectResource, mem_collectIdentity, mem_patternsOf]
  simp only [grantingPolicies, List.mem_append, List.mem_map, or_and_right, exists_or,
    exists_exists_and_eq_and]

theorem mem_collected_control :
    a ∈ (collectScps snap.scps snap.policiesById call catalogue ⟨[], ∅, ∅⟩).side e ↔
      ∃ p ∈ patternsOf e call (controlPolicies snap), Catches catalogue p a := by
  rw [mem_collectScps, mem_patternsOf]
  simp only [controlPolicies, List.mem_map, exists_exists_and_eq_and]

theorem exists_denyPatterns :
    (∃ p ∈ denyPatterns snap principal resource, Catches catalogue p a) ↔
      (∃ p ∈ patternsOf .deny (callOf principal resource)
        (grantingPolicies snap principal resource), Catches catalogue p a) ∨
      ∃ p ∈ patternsOf .deny (callOf principal resource) (controlPolicies snap),
        Catches catalogue p a := by
  rw [denyPatterns]
  simp only [mem_patternsOf, List.mem_append, or_and_right, exists_or]

/-- Reported is what the allow side grants and no denial's expansion contains. -/
theorem mem_reported_iff {d : Option ResolvedPermission}
    (hcatalogue : serviceCatalogue resource snap.actionCatalogue = .ok catalogue)
    (hd : snap.resolveResource principal resource = .ok d) :
    a ∈ reported d ↔ Granted snap principal resource catalogue a ∧
      ¬ ∃ p ∈ denyPatterns snap principal resource, Catches catalogue p a := by
  unfold Snapshot.resolveResource resolveResource at hd
  rw [hcatalogue] at hd
  cases hd
  rw [mem_reported_decision, exists_denyPatterns, Granted, ← mem_collected_granting,
    ← mem_collected_control, ← mem_collected_granting, ← mem_collected_control, and_assoc]
  rfl

/-- Denials win exactly where their expansions hold whatever they match of the allow side. -/
theorem deny_wins_iff_expanded (snap : Snapshot) (principal : Principal) (resource : Resource)
    {catalogue : List String} {d : Option ResolvedPermission}
    (hcatalogue : serviceCatalogue resource snap.actionCatalogue = .ok catalogue)
    (hd : snap.resolveResource principal resource = .ok d) :
    DenyWins snap principal resource d ↔ DenialsExpanded snap principal resource catalogue := by
  constructor
  · rintro hwins a hgranted ⟨p, hp, hmatch⟩
    by_contra hcatch
    exact hwins a ((mem_reported_iff hcatalogue hd).mpr ⟨hgranted, hcatch⟩) p hp hmatch
  · intro hexpanded a ha p hp hmatch
    obtain ⟨hgranted, hcatch⟩ := (mem_reported_iff hcatalogue hd).mp ha
    exact hcatch (hexpanded a hgranted ⟨p, hp, hmatch⟩)

/-- A plain pattern, with a star or without a question mark, catches in the catalogue what it
matches. -/
theorem catches_of_matches {p : String} (ha : a ∈ catalogue) (hbracket : '[' ∉ p.toList)
    (hany : '*' ∈ p.toList ∨ '?' ∉ p.toList) (h : IamMatches p a) : Catches catalogue p a := by
  unfold Catches
  by_cases hstar : '*' ∈ p.toList
  · rw [if_pos hstar, fnmatchcase, GlobPattern.shellTokens_eq_globTokens hbracket]
    exact ⟨ha, GlobPattern.matchTokens_iff.mpr h⟩
  · rw [if_neg hstar]
    have hany : '?' ∉ p.toList := hany.resolve_left hstar
    rw [IamMatches, GlobPattern.globTokens_literals hstar hany,
      GlobPattern.mem_language_literals] at h
    exact String.toList_inj.mp h

/-- With plain denials and nothing granted beside the catalogue, they are all expanded. -/
theorem denialsExpanded_of_plain
    (hgranted : ∀ a, Granted snap principal resource catalogue a → a ∈ catalogue)
    (hplain : ∀ p ∈ denyPatterns snap principal resource,
      '[' ∉ p.toList ∧ ('*' ∈ p.toList ∨ '?' ∉ p.toList)) :
    DenialsExpanded snap principal resource catalogue := by
  rintro a ha ⟨p, hp, hmatch⟩
  obtain ⟨hbracket, hany⟩ := hplain p hp
  exact ⟨p, hp, catches_of_matches (hgranted a ha) hbracket hany hmatch⟩

def bucket : Resource where
  id := "bucket"
  arn := "arn:aws:s3:::bucket"
  kind := some "s3:bucket"
  service := some "s3"
  serviceActions := ["s3:GetObject", "s3:DeleteObject"]
  resourcePolicyId := none
  context := []

def analyst : Principal where
  id := "analyst"
  arn := "arn:aws:iam::123456789012:user/analyst"
  inlinePolicies := ["p1"]
  attachedPolicies := []
  groups := []
  permissionsBoundary := none

/-- One policy that allows and denies a pattern each. -/
def onePolicy (allow deny : String) : Snapshot where
  principals := [analyst]
  groups := []
  policies := [⟨"p1", none, some ⟨some (.many
    [⟨some "Allow", some (.one allow), none, none, []⟩,
      ⟨some "Deny", some (.one deny), none, none, []⟩])⟩⟩]
  resources := [bucket]
  scps := []
  actionCatalogue := []

theorem onePolicy_denyPatterns (allow deny : String) :
    denyPatterns (onePolicy allow deny) analyst bucket = [deny] := rfl

theorem onePolicy_granted {allow deny : String} :
    Granted (onePolicy allow deny) analyst bucket bucket.serviceActions a ↔
      Catches bucket.serviceActions allow a := by
  have hpatterns : patternsOf .allow (callOf analyst bucket)
      (grantingPolicies (onePolicy allow deny) analyst bucket) = [allow] := rfl
  have hscps : (onePolicy allow deny).scps = [] := rfl
  simp [Granted, hpatterns, hscps]

theorem bucket_catalogue (allow deny : String) :
    serviceCatalogue bucket (onePolicy allow deny).actionCatalogue = .ok bucket.serviceActions :=
  rfl

/-- A denial that the catalogue covers holds. -/
theorem delete_denial_wins : ∃ d,
    (onePolicy "s3:*" "s3:Delete*").resolveResource analyst bucket = .ok d ∧
      DenyWins (onePolicy "s3:*" "s3:Delete*") analyst bucket d := by
  refine ⟨_, rfl, (deny_wins_iff_expanded _ _ _ (bucket_catalogue _ _) rfl).mpr ?_⟩
  refine denialsExpanded_of_plain (fun a ha => ?_) ?_
  · have hcatch := onePolicy_granted.mp ha
    rw [Catches, if_pos (by decide)] at hcatch
    exact hcatch.1
  · rw [onePolicy_denyPatterns]
    decide

/-- An action named literally escapes a denial whose expansion stays within the catalogue. -/
theorem put_escapes_denial : ¬ ∀ (snap : Snapshot) (principal : Principal) (resource : Resource)
    (d : Option ResolvedPermission), snap.resolveResource principal resource = .ok d →
      DenyWins snap principal resource d := by
  intro h
  have hwins := h (onePolicy "s3:PutObject" "s3:Put*") analyst bucket _ rfl
  refine hwins "s3:PutObject" ?_ "s3:Put*" List.mem_cons_self (by decide)
  rw [mem_reported_iff (bucket_catalogue _ _) rfl, onePolicy_granted, onePolicy_denyPatterns]
  simp [Catches, bucket]

end AwsDenials
