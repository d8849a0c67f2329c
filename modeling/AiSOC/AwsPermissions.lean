import Mathlib.Data.Finset.Sort
import Mathlib.Data.String.Basic
import AiSOC.GlobPattern

/-! # AWS effective permissions

The resolver of a snapshot: which actions a principal may perform on a resource, from the
policies attached to it and its groups, the resource's own policy and the organisation's
service control policies. Policy documents are taken as well-formed: where a string or a
list of strings may stand, nothing else does. -/
namespace AwsPermissions

open GlobPattern (fnmatchcase)

inductive OneOrMany (α : Type) where
  | one (a : α)
  | many (as : List α)
  deriving DecidableEq, Repr

def asList {α : Type} : Option (OneOrMany α) → List α
  | none => []
  | some (.one a) => [a]
  | some (.many as) => as

inductive PrincipalElement where
  | text (s : String)
  | dict (aws : Option (OneOrMany String))
  deriving DecidableEq, Repr

/-- The operators of a condition; `none` stands for one that is not a dictionary. -/
abbrev Condition := List (String × Option (List (String × OneOrMany String)))

structure Statement where
  effect : Option String
  action : Option (OneOrMany String)
  resource : Option (OneOrMany String)
  principal : Option PrincipalElement
  condition : Condition
  deriving DecidableEq, Repr

structure PolicyDocument where
  statement : Option (OneOrMany Statement)
  deriving DecidableEq, Repr

structure Policy where
  id : String
  name : Option String
  document : Option PolicyDocument
  deriving DecidableEq, Repr

structure Group where
  id : String
  inlinePolicies : List String
  attachedPolicies : List String
  deriving DecidableEq, Repr

structure Principal where
  id : String
  arn : String
  inlinePolicies : List String
  attachedPolicies : List String
  groups : List String
  permissionsBoundary : Option String
  deriving DecidableEq, Repr

structure Resource where
  id : String
  arn : String
  kind : Option String
  service : Option String
  serviceActions : List String
  resourcePolicyId : Option String
  context : List (String × String)
  deriving DecidableEq, Repr

structure Snapshot where
  principals : List Principal
  groups : List Group
  policies : List Policy
  resources : List Resource
  scps : List String
  actionCatalogue : List (String × List String)
  deriving DecidableEq, Repr

inductive Effect where
  | allow | deny
  deriving DecidableEq, Repr

structure PolicyChainStep where
  kind : String
  id : String
  name : String
  effect : Effect
  via : Option String
  deriving DecidableEq, Repr

structure ResolvedPermission where
  principalId : String
  resourceId : String
  resourceKind : Option String
  resourceArn : String
  actions : List String
  denyActions : List String
  policyChain : List PolicyChainStep
  deriving DecidableEq, Repr

structure ResolverResult where
  principalId : String
  decisions : List ResolvedPermission
  notes : List String
  deriving DecidableEq, Repr

inductive ResolverError where
  | principalMissing (principalId : String)
  | indexError
  deriving DecidableEq, Repr

def principalMatches (principal : Option PrincipalElement) (principalArn : String) : Bool :=
  match principal with
  | some (.text s) => s = "*"
  | some (.dict aws) =>
    (asList aws).any fun entry => entry = "*" || entry = principalArn || fnmatchcase principalArn entry
  | none => false

def resourceMatches (resource : Option (OneOrMany String)) (resourceArn : String) : Bool :=
  (asList resource).any fun pattern => pattern = "*" || fnmatchcase resourceArn pattern

/-- One operator of a condition; what is not modelled does not match. -/
def operatorMatches (context : List (String × String)) (operator : String)
    (kvs : List (String × OneOrMany String)) : Bool :=
  if operator = "StringEquals" then
    kvs.all fun kv => match context.lookup kv.1 with
      | none => false
      | some supplied => supplied ∈ asList (some kv.2)
  else if operator = "StringLike" then
    kvs.all fun kv => match context.lookup kv.1 with
      | none => false
      | some supplied => (asList (some kv.2)).any (fnmatchcase supplied)
  else false

def conditionMatches (condition : Condition) (context : List (String × String)) : Bool :=
  condition.all fun operator => match operator.2 with
    | none => true
    | some kvs => operatorMatches context operator.1 kvs

/-- A pattern without `*` is taken as it stands; the others are looked up in the catalogue. -/
def expandActions (actions : List String) (catalogue : List String) : Finset String :=
  actions.foldl (fun expanded action =>
    if '*' ∉ action.toList then insert action expanded
    else expanded ∪ (catalogue.filter fun known => fnmatchcase known action).toFinset) ∅

def byId {α : Type} (id : α → String) (xs : List α) (key : String) : Option α :=
  xs.reverse.find? fun x => id x = key

def collectIdentityPolicies (principal : Principal) (groupsById : String → Option Group) :
    List (String × Option String) :=
  principal.inlinePolicies.map (·, none) ++ principal.attachedPolicies.map (·, none) ++
    principal.groups.flatMap fun groupId => match groupsById groupId with
      | none => []
      | some group => group.inlinePolicies.map (·, some groupId) ++
        group.attachedPolicies.map (·, some groupId)

/-- What a policy is evaluated for. -/
structure Call where
  principalArn : String
  resourceArn : String
  context : List (String × String)

def Policy.statements (policy : Policy) : List Statement :=
  asList (policy.document.bind PolicyDocument.statement)

def Statement.applies (st : Statement) (call : Call) (principalMatchRequired : Bool) : Bool :=
  (!principalMatchRequired || principalMatches st.principal call.principalArn) &&
    resourceMatches (some (st.resource.getD (.one "*"))) call.resourceArn &&
    conditionMatches st.condition call.context

def Statement.effectText (st : Statement) : String := st.effect.getD "Allow"

def evaluatePolicy (policy : Policy) (call : Call) (catalogue : List String)
    (principalMatchRequired : Bool) : Finset String × Finset String :=
  policy.statements.foldl (fun acc st =>
    if st.applies call principalMatchRequired then
      let actions := expandActions (asList st.action) catalogue
      if st.effectText = "Allow" then (acc.1 ∪ actions, acc.2)
      else if st.effectText = "Deny" then (acc.1, acc.2 ∪ actions)
      else acc
    else acc) (∅, ∅)

/-- The provenance, the allowed actions and the denied ones. -/
structure Collected where
  chain : List PolicyChainStep
  allow : Finset String
  deny : Finset String

def policyEffect (allow deny : Finset String) : Effect :=
  if deny.Nonempty ∧ ¬ allow.Nonempty then .deny else .allow

/-- A policy that allows and denies nothing here leaves no trace. -/
def Collected.addPolicy (c : Collected) (policyId : String) (policy : Policy) (call : Call)
    (catalogue : List String) (principalMatchRequired : Bool) (via : Option String) :
    Collected :=
  let (allow, deny) := evaluatePolicy policy call catalogue principalMatchRequired
  if allow.Nonempty ∨ deny.Nonempty then
    ⟨c.chain ++ [⟨"policy", policyId, policy.name.getD policyId, policyEffect allow deny, via⟩],
      c.allow ∪ allow, c.deny ∪ deny⟩
  else c

/-- A service control policy; `c.allow` are the actions the organisation allows. -/
def Collected.addScp (c : Collected) (scpId : String) (scp : Policy) (call : Call)
    (catalogue : List String) : Collected :=
  let (allow, deny) := evaluatePolicy scp call catalogue false
  let name := scp.name.getD scpId
  ⟨c.chain ++ (if allow.Nonempty then [⟨"scp", scpId, name, .allow, none⟩] else []) ++
      (if deny.Nonempty then [⟨"scp", scpId, name, .deny, none⟩] else []),
    c.allow ∪ allow, c.deny ∪ deny⟩

def collectIdentity (refs : List (String × Option String))
    (policiesById : String → Option Policy) (call : Call) (catalogue : List String) :
    Collected :=
  refs.foldl (fun c ref => match policiesById ref.1 with
    | none => c
    | some policy => c.addPolicy ref.1 policy call catalogue false ref.2) ⟨[], ∅, ∅⟩

def collectResource (resource : Resource) (policiesById : String → Option Policy) (call : Call)
    (catalogue : List String) (c : Collected) : Collected :=
  match resource.resourcePolicyId.filter fun id => id ≠ "" with
  | none => c
  | some policyId => match policiesById policyId with
    | none => c
    | some policy => c.addPolicy policyId policy call catalogue true none

def collectScps (scpIds : List String) (policiesById : String → Option Policy) (call : Call)
    (catalogue : List String) (c : Collected) : Collected :=
  scpIds.foldl (fun c scpId => match policiesById scpId with
    | none => c
    | some scp => c.addScp scpId scp call catalogue) c

def resourceService (resource : Resource) : Except ResolverError String :=
  match resource.service.filter fun service => service ≠ "" with
  | some service => .ok service
  | none => match (resource.arn.toList.splitOn ':')[2]? with
    | some service => .ok (String.ofList service)
    | none => .error .indexError

def serviceCatalogue (resource : Resource) (actionCatalogue : List (String × List String)) :
    Except ResolverError (List String) := do
  let service ← resourceService resource
  if resource.serviceActions ≠ [] then return resource.serviceActions
  return (actionCatalogue.lookup service).getD []

def callOf (principal : Principal) (resource : Resource) : Call :=
  ⟨principal.arn, resource.arn, resource.context⟩

/-- The decision for one resource from the sets collected for it. -/
def decision (principal : Principal) (resource : Resource) (scpIds : List String)
    (policies scps : Collected) : Option ResolvedPermission :=
  let preScpAllow := policies.allow
  let candidateDeny := policies.deny ∪ scps.deny
  let scpBlocked := if scpIds = [] then ∅ else preScpAllow \ scps.allow
  let candidateAllow := if scpIds = [] then preScpAllow else preScpAllow ∩ scps.allow
  let finalActions := candidateAllow \ candidateDeny
  let shadowedDenies := (preScpAllow ∩ candidateDeny) ∪ scpBlocked
  if finalActions = ∅ ∧ shadowedDenies = ∅ then none
  else some
    { principalId := principal.id
      resourceId := resource.id
      resourceKind := resource.kind
      resourceArn := resource.arn
      actions := finalActions.sort
      denyActions := shadowedDenies.sort
      policyChain := policies.chain ++ scps.chain }

def resolveResource (principal : Principal) (resource : Resource)
    (identityPolicyRefs : List (String × Option String)) (policiesById : String → Option Policy)
    (scpIds : List String) (actionCatalogue : List (String × List String)) :
    Except ResolverError (Option ResolvedPermission) := do
  let catalogue ← serviceCatalogue resource actionCatalogue
  let call := callOf principal resource
  let policies := collectResource resource policiesById call catalogue
    (collectIdentity identityPolicyRefs policiesById call catalogue)
  let scps := collectScps scpIds policiesById call catalogue ⟨[], ∅, ∅⟩
  return decision principal resource scpIds policies scps

def Snapshot.policiesById (snap : Snapshot) : String → Option Policy :=
  byId Policy.id snap.policies

def Snapshot.identityPolicyRefs (snap : Snapshot) (principal : Principal) :
    List (String × Option String) :=
  collectIdentityPolicies principal (byId Group.id snap.groups)

def Snapshot.resolveResource (snap : Snapshot) (principal : Principal) (resource : Resource) :
    Except ResolverError (Option ResolvedPermission) :=
  AwsPermissions.resolveResource principal resource (snap.identityPolicyRefs principal)
    snap.policiesById snap.scps snap.actionCatalogue

def boundaryNote : String :=
  "permissions-boundary present on principal — not modelled; deny-side may over-permit"

def resolve (snap : Snapshot) (principalId : String) : Except ResolverError ResolverResult :=
  match (byId Principal.id snap.principals principalId).or
      (byId Principal.arn snap.principals principalId) with
  | none => .error (.principalMissing principalId)
  | some principal => do
    let decisions ← snap.resources.mapM (snap.resolveResource principal)
    let boundary := principal.permissionsBoundary.any fun boundary => boundary ≠ ""
    return ⟨principalId, decisions.filterMap id, if boundary then [boundaryNote] else []⟩

def Effect.text : Effect → String
  | .allow => "Allow"
  | .deny => "Deny"

def side (e : Effect) (sets : Finset String × Finset String) : Finset String :=
  match e with
  | .allow => sets.1
  | .deny => sets.2

def Collected.side (e : Effect) (c : Collected) : Finset String :=
  AwsPermissions.side e (c.allow, c.deny)

/-- The pattern of an expanded list that an action comes from. -/
def Catches (catalogue : List String) (pattern action : String) : Prop :=
  if '*' ∈ pattern.toList then action ∈ catalogue ∧ fnmatchcase action pattern = true
  else action = pattern

/-- The patterns of the statements of an effect that apply. -/
def Policy.patterns (policy : Policy) (e : Effect) (call : Call)
    (principalMatchRequired : Bool) : List String :=
  (policy.statements.filter fun st =>
    st.applies call principalMatchRequired && st.effectText == e.text).flatMap
      fun st => asList st.action

variable {call : Call} {catalogue : List String} {e : Effect} {a : String}

theorem mem_foldl_union {α β : Type} {step : β → α → β} {g : β → Finset String}
    {f : α → Finset String} (h : ∀ b x, g (step b x) = g b ∪ f x) (xs : List α) (b : β) :
    a ∈ g (xs.foldl step b) ↔ a ∈ g b ∨ ∃ x ∈ xs, a ∈ f x := by
  induction xs generalizing b with
  | nil => simp
  | cons x xs ih =>
    rw [List.foldl_cons, ih, h, Finset.mem_union, or_assoc]
    simp

theorem mem_expandActions {actions : List String} :
    a ∈ expandActions actions catalogue ↔ ∃ p ∈ actions, Catches catalogue p a := by
  unfold expandActions
  refine (mem_foldl_union (g := id) (f := fun action => if '*' ∉ action.toList then {action}
    else (catalogue.filter fun known => fnmatchcase known action).toFinset) ?_ _ _).trans ?_
  · intro expanded action
    by_cases hstar : '*' ∈ action.toList
    · simp [hstar]
    · simp [hstar]
  · simp only [id, Finset.notMem_empty, false_or]
    refine exists_congr fun p => and_congr_right fun _ => ?_
    unfold Catches
    by_cases hstar : '*' ∈ p.toList
    · simp [hstar]
    · simp [hstar]

theorem mem_evaluatePolicy {policy : Policy} {required : Bool} :
    a ∈ side e (evaluatePolicy policy call catalogue required) ↔
      ∃ p ∈ policy.patterns e call required, Catches catalogue p a := by
  unfold evaluatePolicy
  rw [mem_foldl_union (g := side e) (f := fun st =>
    if st.applies call required && st.effectText == e.text then
      expandActions (asList st.action) catalogue else ∅)]
  · have hstart : a ∉ side e (∅, ∅) := by cases e <;> simp [side]
    simp only [hstart, false_or, Policy.patterns, List.mem_flatMap, List.mem_filter]
    constructor
    · rintro ⟨st, hst, ha⟩
      split at ha
      · rename_i happlies
        obtain ⟨p, hp, hcatch⟩ := mem_expandActions.mp ha
        exact ⟨p, ⟨st, ⟨hst, happlies⟩, hp⟩, hcatch⟩
      · simp at ha
    · rintro ⟨p, ⟨st, ⟨hst, happlies⟩, hp⟩, hcatch⟩
      refine ⟨st, hst, ?_⟩
      rw [if_pos happlies]
      exact mem_expandActions.mpr ⟨p, hp, hcatch⟩
  · intro acc st
    by_cases happlies : st.applies call required = true
    · by_cases hallow : st.effectText = "Allow"
      · cases e <;> simp [happlies, hallow, side, Effect.text]
      · by_cases hdeny : st.effectText = "Deny"
        · cases e <;> simp [happlies, hdeny, side, Effect.text]
        · cases e <;> simp [happlies, hallow, hdeny, side, Effect.text]
    · simp [happlies]

/-- A policy without a trace adds nothing to the sets. -/
theorem addPolicy_side (c : Collected) (policyId : String) (policy : Policy) (required : Bool)
    (via : Option String) : (c.addPolicy policyId policy call catalogue required via).side e =
      c.side e ∪ side e (evaluatePolicy policy call catalogue required) := by
  unfold Collected.addPolicy
  dsimp only
  split
  · cases e <;> rfl
  · rename_i hempty
    obtain ⟨hallow, hdeny⟩ := not_or.mp hempty
    rw [Finset.not_nonempty_iff_eq_empty] at hallow hdeny
    cases e <;> simp [side, hallow, hdeny]

theorem addScp_side (c : Collected) (scpId : String) (scp : Policy) :
    (c.addScp scpId scp call catalogue).side e =
      c.side e ∪ side e (evaluatePolicy scp call catalogue false) := by
  cases e <;> rfl

end AwsPermissions
