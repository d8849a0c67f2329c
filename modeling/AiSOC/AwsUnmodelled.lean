import AiSOC.AwsDenials

/-! # Policy features that the resolver does not model

Statements may have clauses that the resolver never reads, and principals may have session
policies. What it reads is a snapshot without them, and the only note it writes is about the
permissions boundary of the principal. -/
namespace AwsUnmodelled

open AwsPermissions

structure FullStatement where
  read : Statement
  notAction : Option (OneOrMany String)
  notResource : Option (OneOrMany String)
  notPrincipal : Option PrincipalElement

def OneOrMany.map {α β : Type} (f : α → β) : OneOrMany α → OneOrMany β
  | .one a => .one (f a)
  | .many as => .many (as.map f)

structure FullPolicy where
  id : String
  name : Option String
  document : Option (Option (OneOrMany FullStatement))

structure FullPrincipal where
  read : Principal
  sessionPolicies : List FullPolicy

structure Account where
  principals : List FullPrincipal
  groups : List Group
  policies : List FullPolicy
  resources : List Resource
  scps : List String
  actionCatalogue : List (String × List String)

def FullPolicy.read (policy : FullPolicy) : Policy :=
  ⟨policy.id, policy.name,
    policy.document.map fun statement => ⟨statement.map (OneOrMany.map FullStatement.read)⟩⟩

/-- What the resolver reads of the account. -/
def Account.snapshot (account : Account) : Snapshot :=
  ⟨account.principals.map FullPrincipal.read, account.groups,
    account.policies.map FullPolicy.read, account.resources, account.scps,
    account.actionCatalogue⟩

def Account.principal (account : Account) (principalId : String) : Option FullPrincipal :=
  (byId (fun p => p.read.id) account.principals principalId).or
    (byId (fun p => p.read.arn) account.principals principalId)

def Account.resolve (account : Account) (principalId : String) :
    Except ResolverError ResolverResult :=
  AwsPermissions.resolve account.snapshot principalId

/-! ## The features -/

def supportedOperators : List String := ["StringEquals", "StringLike"]

def FullStatement.unmodelled (st : FullStatement) : Bool :=
  st.notAction.isSome || st.notResource.isSome || st.notPrincipal.isSome ||
    st.read.condition.any fun operator => operator.1 ∉ supportedOperators

def FullPolicy.statements (policy : FullPolicy) : List FullStatement :=
  asList policy.document.join

/-- The policies of the principal, of the resources and of the organisation. -/
def Account.applicable (account : Account) (principal : FullPrincipal) : List FullPolicy :=
  let find := byId FullPolicy.id account.policies
  ((account.snapshot.identityPolicyRefs principal.read).filterMap fun ref => find ref.1) ++
    (account.resources.filterMap fun resource =>
      (resource.resourcePolicyId.filter fun id => id ≠ "").bind find) ++
    account.scps.filterMap find

def FullPrincipal.bounded (principal : FullPrincipal) : Bool :=
  principal.read.permissionsBoundary.any fun boundary => boundary ≠ ""

/-- The features that the resolver passes over. -/
def Account.passesOver (account : Account) (principal : FullPrincipal) : Bool :=
  ((account.applicable principal).any fun policy =>
    policy.statements.any FullStatement.unmodelled) || !principal.sessionPolicies.isEmpty

def Account.usesUnmodelled (account : Account) (principal : FullPrincipal) : Bool :=
  principal.bounded || account.passesOver principal

variable {account : Account} {principal : FullPrincipal} {principalId : String}
  {result : ResolverResult}

theorem byId_map {α β : Type} (f : α → β) (name : β → String) (xs : List α) (key : String) :
    byId name (xs.map f) key = (byId (name ∘ f) xs key).map f := by
  rw [byId, byId, ← List.map_reverse, List.find?_map]
  rfl

/-- The resolver finds the same principal. -/
theorem find_principal (account : Account) (principalId : String) :
    (byId Principal.id account.snapshot.principals principalId).or
        (byId Principal.arn account.snapshot.principals principalId) =
      (account.principal principalId).map FullPrincipal.read := by
  rw [Account.snapshot, Account.principal, byId_map, byId_map, Option.map_or]
  rfl

/-- The boundary of the principal is all that is noted. -/
theorem notes_eq (hprincipal : account.principal principalId = some principal)
    (hresult : account.resolve principalId = .ok result) :
    result.notes = if principal.bounded then [boundaryNote] else [] := by
  rw [Account.resolve, AwsPermissions.resolve, find_principal, hprincipal,
    Option.map_some] at hresult
  dsimp only at hresult
  rcases hdecisions : account.snapshot.resources.mapM
      (account.snapshot.resolveResource principal.read) with error | decisions
  · rw [hdecisions] at hresult
    cases hresult
  · rw [hdecisions] at hresult
    obtain rfl := Except.ok.inj hresult
    rfl

theorem flagged_iff (account : Account) (principalId : String) (principal : FullPrincipal)
    (result : ResolverResult) (hprincipal : account.principal principalId = some principal)
    (hresult : account.resolve principalId = .ok result) :
    (account.usesUnmodelled principal = true → result.notes ≠ []) ↔
      principal.bounded = true ∨ account.passesOver principal = false := by
  rw [notes_eq hprincipal hresult, Account.usesUnmodelled, Bool.or_eq_true]
  by_cases hbounded : principal.bounded = true
  · rw [if_pos hbounded]
    exact iff_of_true (fun _ => List.cons_ne_nil _ _) (Or.inl hbounded)
  · rw [if_neg hbounded, or_iff_right hbounded, or_iff_right hbounded, ne_self_iff_false,
      imp_false, Bool.not_eq_true]

def reader : FullPrincipal where
  read := AwsDenials.analyst
  sessionPolicies := []

/-- Everything is allowed, and everything but reading is denied. -/
def readOnly : Account where
  principals := [reader]
  groups := []
  policies := [⟨"p1", none, some (some (.many
    [⟨⟨some "Allow", some (.one "s3:*"), none, none, []⟩, none, none, none⟩,
      ⟨⟨some "Deny", none, none, none, []⟩, some (.one "s3:GetObject"), none, none⟩]))⟩]
  resources := [AwsDenials.bucket]
  scps := []
  actionCatalogue := []

theorem readOnly_reports {d : Option ResolvedPermission}
    (hd : readOnly.snapshot.resolveResource AwsDenials.analyst AwsDenials.bucket = .ok d) :
    "s3:DeleteObject" ∈ AwsDenials.reported d := by
  have hpatterns : AwsDenials.patternsOf .allow (callOf AwsDenials.analyst AwsDenials.bucket)
      (AwsDenials.grantingPolicies readOnly.snapshot AwsDenials.analyst AwsDenials.bucket) =
        ["s3:*"] := rfl
  have hdenials : AwsDenials.denyPatterns readOnly.snapshot AwsDenials.analyst
      AwsDenials.bucket = [] := rfl
  have hcatalogue : serviceCatalogue AwsDenials.bucket readOnly.snapshot.actionCatalogue =
      .ok AwsDenials.bucket.serviceActions := rfl
  rw [AwsDenials.mem_reported_iff hcatalogue hd, hdenials, AwsDenials.Granted, hpatterns]
  refine ⟨⟨⟨"s3:*", List.mem_cons_self, ?_⟩, fun h => absurd rfl h⟩, ?_⟩
  · rw [Catches, if_pos (by decide)]
    decide
  · simp only [List.not_mem_nil, false_and, exists_false, not_false_eq_true]

theorem read_only_unflagged : ∃ result, readOnly.resolve "analyst" = .ok result ∧
    readOnly.usesUnmodelled reader = true ∧ result.notes = [] ∧
      ∃ d ∈ result.decisions, "s3:DeleteObject" ∈ d.actions := by
  obtain ⟨d, hd⟩ : ∃ d,
      readOnly.snapshot.resolveResource AwsDenials.analyst AwsDenials.bucket = .ok d := ⟨_, rfl⟩
  have hreported := readOnly_reports hd
  rcases d with - | d
  · cases hreported
  · refine ⟨⟨"analyst", [d], []⟩, ?_, by decide, rfl, d, List.mem_cons_self, hreported⟩
    change (do
      let decisions ← readOnly.snapshot.resources.mapM
        (readOnly.snapshot.resolveResource AwsDenials.analyst)
      return (⟨"analyst", decisions.filterMap id, []⟩ : ResolverResult)) = _
    rw [show readOnly.snapshot.resources = [AwsDenials.bucket] from rfl, List.mapM_cons, hd]
    rfl

def bounded : FullPrincipal where
  read := { AwsDenials.analyst with
    permissionsBoundary := some "arn:aws:iam::aws:policy/ReadOnlyAccess" }
  sessionPolicies := []

/-- A boundary is noted, whatever else is used. -/
theorem bounded_flagged : ∃ result,
    ({ readOnly with principals := [bounded] } : Account).resolve "analyst" = .ok result ∧
      result.notes ≠ [] :=
  ⟨_, rfl, (flagged_iff { readOnly with principals := [bounded] } "analyst" bounded _ rfl
    rfl).mpr (Or.inl (by decide)) (by decide)⟩

end AwsUnmodelled
