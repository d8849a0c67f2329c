import Mathlib.Data.List.Infix

/-! # Graph projection of OCSF events

The extractors append nodes and edges to the projection of one event. Every getter answers
"" where the field is absent or is not a text, so no event is rejected. -/
namespace GraphExtractor

/-- A decoded JSON value as the interface values of the ingest service hold it. The two
slice types that a list of objects can have are told apart. -/
inductive Value where
  | null
  | bool (b : Bool)
  | number (literal : String)
  | str (s : String)
  | list (xs : List Value)
  | maps (ms : List (List (String × Value)))
  | map (m : List (String × Value))

abbrev Object := List (String × Value)

/-- Library functions whose tables and formats play no part in the results. -/
structure Runtime where
  lower : Char → Char
  parseRFC3339 : String → Option Int
  formatRFC3339Nano : Int → String

def Runtime.toLower (rt : Runtime) (s : String) : String :=
  String.ofList (s.toList.map rt.lower)

def contains (s sub : String) : Bool := decide (sub.toList <:+: s.toList)

def hasPrefix (s pre : String) : Bool := pre.toList.isPrefixOf s.toList

inductive NodeLabel where
  | identity | permission | role | policy | resource | configuration | endpoint | user
  | serviceAccount | repo | container | image | networkPath | saasApp | alert | case
  | detection
  deriving DecidableEq, Repr

def NodeLabel.text : NodeLabel → String
  | .identity => "Identity"
  | .permission => "Permission"
  | .role => "Role"
  | .policy => "Policy"
  | .resource => "Resource"
  | .configuration => "Configuration"
  | .endpoint => "Endpoint"
  | .user => "User"
  | .serviceAccount => "ServiceAccount"
  | .repo => "Repo"
  | .container => "Container"
  | .image => "Image"
  | .networkPath => "NetworkPath"
  | .saasApp => "SaaSApp"
  | .alert => "Alert"
  | .case => "Case"
  | .detection => "Detection"

inductive RelType where
  | assumedBy | hasPermission | grants | owns | configuredAs | deployedFrom | accesses
  | peerOf | triggered | occurredOn | memberOf | deploys | readsFrom | writesTo
  | effectivePermission
  deriving DecidableEq, Repr

def RelType.text : RelType → String
  | .assumedBy => "ASSUMED_BY"
  | .hasPermission => "HAS_PERMISSION"
  | .grants => "GRANTS"
  | .owns => "OWNS"
  | .configuredAs => "CONFIGURED_AS"
  | .deployedFrom => "DEPLOYED_FROM"
  | .accesses => "ACCESSES"
  | .peerOf => "PEER_OF"
  | .triggered => "TRIGGERED"
  | .occurredOn => "OCCURRED_ON"
  | .memberOf => "MEMBER_OF"
  | .deploys => "DEPLOYS"
  | .readsFrom => "READS_FROM"
  | .writesTo => "WRITES_TO"
  | .effectivePermission => "EFFECTIVE_PERMISSION"

structure Node where
  label : NodeLabel
  naturalKey : String
  tenantID : String
  properties : Object

structure Edge where
  type : RelType
  fromLabel : NodeLabel
  fromKey : String
  toLabel : NodeLabel
  toKey : String
  properties : Object

/-- `ts` counts nanoseconds from the zero time; an empty `snapshotID` means that no snapshot
was taken. -/
structure Event where
  eventID : String
  tenantID : String
  ts : Int
  nodes : List Node
  edges : List Edge
  snapshotID : String

def Event.addNode (ev : Event) (label : NodeLabel) (key : String) (properties : Object) : Event :=
  { ev with nodes := ev.nodes ++ [⟨label, key, ev.tenantID, properties⟩] }

def Event.addEdge (ev : Event) (e : Edge) : Event := { ev with edges := ev.edges ++ [e] }

def walk : Value → List String → Option Value
  | cur, [] => some cur
  | .map m, p :: ps => (m.lookup p).bind fun v => walk v ps
  | _, _ :: _ => none

/-- The dotted path is given as its parts. -/
def getString (m : Object) (path : List String) : String :=
  match walk (.map m) path with
  | some (.str s) => s
  | _ => ""

/-- `"<kind>:<tenant>:<name>"`. -/
def tenantKey (kind tenant name : String) : String := kind ++ ":" ++ tenant ++ ":" ++ name

def extractGeneric (ev : Event) (ocsf : Object) : Event :=
  let name := getString ocsf ["actor", "user", "name"]
  let ev := if name = "" then ev else
    ev.addNode .user (tenantKey "user" ev.tenantID name)
      [("name", .str name), ("email", .str (getString ocsf ["actor", "user", "email_addr"]))]
  let dev := getString ocsf ["device", "name"]
  let ev := if dev = "" then ev else
    ev.addNode .endpoint (tenantKey "endpoint" ev.tenantID dev) [("name", .str dev)]
  let srcIP := getString ocsf ["src_endpoint", "ip"]
  let ev := if srcIP = "" then ev else
    ev.addNode .networkPath (tenantKey "netpath" ev.tenantID srcIP)
      [("src_ip", .str srcIP), ("role", .str "src")]
  let dstIP := getString ocsf ["dst_endpoint", "ip"]
  if dstIP = "" then ev else
    ev.addNode .networkPath (tenantKey "netpath" ev.tenantID dstIP)
      [("dst_ip", .str dstIP), ("role", .str "dst")]

/-- One element of the findings' `Resources`. -/
def extractAWSResource (ocsf : Object) (actorKey : String) (ev : Event) : Value → Event
  | .map rmap =>
    let arn := if getString rmap ["Id"] = "" then getString rmap ["ARN"]
      else getString rmap ["Id"]
    if arn = "" then ev
    else
      let key := tenantKey "resource" ev.tenantID arn
      let ev := ev.addNode .resource key
        [("arn", .str arn), ("type", .str (getString rmap ["Type"])),
          ("region", .str (getString rmap ["Region"])), ("provider", .str "aws")]
      let ev := if actorKey = "" then ev else
        ev.addEdge ⟨.owns, .user, actorKey, .resource, key, []⟩
      let alertID := getString ocsf ["event_id"]
      if alertID = "" then ev
      else
        let alertKey := tenantKey "alert" ev.tenantID alertID
        (ev.addNode .alert alertKey
          [("title", .str (getString ocsf ["message"])),
            ("severity", .str (getString ocsf ["severity"]))]).addEdge
          ⟨.occurredOn, .alert, alertKey, .resource, key, []⟩
  | _ => ev

def extractFromAWS (ev : Event) (ocsf : Object) : Event :=
  match ocsf.lookup "Resources" with
  | some (.list (r :: rs)) =>
    let actor := getString ocsf ["actor", "user", "name"]
    let actorKey := if actor = "" then "" else tenantKey "user" ev.tenantID actor
    let ev := if actor = "" then ev else
      ev.addNode .user actorKey [("name", .str actor), ("provider", .str "aws")]
    (r :: rs).foldl (extractAWSResource ocsf actorKey) ev
  | _ => extractGeneric ev ocsf

/-- The verbs that mutate a repository. -/
def mutatingVerbs : List String := ["create", "delete", "push", "merge", "update"]

def extractFromGitHub (rt : Runtime) (ev : Event) (ocsf : Object) : Event :=
  let actor := getString ocsf ["actor", "user", "name"]
  let repo := if getString ocsf ["repo", "full_name"] = "" then getString ocsf ["repo"]
    else getString ocsf ["repo", "full_name"]
  let action := rt.toLower (getString ocsf ["action"])
  let actorKey := if actor = "" then "" else tenantKey "user" ev.tenantID actor
  let ev := if actor = "" then ev else
    ev.addNode .user actorKey [("name", .str actor), ("provider", .str "github")]
  if repo = "" then ev
  else
    let repoKey := tenantKey "repo" ev.tenantID repo
    let ev := ev.addNode .repo repoKey [("full_name", .str repo), ("provider", .str "github")]
    if actorKey = "" then ev
    else
      let rel := if action ≠ "" ∧ mutatingVerbs.any (contains action) then RelType.writesTo
        else .readsFrom
      ev.addEdge ⟨rel, .user, actorKey, .repo, repoKey, [("action", .str action)]⟩

def extractFromOkta (ev : Event) (ocsf : Object) : Event :=
  let email := getString ocsf ["actor", "user", "email_addr"]
  let identityID := if getString ocsf ["actor", "id"] = "" then email
    else getString ocsf ["actor", "id"]
  let userName := if getString ocsf ["actor", "user", "name"] = "" then email
    else getString ocsf ["actor", "user", "name"]
  let idKey := if identityID = "" then "" else tenantKey "identity" ev.tenantID identityID
  let ev := if identityID = "" then ev else
    ev.addNode .identity idKey [("id", .str identityID), ("provider", .str "okta")]
  let userKey := if userName = "" then "" else tenantKey "user" ev.tenantID userName
  let ev := if userName = "" then ev else
    ev.addNode .user userKey [("name", .str userName), ("provider", .str "okta")]
  let ev := if idKey = "" ∨ userKey = "" then ev else
    ev.addEdge ⟨.assumedBy, .identity, idKey, .user, userKey, []⟩
  let srcIP := getString ocsf ["src_endpoint", "ip"]
  let ev := if srcIP = "" then ev else
    let key := tenantKey "netpath" ev.tenantID srcIP
    let ev := ev.addNode .networkPath key [("src_ip", .str srcIP)]
    if userKey = "" then ev else ev.addEdge ⟨.accesses, .user, userKey, .networkPath, key, []⟩
  let app := getString ocsf ["target", "app", "name"]
  if app = "" then ev
  else
    let appKey := tenantKey "saasapp" ev.tenantID app
    let ev := ev.addNode .saasApp appKey [("name", .str app), ("provider", .str "okta")]
    if userKey = "" then ev else ev.addEdge ⟨.accesses, .user, userKey, .saasApp, appKey, []⟩

/-- The edge always leaves a `:User`, also when the node added is a `:ServiceAccount`. -/
def extractFromKubernetes (ev : Event) (ocsf : Object) : Event :=
  let user := getString ocsf ["actor", "user", "name"]
  let verb := getString ocsf ["activity_name"]
  let resource := getString ocsf ["resource", "name"]
  let resType := getString ocsf ["finding", "title"]
  let ns := getString ocsf ["cloud", "account", "uid"]
  let userKey := if user = "" then "" else tenantKey "user" ev.tenantID user
  let ev := if user = "" then ev else
    let label := if hasPrefix user "system:serviceaccount:" then NodeLabel.serviceAccount
      else .user
    ev.addNode label userKey [("name", .str user), ("provider", .str "kubernetes")]
  let ev := if resource = "" then ev else
    let key := tenantKey "k8sres" ev.tenantID (ns ++ "/" ++ resType ++ "/" ++ resource)
    let ev := ev.addNode .resource key
      [("name", .str resource), ("type", .str resType), ("namespace", .str ns),
        ("provider", .str "kubernetes")]
    if userKey = "" then ev else
      ev.addEdge ⟨.accesses, .user, userKey, .resource, key, [("verb", .str verb)]⟩
  let srcIP := getString ocsf ["src_endpoint", "ip"]
  if srcIP = "" then ev else
    ev.addNode .networkPath (tenantKey "netpath" ev.tenantID srcIP) [("src_ip", .str srcIP)]

def isActor (label : NodeLabel) : Bool :=
  label = .user || label = .serviceAccount || label = .identity

/-- The node a technique hangs off: the first actor, else the first alert. An actor with an
empty key does not count. -/
def mitreSource (nodes : List Node) : Option (NodeLabel × String) :=
  let actor := (nodes.find? fun n => isActor n.label).filter fun n => n.naturalKey ≠ ""
  let alert := (nodes.find? fun n => n.label = .alert).filter fun n => n.naturalKey ≠ ""
  (actor.or alert).map fun n => (n.label, n.naturalKey)

/-- The key of a technique names no tenant. -/
def extractTechnique (source : Option (NodeLabel × String)) (ev : Event) (tmap : Object) : Event :=
  let tid := getString tmap ["technique_id"]
  if tid = "" then ev
  else
    let key := "detection:mitre:" ++ tid
    let ev := ev.addNode .detection key
      [("mitre_technique_id", .str tid),
        ("mitre_technique_name", .str (getString tmap ["technique_name"])),
        ("url", .str (getString tmap ["url"]))]
    match source with
    | some (fromLabel, fromKey) => ev.addEdge ⟨.triggered, fromLabel, fromKey, .detection, key, []⟩
    | none => ev

/-- The elements that are objects; both slice types are accepted. -/
def techniques (ocsf : Object) : List Object :=
  match ocsf.lookup "mitre_attck" with
  | some (.list xs) => xs.filterMap fun | .map m => some m | _ => none
  | some (.maps ms) => ms
  | _ => []

def extractMITRE (ev : Event) (ocsf : Object) : Event :=
  (techniques ocsf).foldl (extractTechnique (mitreSource ev.nodes)) ev

def parseTime (rt : Runtime) (s : String) : Int :=
  if s = "" then 0 else (rt.parseRFC3339 s).getD 0

def extractConnector (rt : Runtime) (connectorType : String) (ev : Event) (ocsf : Object) :
    Event :=
  match rt.toLower connectorType with
  | "aws_security_hub" => extractFromAWS ev ocsf
  | "github_audit" => extractFromGitHub rt ev ocsf
  | "okta_system_log" => extractFromOkta ev ocsf
  | "kubernetes_audit" => extractFromKubernetes ev ocsf
  | _ => extractGeneric ev ocsf

def extractFromOCSF (rt : Runtime) (now : Int) (eventID tenantID connectorType : String)
    (ocsf : Option Object) : Option Event :=
  ocsf.bind fun ocsf =>
    let parsed := parseTime rt (getString ocsf ["time"])
    let ts := if parsed = 0 then now else parsed
    let ev := extractConnector rt connectorType ⟨eventID, tenantID, ts, [], [], ""⟩ ocsf
    let ev := extractMITRE ev ocsf
    if ev.nodes = [] ∧ ev.edges = [] then none else some ev

/-- The key prefixes in use for a label. -/
def keyKinds : NodeLabel → List String
  | .user | .serviceAccount => ["user"]
  | .endpoint => ["endpoint"]
  | .networkPath => ["netpath"]
  | .resource => ["resource", "k8sres"]
  | .alert => ["alert"]
  | .repo => ["repo"]
  | .identity => ["identity"]
  | .saasApp => ["saasapp"]
  | _ => []

/-- The key of a node names its tenant, unless it is a technique. -/
def KeyScoped (tenant : String) (n : Node) : Prop :=
  (∃ kind ∈ keyKinds n.label, ∃ name, n.naturalKey = tenantKey kind tenant name) ∨
    (n.label = .detection ∧ ∃ tid, n.naturalKey = "detection:mitre:" ++ tid)

structure Scoped (tenant : String) (ev : Event) : Prop where
  tenant_eq : ev.tenantID = tenant
  nodes : ∀ n ∈ ev.nodes, n.tenantID = tenant ∧ KeyScoped tenant n

theorem scoped_empty (eventID tenantID : String) (ts : Int) :
    Scoped tenantID ⟨eventID, tenantID, ts, [], [], ""⟩ where
  tenant_eq := rfl
  nodes _ hn := by cases hn

theorem Scoped.addNode {tenant : String} {ev : Event} (h : Scoped tenant ev) {label : NodeLabel}
    {key : String} {properties : Object}
    (hk : KeyScoped tenant ⟨label, key, tenant, properties⟩) :
    Scoped tenant (ev.addNode label key properties) := by
  refine ⟨h.tenant_eq, fun n hn => ?_⟩
  simp only [Event.addNode, List.mem_append, List.mem_singleton] at hn
  rcases hn with hn | rfl
  · exact h.nodes n hn
  · rw [h.tenant_eq]; exact ⟨rfl, hk⟩

theorem Scoped.addTenantNode {tenant : String} {ev : Event} (h : Scoped tenant ev)
    {label : NodeLabel} {kind name : String} {properties : Object}
    (hk : kind ∈ keyKinds label) :
    Scoped tenant (ev.addNode label (tenantKey kind ev.tenantID name) properties) :=
  h.addNode (Or.inl ⟨kind, hk, name, by rw [h.tenant_eq]⟩)

theorem Scoped.addEdge {tenant : String} {ev : Event} (h : Scoped tenant ev) (e : Edge) :
    Scoped tenant (ev.addEdge e) := ⟨h.tenant_eq, h.nodes⟩

theorem Scoped.ite {tenant : String} {p : Prop} [Decidable p] {a b : Event}
    (ha : Scoped tenant a) (hb : ¬ p → Scoped tenant b) :
    Scoped tenant (if p then a else b) := by
  split
  · exact ha
  · rename_i hp; exact hb hp

theorem extractGeneric_scoped {tenant : String} {ev : Event} (h : Scoped tenant ev)
    (ocsf : Object) : Scoped tenant (extractGeneric ev ocsf) := by
  unfold extractGeneric
  extract_lets name ev₁ dev ev₂ srcIP ev₃ dstIP
  have h₁ : Scoped tenant ev₁ := h.ite fun _ => h.addTenantNode (by decide)
  have h₂ : Scoped tenant ev₂ := h₁.ite fun _ => h₁.addTenantNode (by decide)
  have h₃ : Scoped tenant ev₃ := h₂.ite fun _ => h₂.addTenantNode (by decide)
  exact h₃.ite fun _ => h₃.addTenantNode (by decide)

theorem extractAWSResource_scoped {tenant : String} {ev : Event} (h : Scoped tenant ev)
    (ocsf : Object) (actorKey : String) (r : Value) :
    Scoped tenant (extractAWSResource ocsf actorKey ev r) := by
  cases r with
  | map rmap =>
    unfold extractAWSResource
    dsimp -zeta only
    extract_lets arn key ev₁ ev₂ alertID alertKey
    have h₁ : Scoped tenant ev₁ := h.addTenantNode (by decide)
    have h₂ : Scoped tenant ev₂ := h₁.ite fun _ => h₁.addEdge _
    exact h.ite fun _ => h₂.ite fun _ => (h₂.addTenantNode (by decide)).addEdge _
  | _ => exact h

theorem extractFromAWS_scoped {tenant : String} {ev : Event} (h : Scoped tenant ev)
    (ocsf : Object) : Scoped tenant (extractFromAWS ev ocsf) := by
  unfold extractFromAWS
  split
  · rename_i r rs _
    extract_lets actor actorKey ev₁
    have h₁ : Scoped tenant ev₁ := by
      refine h.ite fun hactor => ?_
      simp only [actorKey, if_neg hactor]
      exact h.addTenantNode (by decide)
    have fold : ∀ (l : List Value) e, Scoped tenant e →
        Scoped tenant (l.foldl (extractAWSResource ocsf actorKey) e) := by
      intro l
      induction l with
      | nil => exact fun _ he => he
      | cons x l ih => exact fun e he => ih _ (extractAWSResource_scoped he ocsf actorKey x)
    exact fold (r :: rs) ev₁ h₁
  · exact extractGeneric_scoped h ocsf

theorem extractFromGitHub_scoped (rt : Runtime) {tenant : String} {ev : Event}
    (h : Scoped tenant ev) (ocsf : Object) : Scoped tenant (extractFromGitHub rt ev ocsf) := by
  unfold extractFromGitHub
  extract_lets actor repo action actorKey ev₁ repoKey ev₂ rel
  have h₁ : Scoped tenant ev₁ := by
    refine h.ite fun hactor => ?_
    simp only [actorKey, if_neg hactor]
    exact h.addTenantNode (by decide)
  have h₂ : Scoped tenant ev₂ := h₁.addTenantNode (by decide)
  exact h₁.ite fun _ => h₂.ite fun _ => h₂.addEdge _

theorem extractFromOkta_scoped {tenant : String} {ev : Event} (h : Scoped tenant ev)
    (ocsf : Object) : Scoped tenant (extractFromOkta ev ocsf) := by
  unfold extractFromOkta
  extract_lets email identityID userName idKey ev₁ userKey ev₂ ev₃ srcIP key ev₄ ev₅ app appKey ev₆
  have h₁ : Scoped tenant ev₁ := by
    refine h.ite fun hid => ?_
    simp only [idKey, if_neg hid]
    exact h.addTenantNode (by decide)
  have h₂ : Scoped tenant ev₂ := by
    refine h₁.ite fun huser => ?_
    simp only [userKey, if_neg huser]
    exact h₁.addTenantNode (by decide)
  have h₃ : Scoped tenant ev₃ := h₂.ite fun _ => h₂.addEdge _
  have h₄ : Scoped tenant ev₄ := h₃.addTenantNode (by decide)
  have h₅ : Scoped tenant ev₅ := h₃.ite fun _ => h₄.ite fun _ => h₄.addEdge _
  have h₆ : Scoped tenant ev₆ := h₅.addTenantNode (by decide)
  exact h₅.ite fun _ => h₆.ite fun _ => h₆.addEdge _

theorem extractFromKubernetes_scoped {tenant : String} {ev : Event} (h : Scoped tenant ev)
    (ocsf : Object) : Scoped tenant (extractFromKubernetes ev ocsf) := by
  unfold extractFromKubernetes
  extract_lets user verb resource resType ns userKey label ev₁ key ev₂ ev₃ srcIP
  have h₁ : Scoped tenant ev₁ := by
    refine h.ite fun huser => ?_
    simp only [userKey, if_neg huser]
    refine h.addTenantNode ?_
    simp only [label]
    split <;> decide
  have h₂ : Scoped tenant ev₂ := h₁.addTenantNode (by decide)
  have h₃ : Scoped tenant ev₃ := h₁.ite fun _ => h₂.ite fun _ => h₂.addEdge _
  exact h₃.ite fun _ => h₃.addTenantNode (by decide)

theorem extractTechnique_scoped {tenant : String} {ev : Event} (h : Scoped tenant ev)
    (source : Option (NodeLabel × String)) (tmap : Object) :
    Scoped tenant (extractTechnique source ev tmap) := by
  unfold extractTechnique
  extract_lets tid key ev₁
  have h₁ : Scoped tenant ev₁ := h.addNode (Or.inr ⟨rfl, tid, rfl⟩)
  refine h.ite fun _ => ?_
  split
  · exact h₁.addEdge _
  · exact h₁

theorem extractMITRE_scoped {tenant : String} {ev : Event} (h : Scoped tenant ev)
    (ocsf : Object) : Scoped tenant (extractMITRE ev ocsf) := by
  unfold extractMITRE
  generalize mitreSource ev.nodes = source
  generalize techniques ocsf = l
  induction l generalizing ev with
  | nil => exact h
  | cons t l ih => exact ih (extractTechnique_scoped h source t)

theorem extractConnector_scoped (rt : Runtime) (connectorType : String) {tenant : String}
    {ev : Event} (h : Scoped tenant ev) (ocsf : Object) :
    Scoped tenant (extractConnector rt connectorType ev ocsf) := by
  unfold extractConnector
  split
  · exact extractFromAWS_scoped h ocsf
  · exact extractFromGitHub_scoped rt h ocsf
  · exact extractFromOkta_scoped h ocsf
  · exact extractFromKubernetes_scoped h ocsf
  · exact extractGeneric_scoped h ocsf

/-- Every node extracted for a tenant carries the tenant and, techniques apart, has it in
its key. -/
theorem extractFromOCSF_scoped {rt : Runtime} {now : Int}
    {eventID tenantID connectorType : String} {ocsf : Option Object} {ev : Event}
    (h : extractFromOCSF rt now eventID tenantID connectorType ocsf = some ev) :
    Scoped tenantID ev := by
  obtain ⟨o, -, h⟩ := Option.bind_eq_some_iff.mp h
  simp only [Option.ite_none_left_eq_some, Option.some.injEq] at h
  obtain ⟨-, rfl⟩ := h
  exact extractMITRE_scoped (extractConnector_scoped rt connectorType (scoped_empty _ _ _) o) o

end GraphExtractor
