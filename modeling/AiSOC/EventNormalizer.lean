import AiSOC.ByteText
import AiSOC.NestedMaps

/-! # Normalising raw events

A raw event becomes a published one: base fields, the fields that the profile of the connector
copies, the severity, the metadata, the event id, and what the enrichments find. Nested maps of
the payload are shared with the published event. -/
namespace EventNormalizer

open ByteText NestedMaps

structure OcsfProduct where
  name : Bytes
  vendorName : Bytes
  deriving DecidableEq

/-- What a map holds apart from maps. -/
inductive Leaf (A : Type) where
  | nil
  | str (s : Bytes)
  | int (n : ℤ)
  | product (p : OcsfProduct)
  | other (a : A)
  deriving DecidableEq

/-- A value of the payload. -/
inductive Tree (A : Type) where
  | leaf (x : Leaf A)
  | map (members : Bytes → Option (Tree A))

inductive Root where
  | output
  | payload (path : List Bytes)
  deriving DecidableEq

abbrev Maps (A : Type) := Heap Root Bytes (Leaf A)
abbrev Any (A : Type) := Value Root Bytes (Leaf A)

structure RawEvent (A : Type) where
  connectorID : Bytes
  connectorType : Bytes
  tenantID : Bytes
  receivedAt : Bytes
  payload : Bytes → Option (Tree A)
  sourceFormat : Bytes

structure NormalizedEvent (A : Type) where
  id : Bytes
  connectorID : Bytes
  tenantID : Bytes
  ocsfEvent : Maps A
  normalizationVersion : Bytes
  normalizationWarnings : List Bytes

structure ConnectorProfile where
  product : OcsfProduct
  classUID : ℤ
  className : Bytes
  fieldMap : List (Bytes × Bytes)
  severityMap : List (Bytes × ℤ)

inductive NormalizeError where
  | tenantRequired
  | unknownConnectorType (connectorType : Bytes)

def pairs {V W : Type} (f : V → W) (entries : List (String × V)) : List (Bytes × W) :=
  entries.map fun e => (bytes e.1, f e.2)

def profile (name vendor : String) (classUID : ℤ) (className : String)
    (fieldMap : List (String × String)) (severityMap : List (String × ℤ)) : ConnectorProfile where
  product := ⟨bytes name, bytes vendor⟩
  classUID := classUID
  className := bytes className
  fieldMap := pairs bytes fieldMap
  severityMap := pairs id severityMap

def splunkEnterprise : ConnectorProfile :=
  profile "Splunk Enterprise" "Splunk" 4001 "Network Activity"
    [("_time", "time"), ("src", "src_endpoint.ip"), ("dst", "dst_endpoint.ip"),
      ("user", "actor.user.name")] []

def connectorProfiles : List (Bytes × ConnectorProfile) :=
  pairs id
    [("crowdstrike_falcon", profile "Falcon" "CrowdStrike" 2001 "Security Finding"
        [("event_simpleName", "activity_name"), ("ComputerName", "device.name"),
          ("UserName", "actor.user.name"), ("SHA256HashData", "file.fingerprints[0].value"),
          ("timestamp", "time")]
        [("Critical", 5), ("High", 4), ("Medium", 3), ("Low", 2), ("Informational", 1)]),
      ("microsoft_sentinel", profile "Sentinel" "Microsoft" 2002 "Security Finding"
        [("TimeGenerated", "time"), ("AlertName", "message"),
          ("CompromisedEntity", "device.name"), ("Severity", "severity")]
        [("High", 4), ("Medium", 3), ("Low", 2), ("Informational", 1)]),
      ("splunk_enterprise", splunkEnterprise),
      ("okta_system_log", profile "Okta System Log" "Okta" 3002 "Authentication"
        [("published", "time"), ("actor.alternateId", "actor.user.email_addr"),
          ("actor.displayName", "actor.user.name"), ("client.ipAddress", "src_endpoint.ip"),
          ("outcome.result", "status")]
        [("ERROR", 4), ("WARN", 3), ("INFO", 1), ("DEBUG", 1)]),
      ("aws_security_hub", profile "Security Hub" "AWS" 2001 "Security Finding"
        [("UpdatedAt", "time"), ("Title", "message"), ("Description", "raw_data"),
          ("Severity.Label", "severity")]
        [("CRITICAL", 5), ("HIGH", 4), ("MEDIUM", 3), ("LOW", 2), ("INFORMATIONAL", 1)]),
      ("kubernetes_audit", profile "Kubernetes Audit" "Kubernetes" 6003 "API Activity"
        [("auditID", "finding.uid"), ("verb", "activity_name"),
          ("user.username", "actor.user.name"), ("objectRef.resource", "finding.title"),
          ("objectRef.namespace", "cloud.account.uid"), ("objectRef.name", "resource.name"),
          ("sourceIPs.0", "src_endpoint.ip"), ("userAgent", "http_request.user_agent"),
          ("responseStatus.code", "status_code"), ("stage", "status_detail"),
          ("stageTimestamp", "time")]
        [("critical", 5), ("high", 4), ("medium", 3), ("low", 2), ("info", 1),
          ("informational", 1)])]

/-- The settings, what the clock shows at its three readings of a call, the random id, the order in
which the field map is iterated, and what the enrichments find in the event as it is then. -/
structure Env (A T : Type) where
  strict : Bool
  version : Bytes
  parse : Bytes → Bytes → Option T
  formatUTC : T → Bytes → Bytes
  nowTime : T
  nowIngest : T
  nowMetadata : T
  newID : Bytes
  order : List (Bytes × Bytes) → List (Bytes × Bytes)
  order_perm : ∀ entries, (order entries).Perm entries
  marshal : Maps A → Option Bytes
  techniques : Maps A → Option A
  shodan : Maps A → Option A
  vulnerabilities : Maps A → Option A

section
variable {A T : Type}

def child : Tree A → Bytes → Option (Tree A)
  | .map members, k => members k
  | .leaf _, _ => none

def treeAt : Tree A → List Bytes → Option (Tree A)
  | x, [] => some x
  | x, k :: ks => (child x k).bind (treeAt · ks)

/-- The value that lies at a path of the payload. -/
def anyOf (path : List Bytes) : Tree A → Any A
  | .leaf x => .leaf x
  | .map _ => .ref (.base (.payload path))

/-- The maps of the payload. -/
def start (payload : Bytes → Option (Tree A)) : Maps A
  | (.base (.payload path), k) =>
    ⟨(treeAt (.map payload) (path ++ [k])).map (anyOf (path ++ [k])), 0⟩
  | _ => ⟨none, 0⟩

def ocsf : Addr Root Bytes := .base .output

def payloadMap : Addr Root Bytes := .base (.payload [])

def splitPath (path : Bytes) : List Bytes := path.splitOn (byte '.')

/-- `none` is `nil`. -/
@[grind =]
def getNestedField (h : Maps A) (path : Bytes) : Option (Any A) :=
  match lookup h (.ref payloadMap) (splitPath path) with
  | some (.leaf .nil) => none
  | v => v

/-- `raw.Payload[key].(string)` -/
def payloadString (h : Maps A) (key : Bytes) : Option Bytes :=
  match (h (payloadMap, key)).value with
  | some (.leaf (.str s)) => some s
  | _ => none

@[grind =]
def assign (h : Maps A) (key : String) (x : Leaf A) : Maps A := put h ocsf (bytes key) (.leaf x)

def rfc3339 : Bytes := bytes "2006-01-02T15:04:05Z07:00"

def rfc3339Nano : Bytes := bytes "2006-01-02T15:04:05.999999999Z07:00"

def timeFormats : List Bytes :=
  [rfc3339Nano, rfc3339, bytes "2006-01-02T15:04:05.000Z", bytes "2006-01-02T15:04:05Z",
    bytes "2006-01-02 15:04:05", bytes "01/02/2006 15:04:05"]

variable (env : Env A T)

def normalizeTime (t : Bytes) : Bytes :=
  match timeFormats.findSome? (env.parse · t) with
  | some parsed => env.formatUTC parsed rfc3339Nano
  | none => env.formatUTC env.nowTime rfc3339Nano

/-- The time field of the payload, another one, or when the event was received. -/
def eventTime (raw : RawEvent A) (h : Maps A) : Bytes :=
  match (payloadString h (bytes "time")).filter (· ≠ []) with
  | some t => t
  | none => ((payloadString h (bytes "timestamp")).filter (· ≠ [])).getD raw.receivedAt

@[grind =]
def assignBase (profile : ConnectorProfile) (raw : RawEvent A) (h : Maps A) : Maps A :=
  let h := assign h "class_uid" (.int profile.classUID)
  let h := assign h "class_name" (.str profile.className)
  let h := assign h "category_uid" (.int (profile.classUID / 1000))
  let h := assign h "activity_id" (.int 1)
  let h := assign h "time" (.str (normalizeTime env (eventTime raw h)))
  assign h "ingest_time" (.str (env.formatUTC env.nowIngest rfc3339Nano))

/-- One entry of the field map. -/
@[grind =]
def copyField (h : Maps A) (entry : Bytes × Bytes) : Maps A :=
  match getNestedField h entry.1 with
  | some v => setNested h ocsf (splitPath entry.2) v
  | none => h

/-- With the warnings. -/
@[grind =]
def assignSeverity (profile : ConnectorProfile) (h : Maps A) : Maps A × List Bytes :=
  let unknown := assign (assign h "severity_id" (.int 0)) "severity" (.str (bytes "Unknown"))
  match payloadString h (bytes "severity") with
  | some word =>
    match profile.severityMap.lookup word with
    | some id => (assign (assign h "severity_id" (.int id)) "severity" (.str word), [])
    | none => (unknown, [bytes "unmapped severity: " ++ word])
  | none => (unknown, [])

@[grind =]
def assignMetadata (profile : ConnectorProfile) (raw : RawEvent A) (h : Maps A) : Maps A :=
  let metadata := fresh h ocsf (bytes "metadata")
  let h := make h ocsf (bytes "metadata")
  let h := put h metadata (bytes "version") (.leaf (.str env.version))
  let h := put h metadata (bytes "product") (.leaf (.product profile.product))
  let h := put h metadata (bytes "tenant_uid") (.leaf (.str raw.tenantID))
  put h metadata (bytes "ingested_time") (.leaf (.str (env.formatUTC env.nowMetadata rfc3339)))

/-- What the event id is made from; `h` holds the payload as it is then. -/
def eventKey (raw : RawEvent A) (h : Maps A) : Bytes :=
  let key := raw.connectorID ++ byte ':' :: (raw.tenantID ++ byte ':' :: raw.receivedAt)
  match (payloadString h (bytes "id")).filter (· ≠ []) with
  | some id => key ++ byte ':' :: id
  | none => key

/-- `hash` makes the text of a UUID from a key. -/
def generateEventID (hash : Bytes → Bytes) (raw : RawEvent A) (h : Maps A) : Bytes :=
  hash (eventKey raw h)

/-- What is found goes under a key of the event. -/
@[grind =]
def enrich (key : String) (found : Option A) (h : Maps A) : Maps A :=
  match found with
  | some a => assign h key (.other a)
  | none => h

def assignRaw (h : Maps A) : Maps A :=
  match env.marshal h with
  | some text => assign h "raw_data" (.str text)
  | none => h

def enriched (h : Maps A) : Maps A :=
  let h := enrich "mitre_attck" (env.techniques h) h
  let h := enrich "shodan" (env.shodan h) h
  enrich "vulnerability_matches" (env.vulnerabilities h) h

/-- The event before its id is set. -/
@[grind =]
def copied (profile : ConnectorProfile) (raw : RawEvent A) : Maps A :=
  (env.order profile.fieldMap).foldl copyField (assignBase env profile raw (start raw.payload))

@[grind =]
def publish (hash : Bytes → Bytes) (profile : ConnectorProfile) (raw : RawEvent A) :
    NormalizedEvent A :=
  let (h, warnings) := assignSeverity profile (copied env profile raw)
  let h := assignMetadata env profile raw h
  let h := assign h "tenant_uid" (.str raw.tenantID)
  let h := assign h "source_connector_id" (.str raw.connectorID)
  let h := assign h "event_id" (.str (generateEventID hash raw h))
  { id := env.newID
    connectorID := raw.connectorID
    tenantID := raw.tenantID
    ocsfEvent := enriched env (assignRaw env h)
    normalizationVersion := env.version
    normalizationWarnings := warnings }

def normalize (hash : Bytes → Bytes) (raw : RawEvent A) :
    Except NormalizeError (NormalizedEvent A) :=
  if raw.tenantID = [] then .error .tenantRequired
  else
    match connectorProfiles.lookup raw.connectorType with
    | some profile => .ok (publish env hash profile raw)
    | none =>
      if env.strict then .error (.unknownConnectorType raw.connectorType)
      else .ok (publish env hash splunkEnterprise raw)

/-- The event id of a published event. -/
def eventID (event : NormalizedEvent A) : Option (Any A) :=
  (event.ocsfEvent (ocsf, bytes "event_id")).value

end

end EventNormalizer
