import AiSOC.PythonValue

/-! # Sigma rules as detection rules

The conversion of an upstream rule: a dictionary that comes from YAML, of which nothing is known
but that it is one. Texts are lowered and written as YAML by functions of the interpreter and of
its libraries. -/
namespace SigmaRules

open CodeText PythonValue

variable {Ω : Type}

structure Library (Ω : Type) where
  objects : Objects Ω
  lower : Text → Text
  upper : Text → Text
  isDigit : CodePoint → Bool
  safeDump : Dict Ω → Outcome Text

def lookup {β : Type} (table : List (String × β)) (k : Text) : Option β :=
  (table.find? fun e => text e.1 = k).map Prod.snd

/-- The first occurrences. -/
def distinct (ts : List Text) : List Text :=
  ts.foldl (fun seen t => if t ∈ seen then seen else seen ++ [t]) []

/-! ## OCSF classes -/

inductive OcsfClass where
  | fileActivity
  | processActivity
  | securityFinding
  | vulnerabilityFinding
  | complianceFinding
  | detectionFinding
  | authentication
  | networkActivity
  | httpActivity
  | dnsActivity
  deriving DecidableEq, Repr

def OcsfClass.uid : OcsfClass → ℕ
  | .fileActivity => 1001
  | .processActivity => 1007
  | .securityFinding => 2001
  | .vulnerabilityFinding => 2002
  | .complianceFinding => 2003
  | .detectionFinding => 2004
  | .authentication => 3002
  | .networkActivity => 4001
  | .httpActivity => 4002
  | .dnsActivity => 4003

structure OcsfClassRef where
  classUid : ℕ
  className : String
  categoryUid : ℕ
  categoryName : String
  deriving DecidableEq, Repr

/-- Two of the classes have no entry. -/
def classMetadata : OcsfClass → Option (String × ℕ × String)
  | .fileActivity => some ("File Activity", 1, "System Activity")
  | .processActivity => some ("Process Activity", 1, "System Activity")
  | .securityFinding => some ("Security Finding", 2, "Findings")
  | .detectionFinding => some ("Detection Finding", 2, "Findings")
  | .authentication => some ("Authentication", 3, "Identity & Access Management")
  | .networkActivity => some ("Network Activity", 4, "Network Activity")
  | .httpActivity => some ("HTTP Activity", 4, "Network Activity")
  | .dnsActivity => some ("DNS Activity", 4, "Network Activity")
  | .vulnerabilityFinding | .complianceFinding => none

def makeRef (c : OcsfClass) : Outcome OcsfClassRef :=
  match classMetadata c with
  | some (name, categoryUid, categoryName) => .ok ⟨c.uid, name, categoryUid, categoryName⟩
  | none => .error (.other (text "KeyError"))

def productCategory : List ((String × String) × OcsfClass) :=
  [(("windows", "process_creation"), .processActivity),
    (("windows", "process_access"), .processActivity),
    (("windows", "process_termination"), .processActivity),
    (("windows", "image_load"), .processActivity), (("windows", "file_event"), .fileActivity),
    (("windows", "file_change"), .fileActivity), (("windows", "file_delete"), .fileActivity),
    (("windows", "file_rename"), .fileActivity),
    (("windows", "registry_event"), .securityFinding),
    (("windows", "registry_set"), .securityFinding),
    (("windows", "registry_add"), .securityFinding),
    (("windows", "registry_delete"), .securityFinding),
    (("windows", "network_connection"), .networkActivity),
    (("windows", "dns_query"), .dnsActivity), (("windows", "pipe_created"), .securityFinding),
    (("windows", "wmi_event"), .securityFinding),
    (("windows", "create_remote_thread"), .processActivity),
    (("windows", "raw_access_thread"), .processActivity),
    (("windows", "driver_load"), .securityFinding),
    (("linux", "process_creation"), .processActivity), (("linux", "file_event"), .fileActivity),
    (("linux", "network_connection"), .networkActivity),
    (("macos", "process_creation"), .processActivity), (("macos", "file_event"), .fileActivity),
    (("macos", "network_connection"), .networkActivity)]

def productService : List ((String × String) × OcsfClass) :=
  [(("aws", "cloudtrail"), .securityFinding), (("aws", "guardduty"), .securityFinding),
    (("aws", "s3"), .securityFinding), (("azure", "auditlogs"), .securityFinding),
    (("azure", "signinlogs"), .authentication), (("azure", "activitylogs"), .securityFinding),
    (("azure", "riskydetection"), .authentication),
    (("azure", "operationalmetrics"), .securityFinding),
    (("gcp", "google_workspace.admin"), .securityFinding),
    (("gcp", "gcp.audit"), .securityFinding), (("okta", "okta"), .authentication),
    (("microsoft365", "exchange"), .securityFinding),
    (("microsoft365", "threat_management"), .securityFinding),
    (("github", "audit"), .securityFinding), (("kubernetes", "audit"), .securityFinding),
    (("windows", "security"), .authentication), (("windows", "sysmon"), .processActivity),
    (("windows", "powershell"), .processActivity),
    (("windows", "powershell-classic"), .processActivity),
    (("windows", "system"), .securityFinding), (("linux", "auditd"), .processActivity),
    (("linux", "auth"), .authentication), (("linux", "syslog"), .securityFinding),
    (("linux", "sshd"), .authentication)]

def categoryOnly : List (String × OcsfClass) :=
  [("process_creation", .processActivity), ("process_access", .processActivity),
    ("image_load", .processActivity), ("file_event", .fileActivity),
    ("file_change", .fileActivity), ("file_delete", .fileActivity),
    ("network_connection", .networkActivity), ("dns", .dnsActivity), ("dns_query", .dnsActivity),
    ("webserver", .httpActivity), ("proxy", .httpActivity), ("firewall", .networkActivity),
    ("antivirus", .securityFinding), ("authentication", .authentication)]

def lookupPair (table : List ((String × String) × OcsfClass)) (a b : Option Text) :
    Option OcsfClass :=
  match a, b with
  | some a, some b => (table.find? fun e => text e.1.1 = a ∧ text e.1.2 = b).map Prod.snd
  | _, _ => none

/-- `(logsource.get(key) or "").strip().lower() or None` -/
def sourceField (lib : Library Ω) (logsource : Dict Ω) (key : String) : Outcome (Option Text) := do
  match logsource.get (text key) with
  | none => .ok none
  | some v =>
    if ← truthy lib.objects v then
      match v with
      | .str s =>
        let s := lib.lower (strip s)
        .ok (if s = [] then none else some s)
      | _ => .error (.other (text "AttributeError"))
    else .ok none

def mapLogsourceToOcsf (lib : Library Ω) : Option (Dict Ω) → Outcome OcsfClassRef
  | none => makeRef .detectionFinding
  | some logsource => do
    let product ← sourceField lib logsource "product"
    let category ← sourceField lib logsource "category"
    let service ← sourceField lib logsource "service"
    let found := (lookupPair productCategory product category).or
      ((lookupPair productService product service).or (category.bind (lookup categoryOnly)))
    makeRef (found.getD .detectionFinding)

/-! ## Tags, categories and severities -/

def skipStatuses : List String := ["deprecated", "unsupported"]

def quarantineStatuses : List String := ["experimental", "test"]

def severityMap : List (String × String) :=
  [("informational", "low"), ("info", "low"), ("low", "low"), ("medium", "medium"),
    ("high", "high"), ("critical", "critical")]

def tacticLookup : List (String × String) :=
  [("reconnaissance", "TA0043"), ("resource_development", "TA0042"), ("initial_access", "TA0001"),
    ("execution", "TA0002"), ("persistence", "TA0003"), ("privilege_escalation", "TA0004"),
    ("defense_evasion", "TA0005"), ("credential_access", "TA0006"), ("discovery", "TA0007"),
    ("lateral_movement", "TA0008"), ("collection", "TA0009"), ("command_and_control", "TA0011"),
    ("exfiltration", "TA0010"), ("impact", "TA0040")]

def categoryAliases : List (String × String) :=
  [("aws", "cloud"), ("azure", "cloud"), ("gcp", "cloud"), ("m365", "cloud"),
    ("microsoft365", "cloud"), ("okta", "identity"), ("auth", "identity"),
    ("authentication", "identity"), ("windows", "endpoint"), ("linux", "endpoint"),
    ("macos", "endpoint"), ("process_creation", "endpoint"), ("file_event", "endpoint"),
    ("image_load", "endpoint"), ("registry_event", "endpoint"), ("proxy", "network"),
    ("firewall", "network"), ("dns", "network"), ("dns_query", "network"),
    ("network_connection", "network"), ("webserver", "application"), ("web", "application"),
    ("exfiltration", "data-exfil")]

def nativeCategories : List String :=
  ["cloud", "identity", "endpoint", "network", "application", "data-exfil"]

/-- `str(value or default)` for a value that may be missing. -/
def textOr (lib : Library Ω) (default : Text) : Option (Value Ω) → Outcome Text
  | none => .ok default
  | some v => do if ← truthy lib.objects v then lib.objects.str v else .ok default

def textOf (lib : Library Ω) (v : Option (Value Ω)) : Outcome Text := textOr lib [] v

/-- The items that are strings, trimmed and lowered. -/
def tagTexts (lib : Library Ω) (tags : List (Value Ω)) : List Text :=
  tags.filterMap fun
    | .str s => some (lib.lower (strip s))
    | _ => none

/-- What follows the first full stop. -/
def afterStop (t : Text) : Text := (t.dropWhile (· ≠ cp '.')).drop 1

def techniqueOf (lib : Library Ω) (tag : Text) : Option Text :=
  if text "attack.t" <+: tag then
    match lib.upper (afterStop tag) with
    | a :: b :: rest => if a = cp 'T' ∧ lib.isDigit b then some (a :: b :: rest) else none
    | _ => none
  else none

def extractMitreTechniques (lib : Library Ω) (tags : List (Value Ω)) : List Text :=
  distinct ((tagTexts lib tags).filterMap (techniqueOf lib))

def isTechnique (lib : Library Ω) : Text → Bool
  | a :: b :: _ => a = cp 't' ∧ lib.isDigit b
  | _ => false

def tacticOf (lib : Library Ω) (tag : Text) : Option Text :=
  if text "attack." <+: tag then
    let candidate := afterStop tag
    if isTechnique lib candidate then none
    else (lookup tacticLookup (candidate.map fun c => if c = cp '-' then cp '_' else c)).map text
  else none

def extractMitreTactics (lib : Library Ω) (tags : List (Value Ω)) : List Text :=
  distinct ((tagTexts lib tags).filterMap (tacticOf lib))

/-- The first of the keys whose value is a known category. -/
def categoryOf (lib : Library Ω) (logsource : Dict Ω) : List String → Outcome String
  | [] => .ok "endpoint"
  | key :: keys => do
    match ← textOf lib (logsource.get (text key)) with
    | [] => categoryOf lib logsource keys
    | candidate =>
      let candidate := lib.lower (strip candidate)
      let native := nativeCategories.find? fun c => text c = candidate
      match (lookup categoryAliases candidate).or native with
      | some category => .ok category
      | none => categoryOf lib logsource keys

def categoryFor (lib : Library Ω) : Option (Dict Ω) → Outcome String
  | none => .ok "endpoint"
  | some logsource => categoryOf lib logsource ["product", "category", "service"]

def mapSeverity (lib : Library Ω) (level : Option (Value Ω)) : Outcome String := do
  match ← textOf lib level with
  | [] => return "medium"
  | level => return (lookup severityMap (lib.lower (strip level))).getD "medium"

/-! ## The conversion -/

/-- What the caller of an import says about all its rules. -/
structure Origin where
  source : Text
  sourceCommit : Option Text
  licenseId : Text
  licenseUrl : Text
  importedAt : Text
  deriving DecidableEq

structure Provenance where
  source : Text
  sourceId : Text
  sourceCommit : Option Text
  license : Text
  licenseUrl : Text
  importedAt : Text
  importedBy : Text
  upstreamPath : Option Text
  ocsf : OcsfClassRef
  upstreamStatus : Option Text
  deriving DecidableEq

structure NormalisedRule where
  name : Text
  description : Text
  ruleBody : Text
  category : String
  severity : String
  status : Text
  enabled : Bool
  mitreTactics : List Text
  mitreTechniques : List Text
  tags : List Text
  provenance : Provenance
  deriving DecidableEq

/-- `str(raw.get(key) or "").strip()` -/
def field (lib : Library Ω) (raw : Dict Ω) (key : String) : Outcome Text := do
  return strip (← textOf lib (raw.get (text key)))

def upstreamStatus (lib : Library Ω) (raw : Dict Ω) : Outcome Text := do
  return lib.lower (← field lib raw "status")

def orNone (t : Text) : Option Text := if t = [] then none else some t

def quarantined (status : Text) : Bool := quarantineStatuses.any fun s => text s = status

/-- The status that an imported rule starts with. -/
def initialStatus (upstream : Text) : Text :=
  if quarantined upstream then text "disabled" else text "testing"

/-- `raw.get(key) or default`, with the type that the code tests for; a falsy value is the empty
default. -/
def asDict (lib : Library Ω) : Option (Value Ω) → Outcome (Option (Dict Ω))
  | none => .ok (some [])
  | some v => do
    if ← truthy lib.objects v then
      match v with
      | .dict entries => .ok (some entries)
      | _ => .ok none
    else .ok (some [])

/-- A rule with a title and a detection block that upstream still supports. -/
def usable (lib : Library Ω) (raw : Dict Ω) : Outcome Bool := do
  let upstreamId ← field lib raw "id"
  let title ← field lib raw "title"
  if upstreamId = [] ∨ title = [] then return false
  let status ← upstreamStatus lib raw
  if skipStatuses.any fun s => text s = status then return false
  match raw.get (text "detection") with
  | some (.dict (_ :: _)) => return true
  | _ => return false

def buildProvenance (lib : Library Ω) (raw : Dict Ω) (origin : Origin) (upstreamPath : Option Text)
    (ocsf : OcsfClassRef) : Outcome Provenance := do
  return {
    source := origin.source
    sourceId := ← field lib raw "id"
    sourceCommit := orNone (strip (origin.sourceCommit.getD []))
    license := origin.licenseId
    licenseUrl := origin.licenseUrl
    importedAt := origin.importedAt
    importedBy := text "sigma_import_service"
    upstreamPath := upstreamPath
    ocsf := ocsf
    upstreamStatus := orNone (← upstreamStatus lib raw) }

/-- `none` if the rule is to be skipped. -/
def normaliseRule (lib : Library Ω) (raw : Dict Ω) (origin : Origin) (upstreamPath : Option Text) :
    Outcome (Option NormalisedRule) := do
  if !(← usable lib raw) then return none
  let title ← field lib raw "title"
  let status ← upstreamStatus lib raw
  let description ← textOr lib title (raw.get (text "description"))
  let severity ← mapSeverity lib (raw.get (text "level"))
  let tags ← toItemsOrEmpty lib.objects (raw.get (text "tags"))
  let logsource ← asDict lib (raw.get (text "logsource"))
  let category ← categoryFor lib logsource
  let ocsf ← mapLogsourceToOcsf lib logsource
  let ruleBody ← lib.safeDump raw
  let provenance ← buildProvenance lib raw origin upstreamPath ocsf
  return some {
    name := title
    description := strip description
    ruleBody := ruleBody
    category := category
    severity := severity
    status := initialStatus status
    enabled := !quarantined status
    mitreTactics := extractMitreTactics lib tags
    mitreTechniques := extractMitreTechniques lib tags
    tags := tags.filterMap fun | .str s => some s | _ => none
    provenance := provenance }

theorem orNone_getD (t : Text) : (orNone t).getD [] = t := by
  rw [orNone]
  by_cases ht : t = []
  · rw [if_pos ht, ht, Option.getD_none]
  · rw [if_neg ht, Option.getD_some]

theorem buildProvenance_ok {lib : Library Ω} {raw : Dict Ω} {origin : Origin}
    {upstreamPath : Option Text} {ocsf : OcsfClassRef} {p : Provenance}
    (h : buildProvenance lib raw origin upstreamPath ocsf = .ok p) :
    upstreamStatus lib raw = .ok (p.upstreamStatus.getD []) := by
  rw [buildProvenance] at h
  obtain ⟨sourceId, -, h⟩ := bind_ok h
  obtain ⟨status, hstatus, h⟩ := bind_ok h
  cases h
  rw [hstatus, orNone_getD]

/-- An imported rule starts with the status that its upstream status leads to. -/
theorem normaliseRule_status {lib : Library Ω} {raw : Dict Ω} {origin : Origin}
    {upstreamPath : Option Text} {n : NormalisedRule}
    (h : normaliseRule lib raw origin upstreamPath = .ok (some n)) :
    n.status = initialStatus (n.provenance.upstreamStatus.getD []) := by
  rw [normaliseRule] at h
  obtain ⟨isUsable, -, h⟩ := bind_ok h
  cases isUsable with
  | false => cases h
  | true =>
    obtain ⟨title, -, h⟩ := bind_ok h
    obtain ⟨status, hstatus, h⟩ := bind_ok h
    obtain ⟨description, -, h⟩ := bind_ok h
    obtain ⟨severity, -, h⟩ := bind_ok h
    obtain ⟨tags, -, h⟩ := bind_ok h
    obtain ⟨logsource, -, h⟩ := bind_ok h
    obtain ⟨category, -, h⟩ := bind_ok h
    obtain ⟨ocsf, -, h⟩ := bind_ok h
    obtain ⟨ruleBody, -, h⟩ := bind_ok h
    obtain ⟨provenance, hprovenance, h⟩ := bind_ok h
    cases h
    have hsame := hstatus.symm.trans (buildProvenance_ok hprovenance)
    exact congrArg initialStatus (Except.ok.inj hsame)

end SigmaRules
