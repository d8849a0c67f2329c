import AiSOC.CaseLifecycle
import AiSOC.JsonParser
import AiSOC.TextEncoding

/-! # Inbound webhooks of ticketing systems

A webhook of a ticket that is linked to a case mirrors the ticket's status onto the case. The rows
of the link and of the case are joined first; three statements then write the case, the link and
a comment. -/
namespace InboxItsm

open ByteText (Bytes bytes)
open CaseLifecycle (CaseStatus)
open CodeText (Text text cp strip decimal)
open JsonText (Json truthy member)

/-- What the code takes from the interpreter: the MAC in hexadecimal digits, lower case, the text
and the truth of values that are no strings, the message of a `JSONDecodeError` (`none` for another
exception), and how deep containers may nest; and the text of an error of the database. -/
structure Runtime where
  hexdigest : Text → Bytes → Text
  lower : Text → Text
  str : Json Text → Text
  nonzero : Text → Bool
  decodeMessage : Text → Option Text
  databaseError : Text
  depth : ℕ

structure InboxToken where
  token : Text
  tenantID : String
  templateID : Text
  hmacSecret : Option Text
  revokedAt : Option ℤ
  lastUsedAt : Option ℤ

structure Connector where
  id : String
  tenantID : String
  connectorType : Text
  isEnabled : Bool

structure CaseRow where
  id : String
  tenantID : Option String
  caseNumber : Option Text
  status : CaseStatus
  triagedAt : Option ℤ
  resolvedAt : Option ℤ
  closedAt : Option ℤ
  updatedAt : ℤ

structure ExternalRef where
  id : String
  caseID : String
  connectorInstanceID : String
  externalID : Text
  externalStatus : Option Text
  lastSyncedAt : Option ℤ
  updatedAt : ℤ

structure Comment where
  id : String
  caseID : String
  tenantID : Option String
  author : Option Text
  body : Text
  isSystem : Bool
  createdAt : ℤ

/-- The tables, with their keys. -/
structure Db where
  tokens : List InboxToken
  connectors : List Connector
  cases : List CaseRow
  refs : List ExternalRef
  comments : List Comment
  tokens_nodup : (tokens.map InboxToken.token).Nodup
  connectors_nodup : (connectors.map Connector.id).Nodup
  cases_nodup : (cases.map CaseRow.id).Nodup
  refs_nodup : (refs.map ExternalRef.id).Nodup
  refs_unique_pair : (refs.map fun r => (r.connectorInstanceID, r.externalID)).Nodup
  refs_case : ∀ r ∈ refs, r.caseID ∈ cases.map CaseRow.id
  comments_nodup : (comments.map Comment.id).Nodup
  comments_case : ∀ m ∈ comments, m.caseID ∈ cases.map CaseRow.id

/-- `raised` is an exception without a handler. -/
inductive Failure where
  | http (status : ℕ) (detail : Text)
  | raised

structure InboundResult where
  caseID : Option String
  caseNumber : Option Text
  externalID : Option Text
  oldStatus : Option CaseStatus
  newStatus : Option CaseStatus
  statusChanged : Bool
  note : Option Text

structure Webhook where
  tenantToken : Text
  connectorInstanceID : String
  body : Bytes
  signature : Option Text
  /-- When the handler runs, and when it writes to the case. -/
  now : ℤ
  later : ℤ
  commentID : String

/-! ## Reading the request -/

inductive Vendor where
  | jira | servicenow
  deriving DecidableEq

def Vendor.name : Vendor → Text
  | .jira => text "jira"
  | .servicenow => text "servicenow"

def Vendor.title : Vendor → Text
  | .jira => text "Jira"
  | .servicenow => text "Servicenow"

def supportedVendor (connectorType : Text) : Option Vendor :=
  [Vendor.jira, .servicenow].find? fun v => v.name = connectorType

def statusName : CaseStatus → Text
  | .new => text "new"
  | .triaged => text "triaged"
  | .investigating => text "investigating"
  | .contained => text "contained"
  | .resolved => text "resolved"
  | .closed => text "closed"

def jiraInboundStatus : List (Text × CaseStatus) :=
  [(text "to do", .triaged), (text "open", .triaged), (text "backlog", .triaged),
    (text "selected for development", .triaged), (text "in progress", .investigating),
    (text "in review", .investigating), (text "blocked", .contained),
    (text "on hold", .contained), (text "resolved", .resolved), (text "done", .resolved),
    (text "closed", .closed), (text "cancelled", .closed), (text "canceled", .closed),
    (text "won't fix", .closed), (text "wont fix", .closed), (text "won't do", .closed)]

def snowInboundStatus : List (Text × CaseStatus) :=
  [(text "1", .triaged), (text "2", .investigating), (text "3", .contained),
    (text "6", .resolved), (text "7", .closed), (text "8", .closed)]

def mapInboundStatus (env : Runtime) (vendor : Vendor) (rawStatus : Option Text) :
    Option CaseStatus :=
  rawStatus.bind fun raw =>
    match vendor with
    | .jira => jiraInboundStatus.lookup (env.lower (strip raw))
    | .servicenow => snowInboundStatus.lookup (strip raw)

/-- `record.get(key) or {}`, if it is a dict. -/
def nested (env : Runtime) (record : List (Text × Json Text)) (key : Text) :
    Option (List (Text × Json Text)) :=
  match (member record key).filter (truthy env.nonzero) with
  | none => some []
  | some (.obj members) => some members
  | some _ => none

/-- A text that is not empty. -/
def nonEmptyText : Option (Json Text) → Option Text
  | some (.str s) => if s = [] then none else some s
  | _ => none

/-- The issue's key and the name of its status. -/
def parseJiraPayload (env : Runtime) (payload : List (Text × Json Text)) :
    Option Text × Option Text :=
  match (nested env payload (text "issue")).bind fun issue =>
    (nonEmptyText (member issue (text "key"))).map fun key => (issue, key) with
  | none => (none, none)
  | some (issue, key) =>
    let name := (nested env issue (text "fields")).bind fun fields =>
      (nested env fields (text "status")).bind fun status =>
        match member status (text "name") with
        | some (.str name) => some name
        | _ => none
    (some key, name)

/-- `str(state)`. -/
def stateText (env : Runtime) : Json Text → Text
  | .str s => s
  | .int n => decimal n
  | state => env.str state

def parseServicenowPayload (env : Runtime) (payload : List (Text × Json Text)) :
    Option Text × Option Text :=
  let record :=
    match member payload (text "current") with
    | none => some payload
    | some (.obj current) => some current
    | some _ => none
  match record.bind fun record =>
    (nonEmptyText (member record (text "sys_id"))).map fun id => (record, id) with
  | none => (none, none)
  | some (record, id) =>
    match member record (text "state") with
    | none | some .null => (some id, none)
    | some state => (some id, some (stateText env state))

def isAscii (t : Text) : Bool := t.all fun c => c.val < 0x80

def verifyHmac (env : Runtime) (secret : Option Text) (body : Bytes) (signature : Option Text) :
    Except Failure Unit :=
  match secret with
  | none => .ok ()
  | some secret =>
    match (signature.map strip).filter fun sig => sig ≠ [] with
    | none => .error (.http 401 (text "HMAC signature required for this inbox token"))
    | some sig =>
      let sig :=
        if text "sha256=" <+: env.lower sig then strip ((sig.dropWhile (· ≠ cp '=')).drop 1)
        else sig
      if !isAscii (env.lower sig) then .error .raised
      else if env.lower sig = env.lower (env.hexdigest secret body) then .ok ()
      else .error (.http 401 (text "Invalid HMAC signature"))

def fetchTokenAndConnector (db : Db) (tenantToken : Text) (connectorInstanceID : String) :
    Except Failure (InboxToken × Vendor) :=
  match db.tokens.find? fun t => t.token = tenantToken ∧ t.revokedAt = none with
  | none => .error (.http 401 (text "Invalid or revoked inbox token"))
  | some token =>
    if token.templateID ≠ text "itsm-inbound" then
      .error (.http 403 (text "Inbox token is not valid for ITSM webhooks. " ++
        text "Mint a token with template_id='itsm-inbound'."))
    else
      match db.connectors.find? fun c => c.id = connectorInstanceID with
      | none => .error (.http 404 (text "Connector instance not found"))
      | some connector =>
        if connector.tenantID ≠ token.tenantID then
          .error (.http 403 (text "Token and connector belong to different tenants"))
        else if !connector.isEnabled then
          .error (.http 409 (text "Connector instance is disabled"))
        else
          match supportedVendor connector.connectorType with
          | none => .error (.http 422 (text "connector_type '" ++ connector.connectorType ++
              text "' is not supported on the inbound ITSM webhook. " ++
              text "Supported: jira, servicenow."))
          | some vendor => .ok (token, vendor)

def loadPayload (env : Runtime) (body : Bytes) : Except Failure (List (Text × Json Text)) :=
  match TextEncoding.decode (if body = [] then bytes "\x7b\x7d" else body) with
  | none => .error .raised
  | some raw =>
    match JsonParser.loads env.depth raw with
    | .ok (.obj payload) => .ok payload
    | .ok _ => .error (.http 400 (text "Webhook body must be a JSON object"))
    | .error .decode =>
      match env.decodeMessage raw with
      | some message => .error (.http 400 (text "Webhook body is not valid JSON: " ++ message))
      | none => .error .raised
    | .error .recursion => .error .raised

/-! ## Statements -/

/-- An `UPDATE` of `aisoc_cases` that keeps the keys. -/
def Db.updateCases (db : Db) (f : CaseRow → CaseRow) (hf : ∀ c, (f c).id = c.id) : Db :=
  have hids : (db.cases.map f).map CaseRow.id = db.cases.map CaseRow.id := by
    rw [List.map_map]
    exact List.map_congr_left fun c _ => hf c
  { db with
    cases := db.cases.map f
    cases_nodup := hids ▸ db.cases_nodup
    refs_case := hids ▸ db.refs_case
    comments_case := hids ▸ db.comments_case }

/-- The assignments of an `UPDATE` of `case_external_refs`. -/
def ExternalRef.sync (r : ExternalRef) (status : Option CaseStatus) (now : ℤ) : ExternalRef :=
  { r with externalStatus := (status.map statusName).or r.externalStatus, lastSyncedAt := some now
           updatedAt := now }

def Db.syncRefs (db : Db) (target : ExternalRef → Bool) (status : Option CaseStatus) (now : ℤ) :
    Db :=
  let f := fun r : ExternalRef => if target r then r.sync status now else r
  have hkeep : ∀ {β : Type} (g : ExternalRef → β), (∀ r, g (r.sync status now) = g r) →
      (db.refs.map f).map g = db.refs.map g := by
    intro β g hg
    rw [List.map_map]
    refine List.map_congr_left fun r _ => ?_
    dsimp only [Function.comp_apply, f]
    split
    · exact hg r
    · rfl
  { db with
    refs := db.refs.map f
    refs_nodup := hkeep ExternalRef.id (fun _ => rfl) ▸ db.refs_nodup
    refs_unique_pair :=
      hkeep (fun r => (r.connectorInstanceID, r.externalID)) (fun _ => rfl) ▸ db.refs_unique_pair
    refs_case := by
      intro r hr
      have hcase : r.caseID ∈ (db.refs.map f).map ExternalRef.caseID := List.mem_map_of_mem hr
      rw [hkeep ExternalRef.caseID fun _ => rfl] at hcase
      obtain ⟨r', hr', heq⟩ := List.mem_map.mp hcase
      exact heq ▸ db.refs_case r' hr' }

/-- An `INSERT`, which fails where a key is not met. -/
def Db.insertComment (db : Db) (m : Comment) : Option Db :=
  if h : m.caseID ∈ db.cases.map CaseRow.id ∧ m.id ∉ db.comments.map Comment.id then
    some { db with
      comments := db.comments ++ [m]
      comments_nodup := by
        rw [List.map_append, List.map_singleton]
        exact List.nodup_append.mpr ⟨db.comments_nodup, List.pairwise_singleton _ _, by
          rintro _ hx _ hy rfl
          rw [List.mem_singleton] at hy
          exact h.2 (hy ▸ hx)⟩
      comments_case := by
        intro m' hm'
        rcases List.mem_append.mp hm' with hold | hnew
        · exact db.comments_case m' hold
        · rw [List.mem_singleton.mp hnew]
          exact h.1 }
  else none

def Db.touchToken (db : Db) (token : Text) (now : ℤ) : Db :=
  let f := fun t : InboxToken => if t.token = token then { t with lastUsedAt := some now } else t
  have htokens : (db.tokens.map f).map InboxToken.token = db.tokens.map InboxToken.token := by
    rw [List.map_map]
    refine List.map_congr_left fun t _ => ?_
    dsimp only [Function.comp_apply, f]
    split
    · rfl
    · rfl
  { db with tokens := db.tokens.map f, tokens_nodup := htokens ▸ db.tokens_nodup }

/-! ## The endpoint -/

/-- The row of the join: the key of the link goes by `id`, that of the case by `aisoc_case_id`. -/
structure RefRow where
  id : String
  caseID : String
  externalStatus : Option Text
  aisocCaseID : String
  caseNumber : Option Text
  status : CaseStatus

def findRef (db : Db) (connectorInstanceID : String) (externalID : Text) : Option RefRow :=
  db.refs.findSome? fun r =>
    if r.connectorInstanceID = connectorInstanceID ∧ r.externalID = externalID then
      (db.cases.find? fun c => c.id = r.caseID).map fun c =>
        ⟨r.id, r.caseID, r.externalStatus, c.id, c.caseNumber, c.status⟩
    else none

/-- The assignments of the status and the timeline columns that it implies. -/
def CaseRow.transition (status : CaseStatus) (now : ℤ) (c : CaseRow) : CaseRow :=
  { c with
    status := status
    updatedAt := now
    triagedAt := if status = .new then c.triagedAt else c.triagedAt.or (some now)
    resolvedAt := if status = .resolved then c.resolvedAt.or (some now) else c.resolvedAt
    closedAt := if status = .closed then c.closedAt.or (some now) else c.closedAt }

def noteBody (vendor : Vendor) (externalID : Text) (status : CaseStatus) : Text :=
  vendor.title ++ text " ticket " ++ externalID ++ text " transitioned. AiSOC case marked '" ++
    statusName status ++ text "' via inbound webhook."

/-- Three statements, all of them by the `id` of the row. -/
def applyStatusToCase (db : Db) (caseRow : RefRow) (status : CaseStatus) (vendor : Vendor)
    (externalID : Text) (now : ℤ) (commentID : String) : Option Db :=
  let updated := db.updateCases (fun c => if c.id = caseRow.id then c.transition status now else c)
    (by intro c; split <;> rfl)
  let synced := updated.syncRefs (fun r => r.caseID = caseRow.id && r.externalID = externalID)
    (some status) now
  synced.insertComment {
    id := commentID
    caseID := caseRow.id
    tenantID := none
    author := some (text "itsm-webhook (" ++ vendor.name ++ text ")")
    body := noteBody vendor externalID status
    isSystem := true
    createdAt := now }

def rawStatusText : Option Text → Text
  | none => text "None"
  | some raw => raw

/-- What follows once the payload is read; a failure of the statements rolls back. -/
def mirror (env : Runtime) (db : Db) (hook : Webhook) (vendor : Vendor)
    (externalID rawStatus : Option Text) : Except Failure InboundResult × Db :=
  match externalID with
  | none => (.ok ⟨none, none, none, none, none, false,
      some (vendor.name ++ text " payload missing required fields")⟩, db)
  | some externalID =>
    match findRef db hook.connectorInstanceID externalID with
    | none => (.ok ⟨none, none, some externalID, none, none, false,
        some (text "No AiSOC case linked to " ++ vendor.name ++ text " " ++ externalID ++
          text ". The ticket may pre-date the integration.")⟩, db)
    | some row =>
      let used := db.touchToken hook.tenantToken hook.now
      match mapInboundStatus env vendor rawStatus with
      | none => (.ok ⟨some row.aisocCaseID, row.caseNumber, some externalID, some row.status,
          some row.status, false,
          some (vendor.name ++ text " status '" ++ rawStatusText rawStatus ++
            text "' has no AiSOC equivalent; last_synced_at bumped.")⟩,
          used.syncRefs (fun r => r.id = row.id) none hook.now)
      | some status =>
        if status = row.status then
          (.ok ⟨some row.aisocCaseID, row.caseNumber, some externalID, some row.status,
            some status, false,
            some (text "Case already in target state; sync timestamps refreshed.")⟩,
            used.syncRefs (fun r => r.id = row.id) (some status) hook.now)
        else
          match applyStatusToCase used row status vendor externalID hook.later hook.commentID with
          | none => (.error (.http 503
              (text "Failed to apply inbound status: " ++ env.databaseError)), db)
          | some applied => (.ok ⟨some row.aisocCaseID, row.caseNumber, some externalID,
              some row.status, some status, true, none⟩, applied)

def inboundItsmWebhook (env : Runtime) (db : Db) (hook : Webhook) :
    Except Failure InboundResult × Db :=
  match fetchTokenAndConnector db hook.tenantToken hook.connectorInstanceID with
  | .error e => (.error e, db)
  | .ok (token, vendor) =>
    match verifyHmac env token.hmacSecret hook.body hook.signature with
    | .error e => (.error e, db)
    | .ok () =>
      match loadPayload env hook.body with
      | .error e => (.error e, db)
      | .ok payload =>
        let read :=
          match vendor with
          | .jira => parseJiraPayload env payload
          | .servicenow => parseServicenowPayload env payload
        mirror env db hook vendor read.1 read.2

/-- The comments of a case that a user of the tenant gets to see. -/
def listComments (db : Db) (tenantID caseID : String) : List Comment :=
  (db.comments.filter fun m => m.caseID = caseID ∧ m.tenantID = some tenantID).mergeSort
    fun a b => a.createdAt ≤ b.createdAt

/-! ## What reaches the case -/

/-- The timestamp of the status is set. -/
def CaseRow.Stamped (c : CaseRow) : Prop :=
  match c.status with
  | .new => True
  | .triaged | .investigating | .contained => c.triagedAt ≠ none
  | .resolved => c.resolvedAt ≠ none
  | .closed => c.closedAt ≠ none

/-- The linked case has the status, one new system comment of it is visible to some user, the link
has the status too, and nothing else has changed. -/
structure Mirrored (before after : Db) (ref : ExternalRef) (status : CaseStatus) : Prop where
  linked : ∃ c ∈ after.cases, c.id = ref.caseID ∧ c.status = status ∧ c.Stamped
  visible : ∃ tenantID m, m.isSystem = true ∧
    (listComments after tenantID ref.caseID).Perm (m :: listComments before tenantID ref.caseID)
  synced : ∃ r ∈ after.refs, r.id = ref.id ∧ r.externalStatus = some (statusName status)
  otherCases : after.cases.filter (fun c => c.id ≠ ref.caseID) =
    before.cases.filter fun c => c.id ≠ ref.caseID
  otherRefs : after.refs.filter (fun r => r.id ≠ ref.id) =
    before.refs.filter fun r => r.id ≠ ref.id
  otherComments : after.comments.filter (fun m => m.caseID ≠ ref.caseID) =
    before.comments.filter fun m => m.caseID ≠ ref.caseID

/-- The answer's status has reached the case that the ticket is linked to. -/
def ReachesCase (before after : Db) (hook : Webhook) (out : InboundResult) : Prop :=
  ∃ ref ∈ before.refs, ref.connectorInstanceID = hook.connectorInstanceID ∧
    out.externalID = some ref.externalID ∧
      ∃ status, out.newStatus = some status ∧ Mirrored before after ref status

variable {env : Runtime} {db after : Db} {hook : Webhook} {out : InboundResult} {row : RefRow}
  {status : CaseStatus} {vendor : Vendor} {externalID : Text} {now : ℤ} {commentID : String}

theorem insertComment_eq_some {m : Comment} (h : db.insertComment m = some after) :
    m.caseID ∈ db.cases.map CaseRow.id ∧ after.comments = db.comments ++ [m] := by
  rw [Db.insertComment] at h
  split at h
  · rename_i hkeys
    obtain rfl := Option.some.inj h
    exact ⟨hkeys.1, rfl⟩
  · cases h

/-- The new comment belongs to no tenant, and to a case with the key of the link. -/
theorem applyStatusToCase_comment
    (h : applyStatusToCase db row status vendor externalID now commentID = some after) :
    row.id ∈ db.cases.map CaseRow.id ∧
      ∃ m, m.tenantID = none ∧ after.comments = db.comments ++ [m] := by
  obtain ⟨hcase, hcomments⟩ := insertComment_eq_some h
  refine ⟨?_, _, rfl, hcomments⟩
  obtain ⟨c, hc, hid⟩ := List.mem_map.mp hcase
  obtain ⟨c', hc', rfl⟩ := List.mem_map.mp hc
  refine List.mem_map.mpr ⟨c', hc', ?_⟩
  dsimp only at hid
  split at hid
  · exact hid
  · exact hid

theorem listComments_append {m : Comment} (hm : m.tenantID = none)
    (h : after.comments = db.comments ++ [m]) (tenantID caseID : String) :
    listComments after tenantID caseID = listComments db tenantID caseID := by
  have hhidden : ¬(m.caseID = caseID ∧ m.tenantID = some tenantID) := by
    rintro ⟨-, htenant⟩
    rw [hm] at htenant
    cases htenant
  have hnone : [m].filter (fun m => m.caseID = caseID ∧ m.tenantID = some tenantID) = [] :=
    List.filter_cons_of_neg (mt of_decide_eq_true hhidden)
  rw [listComments, h, List.filter_append, hnone, List.append_nil]
  rfl

/-- An answer with a changed status comes from the three statements, on a row of the join. -/
theorem changed_inversion (h : inboundItsmWebhook env db hook = (.ok out, after))
    (hchanged : out.statusChanged = true) :
    ∃ row status vendor externalID, findRef db hook.connectorInstanceID externalID = some row ∧
      applyStatusToCase (db.touchToken hook.tenantToken hook.now) row status vendor externalID
        hook.later hook.commentID = some after := by
  have hfalse : ∀ {o : InboundResult} {t : Db}, o.statusChanged = false →
      ((Except.ok o : Except Failure InboundResult), t) ≠ (.ok out, after) := by
    rintro o t ho heq
    obtain ⟨ho', -⟩ := Prod.mk.inj heq
    rw [← Except.ok.inj ho', ho] at hchanged
    cases hchanged
  rw [inboundItsmWebhook] at h
  split at h
  · cases h
  · split at h
    · cases h
    · split at h
      · cases h
      · dsimp only at h
        rw [mirror.eq_def] at h
        split at h
        · exact absurd h (hfalse rfl)
        · split at h
          · exact absurd h (hfalse rfl)
          · rename_i externalID _ _ row hrow
            dsimp only at h
            split at h
            · exact absurd h (hfalse rfl)
            · split at h
              · exact absurd h (hfalse rfl)
              · split at h
                · cases h
                · rename_i applied happlied
                  obtain ⟨-, rfl⟩ := Prod.mk.inj h
                  exact ⟨row, _, _, externalID, hrow, happlied⟩

theorem findRef_id (h : findRef db hook.connectorInstanceID externalID = some row) :
    ∃ r ∈ db.refs, r.id = row.id := by
  obtain ⟨r, hr, hfound⟩ := List.exists_of_findSome?_eq_some h
  split at hfound
  · obtain ⟨c, -, rfl⟩ := Option.map_eq_some_iff.mp hfound
    exact ⟨r, hr, rfl⟩
  · cases hfound

/-- The status changes only where a case happens to have the key of the link; elsewhere the insert
of the comment fails. -/
theorem changed_shares_id (h : inboundItsmWebhook env db hook = (.ok out, after))
    (hchanged : out.statusChanged = true) :
    ∃ r ∈ db.refs, r.id ∈ db.cases.map CaseRow.id := by
  obtain ⟨row, status, vendor, externalID, hrow, happly⟩ := changed_inversion h hchanged
  obtain ⟨r, hr, hid⟩ := findRef_id hrow
  exact ⟨r, hr, hid ▸ (applyStatusToCase_comment happly).1⟩

/-- No user of any tenant gets to see another comment. -/
theorem listComments_changed (h : inboundItsmWebhook env db hook = (.ok out, after))
    (hchanged : out.statusChanged = true) (tenantID caseID : String) :
    listComments after tenantID caseID = listComments db tenantID caseID := by
  obtain ⟨row, status, vendor, externalID, -, happly⟩ := changed_inversion h hchanged
  obtain ⟨-, m, hm, hcomments⟩ := applyStatusToCase_comment happly
  exact listComments_append hm hcomments tenantID caseID

theorem not_reachesCase (hsame : ∀ tenantID caseID,
    listComments after tenantID caseID = listComments db tenantID caseID) :
    ¬ReachesCase db after hook out := by
  rintro ⟨ref, -, -, -, status, -, hmirrored⟩
  obtain ⟨tenantID, m, -, hperm⟩ := hmirrored.visible
  have hlength := hperm.length_eq
  rw [hsame, List.length_cons] at hlength
  omega

/-- No answer with a changed status has reached the case: the comment belongs to no tenant, and no
user gets to see it. -/
theorem changed_not_reached {env : Runtime} {db after : Db} {hook : Webhook} {out : InboundResult}
    (h : inboundItsmWebhook env db hook = (.ok out, after)) (hchanged : out.statusChanged = true) :
    ¬ReachesCase db after hook out :=
  not_reachesCase (listComments_changed h hchanged)

def sampleRuntime : Runtime where
  hexdigest _ _ := []
  lower t := t.map CodeText.foldCase
  str _ := []
  nonzero _ := true
  decodeMessage _ := none
  databaseError := text "foreign key violation"
  depth := 10

/-- One case, linked to one ticket by a row with the same key. -/
def sampleDb : Db where
  tokens := [⟨text "token", "acme", text "itsm-inbound", none, none, none⟩]
  connectors := [⟨"jira-1", "acme", text "jira", true⟩]
  cases := [⟨"c1", some "acme", some (text "INC-001"), .investigating, some 3, none, none, 3⟩]
  refs := [⟨"c1", "c1", "jira-1", text "SEC-7", some (text "investigating"), some 3, 3⟩]
  comments := []
  tokens_nodup := List.pairwise_singleton _ _
  connectors_nodup := List.pairwise_singleton _ _
  cases_nodup := List.pairwise_singleton _ _
  refs_nodup := List.pairwise_singleton _ _
  refs_unique_pair := List.pairwise_singleton _ _
  refs_case := by
    intro r hr
    rw [List.mem_singleton.mp hr]
    exact List.mem_singleton_self _
  comments_nodup := List.Pairwise.nil
  comments_case := List.forall_mem_nil _

/-- The ticket is done. -/
def sampleHook : Webhook where
  tenantToken := text "token"
  connectorInstanceID := "jira-1"
  body := bytes "\x7b\"issue\": \x7b\"key\": \"SEC-7\", \"fields\": " ++
    bytes "\x7b\"status\": \x7b\"name\": \"Done\"\x7d\x7d\x7d\x7d"
  signature := none
  now := 10
  later := 11
  commentID := "m1"

/-- Whether the status has changed, and what a user of the tenant then sees of the case. -/
def observe (answer : Except Failure InboundResult × Db) : Option (Bool × ℕ) :=
  match answer with
  | (.ok out, after) => some (out.statusChanged, (listComments after "acme" "c1").length)
  | (.error _, _) => none

theorem observe_eq_some {answer : Except Failure InboundResult × Db} {n : ℕ}
    (h : observe answer = some (true, n)) : ∃ out after, answer = (.ok out, after) ∧
      out.statusChanged = true ∧ (listComments after "acme" "c1").length = n := by
  obtain ⟨e | out, after⟩ := answer
  · cases h
  · obtain ⟨hchanged, hlength⟩ := Prod.mk.inj (Option.some.inj h)
    exact ⟨out, after, rfl, hchanged, hlength⟩

theorem sample_observed :
    observe (inboundItsmWebhook sampleRuntime sampleDb sampleHook) = some (true, 0) := by
  decide +kernel

/-- The webhook says that the case has changed, and the case still has no comment to see. -/
theorem done_without_comment : ∃ out after,
    inboundItsmWebhook sampleRuntime sampleDb sampleHook = (.ok out, after) ∧
      out.statusChanged = true ∧ (listComments after "acme" "c1").length = 0 ∧
        ¬ReachesCase sampleDb after sampleHook out := by
  obtain ⟨out, after, h, hchanged, hlength⟩ := observe_eq_some sample_observed
  exact ⟨out, after, h, hchanged, hlength, not_reachesCase (listComments_changed h hchanged)⟩

theorem done_not_reached : ∃ out after,
    inboundItsmWebhook sampleRuntime sampleDb sampleHook = (.ok out, after) ∧
      ¬ReachesCase sampleDb after sampleHook out := by
  obtain ⟨out, after, h, hchanged, -⟩ := observe_eq_some sample_observed
  exact ⟨out, after, h, changed_not_reached h hchanged⟩

end InboxItsm
