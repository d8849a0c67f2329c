import Mathlib.Data.List.Basic
import Mathlib.Logic.Function.Basic

/-! # Response actions

The records of the action service, the blast-radius gate and the handlers of the API, each
cut at its awaited execution. The store maps an id to a record that the handlers share and
update in place; a resubmission puts a new record under the id, while a handler that is
still waiting keeps the one it read. -/
namespace ResponseActions

abbrev UUID := Nat

inductive ActionType where
  | blockIp | blockDomain | isolateHost | disableUser | resetPassword | killProcess
  | quarantineFile | captureForensics | addIocToBlocklist | notifySlack | createTicket
  | runPlaybook | chatopsVerify | runScript | allowIp | blockIoc | runAvScan | suspendSession
  | forceMfa | searchSiem | createNotableEvent | syncDetectionRule | updateWatcher
  deriving DecidableEq, Repr

inductive ActionStatus where
  | pending | awaitingApproval | approved | rejected | running | completed | failed | rolledBack
  deriving DecidableEq, Repr

inductive BlastRadius where
  | minimal | low | medium | high | critical
  deriving DecidableEq, Repr

/-- The members as a format string renders them. -/
def ActionType.text : ActionType → String
  | .blockIp => "ActionType.BLOCK_IP"
  | .blockDomain => "ActionType.BLOCK_DOMAIN"
  | .isolateHost => "ActionType.ISOLATE_HOST"
  | .disableUser => "ActionType.DISABLE_USER"
  | .resetPassword => "ActionType.RESET_PASSWORD"
  | .killProcess => "ActionType.KILL_PROCESS"
  | .quarantineFile => "ActionType.QUARANTINE_FILE"
  | .captureForensics => "ActionType.CAPTURE_FORENSICS"
  | .addIocToBlocklist => "ActionType.ADD_IOC_TO_BLOCKLIST"
  | .notifySlack => "ActionType.NOTIFY_SLACK"
  | .createTicket => "ActionType.CREATE_TICKET"
  | .runPlaybook => "ActionType.RUN_PLAYBOOK"
  | .chatopsVerify => "ActionType.CHATOPS_VERIFY"
  | .runScript => "ActionType.RUN_SCRIPT"
  | .allowIp => "ActionType.ALLOW_IP"
  | .blockIoc => "ActionType.BLOCK_IOC"
  | .runAvScan => "ActionType.RUN_AV_SCAN"
  | .suspendSession => "ActionType.SUSPEND_SESSION"
  | .forceMfa => "ActionType.FORCE_MFA"
  | .searchSiem => "ActionType.SEARCH_SIEM"
  | .createNotableEvent => "ActionType.CREATE_NOTABLE_EVENT"
  | .syncDetectionRule => "ActionType.SYNC_DETECTION_RULE"
  | .updateWatcher => "ActionType.UPDATE_WATCHER"

def ActionStatus.text : ActionStatus → String
  | .pending => "ActionStatus.PENDING"
  | .awaitingApproval => "ActionStatus.AWAITING_APPROVAL"
  | .approved => "ActionStatus.APPROVED"
  | .rejected => "ActionStatus.REJECTED"
  | .running => "ActionStatus.RUNNING"
  | .completed => "ActionStatus.COMPLETED"
  | .failed => "ActionStatus.FAILED"
  | .rolledBack => "ActionStatus.ROLLED_BACK"

def BlastRadius.text : BlastRadius → String
  | .minimal => "BlastRadius.MINIMAL"
  | .low => "BlastRadius.LOW"
  | .medium => "BlastRadius.MEDIUM"
  | .high => "BlastRadius.HIGH"
  | .critical => "BlastRadius.CRITICAL"

def actionBlastRadius : ActionType → BlastRadius
  | .blockIp => .medium
  | .blockDomain => .medium
  | .isolateHost => .high
  | .disableUser => .high
  | .resetPassword => .medium
  | .killProcess => .medium
  | .quarantineFile => .low
  | .captureForensics => .low
  | .addIocToBlocklist => .low
  | .notifySlack => .minimal
  | .createTicket => .minimal
  | .runPlaybook => .medium
  | .chatopsVerify => .minimal
  | .runScript => .high
  | .allowIp => .medium
  | .blockIoc => .medium
  | .runAvScan => .low
  | .suspendSession => .high
  | .forceMfa => .medium
  | .searchSiem => .minimal
  | .createNotableEvent => .low
  | .syncDetectionRule => .medium
  | .updateWatcher => .medium

def approvalRequiredActions : List ActionType :=
  [.isolateHost, .disableUser, .resetPassword, .killProcess, .runScript, .suspendSession,
    .blockIoc, .syncDetectionRule]

/-- Whether a type has an executor in the registry. -/
def executorRegistered : ActionType → Bool
  | .captureForensics => false
  | .addIocToBlocklist => false
  | .runPlaybook => false
  | _ => true

/-- `V` is the type of JSON values. -/
abbrev Dict (V : Type) := List (String × V)

structure ActionRequest (V : Type) where
  id : UUID
  incidentId : UUID
  tenantId : UUID
  actionType : ActionType
  target : String
  parameters : Dict V
  requestedBy : String
  rationale : String
  autoRollback : Bool
  rollbackAfterSeconds : Option Int
  deriving DecidableEq, Repr

structure ActionRecord (V : Type) where
  id : UUID
  actionType : ActionType
  target : String
  status : ActionStatus
  blastRadius : BlastRadius
  gateReason : String
  incidentId : UUID
  tenantId : UUID
  rationale : String
  output : Option (Dict V)
  rollbackData : Option (Dict V)
  error : Option String
  deriving DecidableEq, Repr

/-- What an executor returns, or the text of what it raises. -/
inductive Outcome (V : Type) where
  | result (status : ActionStatus) (output rollbackData : Dict V) (error : Option String)
  | raised (text : String)
  deriving DecidableEq, Repr

def autoExecuteLimit : BlastRadius := .medium

def blastRadiusOrder : BlastRadius → Nat
  | .minimal => 0
  | .low => 1
  | .medium => 2
  | .high => 3
  | .critical => 4

variable {V : Type}

/-- The gate: initial status, blast radius and reason. -/
def evaluate (request : ActionRequest V) : ActionStatus × BlastRadius × String :=
  let blastRadius := actionBlastRadius request.actionType
  if request.actionType ∈ approvalRequiredActions then
    (.awaitingApproval, blastRadius,
      "Action type '" ++ request.actionType.text ++ "' always requires human approval")
  else if blastRadiusOrder blastRadius > blastRadiusOrder autoExecuteLimit then
    (.awaitingApproval, blastRadius,
      "Blast radius '" ++ blastRadius.text ++ "' exceeds auto-execute limit '" ++
        autoExecuteLimit.text ++ "'")
  else
    (.approved, blastRadius, "Blast radius '" ++ blastRadius.text ++ "' within auto-execute policy")

/-- The record dictionaries by address, and the address under each id. -/
structure ActionStore (V : Type) where
  refs : UUID → Option Nat
  heap : List (ActionRecord V)

def ActionStore.lookup (s : ActionStore V) (id : UUID) : Option (Nat × ActionRecord V) :=
  (s.refs id).bind fun r => (s.heap[r]?).map fun record => (r, record)

def ActionStore.insert (s : ActionStore V) (record : ActionRecord V) : ActionStore V where
  refs := Function.update s.refs record.id (some s.heap.length)
  heap := s.heap ++ [record]

def ActionStore.write (s : ActionStore V) (r : Nat)
    (f : ActionRecord V → ActionRecord V) : ActionStore V :=
  { s with heap := s.heap.modify r f }

inductive Handler where
  | submitAction
  | approveAction
  deriving DecidableEq, Repr

/-- A handler that awaits the executor: the record it holds and the request it passed. -/
structure Execution (V : Type) where
  handler : Handler
  ref : Nat
  request : ActionRequest V
  deriving DecidableEq, Repr

structure HTTPException where
  statusCode : Nat
  detail : String
  deriving DecidableEq, Repr

def submittedRecord (request : ActionRequest V) : ActionRecord V where
  id := request.id
  actionType := request.actionType
  target := request.target
  status := (evaluate request).1
  blastRadius := (evaluate request).2.1
  gateReason := (evaluate request).2.2
  incidentId := request.incidentId
  tenantId := request.tenantId
  rationale := request.rationale
  output := none
  rollbackData := none
  error := none

def setFailed (text : String) (record : ActionRecord V) : ActionRecord V :=
  { record with status := .failed, error := some text }

/-- Up to the call of the executor, which is only made when the gate approves. -/
def submitAction (s : ActionStore V) (request : ActionRequest V) :
    ActionStore V × Option (Execution V) :=
  let stored := s.insert (submittedRecord request)
  if (evaluate request).1 = .approved then
    if executorRegistered request.actionType then
      (stored, some ⟨.submitAction, s.heap.length, request⟩)
    else
      (stored.write s.heap.length
        (setFailed ("No executor found for action type: " ++ request.actionType.text)), none)
  else (stored, none)

/-- The request is rebuilt from the record; what the record lacks gets its default. -/
def rebuildRequest (record : ActionRecord V) : ActionRequest V where
  id := record.id
  incidentId := record.incidentId
  tenantId := record.tenantId
  actionType := record.actionType
  target := record.target
  parameters := []
  requestedBy := "system"
  rationale := record.rationale
  autoRollback := false
  rollbackAfterSeconds := none

def approveAction (s : ActionStore V) (id : UUID) :
    Except HTTPException (ActionStore V × Option (Execution V)) :=
  match s.lookup id with
  | none => .error ⟨404, "Action not found"⟩
  | some (r, record) =>
    if record.status ≠ .awaitingApproval then
      .error ⟨400, "Action is not awaiting approval (current: " ++ record.status.text ++ ")"⟩
    else if executorRegistered record.actionType then
      .ok (s, some ⟨.approveAction, r, rebuildRequest record⟩)
    else .ok (s.write r (setFailed "No executor available"), none)

/-- No check of the status it overwrites. -/
def rejectAction (s : ActionStore V) (id : UUID) : Except HTTPException (ActionStore V) :=
  match s.lookup id with
  | none => .error ⟨404, "Action not found"⟩
  | some (r, _) => .ok (s.write r fun record => { record with status := .rejected })

/-- What the record becomes when the awaited executor comes back. `approveAction` keeps
neither rollback data nor errors, and lets an exception through. -/
def applyOutcome (handler : Handler) (outcome : Outcome V) (record : ActionRecord V) :
    ActionRecord V :=
  match handler, outcome with
  | .submitAction, .result status output rollbackData error =>
    { record with
      status := status
      output := some output
      rollbackData := some rollbackData
      error := (error.filter fun e => e ≠ "").or record.error }
  | .submitAction, .raised text => setFailed text record
  | .approveAction, .result status output _ _ =>
    { record with status := status, output := some output }
  | .approveAction, .raised _ => record

def finishAction (s : ActionStore V) (e : Execution V) (outcome : Outcome V) : ActionStore V :=
  s.write e.ref (applyOutcome e.handler outcome)

/-- The radius never decides alone: every type above the limit is on the list. -/
theorem evaluate_awaiting_iff (request : ActionRequest V) :
    (evaluate request).1 = .awaitingApproval ↔ request.actionType ∈ approvalRequiredActions := by
  unfold evaluate
  cases request.actionType <;>
    simp [approvalRequiredActions, actionBlastRadius, blastRadiusOrder, autoExecuteLimit]

theorem approval_required_registered {t : ActionType} (h : t ∈ approvalRequiredActions) :
    executorRegistered t = true := by
  revert h
  cases t <;> decide

@[simp] theorem write_refs (s : ActionStore V) (r : Nat) (f : ActionRecord V → ActionRecord V) :
    (s.write r f).refs = s.refs := rfl

theorem lookup_eq_some {s : ActionStore V} {id : UUID} {r : Nat} {record : ActionRecord V} :
    s.lookup id = some (r, record) ↔ s.refs id = some r ∧ s.heap[r]? = some record := by
  constructor
  · intro h
    obtain ⟨q, hq, h⟩ := Option.bind_eq_some_iff.mp h
    obtain ⟨v, hv, h⟩ := Option.map_eq_some_iff.mp h
    obtain ⟨rfl, rfl⟩ := Prod.mk.inj h
    exact ⟨hq, hv⟩
  · rintro ⟨hr, hv⟩
    simp [ActionStore.lookup, hr, hv]

theorem write_heap_self {s : ActionStore V} {r : Nat} {record : ActionRecord V}
    (h : s.heap[r]? = some record) (f : ActionRecord V → ActionRecord V) :
    (s.write r f).heap[r]? = some (f record) := by
  simp [ActionStore.write, h]

theorem write_heap_ne {s : ActionStore V} {r q : Nat} (h : q ≠ r)
    (f : ActionRecord V → ActionRecord V) : (s.write r f).heap[q]? = s.heap[q]? := by
  simp [ActionStore.write, h.symm]

theorem insert_heap_new (s : ActionStore V) (record : ActionRecord V) :
    (s.insert record).heap[s.heap.length]? = some record := by
  simp [ActionStore.insert]

theorem insert_heap_old {s : ActionStore V} {q : Nat} {old : ActionRecord V}
    (h : s.heap[q]? = some old) (record : ActionRecord V) :
    (s.insert record).heap[q]? = some old := by
  have hq : q < s.heap.length := (List.getElem?_eq_some_iff.mp h).1
  simpa [ActionStore.insert, List.getElem?_append_left hq] using h

theorem insert_refs_ne {s : ActionStore V} {record : ActionRecord V} {id : UUID}
    (h : id ≠ record.id) : (s.insert record).refs id = s.refs id :=
  Function.update_of_ne h _ _

theorem insert_refs_self (s : ActionStore V) (record : ActionRecord V) :
    (s.insert record).refs record.id = some s.heap.length := Function.update_self _ _ _

@[simp] theorem applyOutcome_id (handler : Handler) (outcome : Outcome V)
    (record : ActionRecord V) : (applyOutcome handler outcome record).id = record.id := by
  cases handler <;> cases outcome <;> rfl

end ResponseActions
