import AiSOC.ActionApproval

/-! # From submission to execution

A request that waits for approval survives as a record only, and the approval rebuilds from
the record the request it hands to the executor. -/
namespace ActionHandover

open TransitionSystem (runTrace)
open ResponseActions
open ActionApproval (World Event next actions)

variable {V : Type}

/-- What the record keeps of the request, whatever its status. -/
structure Describes (request : ActionRequest V) (record : ActionRecord V) : Prop where
  id_eq : record.id = request.id
  type_eq : record.actionType = request.actionType
  target_eq : record.target = request.target
  incident_eq : record.incidentId = request.incidentId
  tenant_eq : record.tenantId = request.tenantId
  rationale_eq : record.rationale = request.rationale

/-- The record under the request's id is still the one that was made for it. -/
def Kept (request : ActionRequest V) (w : World V) : Prop :=
  ∃ r record, w.store.lookup request.id = some (r, record) ∧ Describes request record

/-- What executors act on: the type, the target, the tenant and the parameters. -/
def SameAction (a b : ActionRequest V) : Prop :=
  a.actionType = b.actionType ∧ a.target = b.target ∧ a.tenantId = b.tenantId ∧
    a.parameters = b.parameters

/-- No resubmission under the id. -/
def NotResubmitted (id : UUID) : Event V → Prop
  | .submit _ request => request.id ≠ id
  | _ => True

theorem submittedRecord_describes (request : ActionRequest V) :
    Describes request (submittedRecord request) := ⟨rfl, rfl, rfl, rfl, rfl, rfl⟩

theorem Describes.setFailed {request : ActionRequest V} {record : ActionRecord V}
    (h : Describes request record) (text : String) :
    Describes request (setFailed text record) :=
  ⟨h.id_eq, h.type_eq, h.target_eq, h.incident_eq, h.tenant_eq, h.rationale_eq⟩

theorem Describes.reject {request : ActionRequest V} {record : ActionRecord V}
    (h : Describes request record) : Describes request { record with status := .rejected } :=
  ⟨h.id_eq, h.type_eq, h.target_eq, h.incident_eq, h.tenant_eq, h.rationale_eq⟩

theorem Describes.applyOutcome {request : ActionRequest V} {record : ActionRecord V}
    (h : Describes request record) (handler : Handler) (outcome : Outcome V) :
    Describes request (applyOutcome handler outcome record) := by
  obtain ⟨hid, htype, htarget, hincident, htenant, hrationale⟩ := h
  cases handler <;> cases outcome <;>
    exact ⟨hid, htype, htarget, hincident, htenant, hrationale⟩

theorem lookup_write {s : ActionStore V} {id : UUID} {q : Nat} {record : ActionRecord V}
    (h : s.lookup id = some (q, record)) (r : Nat) (f : ActionRecord V → ActionRecord V) :
    (s.write r f).lookup id = some (q, if q = r then f record else record) := by
  obtain ⟨hq, hrecord⟩ := lookup_eq_some.mp h
  by_cases hqr : q = r
  · subst hqr
    rw [if_pos rfl]
    exact ActionApproval.lookup_write_self h f
  · rw [if_neg hqr]
    exact lookup_eq_some.mpr ⟨hq, (write_heap_ne hqr f).trans hrecord⟩

theorem Kept.write {request : ActionRequest V} {s : ActionStore V} {q : Nat}
    {record : ActionRecord V} (hl : s.lookup request.id = some (q, record))
    (hd : Describes request record) (r : Nat) {f : ActionRecord V → ActionRecord V}
    (hf : Describes request (f record)) :
    ∃ k kept, (s.write r f).lookup request.id = some (k, kept) ∧ Describes request kept := by
  refine ⟨q, _, lookup_write hl r f, ?_⟩
  split
  · exact hf
  · exact hd

theorem Kept.insert {request other : ActionRequest V} {s : ActionStore V} {q : Nat}
    {record : ActionRecord V} (hl : s.lookup request.id = some (q, record))
    (hne : other.id ≠ request.id) :
    (s.insert (submittedRecord other)).lookup request.id = some (q, record) := by
  obtain ⟨hq, hrecord⟩ := lookup_eq_some.mp hl
  have hrefs : (s.insert (submittedRecord other)).refs request.id = s.refs request.id :=
    insert_refs_ne hne.symm
  exact lookup_eq_some.mpr ⟨hrefs.trans hq, insert_heap_old hrecord _⟩

/-- Only a resubmission replaces the record. -/
theorem next_kept {request : ActionRequest V} {w u : World V} {e : Event V}
    (h : Kept request w) (he : NotResubmitted request.id e) (hn : next w e = some u) :
    Kept request u := by
  obtain ⟨q, record, hl, hd⟩ := h
  cases e with
  | submit x other =>
    simp only [next] at hn
    split at hn
    · cases hn
    cases Option.some.inj hn
    have hins := Kept.insert hl he
    unfold submitAction
    dsimp only
    split
    · split
      · exact ⟨q, record, hins, hd⟩
      · exact Kept.write hins hd _ (hd.setFailed _)
    · exact ⟨q, record, hins, hd⟩
  | approve x a =>
    simp only [next] at hn
    split at hn
    · cases hn
    split at hn
    · cases Option.some.inj hn
      exact ⟨q, record, hl, hd⟩
    · rename_i t call hok
      cases Option.some.inj hn
      obtain ⟨r, -, -, -, ⟨-, rfl, -⟩ | ⟨rfl, -⟩⟩ := ActionApproval.approveAction_ok hok
      · exact ⟨q, record, hl, hd⟩
      · exact Kept.write hl hd r (hd.setFailed _)
  | reject a =>
    simp only [next] at hn
    split at hn
    · cases Option.some.inj hn
      exact ⟨q, record, hl, hd⟩
    · rename_i t hok
      cases Option.some.inj hn
      obtain ⟨r, -, -, rfl⟩ := ActionApproval.rejectAction_ok hok
      exact Kept.write hl hd r hd.reject
  | finish x outcome =>
    obtain ⟨e, -, rfl⟩ := Option.map_eq_some_iff.mp hn
    exact Kept.write hl hd e.ref (hd.applyOutcome e.handler outcome)

theorem submit_kept {request : ActionRequest V} {w u : World V} {x : Nat}
    (hw : (evaluate request).1 = .awaitingApproval)
    (hn : next w (.submit x request) = some u) : Kept request u := by
  simp only [next] at hn
  split at hn
  · cases hn
  cases Option.some.inj hn
  rw [ActionApproval.submitAction_awaiting ((evaluate_awaiting_iff request).mp hw)]
  exact ⟨_, _, lookup_eq_some.mpr ⟨insert_refs_self _ (submittedRecord request),
    insert_heap_new _ _⟩, submittedRecord_describes request⟩

/-- The request handed over is the submitted one with everything reset that the record has
no field for. -/
theorem handed_request {request : ActionRequest V} {w u : World V} {x : Nat}
    {e : Execution V} (hk : Kept request w) (hn : next w (.approve x request.id) = some u)
    (he : u.executions x = some e) :
    e.request = { request with
      parameters := [], requestedBy := "system", autoRollback := false,
      rollbackAfterSeconds := none } := by
  obtain ⟨q, record, hl, hd⟩ := hk
  simp only [next] at hn
  split at hn
  · cases hn
  rename_i hidle
  split at hn
  · cases Option.some.inj hn
    simp [he] at hidle
  · rename_i t call hok
    cases Option.some.inj hn
    simp only [Function.update_self] at he
    obtain ⟨r, found, hfound, -, ⟨-, -, rfl⟩ | ⟨-, rfl⟩⟩ := ActionApproval.approveAction_ok hok
    · obtain ⟨rfl, rfl⟩ := Prod.mk.inj (Option.some.inj (hl.symm.trans hfound))
      cases he
      simp [rebuildRequest, hd.id_eq, hd.type_eq, hd.target_eq, hd.incident_eq, hd.tenant_eq,
        hd.rationale_eq]
    · cases he

/-- A request that waited for approval is executed as submitted exactly when it has no
parameters, whatever happens to the service in between. -/
theorem executed_as_submitted_iff {request : ActionRequest V} {w u v z : World V} {x y : Nat}
    {es : List (Event V)} {e : Execution V} (hw : (evaluate request).1 = .awaitingApproval)
    (hs : next w (.submit x request) = some u) (hr : runTrace actions u es = some v)
    (hes : ∀ ev ∈ es, NotResubmitted request.id ev)
    (ha : next v (.approve y request.id) = some z) (he : z.executions y = some e) :
    SameAction e.request request ↔ request.parameters = [] := by
  have hk : Kept request v := TransitionSystem.runTrace_keeps (M := actions) (P := Kept request)
    (fun _ _ _ hk he hn => next_kept hk he hn) (submit_kept hw hs) hes hr
  rw [handed_request hk ha he]
  constructor
  · rintro ⟨-, -, -, hparameters⟩
    exact hparameters.symm
  · exact fun hparameters => ⟨rfl, rfl, rfl, hparameters.symm⟩

def killProcess (parameters : Dict String) : ActionRequest String where
  id := 7
  incidentId := 1
  tenantId := 1
  actionType := .killProcess
  target := "host-1"
  parameters := parameters
  requestedBy := "analyst"
  rationale := "beaconing"
  autoRollback := false
  rollbackAfterSeconds := none

def emptyService : World String := ⟨⟨fun _ => none, []⟩, fun _ => none, []⟩

/-- The service after the request was submitted. -/
def submitted (parameters : Dict String) : World String :=
  ⟨⟨Function.update (fun _ => none) 7 (some 0), [submittedRecord (killProcess parameters)]⟩,
    Function.update (fun _ => none) 0 none, []⟩

/-- The service after the request was approved: the executor is running. -/
def approved (parameters : Dict String) : World String :=
  ⟨(submitted parameters).store, Function.update (submitted parameters).executions 1
    (some ⟨.approveAction, 0, rebuildRequest (submittedRecord (killProcess parameters))⟩),
    [.approved 7, .called 7]⟩

theorem submit_killProcess (parameters : Dict String) :
    next emptyService (.submit 0 (killProcess parameters)) = some (submitted parameters) := rfl

theorem approve_killProcess (parameters : Dict String) :
    next (submitted parameters) (.approve 1 7) = some (approved parameters) := rfl

theorem parameterless_kill_as_submitted :
    SameAction (rebuildRequest (submittedRecord (killProcess []))) (killProcess []) ↔
      (killProcess []).parameters = [] :=
  executed_as_submitted_iff rfl (submit_killProcess [])
    (show runTrace actions (submitted []) [] = some (submitted []) from rfl) (by simp)
    (approve_killProcess []) rfl

/-- The process to kill is a parameter, and it is not what the executor is told. -/
theorem kill_loses_pid : ¬ ∀ (request : ActionRequest String) (w u v z : World String)
    (x y : Nat) (es : List (Event String)) (e : Execution String),
    (evaluate request).1 = .awaitingApproval → next w (.submit x request) = some u →
      runTrace actions u es = some v → (∀ ev ∈ es, NotResubmitted request.id ev) →
      next v (.approve y request.id) = some z → z.executions y = some e →
      SameAction e.request request := by
  intro h
  have hsame := h (killProcess [("pid", "4711")]) _ _ _ _ 0 1 [] _ rfl
    (submit_killProcess _) rfl (by simp) (approve_killProcess _) rfl
  obtain ⟨-, -, -, hparameters⟩ := hsame
  cases hparameters

end ActionHandover
