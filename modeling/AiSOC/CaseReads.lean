import Mathlib
import AiSOC.CaseLifecycle
import AiSOC.CodeText
import AiSOC.Pagination
import AiSOC.RestrictedQuery

/-! # Reading cases

The requests that read the cases of a tenant. Identifiers are resolved first and queried by later;
all queries have a condition on the tenant but those for linked alerts, and those of the summary
and of the post-mortem. -/
namespace CaseReads

open CaseLifecycle (CaseStatus CaseSeverity)
open CodeText
open Pagination (sortRows)
open RestrictedQuery (SameRows)

abbrev Uuid := ℕ
abbrev Time := ℕ

inductive TaskStatus where
  | todo | inProgress | done
  deriving DecidableEq

/-- `columns` are those that only go into a response. -/
structure CaseRow (C : Type) where
  id : Uuid
  tenantId : Option Uuid
  caseNumber : Option Text
  title : Text
  severity : CaseSeverity
  status : CaseStatus
  assignee : Option Text
  alertIds : List Uuid
  createdAt : Time
  updatedAt : Time
  columns : C
  deriving DecidableEq

structure CommentRow where
  id : Uuid
  caseId : Uuid
  tenantId : Option Uuid
  author : Option Text
  body : Text
  isSystem : Bool
  createdAt : Time
  deriving DecidableEq

structure TaskRow where
  id : Uuid
  caseId : Uuid
  tenantId : Option Uuid
  title : Text
  status : TaskStatus
  assignee : Option Text
  dueAt : Option Time
  createdAt : Time
  updatedAt : Time
  deriving DecidableEq

structure AlertRow where
  id : Uuid
  tenantId : Option Uuid
  title : Text
  severity : Text
  createdAt : Option Time
  deriving DecidableEq

/-- The tables with their keys. No migration makes the table of alerts, so it may be missing. -/
structure Db (C : Type) where
  cases : List (CaseRow C)
  comments : List CommentRow
  tasks : List TaskRow
  alerts : Option (List AlertRow)
  case_ids : (cases.map CaseRow.id).Nodup
  case_numbers : ∀ c ∈ cases, ∀ c' ∈ cases, c.tenantId ≠ none → c.caseNumber ≠ none →
    c.tenantId = c'.tenantId → c.caseNumber = c'.caseNumber → c = c'
  comment_ids : (comments.map CommentRow.id).Nodup
  comment_cases : ∀ r ∈ comments, r.caseId ∈ cases.map CaseRow.id
  task_ids : (tasks.map TaskRow.id).Nodup
  task_cases : ∀ r ∈ tasks, r.caseId ∈ cases.map CaseRow.id
  alert_ids : ∀ rows ∈ alerts, (rows.map AlertRow.id).Nodup

/-- Reads a UUID in any of its forms, and writes one. -/
structure Uuids where
  parse : Text → Option Uuid
  str : Uuid → Text

variable {C R H : Type}

def severityName : CaseSeverity → String
  | .info => "info"
  | .low => "low"
  | .medium => "medium"
  | .high => "high"
  | .critical => "critical"

def statusName : CaseStatus → String
  | .new => "new"
  | .triaged => "triaged"
  | .investigating => "investigating"
  | .contained => "contained"
  | .resolved => "resolved"
  | .closed => "closed"

def taskStatusName : TaskStatus → String
  | .todo => "todo"
  | .inProgress => "in_progress"
  | .done => "done"

/-! ## Queries -/

/-- `ORDER BY created_at DESC`. -/
def newestFirst (rows : List (CaseRow C)) : List (CaseRow C) :=
  sortRows (fun c => OrderDual.toDual c.createdAt) rows

def resolveCaseId (uuids : Uuids) (tenantId : Uuid) (db : Db C) (caseId : Text) : Option Uuid :=
  let caseId := strip caseId
  if caseId = [] then none
  else
    match uuids.parse caseId with
    | some id => some id
    | none => (newestFirst (db.cases.filter fun c =>
        c.tenantId = some tenantId ∧ c.caseNumber = some caseId)).head?.map CaseRow.id

def ownCase (tenantId : Uuid) (db : Db C) (id : Uuid) : Option (CaseRow C) :=
  db.cases.find? fun c => c.id = id ∧ c.tenantId = some tenantId

def ownComments (tenantId : Uuid) (db : Db C) (id : Uuid) : List CommentRow :=
  sortRows CommentRow.createdAt (db.comments.filter fun r =>
    r.caseId = id ∧ r.tenantId = some tenantId)

def ownTasks (tenantId : Uuid) (db : Db C) (id : Uuid) : List TaskRow :=
  sortRows TaskRow.createdAt (db.tasks.filter fun r => r.caseId = id ∧ r.tenantId = some tenantId)

/-- A parameter without truth is no filter. -/
def filterOn (given : Option Text) (column : Option Text) : Bool :=
  match given with
  | none | some [] => true
  | some value => column = some value

/-! ## Timeline -/

inductive EventType where
  | created | statusChange | comment | alertLinked | task
  deriving DecidableEq

structure TimelineEvent where
  id : Text
  type : EventType
  timestamp : Time
  title : Text
  description : Option Text
  actor : Option Text
  deriving DecidableEq

def caseEvents (uuids : Uuids) (c : CaseRow C) : List TimelineEvent :=
  ⟨text "case-" ++ uuids.str c.id ++ text "-created", .created, c.createdAt, text "Case opened",
    some c.title, c.assignee⟩ ::
  if c.updatedAt ≠ c.createdAt then
    [⟨text "case-" ++ uuids.str c.id ++ text "-status", .statusChange, c.updatedAt,
      text "Status: " ++ text (statusName c.status),
      some (text "Severity " ++ text (severityName c.severity)), c.assignee⟩]
  else []

def commentEvent (uuids : Uuids) (r : CommentRow) : TimelineEvent :=
  ⟨text "comment-" ++ uuids.str r.id, .comment, r.createdAt,
    text (if r.isSystem then "System note" else "Comment"), some (r.body.take 280), r.author⟩

def alertEvent (uuids : Uuids) (c : CaseRow C) (a : AlertRow) : TimelineEvent :=
  ⟨text "alert-" ++ uuids.str a.id, .alertLinked, a.createdAt.getD c.createdAt,
    text "Alert linked: " ++ a.title, some (text "Severity " ++ a.severity), none⟩

def taskEvent (uuids : Uuids) (r : TaskRow) : TimelineEvent :=
  ⟨text "task-" ++ uuids.str r.id, .task, r.createdAt,
    text "Task (" ++ text (taskStatusName r.status) ++ text "): " ++ r.title, none, r.assignee⟩

def alertById (alerts : List AlertRow) (id : Uuid) : Option AlertRow :=
  alerts.find? fun a => a.id = id

/-- A query on a table that is missing fails, and after it every other one of the transaction. -/
def linkedEvents (uuids : Uuids) (tenantId : Uuid) (db : Db C) (c : CaseRow C) :
    List TimelineEvent :=
  let alertIds := c.alertIds.take 25
  let tasks := (ownTasks tenantId db c.id).map (taskEvent uuids)
  match db.alerts with
  | some alerts => (alertIds.filterMap (alertById alerts)).map (alertEvent uuids c) ++ tasks
  | none => if alertIds = [] then tasks else []

def caseTimeline (uuids : Uuids) (tenantId : Uuid) (db : Db C) (c : CaseRow C) :
    List TimelineEvent :=
  sortRows TimelineEvent.timestamp (caseEvents uuids c ++
    (ownComments tenantId db c.id).map (commentEvent uuids) ++ linkedEvents uuids tenantId db c)

/-! ## Summary and post-mortem -/

/-- The fetchers of the summary, which have no tenant. -/
def fetchCaseForSummary (db : Db C) (id : Uuid) : Option (CaseRow C) :=
  db.cases.find? fun c => c.id = id

def fetchComments (db : Db C) (id : Uuid) : List CommentRow :=
  sortRows CommentRow.createdAt (db.comments.filter fun r => r.caseId = id)

def fetchTasks (db : Db C) (id : Uuid) : List TaskRow :=
  sortRows TaskRow.createdAt (db.tasks.filter fun r => r.caseId = id)

structure TaskBreakdown where
  total : ℕ
  todo : ℕ
  inProgress : ℕ
  done : ℕ
  overdue : ℕ
  deriving DecidableEq

def summariseTasks (rows : List TaskRow) (now : Time) : TaskBreakdown where
  total := rows.length
  todo := rows.countP fun r => r.status = .todo
  inProgress := rows.countP fun r => r.status = .inProgress
  done := rows.countP fun r => r.status = .done
  overdue := rows.countP fun r => r.status ≠ .done ∧ r.dueAt.any fun due => due < now

structure CommentBreakdown where
  total : ℕ
  analyst : ℕ
  system : ℕ
  distinctAuthors : List Text
  deriving DecidableEq

def summariseComments (rows : List CommentRow) : CommentBreakdown where
  total := rows.length
  analyst := rows.countP fun r => !r.isSystem
  system := rows.countP CommentRow.isSystem
  distinctAuthors := ((rows.filter fun r => !r.isSystem).filterMap fun r =>
    r.author.filter (· ≠ [])).dedup.mergeSort fun a b => decide (a ≤ b)

structure CaseAutoSummary (R : Type) where
  generatedAt : Time
  caseId : Uuid
  caseNumber : Option Text
  tasks : TaskBreakdown
  comments : CommentBreakdown
  rest : R
  deriving DecidableEq

/-- Every task is an action of one of the buckets. -/
structure CasePostmortem (R : Type) where
  generatedAt : Time
  caseId : Uuid
  caseNumber : Option Text
  totalActions : ℕ
  completed : ℕ
  rest : R
  deriving DecidableEq

/-- A page shows the total of the tasks or actions that it is about. -/
structure Page (H : Type) where
  total : ℕ
  rest : H
  deriving DecidableEq

/-- The parts of the artefacts that are built from the same rows and from nothing else. -/
structure Builders (C R H : Type) where
  summary : CaseRow C → List CommentRow → List TaskRow → Time → R
  postmortem : CaseRow C → List CommentRow → List TaskRow → Time → R
  summaryPage : CaseAutoSummary R → H
  postmortemPage : CasePostmortem R → H

def buildCaseSummary (builders : Builders C R H) (db : Db C) (id : Uuid) (now : Time) :
    Option (CaseAutoSummary R) :=
  (fetchCaseForSummary db id).map fun c =>
    let comments := fetchComments db id
    let tasks := fetchTasks db id
    ⟨now, c.id, c.caseNumber, summariseTasks tasks now, summariseComments comments,
      builders.summary c comments tasks now⟩

def buildCasePostmortem (builders : Builders C R H) (db : Db C) (id : Uuid) (now : Time) :
    Option (CasePostmortem R) :=
  (fetchCaseForSummary db id).map fun c =>
    let comments := fetchComments db id
    let tasks := fetchTasks db id
    ⟨now, c.id, c.caseNumber, tasks.length, tasks.countP fun r => r.status = .done,
      builders.postmortem c comments tasks now⟩

/-! ## Requests -/

inductive Format where
  | json | html

/-- The notes are the comments under another path. -/
inductive Request where
  | list (status severity assignee : Option Text) (limit offset : ℕ)
  | get (caseId : Text)
  | comments (caseId : Text)
  | evidence (caseId : Text)
  | timeline (caseId : Text)
  | tasks (caseId : Text)
  | summary (caseId : Text) (format : Format)
  | postmortem (caseId : Text) (format : Format)
  | related (caseId : Text)

/-- Where a response only converts rows, the rows stand for it. -/
inductive Response (C R H : Type) where
  | notFound
  | cases (rows : List (CaseRow C))
  | case (row : CaseRow C)
  | comments (rows : List CommentRow)
  | evidence (row : CaseRow C) (generatedAt : Time)
  | timeline (events : List TimelineEvent)
  | tasks (rows : List TaskRow)
  | summary (s : CaseAutoSummary R)
  | postmortem (p : CasePostmortem R)
  | page (p : Page H)
  | related (rows : List (CaseRow C))
  deriving DecidableEq

def Response.ofOption {α : Type} (answer : α → Response C R H) : Option α → Response C R H
  | none => .notFound
  | some a => answer a

def listCases (tenantId : Uuid) (db : Db C) (status severity assignee : Option Text)
    (limit offset : ℕ) : List (CaseRow C) :=
  ((newestFirst (db.cases.filter fun c => c.tenantId = some tenantId ∧
    filterOn status (some (text (statusName c.status))) ∧
    filterOn severity (some (text (severityName c.severity))) ∧
    filterOn assignee c.assignee)).drop offset).take limit

def relatedCases (tenantId : Uuid) (db : Db C) (c : CaseRow C) : List (CaseRow C) :=
  if c.alertIds = [] then []
  else (newestFirst (db.cases.filter fun other => other.id ≠ c.id ∧
    other.tenantId = some tenantId ∧ other.alertIds.any fun a => decide (a ∈ c.alertIds))).take 20

def summaryResponse (builders : Builders C R H) (format : Format) (s : CaseAutoSummary R) :
    Response C R H :=
  match format with
  | .json => .summary s
  | .html => .page ⟨s.tasks.total, builders.summaryPage s⟩

def postmortemResponse (builders : Builders C R H) (format : Format) (p : CasePostmortem R) :
    Response C R H :=
  match format with
  | .json => .postmortem p
  | .html => .page ⟨p.totalActions, builders.postmortemPage p⟩

/-- What a user of the tenant gets at a time. -/
def respond (uuids : Uuids) (builders : Builders C R H) (tenantId : Uuid) (now : Time) (db : Db C) :
    Request → Response C R H
  | .list status severity assignee limit offset =>
    .cases (listCases tenantId db status severity assignee limit offset)
  | .get caseId => .ofOption .case ((resolveCaseId uuids tenantId db caseId).bind
      (ownCase tenantId db))
  | .comments caseId => .ofOption (fun id => .comments (ownComments tenantId db id))
      (resolveCaseId uuids tenantId db caseId)
  | .evidence caseId => .ofOption (fun c => .evidence c now)
      ((resolveCaseId uuids tenantId db caseId).bind (ownCase tenantId db))
  | .timeline caseId => .ofOption (fun c => .timeline (caseTimeline uuids tenantId db c))
      ((resolveCaseId uuids tenantId db caseId).bind (ownCase tenantId db))
  | .tasks caseId => .ofOption (fun c => .tasks (ownTasks tenantId db c.id))
      ((resolveCaseId uuids tenantId db caseId).bind (ownCase tenantId db))
  | .summary caseId format => .ofOption (summaryResponse builders format)
      ((resolveCaseId uuids tenantId db caseId).bind fun id => buildCaseSummary builders db id now)
  | .postmortem caseId format => .ofOption (postmortemResponse builders format)
      ((resolveCaseId uuids tenantId db caseId).bind fun id =>
        buildCasePostmortem builders db id now)
  | .related caseId => .ofOption (fun c => .related (relatedCases tenantId db c))
      ((resolveCaseId uuids tenantId db caseId).bind (ownCase tenantId db))

/-! ## Two databases with the same rows of a tenant -/

def ofTenant (tenantId : Uuid) (column : Option Uuid) : Bool := column = some tenantId

structure Agree (tenantId : Uuid) (s t : Db C) : Prop where
  cases : SameRows (fun c => ofTenant tenantId c.tenantId) s.cases t.cases
  comments : SameRows (fun r => ofTenant tenantId r.tenantId) s.comments t.comments
  tasks : SameRows (fun r => ofTenant tenantId r.tenantId) s.tasks t.tasks
  alerts : s.alerts.map (List.filter fun a => ofTenant tenantId a.tenantId) =
    t.alerts.map (List.filter fun a => ofTenant tenantId a.tenantId)

/-- The response depends on nothing but the rows of the tenant. -/
def Isolated (uuids : Uuids) (builders : Builders C R H) (tenantId : Uuid) (now : Time) (s : Db C)
    (request : Request) : Prop :=
  ∀ t, Agree tenantId s t →
    respond uuids builders tenantId now t request = respond uuids builders tenantId now s request

/-- The identifier is the id of the case or, where it is no id, the number. -/
def CaseRow.Named (uuids : Uuids) (caseId : Text) (c : CaseRow C) : Prop :=
  strip caseId ≠ [] ∧ (uuids.parse (strip caseId) = some c.id ∨
    uuids.parse (strip caseId) = none ∧ c.caseNumber = some (strip caseId))

/-- A blank identifier, or one that is neither an id nor a number of the tenant. -/
def LeadsNowhere (uuids : Uuids) (tenantId : Uuid) (s : Db C) (caseId : Text) : Prop :=
  strip caseId = [] ∨ uuids.parse (strip caseId) = none ∧
    ∀ c ∈ s.cases, c.tenantId = some tenantId → c.caseNumber ≠ some (strip caseId)

/-- The alerts that a timeline looks up are alerts of the tenant, and a summary or post-mortem is
asked for by an identifier that leads nowhere. -/
def Guard (uuids : Uuids) (tenantId : Uuid) (s : Db C) : Request → Prop
  | .timeline caseId => ∀ c ∈ s.cases, c.tenantId = some tenantId → c.Named uuids caseId →
      ∀ alerts ∈ s.alerts, ∀ alertId ∈ c.alertIds.take 25,
        ∃ a ∈ alerts, a.id = alertId ∧ a.tenantId = some tenantId
  | .summary caseId _ | .postmortem caseId _ => LeadsNowhere uuids tenantId s caseId
  | _ => True

variable {uuids : Uuids} {builders : Builders C R H} {tenantId : Uuid} {now : Time} {s t : Db C}
  {caseId : Text} {id : Uuid} {c : CaseRow C} {request : Request}

theorem mem_newestFirst {rows : List (CaseRow C)} : c ∈ newestFirst rows ↔ c ∈ rows :=
  (Pagination.answer_sortRows rows).perm.mem_iff

theorem resolveCaseId_eq_none :
    resolveCaseId uuids tenantId s caseId = none ↔ LeadsNowhere uuids tenantId s caseId := by
  simp only [resolveCaseId, LeadsNowhere]
  by_cases hblank : strip caseId = []
  · rw [if_pos hblank]
    exact ⟨fun _ => Or.inl hblank, fun _ => rfl⟩
  · rw [if_neg hblank]
    cases hid : uuids.parse (strip caseId) with
    | some id => simp [hblank]
    | none =>
      rw [Option.map_eq_none_iff, List.head?_eq_none_iff, List.eq_nil_iff_forall_not_mem]
      simp only [mem_newestFirst, List.mem_filter, decide_eq_true_eq, hblank, false_or, true_and]
      constructor
      · intro h c hc htenant hnumber
        exact h c ⟨hc, htenant, hnumber⟩
      · rintro h c ⟨hc, htenant, hnumber⟩
        exact h c hc htenant hnumber

theorem ownCase_eq_some : ownCase tenantId s id = some c ↔
    c ∈ s.cases ∧ c.id = id ∧ c.tenantId = some tenantId := by
  have hfind : ∀ {c}, ownCase tenantId s id = some c →
      c ∈ s.cases ∧ c.id = id ∧ c.tenantId = some tenantId := by
    intro c h
    rw [ownCase] at h
    have hfound := List.find?_some h
    rw [decide_eq_true_eq] at hfound
    exact ⟨List.mem_of_find?_eq_some h, hfound⟩
  constructor
  · exact hfind
  · rintro ⟨hc, hid, htenant⟩
    cases hfound : ownCase tenantId s id with
    | none =>
      have hnone := List.find?_eq_none.mp hfound c hc
      exact absurd (decide_eq_true ⟨hid, htenant⟩) hnone
    | some found =>
      obtain ⟨hmem, hsame, -⟩ := hfind hfound
      rw [List.inj_on_of_nodup_map s.case_ids hmem hc (hsame.trans hid.symm)]

/-- What an identifier leads to of the tenant. -/
theorem resolved_ownCase : (resolveCaseId uuids tenantId s caseId).bind (ownCase tenantId s) =
    some c ↔ c ∈ s.cases ∧ c.tenantId = some tenantId ∧ c.Named uuids caseId := by
  simp only [resolveCaseId, CaseRow.Named, ne_eq]
  by_cases hblank : strip caseId = []
  · simp [hblank]
  · rw [if_neg hblank]
    cases hid : uuids.parse (strip caseId) with
    | some id =>
      simp only [Option.bind_some, ownCase_eq_some, Option.some.injEq, reduceCtorEq, false_and,
        or_false, hblank, not_false_eq_true, true_and, eq_comm (a := id)]
      tauto
    | none =>
      simp only [reduceCtorEq, false_or, hblank, not_false_eq_true, true_and]
      cases hnewest : (newestFirst (s.cases.filter fun c =>
          c.tenantId = some tenantId ∧ c.caseNumber = some (strip caseId))).head? with
      | none =>
        rw [List.head?_eq_none_iff, List.eq_nil_iff_forall_not_mem] at hnewest
        simp only [mem_newestFirst, List.mem_filter, decide_eq_true_eq] at hnewest
        simpa using hnewest c
      | some newest =>
        have hmem := List.mem_of_mem_head? hnewest
        rw [mem_newestFirst, List.mem_filter, decide_eq_true_eq] at hmem
        obtain ⟨hmem, htenant, hnumber⟩ := hmem
        rw [Option.map_some, Option.bind_some, ownCase_eq_some]
        constructor
        · rintro ⟨hc, hsame, hown⟩
          obtain rfl := List.inj_on_of_nodup_map s.case_ids hc hmem hsame
          exact ⟨hc, hown, hnumber⟩
        · rintro ⟨hc, hown, hnumber'⟩
          have hsame : c = newest := s.case_numbers c hc newest hmem (by simp [hown])
            (by simp [hnumber']) (hown.trans htenant.symm) (hnumber'.trans hnumber.symm)
          exact ⟨hc, by rw [hsame], hown⟩

theorem alertById_eq_some {rows : List AlertRow} (hids : (rows.map AlertRow.id).Nodup)
    {a : AlertRow} (ha : a ∈ rows) : alertById rows a.id = some a := by
  cases hfound : alertById rows a.id with
  | none =>
    have hnone := List.find?_eq_none.mp hfound a ha
    exact absurd (decide_eq_true rfl) hnone
  | some found =>
    rw [alertById] at hfound
    have hsame := List.find?_some hfound
    rw [decide_eq_true_eq] at hsame
    rw [List.inj_on_of_nodup_map hids (List.mem_of_find?_eq_some hfound) ha hsame]

section Agreement

variable (h : Agree tenantId s t)

include h

theorem Agree.filter_cases {q : CaseRow C → Bool}
    (hq : ∀ c, q c = true → c.tenantId = some tenantId) : s.cases.filter q = t.cases.filter q :=
  h.cases.filter fun c hc => decide_eq_true (hq c hc)

theorem Agree.resolveCaseId (caseId : Text) :
    CaseReads.resolveCaseId uuids tenantId t caseId =
      CaseReads.resolveCaseId uuids tenantId s caseId := by
  simp only [CaseReads.resolveCaseId]
  rw [h.filter_cases]
  intro c hc
  exact (of_decide_eq_true hc).1

theorem Agree.ownCase (id : Uuid) :
    CaseReads.ownCase tenantId t id = CaseReads.ownCase tenantId s id := by
  refine (h.cases.find? fun c hc => decide_eq_true ?_).symm
  exact (of_decide_eq_true hc).2

theorem Agree.ownComments (id : Uuid) :
    CaseReads.ownComments tenantId t id = CaseReads.ownComments tenantId s id := by
  rw [CaseReads.ownComments, CaseReads.ownComments, h.comments.filter]
  intro r hr
  exact decide_eq_true (of_decide_eq_true hr).2

theorem Agree.ownTasks (id : Uuid) :
    CaseReads.ownTasks tenantId t id = CaseReads.ownTasks tenantId s id := by
  rw [CaseReads.ownTasks, CaseReads.ownTasks, h.tasks.filter]
  intro r hr
  exact decide_eq_true (of_decide_eq_true hr).2

theorem Agree.listCases (status severity assignee : Option Text) (limit offset : ℕ) :
    CaseReads.listCases tenantId t status severity assignee limit offset =
      CaseReads.listCases tenantId s status severity assignee limit offset := by
  rw [CaseReads.listCases, CaseReads.listCases, h.filter_cases]
  intro c hc
  exact (of_decide_eq_true hc).1

theorem Agree.relatedCases (c : CaseRow C) :
    CaseReads.relatedCases tenantId t c = CaseReads.relatedCases tenantId s c := by
  rw [CaseReads.relatedCases, CaseReads.relatedCases, h.filter_cases]
  intro other hother
  exact (of_decide_eq_true hother).2.1

theorem Agree.own_cases : c ∈ t.cases ∧ c.tenantId = some tenantId ↔
    c ∈ s.cases ∧ c.tenantId = some tenantId := by
  have hrows : s.cases.filter (fun c => ofTenant tenantId c.tenantId) =
    t.cases.filter fun c => ofTenant tenantId c.tenantId := h.cases
  have hmem : c ∈ t.cases.filter (fun c => ofTenant tenantId c.tenantId) ↔
    c ∈ s.cases.filter fun c => ofTenant tenantId c.tenantId := by rw [hrows]
  simpa only [List.mem_filter, ofTenant, decide_eq_true_eq] using hmem

/-- An alert of the tenant is looked up alike. -/
theorem Agree.alertById {rows rows' : List AlertRow} (hs : s.alerts = some rows)
    (ht : t.alerts = some rows') {a : AlertRow} (ha : a ∈ rows)
    (hown : a.tenantId = some tenantId) :
    CaseReads.alertById rows' a.id = CaseReads.alertById rows a.id := by
  have hrows := h.alerts
  rw [hs, ht, Option.map_some, Option.map_some, Option.some.injEq] at hrows
  have ha' : a ∈ rows' := by
    have hmem : a ∈ rows.filter fun a => ofTenant tenantId a.tenantId :=
      List.mem_filter.mpr ⟨ha, decide_eq_true hown⟩
    rw [hrows] at hmem
    exact (List.mem_filter.mp hmem).1
  rw [alertById_eq_some (t.alert_ids rows' ht) ha', alertById_eq_some (s.alert_ids rows hs) ha]

theorem Agree.linkedEvents {c : CaseRow C} (hguard : ∀ alerts ∈ s.alerts,
    ∀ alertId ∈ c.alertIds.take 25, ∃ a ∈ alerts, a.id = alertId ∧ a.tenantId = some tenantId) :
    CaseReads.linkedEvents uuids tenantId t c = CaseReads.linkedEvents uuids tenantId s c := by
  simp only [CaseReads.linkedEvents, h.ownTasks]
  have halerts := h.alerts
  cases hs : s.alerts with
  | none =>
    cases ht : t.alerts with
    | none => rfl
    | some rows' => simp [hs, ht] at halerts
  | some rows =>
    cases ht : t.alerts with
    | none => simp [hs, ht] at halerts
    | some rows' =>
      have hlook : ∀ alertId ∈ c.alertIds.take 25,
          CaseReads.alertById rows' alertId = CaseReads.alertById rows alertId := by
        intro alertId hid
        obtain ⟨a, ha, rfl, hown⟩ := hguard rows hs alertId hid
        exact h.alertById hs ht ha hown
      simp only [List.filterMap_congr hlook]

/-- Under the guard every request gets the same response. -/
theorem Agree.respond (hguard : Guard uuids tenantId s request) :
    CaseReads.respond uuids builders tenantId now t request =
      CaseReads.respond uuids builders tenantId now s request := by
  have hown : ∀ caseId, (CaseReads.resolveCaseId uuids tenantId t caseId).bind
      (CaseReads.ownCase tenantId t) =
        (CaseReads.resolveCaseId uuids tenantId s caseId).bind (CaseReads.ownCase tenantId s) := by
    intro caseId
    rw [h.resolveCaseId, funext h.ownCase]
  cases request with
  | list status severity assignee limit offset =>
    simp only [CaseReads.respond, h.listCases]
  | get caseId => simp only [CaseReads.respond, hown]
  | comments caseId => simp only [CaseReads.respond, h.resolveCaseId, h.ownComments]
  | evidence caseId => simp only [CaseReads.respond, hown]
  | timeline caseId =>
    simp only [CaseReads.respond, hown]
    cases hc : (CaseReads.resolveCaseId uuids tenantId s caseId).bind
        (CaseReads.ownCase tenantId s) with
    | none => rfl
    | some c =>
      obtain ⟨hmem, htenant, hnamed⟩ := resolved_ownCase.mp hc
      simp only [Response.ofOption, caseTimeline, h.ownComments,
        h.linkedEvents (hguard c hmem htenant hnamed)]
  | tasks caseId => simp only [CaseReads.respond, hown, h.ownTasks]
  | summary caseId format =>
    simp only [CaseReads.respond, h.resolveCaseId, resolveCaseId_eq_none.mpr hguard]
    rfl
  | postmortem caseId format =>
    simp only [CaseReads.respond, h.resolveCaseId, resolveCaseId_eq_none.mpr hguard]
    rfl
  | related caseId => simp only [CaseReads.respond, hown, h.relatedCases]

end Agreement

end CaseReads
