import Mathlib.Data.Fintype.EquivFin
import AiSOC.CaseReads

/-! # Which reads of cases are isolated

A timeline depends on the alerts that it looks up, whosever they are, and a summary or post-mortem
on the case that is named. With comments and tasks of the tenant of their case nothing else is
left. -/
namespace CaseReads

open CodeText
open Pagination (sortRows)
open RestrictedQuery (SameRows)

variable {C R H : Type} {uuids : Uuids} {builders : Builders C R H} {tenantId : Uuid} {now : Time}
  {s t : Db C} {caseId : Text} {id : Uuid} {c : CaseRow C} {format : Format} {request : Request}

/-! ## What a response shows of other rows -/

def Db.withAlerts (s : Db C) (rows : List AlertRow) (hids : (rows.map AlertRow.id).Nodup) : Db C :=
  { s with alerts := some rows, alert_ids := by simpa using hids }

theorem agree_withAlerts {rows rows' : List AlertRow} (hs : s.alerts = some rows)
    (hrows : SameRows (fun a => ofTenant tenantId a.tenantId) rows rows')
    (hids : (rows'.map AlertRow.id).Nodup) : Agree tenantId s (s.withAlerts rows' hids) where
  cases := SameRows.refl _ _
  comments := SameRows.refl _ _
  tasks := SameRows.refl _ _
  alerts := by
    rw [SameRows] at hrows
    rw [hs, Db.withAlerts, Option.map_some, Option.map_some, hrows]

theorem length_caseTimeline : (caseTimeline uuids tenantId s c).length =
    (caseEvents uuids c).length + (ownComments tenantId s c.id).length +
      (linkedEvents uuids tenantId s c).length := by
  rw [caseTimeline, (Pagination.answer_sortRows _).perm.length_eq]
  simp only [List.length_append, List.length_map]

theorem length_linkedEvents {rows : List AlertRow} (hs : s.alerts = some rows) :
    (linkedEvents uuids tenantId s c).length =
      ((c.alertIds.take 25).filterMap (alertById rows)).length +
        (ownTasks tenantId s c.id).length := by
  simp only [linkedEvents, hs, List.length_append, List.length_map]

theorem respond_timeline (hc : c ∈ s.cases) (htenant : c.tenantId = some tenantId)
    (hnamed : c.Named uuids caseId) : respond uuids builders tenantId now s (.timeline caseId) =
      .timeline (caseTimeline uuids tenantId s c) := by
  rw [respond, resolved_ownCase.mpr ⟨hc, htenant, hnamed⟩, Response.ofOption]

section Timeline

-- only the alerts change
variable (h : ∀ rows hids, Agree tenantId s (s.withAlerts rows hids) →
    respond uuids builders tenantId now (s.withAlerts rows hids) (.timeline caseId) =
      respond uuids builders tenantId now s (.timeline caseId))
  (hc : c ∈ s.cases) (htenant : c.tenantId = some tenantId) (hnamed : c.Named uuids caseId)
  {rows : List AlertRow} (hs : s.alerts = some rows)

include h hc htenant hnamed hs

/-- A timeline says how many of its alerts were found. -/
theorem found_eq {rows' : List AlertRow}
    (hrows : SameRows (fun a => ofTenant tenantId a.tenantId) rows rows')
    (hids : (rows'.map AlertRow.id).Nodup) :
    ((c.alertIds.take 25).filterMap (alertById rows')).length =
      ((c.alertIds.take 25).filterMap (alertById rows)).length := by
  have hsame := h _ hids (agree_withAlerts hs hrows hids)
  rw [respond_timeline hc htenant hnamed,
    respond_timeline (s := s.withAlerts rows' hids) hc htenant hnamed, Response.timeline.injEq]
    at hsame
  have hlength := congrArg List.length hsame
  rw [length_caseTimeline, length_caseTimeline, length_linkedEvents hs,
    length_linkedEvents (s := s.withAlerts rows' hids) rfl] at hlength
  have hcomments : ownComments tenantId (s.withAlerts rows' hids) c.id =
    ownComments tenantId s c.id := rfl
  have htasks : ownTasks tenantId (s.withAlerts rows' hids) c.id = ownTasks tenantId s c.id := rfl
  rw [hcomments, htasks] at hlength
  omega

/-- An alert that is found is one of the tenant, else it could be gone. -/
theorem found_own {alertId : Uuid} (hid : alertId ∈ c.alertIds.take 25)
    (hfound : (alertById rows alertId).isSome = true) :
    ∃ a ∈ rows, a.id = alertId ∧ a.tenantId = some tenantId := by
  by_contra hnone
  push Not at hnone
  have hlt : ((c.alertIds.take 25).filterMap (alertById (rows.filter fun a =>
      ofTenant tenantId a.tenantId))).length <
      ((c.alertIds.take 25).filterMap (alertById rows)).length := by
    apply RestrictedQuery.length_filterMap_lt _ hid _ hfound
    · intro id hsome
      rw [alertById, List.find?_isSome] at hsome ⊢
      obtain ⟨a, ha, hsame⟩ := hsome
      exact ⟨a, (List.mem_filter.mp ha).1, hsame⟩
    · rw [alertById, List.find?_eq_none]
      intro a ha hsame
      obtain ⟨ha, hown⟩ := List.mem_filter.mp ha
      exact hnone a ha (of_decide_eq_true hsame) (of_decide_eq_true hown)
  have hids : ((rows.filter fun a => ofTenant tenantId a.tenantId).map AlertRow.id).Nodup :=
    (s.alert_ids rows hs).sublist (List.filter_sublist.map _)
  rw [found_eq h hc htenant hnamed hs SameRows.filter_self hids] at hlt
  exact Nat.lt_irrefl _ hlt

/-- And one is found, else another tenant could make one. -/
theorem alertById_isSome {alertId : Uuid} (hid : alertId ∈ c.alertIds.take 25) :
    (alertById rows alertId).isSome = true := by
  by_contra hnone
  rw [Bool.not_eq_true, Option.isSome_eq_false_iff, Option.isNone_iff_eq_none] at hnone
  let made : AlertRow := ⟨alertId, some (tenantId + 1), [], [], none⟩
  have hforeign : ∀ a ∈ [made], ofTenant tenantId a.tenantId = false := by
    intro a ha
    obtain rfl := List.mem_singleton.mp ha
    exact decide_eq_false (by simp [made])
  have hfresh : alertId ∉ rows.map AlertRow.id := by
    intro hmem
    obtain ⟨a, ha, rfl⟩ := List.mem_map.mp hmem
    rw [alertById_eq_some (s.alert_ids rows hs) ha] at hnone
    exact absurd hnone (by simp)
  have hids : ((rows ++ [made]).map AlertRow.id).Nodup := by
    rw [List.map_append, List.map_singleton, List.nodup_append_comm, List.singleton_append]
    exact (s.alert_ids rows hs).cons hfresh
  have hlt : ((c.alertIds.take 25).filterMap (alertById rows)).length <
      ((c.alertIds.take 25).filterMap (alertById (rows ++ [made]))).length := by
    apply RestrictedQuery.length_filterMap_lt _ hid hnone
    · rw [alertById, List.find?_isSome]
      exact ⟨made, List.mem_append_right _ (List.mem_singleton_self _), decide_eq_true rfl⟩
    · intro id hsome
      rw [alertById, List.find?_isSome] at hsome ⊢
      obtain ⟨a, ha, hsame⟩ := hsome
      exact ⟨a, List.mem_append_left _ ha, hsame⟩
  rw [found_eq h hc htenant hnamed hs (SameRows.append hforeign) hids] at hlt
  exact Nat.lt_irrefl _ hlt

end Timeline

theorem timeline_guard (h : ∀ rows hids, Agree tenantId s (s.withAlerts rows hids) →
    respond uuids builders tenantId now (s.withAlerts rows hids) (.timeline caseId) =
      respond uuids builders tenantId now s (.timeline caseId)) :
    Guard uuids tenantId s (.timeline caseId) := by
  intro c hc htenant hnamed rows hs alertId hid
  exact found_own h hc htenant hnamed hs hid (alertById_isSome h hc htenant hnamed hs hid)

/-- The number of tasks or actions that a summary or post-mortem shows. -/
def Response.total : Response C R H → Option ℕ
  | .summary s => some s.tasks.total
  | .postmortem p => some p.totalActions
  | .page p => some p.total
  | _ => none

def shownTotal (uuids : Uuids) (tenantId : Uuid) (s : Db C) (caseId : Text) : Option ℕ :=
  (resolveCaseId uuids tenantId s caseId).bind fun id =>
    (fetchCaseForSummary s id).map fun _ => (fetchTasks s id).length

theorem total_summary : (respond uuids builders tenantId now s (.summary caseId format)).total =
    shownTotal uuids tenantId s caseId := by
  simp only [respond, shownTotal]
  cases resolveCaseId uuids tenantId s caseId with
  | none => rfl
  | some id =>
    simp only [Option.bind_some, buildCaseSummary]
    cases fetchCaseForSummary s id with
    | none => rfl
    | some c => cases format <;> rfl

theorem total_postmortem :
    (respond uuids builders tenantId now s (.postmortem caseId format)).total =
      shownTotal uuids tenantId s caseId := by
  simp only [respond, shownTotal]
  cases resolveCaseId uuids tenantId s caseId with
  | none => rfl
  | some id =>
    simp only [Option.bind_some, buildCasePostmortem]
    cases fetchCaseForSummary s id with
    | none => rfl
    | some c => cases format <;> rfl

/-- A case of another tenant. -/
def Db.addCase [Inhabited C] (s : Db C) (tenantId : Uuid) (id : Uuid)
    (hid : id ∉ s.cases.map CaseRow.id) : Db C :=
  { s with
    cases := s.cases ++
      [⟨id, some (tenantId + 1), none, [], .info, .new, none, [], 0, 0, default⟩]
    case_ids := by
      rw [List.map_append, List.map_singleton, List.nodup_append_comm, List.singleton_append]
      exact s.case_ids.cons hid
    case_numbers := by
      intro c hc c' hc' htenant hnumber htenants hnumbers
      rw [List.mem_append, List.mem_singleton] at hc hc'
      rcases hc with hc | rfl
      · rcases hc' with hc' | rfl
        · exact s.case_numbers c hc c' hc' htenant hnumber htenants hnumbers
        · exact absurd hnumbers hnumber
      · exact absurd rfl hnumber
    comment_cases := by
      intro r hr
      rw [List.map_append]
      exact List.mem_append_left _ (s.comment_cases r hr)
    task_cases := by
      intro r hr
      rw [List.map_append]
      exact List.mem_append_left _ (s.task_cases r hr) }

/-- A task of a case that has no tenant. -/
def Db.addTask (s : Db C) (taskId id : Uuid) (htask : taskId ∉ s.tasks.map TaskRow.id)
    (hid : id ∈ s.cases.map CaseRow.id) : Db C :=
  { s with
    tasks := s.tasks ++ [⟨taskId, id, none, [], .todo, none, none, 0, 0⟩]
    task_ids := by
      rw [List.map_append, List.map_singleton, List.nodup_append_comm, List.singleton_append]
      exact s.task_ids.cons htask
    task_cases := by
      intro r hr
      rcases List.mem_append.mp hr with hr | hr
      · exact s.task_cases r hr
      · obtain rfl := List.mem_singleton.mp hr
        exact hid }

theorem agree_addCase [Inhabited C] (hid : id ∉ s.cases.map CaseRow.id) :
    Agree tenantId s (s.addCase tenantId id hid) where
  cases := SameRows.append (by simp [ofTenant])
  comments := SameRows.refl _ _
  tasks := SameRows.refl _ _
  alerts := rfl

theorem agree_addTask {taskId : Uuid} (htask : taskId ∉ s.tasks.map TaskRow.id)
    (hid : id ∈ s.cases.map CaseRow.id) : Agree tenantId s (s.addTask taskId id htask hid) where
  cases := SameRows.refl _ _
  comments := SameRows.refl _ _
  tasks := SameRows.append (by simp [ofTenant])
  alerts := rfl

theorem length_fetchTasks : (fetchTasks s id).length = s.tasks.countP fun r => r.caseId = id := by
  rw [fetchTasks, (Pagination.answer_sortRows _).perm.length_eq, List.countP_eq_length_filter]

theorem fetchCaseForSummary_isSome :
    (fetchCaseForSummary s id).isSome = true ↔ id ∈ s.cases.map CaseRow.id := by
  rw [fetchCaseForSummary, List.find?_isSome, List.mem_map]
  simp only [decide_eq_true_eq]

/-- A case that another tenant makes is found. -/
theorem addCase_total [Inhabited C] (hid : resolveCaseId uuids tenantId s caseId = some id)
    (hcase : id ∉ s.cases.map CaseRow.id) :
    shownTotal uuids tenantId (s.addCase tenantId id hcase) caseId ≠
      shownTotal uuids tenantId s caseId := by
  have hnone : fetchCaseForSummary s id = none := by
    rw [← Option.not_isSome_iff_eq_none, fetchCaseForSummary_isSome]
    exact hcase
  have hfound : (fetchCaseForSummary (s.addCase tenantId id hcase) id).isSome = true := by
    rw [fetchCaseForSummary_isSome]
    simp [Db.addCase]
  obtain ⟨c, hc⟩ := Option.isSome_iff_exists.mp hfound
  rw [shownTotal, shownTotal, (agree_addCase hcase).resolveCaseId, hid, Option.bind_some,
    Option.bind_some, hnone, hc]
  simp

/-- Where an identifier leads somewhere, another tenant's case could be there, or one task more. -/
theorem leadsNowhere_of_total [Inhabited C] (h : ∀ t, Agree tenantId s t →
    shownTotal uuids tenantId t caseId = shownTotal uuids tenantId s caseId) :
    LeadsNowhere uuids tenantId s caseId := by
  rw [← resolveCaseId_eq_none]
  by_contra hsome
  obtain ⟨id, hid⟩ := Option.ne_none_iff_exists'.mp hsome
  by_cases hcase : id ∈ s.cases.map CaseRow.id
  · obtain ⟨taskId, htask⟩ := Infinite.exists_notMem_finset (s.tasks.map TaskRow.id).toFinset
    rw [List.mem_toFinset] at htask
    have hsame := h _ (agree_addTask htask hcase)
    rw [shownTotal, shownTotal, (agree_addTask htask hcase).resolveCaseId, hid, Option.bind_some,
      Option.bind_some] at hsame
    obtain ⟨c, hc⟩ := Option.isSome_iff_exists.mp (fetchCaseForSummary_isSome.mpr hcase)
    have hc' : fetchCaseForSummary (s.addTask taskId id htask hcase) id = some c := hc
    rw [hc, hc', Option.map_some, Option.map_some, Option.some.injEq, length_fetchTasks,
      length_fetchTasks, Db.addTask, List.countP_append] at hsame
    simp at hsame
  · exact addCase_total hid hcase (h _ (agree_addCase hcase))

/-- A request of the tenant is isolated exactly under the guard. -/
theorem isolated_iff [Inhabited C] : Isolated uuids builders tenantId now s request ↔
    Guard uuids tenantId s request := by
  constructor
  · intro h
    cases request with
    | timeline caseId => exact timeline_guard fun rows hids => h _
    | summary caseId format =>
      apply leadsNowhere_of_total
      intro t hagree
      rw [← total_summary, h t hagree, total_summary]
    | postmortem caseId format =>
      apply leadsNowhere_of_total
      intro t hagree
      rw [← total_postmortem, h t hagree, total_postmortem]
    | _ => trivial
  · intro hguard t hagree
    exact hagree.respond hguard

/-! ## A case and an alert of another tenant -/

def hexDigit (code : CodePoint) : ℕ := if code.val ≤ 57 then code.val - 48 else code.val - 87

/-- The canonical form only. -/
def canonical : Uuids where
  parse t :=
    let hex := t.filter (· ≠ 45)
    if t.length = 36 ∧ hex.length = 32 then some (hex.foldl (fun n d => 16 * n + hexDigit d) 0)
    else none
  str id :=
    let digits := (Nat.toDigits 16 id).map cp
    let hex := List.replicate (32 - digits.length) 48 ++ digits
    hex.take 8 ++ 45 :: (hex.drop 8).take 4 ++ 45 :: (hex.drop 12).take 4 ++
      45 :: (hex.drop 16).take 4 ++ 45 :: hex.drop 20

def plain : Builders Unit Unit Unit :=
  ⟨fun _ _ _ _ => (), fun _ _ _ _ => (), fun _ => (), fun _ => ()⟩

def linkedCase : CaseRow Unit :=
  ⟨10, some 1, some (text "INC-001"), text "Phish", .low, .new, none, [500], 1, 1, ()⟩

/-- The first tenant has linked an alert of the second to its case. -/
def twoTenants : Db Unit where
  cases := [linkedCase,
    ⟨20, some 2, some (text "INC-001"), text "Payroll", .critical, .new, none, [500], 2, 2, ()⟩]
  comments := []
  tasks := [⟨30, 20, some 2, text "Isolate", .todo, none, none, 2, 2⟩]
  alerts := some [⟨500, some 2, text "Payroll breach", text "critical", some 3⟩]
  case_ids := by decide
  case_numbers := by simp [linkedCase]
  comment_ids := by decide
  comment_cases := by simp
  task_ids := by decide
  task_cases := by simp
  alert_ids := by simp

def oneTenant : Db Unit where
  cases := [linkedCase]
  comments := []
  tasks := []
  alerts := some []
  case_ids := by decide
  case_numbers := by simp
  comment_ids := by decide
  comment_cases := by simp
  task_ids := by decide
  task_cases := by simp
  alert_ids := by simp

def foreignCase : Text := text "00000000-0000-0000-0000-000000000014"

/-- The summary and the post-mortem of another tenant's case are served, and the timeline of an own
case shows the title and severity of another tenant's alert. -/
theorem other_tenant_shown : Agree 1 twoTenants oneTenant ∧
    respond canonical plain 1 9 twoTenants (.summary foreignCase .json) =
      .summary ⟨9, 20, some (text "INC-001"), ⟨1, 1, 0, 0, 0⟩, ⟨0, 0, 0, []⟩, ()⟩ ∧
    respond canonical plain 1 9 oneTenant (.summary foreignCase .json) = .notFound ∧
    respond canonical plain 1 9 twoTenants (.postmortem foreignCase .json) =
      .postmortem ⟨9, 20, some (text "INC-001"), 1, 0, ()⟩ ∧
    respond canonical plain 1 9 oneTenant (.postmortem foreignCase .json) = .notFound ∧
    respond canonical plain 1 9 twoTenants (.timeline (text "INC-001")) = .timeline
      [⟨text "case-00000000-0000-0000-0000-00000000000a-created", .created, 1, text "Case opened",
        some (text "Phish"), none⟩,
      ⟨text "alert-00000000-0000-0000-0000-0000000001f4", .alertLinked, 3,
        text "Alert linked: Payroll breach", some (text "Severity critical"), none⟩] ∧
    respond canonical plain 1 9 oneTenant (.timeline (text "INC-001")) = .timeline
      [⟨text "case-00000000-0000-0000-0000-00000000000a-created", .created, 1, text "Case opened",
        some (text "Phish"), none⟩] := by
  refine ⟨⟨rfl, rfl, rfl, rfl⟩, ?_, ?_, ?_, ?_, ?_, ?_⟩
  · decide +kernel
  · decide
  · decide +kernel
  · decide
  · have hfound : (resolveCaseId canonical 1 twoTenants (text "INC-001")).bind
      (ownCase 1 twoTenants) = some linkedCase := by decide +kernel
    have hevents : caseEvents canonical linkedCase ++
        (ownComments 1 twoTenants linkedCase.id).map (commentEvent canonical) ++
          linkedEvents canonical 1 twoTenants linkedCase =
        [⟨text "case-00000000-0000-0000-0000-00000000000a-created", .created, 1,
          text "Case opened", some (text "Phish"), none⟩,
        ⟨text "alert-00000000-0000-0000-0000-0000000001f4", .alertLinked, 3,
          text "Alert linked: Payroll breach", some (text "Severity critical"), none⟩] := by
      decide +kernel
    rw [respond, hfound, Response.ofOption, caseTimeline, hevents, sortRows,
      List.mergeSort_of_pairwise (by decide)]
  · decide +kernel

/-! ## Comments and tasks with the tenant of their case -/

structure Db.Stamped (s : Db C) : Prop where
  comments : ∀ r ∈ s.comments, ∀ c ∈ s.cases, c.id = r.caseId → r.tenantId = c.tenantId
  tasks : ∀ r ∈ s.tasks, ∀ c ∈ s.cases, c.id = r.caseId → r.tenantId = c.tenantId

def StampedIsolated (uuids : Uuids) (builders : Builders C R H) (tenantId : Uuid) (now : Time)
    (s : Db C) (request : Request) : Prop :=
  ∀ t, t.Stamped → Agree tenantId s t →
    respond uuids builders tenantId now t request = respond uuids builders tenantId now s request

/-- A summary or post-mortem may also be one of a case of the tenant. -/
def StampedGuard (uuids : Uuids) (tenantId : Uuid) (s : Db C) : Request → Prop
  | .summary caseId _ | .postmortem caseId _ => LeadsNowhere uuids tenantId s caseId ∨
      ∃ c ∈ s.cases, c.tenantId = some tenantId ∧ c.Named uuids caseId
  | request => Guard uuids tenantId s request

theorem fetchCaseForSummary_eq_some (hc : c ∈ s.cases) :
    fetchCaseForSummary s c.id = some c := by
  cases hfound : fetchCaseForSummary s c.id with
  | none =>
    have hnone := List.find?_eq_none.mp hfound c hc
    exact absurd (decide_eq_true rfl) hnone
  | some found =>
    rw [fetchCaseForSummary] at hfound
    have hsame := List.find?_some hfound
    rw [decide_eq_true_eq] at hsame
    rw [List.inj_on_of_nodup_map s.case_ids (List.mem_of_find?_eq_some hfound) hc hsame]

theorem Db.Stamped.fetchComments (hs : s.Stamped) (hc : c ∈ s.cases)
    (htenant : c.tenantId = some tenantId) :
    CaseReads.fetchComments s c.id = ownComments tenantId s c.id := by
  rw [CaseReads.fetchComments, ownComments]
  congr 1
  apply List.filter_congr
  intro r hr
  by_cases hcase : r.caseId = c.id
  · simp [hcase, hs.comments r hr c hc hcase.symm, htenant]
  · simp [hcase]

theorem Db.Stamped.fetchTasks (hs : s.Stamped) (hc : c ∈ s.cases)
    (htenant : c.tenantId = some tenantId) :
    CaseReads.fetchTasks s c.id = ownTasks tenantId s c.id := by
  rw [CaseReads.fetchTasks, ownTasks]
  congr 1
  apply List.filter_congr
  intro r hr
  by_cases hcase : r.caseId = c.id
  · simp [hcase, hs.tasks r hr c hc hcase.symm, htenant]
  · simp [hcase]

/-- The rows of a summary or post-mortem of a case of the tenant are rows of the tenant. -/
theorem Agree.fetched (h : Agree tenantId s t) (hs : s.Stamped) (ht : t.Stamped)
    (hc : c ∈ s.cases) (htenant : c.tenantId = some tenantId) :
    fetchCaseForSummary t c.id = fetchCaseForSummary s c.id ∧
      fetchComments t c.id = fetchComments s c.id ∧ fetchTasks t c.id = fetchTasks s c.id := by
  have hc' : c ∈ t.cases := (h.own_cases.mpr ⟨hc, htenant⟩).1
  refine ⟨?_, ?_, ?_⟩
  · rw [fetchCaseForSummary_eq_some hc', fetchCaseForSummary_eq_some hc]
  · rw [ht.fetchComments hc' htenant, hs.fetchComments hc htenant, h.ownComments]
  · rw [ht.fetchTasks hc' htenant, hs.fetchTasks hc htenant, h.ownTasks]

theorem resolveCaseId_of_named (hc : c ∈ s.cases) (htenant : c.tenantId = some tenantId)
    (hnamed : c.Named uuids caseId) : resolveCaseId uuids tenantId s caseId = some c.id := by
  have hown := resolved_ownCase.mpr ⟨hc, htenant, hnamed⟩
  obtain ⟨id, hid, hfound⟩ := Option.bind_eq_some_iff.mp hown
  rw [hid, (ownCase_eq_some.mp hfound).2.1]

/-- What is left when all other tenants are gone. -/
def Db.Stamped.ownRows (hs : s.Stamped) (tenantId : Uuid) : Db C where
  cases := s.cases.filter fun c => ofTenant tenantId c.tenantId
  comments := s.comments.filter fun r => ofTenant tenantId r.tenantId
  tasks := s.tasks.filter fun r => ofTenant tenantId r.tenantId
  alerts := s.alerts
  case_ids := s.case_ids.sublist (List.filter_sublist.map _)
  case_numbers := by
    intro c hc c' hc'
    exact s.case_numbers c (List.mem_filter.mp hc).1 c' (List.mem_filter.mp hc').1
  comment_ids := s.comment_ids.sublist (List.filter_sublist.map _)
  comment_cases := by
    intro r hr
    obtain ⟨hr, hown⟩ := List.mem_filter.mp hr
    obtain ⟨c, hc, hid⟩ := List.mem_map.mp (s.comment_cases r hr)
    rw [hs.comments r hr c hc hid] at hown
    exact List.mem_map.mpr ⟨c, List.mem_filter.mpr ⟨hc, hown⟩, hid⟩
  task_ids := s.task_ids.sublist (List.filter_sublist.map _)
  task_cases := by
    intro r hr
    obtain ⟨hr, hown⟩ := List.mem_filter.mp hr
    obtain ⟨c, hc, hid⟩ := List.mem_map.mp (s.task_cases r hr)
    rw [hs.tasks r hr c hc hid] at hown
    exact List.mem_map.mpr ⟨c, List.mem_filter.mpr ⟨hc, hown⟩, hid⟩
  alert_ids := s.alert_ids

theorem Db.Stamped.agree_ownRows (hs : s.Stamped) : Agree tenantId s (hs.ownRows tenantId) where
  cases := SameRows.filter_self
  comments := SameRows.filter_self
  tasks := SameRows.filter_self
  alerts := rfl

theorem Db.Stamped.stamped_ownRows (hs : s.Stamped) : (hs.ownRows tenantId).Stamped where
  comments r hr c hc := hs.comments r (List.mem_filter.mp hr).1 c (List.mem_filter.mp hc).1
  tasks r hr c hc := hs.tasks r (List.mem_filter.mp hr).1 c (List.mem_filter.mp hc).1

theorem Db.Stamped.addCase [Inhabited C] (hs : s.Stamped) (hid : id ∉ s.cases.map CaseRow.id) :
    (s.addCase tenantId id hid).Stamped where
  comments r hr c hc hcase := by
    rcases List.mem_append.mp hc with hc | hc
    · exact hs.comments r hr c hc hcase
    · obtain rfl := List.mem_singleton.mp hc
      have hnew : id = r.caseId := hcase
      exact absurd (hnew ▸ s.comment_cases r hr) hid
  tasks r hr c hc hcase := by
    rcases List.mem_append.mp hc with hc | hc
    · exact hs.tasks r hr c hc hcase
    · obtain rfl := List.mem_singleton.mp hc
      have hnew : id = r.caseId := hcase
      exact absurd (hnew ▸ s.task_cases r hr) hid

/-- Where an identifier leads to no case of the tenant, the others decide whether there is one. -/
theorem Db.Stamped.named_of_total [Inhabited C] (hs : s.Stamped)
    (h : ∀ t, t.Stamped → Agree tenantId s t →
      shownTotal uuids tenantId t caseId = shownTotal uuids tenantId s caseId) :
    LeadsNowhere uuids tenantId s caseId ∨
      ∃ c ∈ s.cases, c.tenantId = some tenantId ∧ c.Named uuids caseId := by
  rw [← resolveCaseId_eq_none]
  by_contra hneither
  push Not at hneither
  obtain ⟨hsome, hforeign⟩ := hneither
  obtain ⟨id, hid⟩ := Option.ne_none_iff_exists'.mp hsome
  have hnone : ∀ c ∈ s.cases, c.tenantId = some tenantId → c.id ≠ id := by
    intro c hc htenant hcase
    have hown : (resolveCaseId uuids tenantId s caseId).bind (ownCase tenantId s) = some c := by
      rw [hid, Option.bind_some, ownCase_eq_some]
      exact ⟨hc, hcase, htenant⟩
    exact hforeign c hc htenant (resolved_ownCase.mp hown).2.2
  by_cases hcase : id ∈ s.cases.map CaseRow.id
  · have hsame := h _ hs.stamped_ownRows hs.agree_ownRows
    have hgone : fetchCaseForSummary (hs.ownRows tenantId) id = none := by
      rw [← Option.not_isSome_iff_eq_none, fetchCaseForSummary_isSome, List.mem_map]
      rintro ⟨c, hc, hcid⟩
      obtain ⟨hc, hown⟩ := List.mem_filter.mp hc
      exact hnone c hc (of_decide_eq_true hown) hcid
    obtain ⟨c, hc⟩ := Option.isSome_iff_exists.mp (fetchCaseForSummary_isSome.mpr hcase)
    rw [shownTotal, shownTotal, hs.agree_ownRows.resolveCaseId, hid, Option.bind_some,
      Option.bind_some, hgone, hc] at hsame
    exact absurd hsame (by simp)
  · have hsame := h _ (hs.addCase hcase) (agree_addCase hcase)
    exact absurd hsame (addCase_total hid hcase)

/-- With comments and tasks of the tenant of their case, what is left is the case itself. -/
theorem stamped_isolated_iff [Inhabited C] (hs : s.Stamped) :
    StampedIsolated uuids builders tenantId now s request ↔
      StampedGuard uuids tenantId s request := by
  constructor
  · intro h
    cases request with
    | timeline caseId =>
      apply timeline_guard
      intro rows hids hagree
      exact h _ ⟨hs.comments, hs.tasks⟩ hagree
    | summary caseId format =>
      apply hs.named_of_total
      intro t ht hagree
      rw [← total_summary, h t ht hagree, total_summary]
    | postmortem caseId format =>
      apply hs.named_of_total
      intro t ht hagree
      rw [← total_postmortem, h t ht hagree, total_postmortem]
    | _ => trivial
  · intro hguard t ht hagree
    cases request with
    | summary caseId format =>
      rcases hguard with hnowhere | ⟨c, hc, htenant, hnamed⟩
      · exact hagree.respond hnowhere
      · obtain ⟨hcase, hcomments, htasks⟩ := hagree.fetched hs ht hc htenant
        simp only [respond, hagree.resolveCaseId, resolveCaseId_of_named hc htenant hnamed,
          Option.bind_some, buildCaseSummary, hcase, hcomments, htasks]
    | postmortem caseId format =>
      rcases hguard with hnowhere | ⟨c, hc, htenant, hnamed⟩
      · exact hagree.respond hnowhere
      · obtain ⟨hcase, hcomments, htasks⟩ := hagree.fetched hs ht hc htenant
        simp only [respond, hagree.resolveCaseId, resolveCaseId_of_named hc htenant hnamed,
          Option.bind_some, buildCasePostmortem, hcase, hcomments, htasks]
    | _ => exact hagree.respond hguard

end CaseReads
