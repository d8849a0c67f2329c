import Mathlib.Data.List.Nodup
import AiSOC.SigmaRules
import AiSOC.TransitionSystem

/-! # Importing Sigma rules

The import of a batch into the rules table, one rule after the other in one transaction, and the
two requests by which an operator sets the status of a rule. An error of the database leaves the
session unusable, so the rules after it fail too and nothing of the batch is kept. -/
namespace SigmaImport

open CodeText PythonValue SigmaRules
open TransitionSystem (System GuardedTrace runTrace)

variable {Ω : Type}

abbrev RuleId := ℕ
abbrev TenantId := ℕ

/-- Rules that were not imported have no provenance. -/
structure DetectionRule where
  id : RuleId
  tenantId : Option TenantId
  name : Text
  description : Option Text
  ruleLanguage : Text
  ruleBody : Text
  category : Text
  status : Text
  severity : Text
  confidence : ℤ
  mitreTactics : List Text
  mitreTechniques : List Text
  totalHits : ℕ
  tags : List Text
  isBuiltin : Bool
  version : ℕ
  provenance : Option Provenance
  deriving DecidableEq

def applyNormalisedToRule (rule : DetectionRule) (n : NormalisedRule) : DetectionRule :=
  { rule with
    name := n.name
    description := some n.description
    ruleLanguage := text "sigma"
    ruleBody := n.ruleBody
    category := text n.category
    severity := text n.severity
    status := n.status
    mitreTactics := n.mitreTactics
    mitreTechniques := n.mitreTechniques
    tags := n.tags
    provenance := some n.provenance
    isBuiltin := false }

/-- The columns of a new row before the normalised rule is copied onto it. -/
def newRule (id : RuleId) (tenantId : Option TenantId) : DetectionRule where
  id := id
  tenantId := tenantId
  name := []
  description := none
  ruleLanguage := []
  ruleBody := []
  category := []
  status := text "testing"
  severity := text "medium"
  confidence := 50
  mitreTactics := []
  mitreTechniques := []
  totalHits := 0
  tags := []
  isBuiltin := false
  version := 1
  provenance := none

/-- A new UUID: one that no row has. -/
def freshId (rows : List DetectionRule) : RuleId := (rows.map DetectionRule.id).foldr max 0 + 1

def isFrom (tenantId : Option TenantId) (source sourceId : Text) (rule : DetectionRule) : Bool :=
  rule.tenantId = tenantId ∧ rule.provenance.any fun p => p.source = source ∧ p.sourceId = sourceId

def findExistingRule (rows : List DetectionRule) (tenantId : Option TenantId)
    (source sourceId : Text) : Option DetectionRule := rows.find? (isFrom tenantId source sourceId)

def bumpVersion (rule : DetectionRule) : DetectionRule :=
  { rule with version := (if rule.version = 0 then 1 else rule.version) + 1 }

inductive Action where
  | inserted
  | updated
  | skipped
  deriving DecidableEq, Repr

/-- A rule that is skipped has no row. -/
structure SigmaImportResult where
  ruleId : Option RuleId
  source : Text
  sourceId : Text
  title : Text
  action : Action
  reason : Option Text
  deriving DecidableEq

inductive Failure where
  | notDict (index : ℕ)
  | missingId (index : ℕ) (title : Option Text)
  | normalisation (index : ℕ) (sourceId title : Text) (exc : PyError)
  | persist (index : ℕ) (sourceId title : Text)
  deriving DecidableEq

structure SigmaImportReport where
  inserted : List SigmaImportResult
  updated : List SigmaImportResult
  skipped : List SigmaImportResult
  failures : List Failure
  deriving DecidableEq

def SigmaImportReport.add (report : SigmaImportReport) (r : SigmaImportResult) :
    SigmaImportReport :=
  match r.action with
  | .inserted => { report with inserted := report.inserted ++ [r] }
  | .updated => { report with updated := report.updated ++ [r] }
  | .skipped => { report with skipped := report.skipped ++ [r] }

def SigmaImportReport.fail (report : SigmaImportReport) (f : Failure) : SigmaImportReport :=
  { report with failures := report.failures ++ [f] }

structure Session where
  rows : List DetectionRule
  failed : Bool
  deriving DecidableEq

/-- One call of the import. `takes` says at which places of the batch the database takes what it
is asked for, `commits` whether the caller commits. -/
structure ImportCall (Ω : Type) where
  rules : Value Ω
  tenantId : Option TenantId
  origin : Origin
  upstreamPaths : Text → Option Text
  takes : ℕ → Bool
  commits : Bool

/-- The row that a rule is written to, and the rows after that. -/
def upsertRule (tenantId : Option TenantId) (rows : List DetectionRule) (n : NormalisedRule) :
    SigmaImportResult × List DetectionRule :=
  let p := n.provenance
  match findExistingRule rows tenantId p.source p.sourceId with
  | none =>
    let rule := applyNormalisedToRule (newRule (freshId rows) tenantId) n
    (⟨some rule.id, p.source, p.sourceId, n.name, .inserted, none⟩, rows ++ [rule])
  | some existing =>
    (⟨some existing.id, p.source, p.sourceId, n.name, .updated,
        some (text "re-import overwrote existing record")⟩,
      rows.map fun rule =>
        if rule.id = existing.id then bumpVersion (applyNormalisedToRule rule n) else rule)

def skipReason (lib : Library Ω) (raw : Dict Ω) : Outcome Text := do
  let status ← upstreamStatus lib raw
  if skipStatuses.any fun s => text s = status then return text "upstream status=" ++ status
  match raw.get (text "detection") with
  | some (.dict (_ :: _)) =>
    if (← field lib raw "title") = [] then return text "missing title"
    if (← field lib raw "id") = [] then return text "missing id"
    return text "did not pass normalisation"
  | _ => return text "missing or empty detection block"

/-- The rule at a place of the batch. -/
def importRule (lib : Library Ω) (call : ImportCall Ω) (index : ℕ) (raw : Value Ω)
    (session : Session) (report : SigmaImportReport) : Outcome (Session × SigmaImportReport) :=
  match raw with
  | .dict raw => do
    let upstreamId ← field lib raw "id"
    let title ← field lib raw "title"
    if upstreamId = [] then
      return (session, report.fail (.missingId index (orNone title)))
    match normaliseRule lib raw call.origin (call.upstreamPaths upstreamId) with
    | .error exc => return (session, report.fail (.normalisation index upstreamId title exc))
    | .ok none =>
      let reason ← skipReason lib raw
      return (session,
        report.add ⟨none, call.origin.source, upstreamId, title, .skipped, some reason⟩)
    | .ok (some n) =>
      if session.failed ∨ call.takes index = false then
        return ({ session with failed := true }, report.fail (.persist index upstreamId title))
      let (result, rows) := upsertRule call.tenantId session.rows n
      return ({ session with rows := rows }, report.add result)
  | _ => .ok (session, report.fail (.notDict index))

def importRules (lib : Library Ω) (call : ImportCall Ω) :
    ℕ → List (Value Ω) → Session → SigmaImportReport → Outcome (Session × SigmaImportReport)
  | _, [], session, report => .ok (session, report)
  | index, raw :: raws, session, report => do
    let (session, report) ← importRule lib call index raw session report
    importRules lib call (index + 1) raws session report

/-- `SigmaImportError` for a batch that is no list. -/
def importSigmaRules (lib : Library Ω) (call : ImportCall Ω) (rows : List DetectionRule) :
    Outcome (Session × SigmaImportReport) :=
  match call.rules with
  | .list raws => importRules lib call 0 raws ⟨rows, false⟩ ⟨[], [], [], []⟩
  | _ => .error (.other (text "SigmaImportError"))

/-- The rows after a call. An exception or an error of the database undoes the transaction. -/
def rowsAfter (lib : Library Ω) (call : ImportCall Ω) (rows : List DetectionRule) :
    List DetectionRule :=
  match importSigmaRules lib call rows with
  | .ok (session, _) => if call.commits ∧ session.failed = false then session.rows else rows
  | .error _ => rows

/-! ## What operators do -/

structure UpdateRuleRequest where
  name : Option Text
  description : Option Text
  ruleBody : Option Text
  status : Option Text
  severity : Option Text
  confidence : Option ℤ
  tags : Option (List Text)
  deriving DecidableEq

def UpdateRuleRequest.isEmpty (r : UpdateRuleRequest) : Bool :=
  r.name = none ∧ r.description = none ∧ r.ruleBody = none ∧ r.status = none ∧
    r.severity = none ∧ r.confidence = none ∧ r.tags = none

def UpdateRuleRequest.apply (r : UpdateRuleRequest) (rule : DetectionRule) : DetectionRule :=
  if r.isEmpty then rule
  else { rule with
    name := r.name.getD rule.name
    description := r.description.or rule.description
    ruleBody := r.ruleBody.getD rule.ruleBody
    status := r.status.getD rule.status
    severity := r.severity.getD rule.severity
    confidence := r.confidence.getD rule.confidence
    tags := r.tags.getD rule.tags
    version := rule.version + 1 }

/-- The tuning action `disable`. -/
def disableRule (rule : DetectionRule) : DetectionRule :=
  bumpVersion { rule with status := text "disabled" }

/-- The table, and the status that an operator gave to a rule last. -/
structure State where
  rows : List DetectionRule
  chosen : RuleId → Option Text

inductive Event (Ω : Type) where
  | importRules (call : ImportCall Ω)
  | update (tenantId : TenantId) (ruleId : RuleId) (request : UpdateRuleRequest)
  | disable (tenantId : TenantId) (ruleId : RuleId)

/-- An operator changes a rule of its tenant; `status` is what it asks for. -/
def State.operate (s : State) (tenantId : TenantId) (ruleId : RuleId) (status : Option Text)
    (change : DetectionRule → DetectionRule) : State :=
  let mine := fun rule : DetectionRule => rule.id = ruleId ∧ rule.tenantId = some tenantId
  if s.rows.any fun rule => mine rule then
    ⟨s.rows.map fun rule => if rule.id = ruleId then change rule else rule,
      fun id => if id = ruleId then status.or (s.chosen id) else s.chosen id⟩
  else s

def step (lib : Library Ω) (s : State) : Event Ω → State
  | .importRules call => { s with rows := rowsAfter lib call s.rows }
  | .update tenantId ruleId request => s.operate tenantId ruleId request.status request.apply
  | .disable tenantId ruleId => s.operate tenantId ruleId (some (text "disabled")) disableRule

/-- The key that the import looks a row up by. -/
def DetectionRule.upstream (rule : DetectionRule) : Option (Option TenantId × Text × Text) :=
  rule.provenance.map fun p => (rule.tenantId, p.source, p.sourceId)

/-- The primary key of the table, and one row for each imported rule. -/
structure Table (rows : List DetectionRule) : Prop where
  ids : (rows.map DetectionRule.id).Nodup
  upstreams : ∀ rule ∈ rows, ∀ other ∈ rows, rule.upstream ≠ none →
    rule.upstream = other.upstream → rule = other

def rulesTable (lib : Library Ω) : System State (Event Ω) where
  start s := Table s.rows ∧ ∀ id, s.chosen id = none
  next s e := some (step lib s e)

/-- Every rule has the status that an operator gave it last. -/
def ChoiceKept (s : State) : Prop :=
  ∀ rule ∈ s.rows, ∀ c ∈ s.chosen rule.id, rule.status = c

/-! ## What an import does to the table -/

/-- What the conversion makes of an entry of a batch, if it goes into the table. -/
def accepted (lib : Library Ω) (call : ImportCall Ω) : Value Ω → Option NormalisedRule
  | .dict raw =>
    match field lib raw "id" with
    | .ok (c :: id) =>
      match normaliseRule lib raw call.origin (call.upstreamPaths (c :: id)) with
      | .ok n => n
      | .error _ => none
    | _ => none
  | _ => none

/-- Nothing is raised outside the two handlers. -/
def readable (lib : Library Ω) (call : ImportCall Ω) : Value Ω → Bool
  | .dict raw =>
    match field lib raw "id", field lib raw "title" with
    | .ok [], .ok _ => true
    | .ok (c :: id), .ok _ =>
      match normaliseRule lib raw call.origin (call.upstreamPaths (c :: id)) with
      | .ok none => (skipReason lib raw).isOk
      | _ => true
    | _, _ => false
  | _ => true

/-- The entries from a place on all read, and the database takes those that are accepted. -/
def goesThrough (lib : Library Ω) (call : ImportCall Ω) : ℕ → List (Value Ω) → Bool
  | _, [] => true
  | index, raw :: raws => readable lib call raw &&
      ((accepted lib call raw).isNone || call.takes index) && goesThrough lib call (index + 1) raws

/-- The rules that a call leaves in the table, in their order. -/
def applied (lib : Library Ω) (call : ImportCall Ω) : List NormalisedRule :=
  match call.rules with
  | .list raws => if call.commits ∧ goesThrough lib call 0 raws then
      raws.filterMap (accepted lib call) else []
  | _ => []

def Session.write (session : Session) (call : ImportCall Ω) (index : ℕ) (n : NormalisedRule) :
    Session :=
  if session.failed ∨ call.takes index = false then { session with failed := true }
  else { session with rows := (upsertRule call.tenantId session.rows n).2 }

variable {lib : Library Ω} {call : ImportCall Ω} {index : ℕ} {raw : Value Ω}
  {raws : List (Value Ω)} {session : Session} {report : SigmaImportReport}
  {rows : List DetectionRule} {rule : DetectionRule} {n : NormalisedRule}
  {ns : List NormalisedRule} {tenantId : Option TenantId}

theorem importRule_of_readable (h : readable lib call raw = true) :
    ∃ report', importRule lib call index raw session report =
      .ok (((accepted lib call raw).map (session.write call index)).getD session, report') := by
  cases raw with
  | dict raw =>
    simp only [readable, accepted, importRule] at h ⊢
    cases hid : field lib raw "id" with
    | error e => simp [hid] at h
    | ok id =>
      cases htitle : field lib raw "title" with
      | error e => cases id <;> simp [hid, htitle] at h
      | ok title =>
        cases id with
        | nil => exact ⟨_, rfl⟩
        | cons c id =>
          simp only [hid, htitle] at h
          simp only [bind, Except.bind, reduceCtorEq, if_false]
          cases hnorm : normaliseRule lib raw call.origin (call.upstreamPaths (c :: id)) with
          | error e => exact ⟨_, rfl⟩
          | ok n =>
            cases n with
            | none =>
              simp only [hnorm] at h
              cases hreason : skipReason lib raw with
              | error e => simp [hreason, Except.isOk, Except.toBool] at h
              | ok reason => exact ⟨_, rfl⟩
            | some n =>
              simp only [Option.map_some, Option.getD_some, Session.write]
              split_ifs
              · exact ⟨_, rfl⟩
              · exact ⟨_, rfl⟩
  | _ => exact ⟨_, rfl⟩

theorem importRule_of_unreadable (h : readable lib call raw = false) :
    ∃ e, importRule lib call index raw session report = .error e := by
  cases raw with
  | dict raw =>
    simp only [readable, importRule] at h ⊢
    cases hid : field lib raw "id" with
    | error e => exact ⟨e, rfl⟩
    | ok id =>
      cases htitle : field lib raw "title" with
      | error e => exact ⟨e, rfl⟩
      | ok title =>
        cases id with
        | nil => simp [hid, htitle] at h
        | cons c id =>
          simp only [hid, htitle] at h
          simp only [bind, Except.bind, reduceCtorEq, if_false]
          cases hnorm : normaliseRule lib raw call.origin (call.upstreamPaths (c :: id)) with
          | error e => simp [hnorm] at h
          | ok n =>
            cases n with
            | some n => simp [hnorm] at h
            | none =>
              simp only [hnorm] at h
              cases hreason : skipReason lib raw with
              | error e => exact ⟨e, rfl⟩
              | ok reason => simp [hreason, Except.isOk, Except.toBool] at h
  | _ => cases h

theorem write_of_failed (h : session.failed = true) :
    (session.write call index n).failed = true := by
  rw [Session.write, if_pos (Or.inl h)]

theorem write_of_refused (h : call.takes index = false) :
    (session.write call index n).failed = true := by
  rw [Session.write, if_pos (Or.inr h)]

theorem write_of_taken (h : call.takes index = true) : (Session.mk rows false).write call index n =
    ⟨(upsertRule call.tenantId rows n).2, false⟩ := by
  simp [Session.write, h]

/-- A session that has failed stays failed. -/
theorem importRules_of_failed (h : session.failed = true) {session' : Session}
    {report' : SigmaImportReport}
    (hrun : importRules lib call index raws session report = .ok (session', report')) :
    session'.failed = true := by
  induction raws generalizing index session report with
  | nil =>
    cases hrun
    exact h
  | cons raw raws ih =>
    rw [importRules] at hrun
    by_cases hread : readable lib call raw = true
    · obtain ⟨report₁, hrule⟩ := @importRule_of_readable _ lib call index raw session report hread
      rw [hrule] at hrun
      apply ih _ hrun
      cases accepted lib call raw with
      | none => exact h
      | some n => exact write_of_failed h
    · obtain ⟨e, hrule⟩ := @importRule_of_unreadable _ lib call index raw session report
        (Bool.eq_false_of_not_eq_true hread)
      rw [hrule] at hrun
      cases hrun

/-- A batch goes through with all its accepted rules written, or it ends in an exception or in
a session that has failed. -/
theorem importRules_spec (index : ℕ) (raws : List (Value Ω)) (rows : List DetectionRule)
    (report : SigmaImportReport) :
    if goesThrough lib call index raws then
      ∃ report', importRules lib call index raws ⟨rows, false⟩ report =
        .ok (⟨(raws.filterMap (accepted lib call)).foldl
          (fun rows n => (upsertRule call.tenantId rows n).2) rows, false⟩, report')
    else ∀ session report', importRules lib call index raws ⟨rows, false⟩ report =
      .ok (session, report') → session.failed = true := by
  induction raws generalizing index rows report with
  | nil => exact ⟨report, rfl⟩
  | cons raw raws ih =>
    simp only [importRules]
    by_cases hread : readable lib call raw = true
    · obtain ⟨report₁, hrule⟩ :=
        @importRule_of_readable _ lib call index raw ⟨rows, false⟩ report hread
      rw [hrule, goesThrough, hread, Bool.true_and]
      cases haccepted : accepted lib call raw with
      | none =>
        rw [List.filterMap_cons_none haccepted, Option.isNone_none, Bool.true_or, Bool.true_and]
        exact ih (index + 1) rows report₁
      | some n =>
        rw [List.filterMap_cons_some haccepted, List.foldl_cons]
        simp only [Option.map_some, Option.getD_some]
        by_cases htakes : call.takes index = true
        · rw [htakes, Bool.or_true, Bool.true_and, write_of_taken htakes]
          exact ih (index + 1) _ report₁
        · have hrefused := Bool.eq_false_of_not_eq_true htakes
          rw [hrefused, Option.isNone_some, Bool.false_or, Bool.false_and,
            if_neg Bool.false_ne_true]
          intro session report' hrun
          exact importRules_of_failed (write_of_refused hrefused) hrun
    · obtain ⟨e, hrule⟩ := @importRule_of_unreadable _ lib call index raw ⟨rows, false⟩ report
        (Bool.eq_false_of_not_eq_true hread)
      rw [goesThrough, Bool.eq_false_of_not_eq_true hread, Bool.false_and, Bool.false_and,
        if_neg Bool.false_ne_true, hrule]
      intro session report' hrun
      cases hrun

theorem rowsAfter_eq (lib : Library Ω) (call : ImportCall Ω) (rows : List DetectionRule) :
    rowsAfter lib call rows =
      (applied lib call).foldl (fun rows n => (upsertRule call.tenantId rows n).2) rows := by
  rw [rowsAfter, applied, importSigmaRules]
  cases call.rules with
  | list raws =>
    have hspec := @importRules_spec _ lib call 0 raws rows ⟨[], [], [], []⟩
    simp only
    by_cases hthrough : goesThrough lib call 0 raws = true
    · rw [if_pos hthrough] at hspec
      obtain ⟨report, hrun⟩ := hspec
      rw [hrun]
      by_cases hcommits : call.commits = true
      · simp [hthrough, hcommits]
      · simp [hcommits]
    · rw [if_neg hthrough] at hspec
      rw [if_neg fun h => hthrough h.2, List.foldl_nil]
      cases hrun : importRules lib call 0 raws ⟨rows, false⟩ ⟨[], [], [], []⟩ with
      | error e => rfl
      | ok result =>
        have hfailed := hspec result.1 result.2 hrun
        simp [hfailed]
  | _ => rfl

/-! ## Rows and their upstream rules -/

theorem freshId_notMem (rows : List DetectionRule) :
    freshId rows ∉ rows.map DetectionRule.id := by
  have hle : ∀ (ids : List ℕ), ∀ id ∈ ids, id ≤ ids.foldr max 0 := by
    intro ids
    induction ids with
    | nil => simp
    | cons x ids ih =>
      intro id hmem
      rcases List.mem_cons.mp hmem with rfl | hmem
      · exact le_max_left _ _
      · exact (ih id hmem).trans (le_max_right _ _)
  intro hmem
  have := hle _ _ hmem
  rw [freshId] at this
  omega

/-- The upstream rule that a normalised rule is a version of. -/
def upstreamOf (tenantId : Option TenantId) (n : NormalisedRule) : Option TenantId × Text × Text :=
  (tenantId, n.provenance.source, n.provenance.sourceId)

theorem isFrom_iff : isFrom tenantId n.provenance.source n.provenance.sourceId rule = true ↔
    rule.upstream = some (upstreamOf tenantId n) := by
  cases hp : rule.provenance with
  | none => simp [isFrom, DetectionRule.upstream, hp]
  | some p => simp [isFrom, DetectionRule.upstream, upstreamOf, hp]

/-- What an update of the upstream rule does to a row. -/
def refresh (tenantId : Option TenantId) (n : NormalisedRule) (rule : DetectionRule) :
    DetectionRule :=
  if rule.upstream = some (upstreamOf tenantId n) then bumpVersion (applyNormalisedToRule rule n)
  else rule

@[simp] theorem refresh_id : (refresh tenantId n rule).id = rule.id := by
  rw [refresh]
  split_ifs <;> rfl

@[simp] theorem refresh_upstream : (refresh tenantId n rule).upstream = rule.upstream := by
  rw [refresh]
  split_ifs with h
  · obtain ⟨p, hp, heq⟩ := Option.map_eq_some_iff.mp h
    have htenant : rule.tenantId = tenantId := congrArg Prod.fst heq
    rw [h, upstreamOf, ← htenant]
    rfl
  · rfl

theorem refresh_of_ne (h : rule.upstream ≠ some (upstreamOf tenantId n)) :
    refresh tenantId n rule = rule := if_neg h

theorem refresh_status : (refresh tenantId n rule).status =
    if rule.upstream = some (upstreamOf tenantId n) then n.status else rule.status := by
  rw [refresh]
  split_ifs <;> rfl

/-- Changes that keep the id and the upstream rule of every row. -/
theorem Table.map (h : Table rows) {f : DetectionRule → DetectionRule}
    (hid : ∀ rule, (f rule).id = rule.id) (hupstream : ∀ rule, (f rule).upstream = rule.upstream) :
    Table (rows.map f) := by
  constructor
  · rw [List.map_map, show DetectionRule.id ∘ f = DetectionRule.id from funext hid]
    exact h.ids
  · intro rule hrule other hother hsome heq
    obtain ⟨r, hr, rfl⟩ := List.mem_map.mp hrule
    obtain ⟨r', hr', rfl⟩ := List.mem_map.mp hother
    rw [hupstream] at hsome
    rw [hupstream, hupstream] at heq
    rw [h.upstreams r hr r' hr' hsome heq]

/-- A row for an upstream rule that no row is of. -/
theorem Table.append (h : Table rows) (hid : rule.id ∉ rows.map DetectionRule.id)
    (hnew : ∀ r ∈ rows, r.upstream ≠ rule.upstream) : Table (rows ++ [rule]) := by
  constructor
  · rw [List.map_append, List.nodup_append]
    refine ⟨h.ids, List.nodup_singleton _, ?_⟩
    intro id hmem other hother heq
    rw [List.map_singleton, List.mem_singleton] at hother
    exact hid (hother ▸ heq ▸ hmem)
  · intro r hr other hother hsome heq
    rcases List.mem_append.mp hr with hr | hr
    · rcases List.mem_append.mp hother with hother | hother
      · exact h.upstreams r hr other hother hsome heq
      · rw [List.mem_singleton.mp hother] at heq
        exact absurd heq (hnew r hr)
    · rcases List.mem_append.mp hother with hother | hother
      · rw [List.mem_singleton.mp hr] at heq
        exact absurd heq.symm (hnew other hother)
      · rw [List.mem_singleton.mp hr, List.mem_singleton.mp hother]

/-- An accepted rule refreshes the row of its upstream rule, or becomes a new row. -/
theorem upsertRule_form (h : Table rows) (tenantId : Option TenantId) (n : NormalisedRule) :
    (upsertRule tenantId rows n).2 = rows.map (refresh tenantId n) ++
      if ∃ r ∈ rows, r.upstream = some (upstreamOf tenantId n) then []
      else [applyNormalisedToRule (newRule (freshId rows) tenantId) n] := by
  simp only [upsertRule, findExistingRule]
  cases hfind : rows.find? (isFrom tenantId n.provenance.source n.provenance.sourceId) with
  | none =>
    have hnone : ∀ r ∈ rows, r.upstream ≠ some (upstreamOf tenantId n) := by
      intro r hr heq
      exact List.find?_eq_none.mp hfind r hr (isFrom_iff.mpr heq)
    have hsame : rows.map (refresh tenantId n) = rows := by
      rw [List.map_congr_left fun r hr => refresh_of_ne (hnone r hr), List.map_id']
    rw [hsame, if_neg]
    rintro ⟨r, hr, heq⟩
    exact hnone r hr heq
  | some existing =>
    have hmem := List.mem_of_find?_eq_some hfind
    have hfrom := isFrom_iff.mp (List.find?_some hfind)
    rw [if_pos ⟨existing, hmem, hfrom⟩, List.append_nil]
    apply List.map_congr_left
    intro r hr
    by_cases hid : r.id = existing.id
    · obtain rfl := List.inj_on_of_nodup_map h.ids hr hmem hid
      rw [if_pos rfl, refresh, if_pos hfrom]
    · rw [if_neg hid, refresh_of_ne]
      intro heq
      apply hid
      rw [h.upstreams r hr existing hmem (by simp [heq]) (heq.trans hfrom.symm)]

/-- A new row has an id of its own. -/
theorem upsertRule_rows (h : Table rows) (tenantId : Option TenantId) (n : NormalisedRule) :
    ∃ news, (upsertRule tenantId rows n).2 = rows.map (refresh tenantId n) ++ news ∧
      (∀ r ∈ news, r.id ∉ rows.map DetectionRule.id) ∧ Table (upsertRule tenantId rows n).2 := by
  refine ⟨_, upsertRule_form h tenantId n, ?_⟩
  rw [upsertRule_form h]
  have hmap : Table (rows.map (refresh tenantId n)) :=
    h.map (fun _ => refresh_id) fun _ => refresh_upstream
  split_ifs with hrow
  · rw [List.append_nil]
    exact ⟨List.forall_mem_nil _, hmap⟩
  · have hids : (rows.map (refresh tenantId n)).map DetectionRule.id =
        rows.map DetectionRule.id := by
      rw [List.map_map]
      exact List.map_congr_left fun _ _ => refresh_id
    refine ⟨?_, hmap.append ?_ ?_⟩
    · intro r hr
      rw [List.mem_singleton.mp hr]
      exact freshId_notMem rows
    · rw [hids]
      exact freshId_notMem rows
    · intro r hr heq
      obtain ⟨r', hr', rfl⟩ := List.mem_map.mp hr
      rw [refresh_upstream] at heq
      exact hrow ⟨r', hr', heq⟩

/-- The versions of a batch, one after the other. -/
def refreshAll (tenantId : Option TenantId) (ns : List NormalisedRule) (rule : DetectionRule) :
    DetectionRule := ns.foldl (fun rule n => refresh tenantId n rule) rule

@[simp] theorem refreshAll_id : (refreshAll tenantId ns rule).id = rule.id := by
  induction ns generalizing rule with
  | nil => rfl
  | cons n ns ih => exact ih.trans refresh_id

/-- The last version of the upstream rule decides. -/
theorem refreshAll_status : (refreshAll tenantId ns rule).status =
    ((ns.filter fun n => rule.upstream = some (upstreamOf tenantId n)).getLast?.map
      NormalisedRule.status).getD rule.status := by
  induction ns generalizing rule with
  | nil => rfl
  | cons n ns ih =>
    rw [refreshAll, List.foldl_cons, ← refreshAll, ih, refresh_upstream, refresh_status]
    by_cases hn : rule.upstream = some (upstreamOf tenantId n)
    · rw [if_pos hn, List.filter_cons_of_pos (by simpa using hn), List.getLast?_cons,
        Option.map_some, Option.getD_some]
      cases (ns.filter fun n => rule.upstream = some (upstreamOf tenantId n)).getLast? with
      | none => rfl
      | some m => rfl
    · rw [if_neg hn, List.filter_cons_of_neg (by simpa using hn)]

theorem foldl_upsertRule (h : Table rows) (tenantId : Option TenantId) (ns : List NormalisedRule) :
    ∃ news, ns.foldl (fun rows n => (upsertRule tenantId rows n).2) rows =
        rows.map (refreshAll tenantId ns) ++ news ∧
      (∀ r ∈ news, r.id ∉ rows.map DetectionRule.id) ∧
      Table (ns.foldl (fun rows n => (upsertRule tenantId rows n).2) rows) := by
  induction ns generalizing rows with
  | nil => exact ⟨[], by rw [List.append_nil]; exact (List.map_id _).symm, by simp, h⟩
  | cons n ns ih =>
    obtain ⟨news, heq, hfresh, htable⟩ := upsertRule_rows h tenantId n
    obtain ⟨news', heq', hfresh', htable'⟩ := ih htable
    rw [List.foldl_cons]
    refine ⟨news.map (refreshAll tenantId ns) ++ news', ?_, ?_, htable'⟩
    · rw [heq', heq, List.map_append, List.map_map, List.append_assoc]
      rfl
    · have hids : (upsertRule tenantId rows n).2.map DetectionRule.id =
          rows.map DetectionRule.id ++ news.map DetectionRule.id := by
        rw [heq, List.map_append, List.map_map]
        exact congrArg (· ++ _) (List.map_congr_left fun _ _ => refresh_id)
      rw [hids] at hfresh'
      intro r hr
      rcases List.mem_append.mp hr with hr | hr
      · obtain ⟨new, hnew, rfl⟩ := List.mem_map.mp hr
        rw [refreshAll_id]
        exact hfresh new hnew
      · exact fun hmem => hfresh' r hr (List.mem_append_left _ hmem)

/-! ## When the operator's choice stays -/

/-- The last version of a row's upstream rule that a call leaves in the table. -/
def latest (lib : Library Ω) (call : ImportCall Ω) (rule : DetectionRule) :
    Option NormalisedRule :=
  ((applied lib call).filter fun n => rule.upstream = some (upstreamOf call.tenantId n)).getLast?

/-- For every rule with a chosen status, the upstream status of the version that an import
brings leads to that same status. -/
def KeepsStatus (lib : Library Ω) (s : State) : Event Ω → Prop
  | .importRules call => ∀ rule ∈ s.rows, ∀ c ∈ s.chosen rule.id, ∀ n ∈ latest lib call rule,
      initialStatus (n.provenance.upstreamStatus.getD []) = c
  | _ => True

structure Invariant (s : State) : Prop where
  table : Table s.rows
  known : ∀ id, s.chosen id ≠ none → id ∈ s.rows.map DetectionRule.id

theorem mem_applied (h : n ∈ applied lib call) :
    n.status = initialStatus (n.provenance.upstreamStatus.getD []) := by
  have haccepted : ∃ raw, accepted lib call raw = some n := by
    rw [applied] at h
    split at h
    · split_ifs at h
      · obtain ⟨raw, -, hraw⟩ := List.mem_filterMap.mp h
        exact ⟨raw, hraw⟩
      · cases h
    · cases h
  obtain ⟨raw, hraw⟩ := haccepted
  unfold accepted at hraw
  split at hraw
  · split at hraw
    · split at hraw
      · rename_i hnorm
        subst hraw
        exact normaliseRule_status hnorm
      · cases hraw
    · cases hraw
  · cases hraw

section Step

variable {s : State} {e : Event Ω}

/-- An import keeps the choices exactly if the latest versions agree with them. -/
theorem import_choiceKept_iff (hinv : Invariant s) (hkept : ChoiceKept s) (call : ImportCall Ω) :
    ChoiceKept (step lib s (.importRules call)) ↔ KeepsStatus lib s (.importRules call) := by
  obtain ⟨news, heq, hfresh, -⟩ := foldl_upsertRule hinv.table call.tenantId (applied lib call)
  simp only [ChoiceKept, step, KeepsStatus, rowsAfter_eq, heq]
  constructor
  · intro h rule hrule c hc n hn
    have hstatus := h _ (List.mem_append_left _ (List.mem_map_of_mem hrule)) c
      (by rwa [refreshAll_id])
    rw [refreshAll_status, ← latest, hn, Option.map_some, Option.getD_some] at hstatus
    rw [← hstatus, mem_applied (List.mem_of_mem_filter (List.mem_of_getLast? hn))]
  · intro h rule hrule c hc
    rcases List.mem_append.mp hrule with hrule | hrule
    · obtain ⟨old, hold, rfl⟩ := List.mem_map.mp hrule
      rw [refreshAll_id] at hc
      rw [refreshAll_status, ← latest]
      cases hn : latest lib call old with
      | none => exact hkept old hold c hc
      | some n =>
        rw [Option.map_some, Option.getD_some,
          mem_applied (List.mem_of_mem_filter (List.mem_of_getLast? hn))]
        exact h old hold c hc n hn
    · refine absurd (hinv.known rule.id ?_) (hfresh rule hrule)
      rw [Option.mem_def.mp hc]
      exact Option.some_ne_none c

/-- A request of an operator gives the rule the status that it asks for. -/
theorem operate_choiceKept (hkept : ChoiceKept s) {ruleId : RuleId} {tenantId : TenantId}
    {status : Option Text} {change : DetectionRule → DetectionRule}
    (hid : ∀ rule, (change rule).id = rule.id)
    (hstatus : ∀ rule, (change rule).status = status.getD rule.status) :
    ChoiceKept (s.operate tenantId ruleId status change) := by
  simp only [State.operate]
  split_ifs with hmine
  · intro rule hrule c hc
    obtain ⟨old, hold, rfl⟩ := List.mem_map.mp hrule
    by_cases hrule : old.id = ruleId
    · simp only [if_pos hrule, hid] at hc ⊢
      rw [hstatus]
      cases status with
      | none => exact hkept old hold c hc
      | some chosen => exact Option.some.inj hc
    · simp only [if_neg hrule] at hc ⊢
      exact hkept old hold c hc
  · exact hkept

theorem request_status (request : UpdateRuleRequest) (rule : DetectionRule) :
    (request.apply rule).status = request.status.getD rule.status := by
  rw [UpdateRuleRequest.apply]
  split_ifs with h
  · have hnone : request.status = none := by
      simp only [UpdateRuleRequest.isEmpty, decide_eq_true_eq] at h
      exact h.2.2.2.1
    rw [hnone, Option.getD_none]
  · rfl

theorem request_id (request : UpdateRuleRequest) (rule : DetectionRule) :
    (request.apply rule).id = rule.id := by
  rw [UpdateRuleRequest.apply]
  split_ifs <;> rfl

theorem request_upstream (request : UpdateRuleRequest) (rule : DetectionRule) :
    (request.apply rule).upstream = rule.upstream := by
  rw [UpdateRuleRequest.apply]
  split_ifs <;> rfl

theorem step_choiceKept_iff (hinv : Invariant s) (hkept : ChoiceKept s) :
    ChoiceKept (step lib s e) ↔ KeepsStatus lib s e := by
  cases e with
  | importRules call => exact import_choiceKept_iff hinv hkept call
  | update tenantId ruleId request =>
    exact iff_of_true (operate_choiceKept hkept (request_id request) (request_status request)) trivial
  | disable tenantId ruleId =>
    exact iff_of_true (operate_choiceKept hkept (fun _ => rfl) fun _ => rfl) trivial

theorem operate_invariant (hinv : Invariant s) {ruleId : RuleId} {tenantId : TenantId}
    {status : Option Text} {change : DetectionRule → DetectionRule}
    (hid : ∀ rule, (change rule).id = rule.id)
    (hupstream : ∀ rule, (change rule).upstream = rule.upstream) :
    Invariant (s.operate tenantId ruleId status change) := by
  simp only [State.operate]
  split_ifs with hmine
  · let changed : DetectionRule → DetectionRule := fun rule =>
      if rule.id = ruleId then change rule else rule
    have hchangedId : ∀ rule, (changed rule).id = rule.id := by
      intro rule
      by_cases h : rule.id = ruleId
      · simp [changed, h, hid]
      · simp [changed, h]
    have hchangedUpstream : ∀ rule, (changed rule).upstream = rule.upstream := by
      intro rule
      by_cases h : rule.id = ruleId
      · simp [changed, h, hupstream]
      · simp [changed, h]
    refine ⟨hinv.table.map hchangedId hchangedUpstream, ?_⟩
    intro id hchosen
    change id ∈ (s.rows.map changed).map DetectionRule.id
    rw [List.map_map, show DetectionRule.id ∘ changed = DetectionRule.id from funext hchangedId]
    by_cases hrule : id = ruleId
    · obtain ⟨rule, hmem, hmine⟩ := List.any_eq_true.mp hmine
      rw [hrule, ← (of_decide_eq_true hmine).1]
      exact List.mem_map_of_mem hmem
    · simp only [if_neg hrule] at hchosen
      exact hinv.known id hchosen
  · exact hinv

theorem step_invariant (hinv : Invariant s) : Invariant (step lib s e) := by
  cases e with
  | importRules call =>
    obtain ⟨news, heq, -, htable⟩ := foldl_upsertRule hinv.table call.tenantId (applied lib call)
    simp only [step, rowsAfter_eq]
    refine ⟨htable, ?_⟩
    intro id hchosen
    have hids : DetectionRule.id ∘ refreshAll call.tenantId (applied lib call) =
        DetectionRule.id := funext fun _ => refreshAll_id
    rw [heq, List.map_append, List.map_map, hids]
    exact List.mem_append_left _ (hinv.known id hchosen)
  | update tenantId ruleId request =>
    exact operate_invariant hinv (request_id request) (request_upstream request)
  | disable tenantId ruleId => exact operate_invariant hinv (fun _ => rfl) fun _ => rfl

end Step

theorem rulesTable_next {s t : State} {e : Event Ω} (h : (rulesTable lib).next s e = some t) :
    t = step lib s e := (Option.some.inj h).symm

/-- The choices are kept in every state of a run exactly if every import of the run brings
versions whose upstream status leads to the status that the operator chose. -/
theorem choice_kept_iff {s : State} (hstart : (rulesTable lib).start s) (es : List (Event Ω)) :
    GuardedTrace (rulesTable lib) (fun s e => ChoiceKept (step lib s e)) s es ↔
      GuardedTrace (rulesTable lib) (KeepsStatus lib) s es := by
  have hinv : Invariant s := ⟨hstart.1, fun id hid => absurd (hstart.2 id) hid⟩
  have hkept : ChoiceKept s := by
    intro rule _ c hc
    rw [hstart.2] at hc
    cases hc
  refine TransitionSystem.guardedTrace_congr (I := fun s => Invariant s ∧ ChoiceKept s) ?_ ?_
    ⟨hinv, hkept⟩
  · intro s e t hs hstep hnext
    rw [rulesTable_next hnext]
    exact ⟨step_invariant hs.1, hstep⟩
  · intro s e hs
    exact step_choiceKept_iff hs.1 hs.2

/-! ## A rule that is imported twice -/

/-- Texts only, in ASCII. -/
def asciiLibrary : Library Empty where
  objects := {
    str := fun | .str s => .ok s | _ => .error .typeError
    truthy := fun o => o.elim
    items := fun o => o.elim
    eq := fun _ _ => .ok false
    rich := fun _ _ _ => .error .typeError
    contains := fun o => o.elim
    isSet := fun o => o.elim }
  lower t := t.map fun c => if between 'A' 'Z' c then c + 0x20 else c
  upper t := t.map fun c => if between 'a' 'z' c then c - 0x20 else c
  isDigit := between '0' '9'
  safeDump _ := .ok (text "title: Encoded command")

def stableRule : Dict Empty :=
  [(.str (text "id"), .str (text "5d7e")), (.str (text "title"), .str (text "Encoded command")),
    (.str (text "status"), .str (text "stable")),
    (.str (text "detection"), .dict [(.str (text "condition"), .str (text "selection"))])]

def nightlyImport : ImportCall Empty where
  rules := .list [.dict stableRule]
  tenantId := some 7
  origin := ⟨text "SigmaHQ/sigma", none, text "DRL-1.1", text "https://example/license",
    text "2026-05-09"⟩
  upstreamPaths _ := none
  takes _ := true
  commits := true

def activate : UpdateRuleRequest := ⟨none, none, none, some (text "enabled"), none, none, none⟩

/-- The import, the operator's activation and the same import again. -/
def activatedBetween : List (Event Empty) :=
  [.importRules nightlyImport, .update 7 1 activate, .importRules nightlyImport]

theorem empty_start (lib : Library Ω) : (rulesTable lib).start ⟨[], fun _ => none⟩ :=
  ⟨⟨List.nodup_nil, fun _ h => absurd h List.not_mem_nil⟩, fun _ => rfl⟩

/-- The second import takes the activation back. -/
theorem reimport_resets_choice : (rulesTable asciiLibrary).start ⟨[], fun _ => none⟩ ∧
    ¬ GuardedTrace (rulesTable asciiLibrary) (fun s e => ChoiceKept (step asciiLibrary s e))
      ⟨[], fun _ => none⟩ activatedBetween := by
  refine ⟨empty_start _, ?_⟩
  intro h
  have hkept := ((h.2 _ rfl).2 _ rfl).1
  let last := activatedBetween.foldl (step asciiLibrary) ⟨[], fun _ => none⟩
  have hrows : last.rows.map (fun rule => (last.chosen rule.id, rule.status)) =
      [(some (text "enabled"), text "testing")] := by decide
  obtain ⟨rule, hmem, hrule⟩ := List.mem_map.mp (hrows ▸ List.mem_singleton_self _)
  have hstatus := hkept rule hmem _ (Prod.mk.inj hrule).1
  rw [(Prod.mk.inj hrule).2] at hstatus
  exact absurd hstatus (by decide)

theorem choice_kept_iff_activated :
    GuardedTrace (rulesTable asciiLibrary) (fun s e => ChoiceKept (step asciiLibrary s e))
      ⟨[], fun _ => none⟩ activatedBetween ↔
    GuardedTrace (rulesTable asciiLibrary) (KeepsStatus asciiLibrary) ⟨[], fun _ => none⟩
      activatedBetween :=
  choice_kept_iff (empty_start _) _

end SigmaImport
