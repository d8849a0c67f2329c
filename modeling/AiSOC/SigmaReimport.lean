import AiSOC.SigmaImport

/-! # Importing a batch of Sigma rules again

Every entry of a batch has one entry in the report, and the table keeps one row for each upstream
rule. Once a batch has gone through, the same batch finds all its rows and leaves them as they are
but for the version and the time of the import. -/
namespace SigmaReimport

open CodeText PythonValue SigmaRules SigmaImport

variable {Ω : Type}

/-! ## One outcome for each entry -/

inductive Entry where
  | result (r : SigmaImportResult)
  | failure (f : Failure)

def record (report : SigmaImportReport) : Entry → SigmaImportReport
  | .result r => report.add r
  | .failure f => report.fail f

def failureIndex : Failure → ℕ
  | .notDict index | .missingId index _ | .normalisation index _ _ _ | .persist index _ _ => index

/-- The entry is about the rule at a place of the batch. -/
def Entry.Concerns (lib : Library Ω) (index : ℕ) (raw : Value Ω) : Entry → Prop
  | .failure f => failureIndex f = index
  | .result r => ∃ rule, raw = .dict rule ∧ field lib rule "id" = .ok r.sourceId

def count (report : SigmaImportReport) : ℕ :=
  report.inserted.length + report.updated.length + report.skipped.length + report.failures.length

def emptyReport : SigmaImportReport := ⟨[], [], [], []⟩

variable {lib : Library Ω} {call : ImportCall Ω} {index : ℕ} {raw : Value Ω}
  {raws : List (Value Ω)} {session session' : Session} {report report' : SigmaImportReport}
  {rows : List DetectionRule} {rule : DetectionRule} {n : NormalisedRule}
  {ns : List NormalisedRule} {tenantId : Option TenantId}

theorem count_record (entry : Entry) : count (record report entry) = count report + 1 := by
  cases entry with
  | failure f =>
    simp only [record, SigmaImportReport.fail, count, List.length_append, List.length_singleton]
    omega
  | result r =>
    simp only [record, SigmaImportReport.add]
    cases r.action with
    | inserted => simp only [count, List.length_append, List.length_singleton]; omega
    | updated => simp only [count, List.length_append, List.length_singleton]; omega
    | skipped => simp only [count, List.length_append, List.length_singleton]; omega

theorem count_foldl (entries : List Entry) :
    count (entries.foldl record report) = count report + entries.length := by
  induction entries generalizing report with
  | nil => rfl
  | cons entry entries ih =>
    rw [List.foldl_cons, ih, count_record, List.length_cons]
    omega

/-- What a rule that the conversion accepts has of its origin and of the entry. -/
theorem normaliseRule_source {raw : Dict Ω} {origin : Origin} {upstreamPath : Option Text}
    (h : normaliseRule lib raw origin upstreamPath = .ok (some n)) :
    n.provenance.source = origin.source ∧ field lib raw "id" = .ok n.provenance.sourceId := by
  rw [normaliseRule] at h
  obtain ⟨isUsable, -, h⟩ := bind_ok h
  cases isUsable with
  | false => cases h
  | true =>
    obtain ⟨title, -, h⟩ := bind_ok h
    obtain ⟨status, -, h⟩ := bind_ok h
    obtain ⟨description, -, h⟩ := bind_ok h
    obtain ⟨severity, -, h⟩ := bind_ok h
    obtain ⟨tags, -, h⟩ := bind_ok h
    obtain ⟨logsource, -, h⟩ := bind_ok h
    obtain ⟨category, -, h⟩ := bind_ok h
    obtain ⟨ocsf, -, h⟩ := bind_ok h
    obtain ⟨ruleBody, -, h⟩ := bind_ok h
    obtain ⟨provenance, hprovenance, h⟩ := bind_ok h
    cases h
    rw [buildProvenance] at hprovenance
    obtain ⟨sourceId, hid, hprovenance⟩ := bind_ok hprovenance
    obtain ⟨status, -, hprovenance⟩ := bind_ok hprovenance
    cases hprovenance
    exact ⟨rfl, hid⟩

theorem upsertRule_sourceId :
    (upsertRule tenantId rows n).1.sourceId = n.provenance.sourceId := by
  simp only [upsertRule]
  split
  · rfl
  · rfl

/-- What one entry of the batch can do. -/
theorem importRule_cases
    (h : importRule lib call index raw session report = .ok (session', report')) :
    (∃ f, failureIndex f = index ∧ session'.rows = session.rows ∧ report' = report.fail f) ∨
    (∃ r : SigmaImportResult, r.action = .skipped ∧ (Entry.result r).Concerns lib index raw ∧
      session' = session ∧ report' = report.add r) ∨
    ∃ n, accepted lib call raw = some n ∧
      (Entry.result (upsertRule call.tenantId session.rows n).1).Concerns lib index raw ∧
      session'.rows = (upsertRule call.tenantId session.rows n).2 ∧
      report' = report.add (upsertRule call.tenantId session.rows n).1 := by
  cases raw with
  | dict raw =>
    rw [importRule] at h
    obtain ⟨upstreamId, hid, h⟩ := bind_ok h
    obtain ⟨title, -, h⟩ := bind_ok h
    by_cases hempty : upstreamId = []
    · rw [if_pos hempty] at h
      cases h
      exact Or.inl ⟨_, rfl, rfl, rfl⟩
    · rw [if_neg hempty] at h
      have haccepted : ∀ n, normaliseRule lib raw call.origin (call.upstreamPaths upstreamId) =
          .ok n → accepted lib call (.dict raw) = n := by
        intro n hnorm
        obtain ⟨c, id, rfl⟩ := List.exists_cons_of_ne_nil hempty
        rw [accepted, hid]
        dsimp only
        rw [hnorm]
      cases hnorm : normaliseRule lib raw call.origin (call.upstreamPaths upstreamId) with
      | error exc =>
        rw [hnorm] at h
        cases h
        exact Or.inl ⟨_, rfl, rfl, rfl⟩
      | ok normalised =>
        rw [hnorm] at h
        cases normalised with
        | none =>
          obtain ⟨reason, -, h⟩ := bind_ok h
          cases h
          exact Or.inr (Or.inl ⟨_, rfl, ⟨raw, rfl, hid⟩, rfl, rfl⟩)
        | some n =>
          dsimp only at h
          split at h
          · cases h
            exact Or.inl ⟨_, rfl, rfl, rfl⟩
          · cases h
            refine Or.inr (Or.inr ⟨n, haccepted _ hnorm, ⟨raw, rfl, ?_⟩, rfl, rfl⟩)
            rw [upsertRule_sourceId]
            exact (normaliseRule_source hnorm).2
  | _ =>
    cases h
    exact Or.inl ⟨_, rfl, rfl, rfl⟩

/-- One entry of the report for each entry of the batch, in their order. -/
theorem importRules_entries
    (h : importRules lib call index raws session report = .ok (session', report')) :
    ∃ entries : List Entry, entries.length = raws.length ∧
      report' = entries.foldl record report ∧
      ∀ (i : ℕ) (raw : Value Ω) (entry : Entry), raws[i]? = some raw → entries[i]? = some entry →
        entry.Concerns lib (index + i) raw := by
  induction raws generalizing index session report with
  | nil =>
    cases h
    exact ⟨[], rfl, rfl, fun _ _ _ h => by cases h⟩
  | cons raw raws ih =>
    obtain ⟨⟨session₁, report₁⟩, hrule, h⟩ := bind_ok h
    obtain ⟨entries, hlength, hreport, hconcerns⟩ := ih h
    have hentry : ∃ entry : Entry, entry.Concerns lib index raw ∧
        report₁ = record report entry := by
      rcases importRule_cases hrule with ⟨f, hf, -, rfl⟩ | ⟨r, -, hr, -, rfl⟩ | ⟨n, -, hn, -, rfl⟩
      · exact ⟨.failure f, hf, rfl⟩
      · exact ⟨.result r, hr, rfl⟩
      · exact ⟨.result _, hn, rfl⟩
    obtain ⟨entry, hentry, rfl⟩ := hentry
    refine ⟨entry :: entries, by rw [List.length_cons, List.length_cons, hlength], hreport, ?_⟩
    intro i raw' entry' hraw' hentry'
    cases i with
    | zero =>
      obtain rfl := Option.some.inj hraw'
      obtain rfl := Option.some.inj hentry'
      exact hentry
    | succ i =>
      have := hconcerns i raw' entry' hraw' hentry'
      rwa [Nat.add_assoc, Nat.add_comm 1 i] at this

/-! ## What a second import finds -/

/-- A row without its version and the time of its import. -/
def forget (rule : DetectionRule) : DetectionRule :=
  { rule with version := 0, provenance := rule.provenance.map fun p => { p with importedAt := [] } }

/-- The conversion of a rule at another time. -/
def restamp (importedAt : Text) (n : NormalisedRule) : NormalisedRule :=
  { n with provenance := { n.provenance with importedAt := importedAt } }

/-- The same batch at another time. -/
def again (call : ImportCall Ω) (importedAt : Text) (takes : ℕ → Bool) (commits : Bool) :
    ImportCall Ω :=
  { call with origin := { call.origin with importedAt := importedAt }, takes := takes
              commits := commits }

theorem buildProvenance_restamp {raw : Dict Ω} {origin : Origin} {upstreamPath : Option Text}
    {ocsf : OcsfClassRef} (importedAt : Text) :
    buildProvenance lib raw { origin with importedAt := importedAt } upstreamPath ocsf =
      (fun p : Provenance => { p with importedAt := importedAt }) <$>
        buildProvenance lib raw origin upstreamPath ocsf := by
  simp only [buildProvenance, map_bind, map_pure]

theorem normaliseRule_restamp {raw : Dict Ω} {origin : Origin} {upstreamPath : Option Text}
    (importedAt : Text) :
    normaliseRule lib raw { origin with importedAt := importedAt } upstreamPath =
      Option.map (restamp importedAt) <$> normaliseRule lib raw origin upstreamPath := by
  simp only [normaliseRule, map_bind, buildProvenance_restamp]
  refine bind_congr fun isUsable => ?_
  cases isUsable with
  | false => rfl
  | true =>
    simp only [Bool.not_true, Bool.false_eq_true, if_false, map_bind, bind_map_left, map_pure]
    rfl

theorem accepted_again (importedAt : Text) (takes : ℕ → Bool) (commits : Bool)
    (raw : Value Ω) : accepted lib (again call importedAt takes commits) raw =
      (accepted lib call raw).map (restamp importedAt) := by
  cases raw with
  | dict raw =>
    simp only [accepted, again]
    cases field lib raw "id" with
    | error e => rfl
    | ok id =>
      cases id with
      | nil => rfl
      | cons c id =>
        simp only [normaliseRule_restamp]
        cases normaliseRule lib raw call.origin (call.upstreamPaths (c :: id)) with
        | error e => rfl
        | ok n => rfl
  | _ => rfl

theorem readable_again (importedAt : Text) (takes : ℕ → Bool) (commits : Bool)
    (raw : Value Ω) :
    readable lib (again call importedAt takes commits) raw = readable lib call raw := by
  cases raw with
  | dict raw =>
    simp only [readable, again]
    cases field lib raw "id" with
    | error e => rfl
    | ok id =>
      cases field lib raw "title" with
      | error e => cases id <;> rfl
      | ok title =>
        cases id with
        | nil => rfl
        | cons c id =>
          simp only [normaliseRule_restamp]
          cases normaliseRule lib raw call.origin (call.upstreamPaths (c :: id)) with
          | error e => rfl
          | ok n => cases n <;> rfl
  | _ => rfl

/-- A batch returns a report exactly if all its entries read. -/
theorem importRules_returns_iff :
    (∃ result, importRules lib call index raws session report = .ok result) ↔
      ∀ raw ∈ raws, readable lib call raw = true := by
  induction raws generalizing index session report with
  | nil => exact iff_of_true ⟨_, rfl⟩ (List.forall_mem_nil _)
  | cons raw raws ih =>
    rw [List.forall_mem_cons, importRules]
    by_cases hread : readable lib call raw = true
    · obtain ⟨report₁, hrule⟩ := @importRule_of_readable _ lib call index raw session report hread
      rw [hrule, and_iff_right hread]
      exact ih
    · obtain ⟨e, hrule⟩ := @importRule_of_unreadable _ lib call index raw session report
        (Bool.eq_false_of_not_eq_true hread)
      rw [hrule]
      refine iff_of_false ?_ fun h => hread h.1
      rintro ⟨result, h⟩
      cases h

/-! ## Rows that are up to date -/

theorem upstream_forget : (forget rule).upstream = rule.upstream := by
  simp only [DetectionRule.upstream, forget, Option.map_map]
  rfl

theorem forget_bumpVersion : forget (bumpVersion rule) = forget rule := rfl

/-- A copy covers all that an earlier one wrote. -/
theorem forget_apply_refresh (m : NormalisedRule) :
    forget (applyNormalisedToRule (refresh tenantId m rule) n) =
      forget (applyNormalisedToRule rule n) := by
  rw [refresh]
  split_ifs
  · rfl
  · rfl

theorem forget_apply_refreshAll :
    forget (applyNormalisedToRule (refreshAll tenantId ns rule) n) =
      forget (applyNormalisedToRule rule n) := by
  induction ns generalizing rule with
  | nil => rfl
  | cons m ns ih =>
    rw [refreshAll, List.foldl_cons, ← refreshAll, ih]
    exact forget_apply_refresh m

theorem forget_refresh_of_eq (h : rule.upstream = some (upstreamOf tenantId n)) :
    forget (refresh tenantId n rule) = forget (applyNormalisedToRule rule n) := by
  rw [refresh, if_pos h, forget_bumpVersion]

theorem refreshAll_upstream : (refreshAll tenantId ns rule).upstream = rule.upstream := by
  induction ns generalizing rule with
  | nil => rfl
  | cons n ns ih => exact ih.trans refresh_upstream

theorem refreshAll_append_singleton : refreshAll tenantId (ns ++ [n]) rule =
    refresh tenantId n (refreshAll tenantId ns rule) := by
  rw [refreshAll, List.foldl_append]
  rfl

/-- The versions of a batch change nothing of the row. -/
def Settled (tenantId : Option TenantId) (ns : List NormalisedRule) (rule : DetectionRule) : Prop :=
  forget (refreshAll tenantId ns rule) = forget rule

/-- The last version of its upstream rule has been copied onto the row. -/
theorem settled_of_apply (h : rule.upstream = some (upstreamOf tenantId n))
    (happly : forget (applyNormalisedToRule rule n) = forget rule) :
    Settled tenantId (ns ++ [n]) rule := by
  rw [Settled, refreshAll_append_singleton,
    forget_refresh_of_eq (refreshAll_upstream.trans h), forget_apply_refreshAll, happly]

theorem Settled.refresh (h : Settled tenantId ns rule) (n : NormalisedRule) :
    Settled tenantId (ns ++ [n]) (refresh tenantId n rule) := by
  by_cases hn : rule.upstream = some (upstreamOf tenantId n)
  · apply settled_of_apply (refresh_upstream.trans hn)
    rw [forget_apply_refresh, forget_refresh_of_eq hn]
  · rw [refresh_of_ne hn, Settled, refreshAll_append_singleton, refresh_of_ne]
    · exact h
    · rwa [refreshAll_upstream]

/-- Every version that was written has a row, and the rows are settled. -/
structure UpToDate (tenantId : Option TenantId) (ns : List NormalisedRule)
    (rows : List DetectionRule) : Prop where
  table : Table rows
  covers : ∀ n ∈ ns, ∃ r ∈ rows, r.upstream = some (upstreamOf tenantId n)
  settled : ∀ r ∈ rows, Settled tenantId ns r

theorem UpToDate.upsert (h : UpToDate tenantId ns rows) (n : NormalisedRule) :
    UpToDate tenantId (ns ++ [n]) (upsertRule tenantId rows n).2 := by
  obtain ⟨-, -, -, htable⟩ := upsertRule_rows h.table tenantId n
  have hform := upsertRule_form h.table tenantId n
  have hkept : ∀ m, (∃ r ∈ rows, r.upstream = some (upstreamOf tenantId m)) →
      ∃ r ∈ (upsertRule tenantId rows n).2, r.upstream = some (upstreamOf tenantId m) := by
    rintro m ⟨r, hr, hupstream⟩
    refine ⟨refresh tenantId n r, ?_, refresh_upstream.trans hupstream⟩
    rw [hform]
    exact List.mem_append_left _ (List.mem_map_of_mem hr)
  let new := applyNormalisedToRule (newRule (freshId rows) tenantId) n
  have hnew : new.upstream = some (upstreamOf tenantId n) := rfl
  refine ⟨htable, ?_, ?_⟩
  · intro m hm
    rcases List.mem_append.mp hm with hm | hm
    · exact hkept m (h.covers m hm)
    · rw [List.mem_singleton.mp hm]
      by_cases hrow : ∃ r ∈ rows, r.upstream = some (upstreamOf tenantId n)
      · exact hkept n hrow
      · refine ⟨new, ?_, hnew⟩
        rw [hform, if_neg hrow]
        exact List.mem_append_right _ (List.mem_singleton_self _)
  · intro r hr
    rw [hform] at hr
    rcases List.mem_append.mp hr with hr | hr
    · obtain ⟨old, hold, rfl⟩ := List.mem_map.mp hr
      exact (h.settled old hold).refresh n
    · split_ifs at hr
      · cases hr
      · rw [List.mem_singleton.mp hr]
        exact settled_of_apply hnew rfl

theorem UpToDate.foldl {done : List NormalisedRule} (h : UpToDate tenantId done rows)
    (ns : List NormalisedRule) : UpToDate tenantId (done ++ ns)
      (ns.foldl (fun rows n => (upsertRule tenantId rows n).2) rows) := by
  induction ns generalizing done rows with
  | nil => rwa [List.append_nil]
  | cons n ns ih =>
    rw [List.append_cons]
    exact ih (h.upsert n)

/-- After an import its own versions have nothing left to do. -/
theorem upToDate_rowsAfter (h : Table rows) :
    UpToDate call.tenantId (applied lib call) (rowsAfter lib call rows) := by
  have hnothing : UpToDate call.tenantId [] rows := ⟨h, List.forall_mem_nil _, fun _ _ => rfl⟩
  rw [rowsAfter_eq]
  exact hnothing.foldl (applied lib call)

/-! ## The second import -/

/-- Versions that all have their row only refresh it. -/
theorem foldl_of_covered (h : Table rows)
    (hcovers : ∀ n ∈ ns, ∃ r ∈ rows, r.upstream = some (upstreamOf tenantId n)) :
    ns.foldl (fun rows n => (upsertRule tenantId rows n).2) rows =
      rows.map (refreshAll tenantId ns) := by
  induction ns generalizing rows with
  | nil => exact (List.map_id _).symm
  | cons n ns ih =>
    have hrows : (upsertRule tenantId rows n).2 = rows.map (refresh tenantId n) := by
      rw [upsertRule_form h, if_pos (hcovers n List.mem_cons_self), List.append_nil]
    obtain ⟨-, -, -, htable⟩ := upsertRule_rows h tenantId n
    rw [List.foldl_cons, ih htable, hrows, List.map_map]
    · rfl
    · intro m hm
      obtain ⟨r, hr, hupstream⟩ := hcovers m (List.mem_cons_of_mem n hm)
      rw [hrows]
      exact ⟨_, List.mem_map_of_mem hr, refresh_upstream.trans hupstream⟩

/-- The time of the import does not reach what a row keeps. -/
theorem forget_refresh_restamp {old : DetectionRule} (importedAt : Text)
    (h : forget rule = forget old) : forget (refresh tenantId (restamp importedAt n) rule) =
      forget (refresh tenantId n old) := by
  have hupstream : rule.upstream = old.upstream := by
    rw [← upstream_forget, h, upstream_forget]
  by_cases hn : old.upstream = some (upstreamOf tenantId n)
  · have hcopied : forget (applyNormalisedToRule (forget rule) n) =
        forget (applyNormalisedToRule (forget old) n) := by rw [h]
    have hnew : rule.upstream = some (upstreamOf tenantId (restamp importedAt n)) :=
      hupstream.trans hn
    rw [forget_refresh_of_eq hn, forget_refresh_of_eq hnew]
    exact hcopied
  · rw [refresh_of_ne hn, refresh_of_ne, h]
    rw [hupstream]
    exact hn

theorem forget_refreshAll_restamp {old : DetectionRule} (importedAt : Text)
    (h : forget rule = forget old) :
    forget (refreshAll tenantId (ns.map (restamp importedAt)) rule) =
      forget (refreshAll tenantId ns old) := by
  induction ns generalizing rule old with
  | nil => exact h
  | cons n ns ih => exact ih (forget_refresh_restamp importedAt h)

theorem UpToDate.map_refreshAll (h : UpToDate tenantId ns rows) (importedAt : Text) :
    (rows.map (refreshAll tenantId (ns.map (restamp importedAt)))).map forget =
      rows.map forget := by
  rw [List.map_map]
  apply List.map_congr_left
  intro r hr
  exact (forget_refreshAll_restamp importedAt rfl).trans (h.settled r hr)

theorem upsertRule_updated
    (h : ∃ r ∈ rows, r.upstream = some (upstreamOf tenantId n)) :
    (upsertRule tenantId rows n).1.action = .updated := by
  obtain ⟨r, hr, hupstream⟩ := h
  simp only [upsertRule, findExistingRule]
  cases hfind : rows.find? (isFrom tenantId n.provenance.source n.provenance.sourceId) with
  | none => exact absurd (isFrom_iff.mpr hupstream) (List.find?_eq_none.mp hfind r hr)
  | some existing => rfl

theorem inserted_add {r : SigmaImportResult} (h : r.action ≠ .inserted) :
    (report.add r).inserted = report.inserted := by
  rw [SigmaImportReport.add]
  cases haction : r.action with
  | inserted => exact absurd haction h
  | updated => rfl
  | skipped => rfl

/-- Nothing is created if every accepted rule has its row. -/
theorem importRules_inserted (htable : Table session.rows)
    (hcovers : ∀ raw ∈ raws, ∀ n, accepted lib call raw = some n →
      ∃ r ∈ session.rows, r.upstream = some (upstreamOf call.tenantId n))
    (h : importRules lib call index raws session report = .ok (session', report')) :
    report'.inserted = report.inserted := by
  induction raws generalizing index session report with
  | nil =>
    cases h
    rfl
  | cons raw raws ih =>
    obtain ⟨⟨session₁, report₁⟩, hrule, h⟩ := bind_ok h
    dsimp only at h
    obtain ⟨hraw, hraws⟩ := List.forall_mem_cons.mp hcovers
    rcases importRule_cases hrule with ⟨f, -, hrows, rfl⟩ | ⟨r, hskipped, -, rfl, rfl⟩ |
      ⟨n, haccepted, -, hrows, rfl⟩
    · rw [ih (hrows ▸ htable) (hrows ▸ hraws) h]
      rfl
    · rw [ih htable hraws h, inserted_add]
      rw [hskipped]
      decide
    · obtain ⟨-, -, -, htable₁⟩ := upsertRule_rows htable call.tenantId n
      rw [← hrows] at htable₁
      rw [ih htable₁ _ h, inserted_add]
      · rw [upsertRule_updated (hraw n haccepted)]
        decide
      · intro raw' hraw' m hm
        obtain ⟨r, hr, hupstream⟩ := hraws raw' hraw' m hm
        refine ⟨refresh call.tenantId n r, ?_, refresh_upstream.trans hupstream⟩
        rw [hrows, upsertRule_form htable]
        exact List.mem_append_left _ (List.mem_map_of_mem hr)

/-- The rules that a call leaves in the table, if it does go through. -/
theorem applied_of_committed (hrules : call.rules = .list raws)
    (h : importSigmaRules lib call rows = .ok (session, report)) (hfailed : session.failed = false)
    (hcommits : call.commits = true) :
    applied lib call = raws.filterMap (accepted lib call) := by
  rw [importSigmaRules, hrules] at h
  have hspec := @importRules_spec _ lib call 0 raws rows ⟨[], [], [], []⟩
  rw [applied, hrules]
  dsimp only
  by_cases hthrough : goesThrough lib call 0 raws = true
  · rw [if_pos ⟨hcommits, hthrough⟩]
  · rw [if_neg hthrough] at hspec
    rw [hspec session report h] at hfailed
    cases hfailed

theorem applied_again (hrules : call.rules = .list raws)
    (happlied : applied lib call = raws.filterMap (accepted lib call)) (importedAt : Text)
    (takes : ℕ → Bool) (commits : Bool) :
    applied lib (again call importedAt takes commits) = [] ∨
      applied lib (again call importedAt takes commits) =
        (applied lib call).map (restamp importedAt) := by
  have haccepted : accepted lib (again call importedAt takes commits) =
      fun raw => (accepted lib call raw).map (restamp importedAt) :=
    funext fun raw => accepted_again importedAt takes commits raw
  have hrules' : (again call importedAt takes commits).rules = .list raws := hrules
  rw [happlied, List.map_filterMap, applied, hrules', haccepted]
  dsimp only
  split_ifs
  · exact Or.inr rfl
  · exact Or.inl rfl

/-- The same batch again creates nothing, and leaves the rows as they are but for their version
and the time of the import. -/
theorem import_again (hrules : call.rules = .list raws) (htable : Table rows)
    (h : importSigmaRules lib call rows = .ok (session, report)) (hfailed : session.failed = false)
    (hcommits : call.commits = true) (importedAt : Text) (takes : ℕ → Bool) (commits : Bool) :
    (∃ session' report', importSigmaRules lib (again call importedAt takes commits)
        (rowsAfter lib call rows) = .ok (session', report') ∧ report'.inserted = []) ∧
      (rowsAfter lib (again call importedAt takes commits) (rowsAfter lib call rows)).map forget =
        (rowsAfter lib call rows).map forget := by
  have happlied := applied_of_committed hrules h hfailed hcommits
  have hupToDate := @upToDate_rowsAfter _ lib call rows htable
  constructor
  · have hreadable : ∀ raw ∈ raws,
        readable lib (again call importedAt takes commits) raw = true := by
      rw [importSigmaRules, hrules] at h
      intro raw hraw
      rw [readable_again]
      exact importRules_returns_iff.mp ⟨_, h⟩ raw hraw
    have hrules' : (again call importedAt takes commits).rules = .list raws := hrules
    rw [importSigmaRules, hrules']
    obtain ⟨⟨session', report'⟩, hrun⟩ := (@importRules_returns_iff _ lib
      (again call importedAt takes commits) 0 raws ⟨rowsAfter lib call rows, false⟩
      ⟨[], [], [], []⟩).mpr hreadable
    refine ⟨session', report', hrun, ?_⟩
    refine importRules_inserted hupToDate.table ?_ hrun
    intro raw hraw n hn
    rw [accepted_again] at hn
    obtain ⟨m, hm, rfl⟩ := Option.map_eq_some_iff.mp hn
    apply hupToDate.covers m
    rw [happlied]
    exact List.mem_filterMap.mpr ⟨raw, hraw, hm⟩
  · rw [rowsAfter_eq lib (again call importedAt takes commits)]
    rcases applied_again hrules happlied importedAt takes commits with hnone | hall
    · rw [hnone, List.foldl_nil]
    · have hcovers : ∀ n ∈ (applied lib call).map (restamp importedAt),
          ∃ r ∈ rowsAfter lib call rows, r.upstream = some (upstreamOf call.tenantId n) := by
        intro n hn
        obtain ⟨m, hm, rfl⟩ := List.mem_map.mp hn
        exact hupToDate.covers m hm
      rw [hall, ← hupToDate.map_refreshAll importedAt]
      exact congrArg (List.map forget) (foldl_of_covered hupToDate.table hcovers)

/-- Every entry of the batch has one outcome, the table keeps one row for each upstream rule, and
a batch that has gone through has nothing left to create or to change. -/
theorem import_partition (hrules : call.rules = .list raws)
    (h : importSigmaRules lib call rows = .ok (session, report)) :
    (∃ entries : List Entry, entries.length = raws.length ∧
      report = entries.foldl record emptyReport ∧
      ∀ (i : ℕ) (raw : Value Ω) (entry : Entry), raws[i]? = some raw → entries[i]? = some entry →
        entry.Concerns lib i raw) ∧
    count report = raws.length ∧
    (Table rows → Table (rowsAfter lib call rows) ∧
      (session.failed = false → call.commits = true →
        ∀ (importedAt : Text) (takes : ℕ → Bool) (commits : Bool),
          (∃ session' report', importSigmaRules lib (again call importedAt takes commits)
            (rowsAfter lib call rows) = .ok (session', report') ∧ report'.inserted = []) ∧
          (rowsAfter lib (again call importedAt takes commits)
            (rowsAfter lib call rows)).map forget = (rowsAfter lib call rows).map forget)) := by
  have hrun := h
  rw [importSigmaRules, hrules] at hrun
  obtain ⟨entries, hlength, hreport, hconcerns⟩ := importRules_entries hrun
  refine ⟨⟨entries, hlength, hreport, ?_⟩, ?_, ?_⟩
  · intro i raw entry hraw hentry
    have := hconcerns i raw entry hraw hentry
    rwa [Nat.zero_add] at this
  · rw [hreport, count_foldl, hlength]
    exact Nat.zero_add _
  · intro htable
    refine ⟨(upToDate_rowsAfter htable).table, ?_⟩
    intro hfailed hcommits importedAt takes commits
    exact import_again hrules htable h hfailed hcommits importedAt takes commits

/-! ## A batch with a rule that is listed twice -/

def listedTwice : ImportCall Empty :=
  { nightlyImport with rules := .list [.dict stableRule, .none, .dict stableRule] }

theorem listedTwice_partition : ∃ session report,
    importSigmaRules asciiLibrary listedTwice [] = .ok (session, report) ∧ count report = 3 ∧
      Table (rowsAfter asciiLibrary listedTwice []) ∧
      (rowsAfter asciiLibrary (again listedTwice (text "2026-05-10") (fun _ => true) true)
        (rowsAfter asciiLibrary listedTwice [])).map forget =
        (rowsAfter asciiLibrary listedTwice []).map forget := by
  have htable : Table [] := ⟨List.nodup_nil, fun _ h => absurd h List.not_mem_nil⟩
  refine ⟨_, _, rfl, ?_⟩
  obtain ⟨-, hcount, htable'⟩ := @import_partition _ asciiLibrary listedTwice _ _ _ [] rfl rfl
  exact ⟨hcount, (htable' htable).1, ((htable' htable).2 rfl rfl _ _ _).2⟩

/-- The same import, which the database refuses. -/
def refusedImport : ImportCall Empty := { nightlyImport with takes := fun _ => false }

/-- Two rows of one upstream rule. -/
def duplicates : List DetectionRule :=
  (rowsAfter asciiLibrary nightlyImport []).flatMap fun rule => [rule, { rule with id := 2 }]

/-- An import leaves two rows of one upstream rule, and one that was refused creates the rule
when it is repeated. -/
theorem reimport_creates :
    (∃ rule ∈ rowsAfter asciiLibrary nightlyImport duplicates,
      ∃ other ∈ rowsAfter asciiLibrary nightlyImport duplicates,
        rule.upstream ≠ none ∧ rule.upstream = other.upstream ∧ rule ≠ other) ∧
    (∃ session report, importSigmaRules asciiLibrary refusedImport [] = .ok (session, report) ∧
      count report = 1) ∧
    ∃ session report, importSigmaRules asciiLibrary
      (again refusedImport (text "2026-05-09") (fun _ => true) true)
      (rowsAfter asciiLibrary refusedImport []) = .ok (session, report) ∧
      report.inserted.length = 1 := by
  refine ⟨?_, ⟨_, _, rfl, rfl⟩, ⟨_, _, rfl, rfl⟩⟩
  decide

end SigmaReimport
