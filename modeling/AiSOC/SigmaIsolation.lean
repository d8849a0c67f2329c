import Mathlib.Algebra.BigOperators.Group.List.Basic
import Mathlib.Algebra.GroupWithZero.Nat
import Mathlib.Algebra.Order.BigOperators.Group.List
import Mathlib.Algebra.Order.Group.Nat
import AiSOC.SigmaReimport

/-! # Bad rules in an import of Sigma rules

Whether the rules that the database refuses leave the others of their batch alone: the same batch
without them is the measure. -/
namespace SigmaIsolation

open CodeText PythonValue SigmaRules SigmaImport
open SigmaReimport (emptyReport failureIndex importRules_returns_iff)

variable {Ω : Type}

/-! ## What becomes of each rule -/

def both (a b : SigmaImportReport) : SigmaImportReport where
  inserted := a.inserted ++ b.inserted
  updated := a.updated ++ b.updated
  skipped := a.skipped ++ b.skipped
  failures := a.failures ++ b.failures

/-- The batch with a report for each of its rules. -/
def outcomes (lib : Library Ω) (call : ImportCall Ω) :
    ℕ → List (Value Ω) → Session → Outcome (Session × List SigmaImportReport)
  | _, [], session => .ok (session, [])
  | index, raw :: raws, session => do
    let (session, report) ← importRule lib call index raw session emptyReport
    let (session, reports) ← outcomes lib call (index + 1) raws session
    return (session, report :: reports)

def failureAt (index : ℕ) : Failure → Failure
  | .notDict _ => .notDict index
  | .missingId _ title => .missingId index title
  | .normalisation _ sourceId title exc => .normalisation index sourceId title exc
  | .persist _ sourceId title => .persist index sourceId title

/-- The report without the places in the batch. -/
def unplaced (report : SigmaImportReport) : SigmaImportReport :=
  { report with failures := report.failures.map (failureAt 0) }

/-- What stands at the places that are taken, the first of which is `index`. -/
def spared {α : Type} (takes : ℕ → Bool) : ℕ → List α → List α
  | _, [] => []
  | index, x :: xs =>
    if takes index then x :: spared takes (index + 1) xs else spared takes (index + 1) xs

/-- The same call without the rules that the database refuses. -/
def without (call : ImportCall Ω) (raws : List (Value Ω)) : ImportCall Ω :=
  { call with rules := .list (spared call.takes 0 raws), takes := fun _ => true }

def batch (call : ImportCall Ω) (raws : List (Value Ω)) : ImportCall Ω :=
  { call with rules := .list raws }

/-- The import returns, and for the rules that are not refused it says and stores what it would
without the refused ones. -/
structure Isolated (lib : Library Ω) (call : ImportCall Ω) (raws : List (Value Ω))
    (rows : List DetectionRule) : Prop where
  returns : ∃ result, importSigmaRules lib (batch call raws) rows = .ok result
  said : ∀ session reports session' reports',
    outcomes lib (batch call raws) 0 raws ⟨rows, false⟩ = .ok (session, reports) →
    outcomes lib (without call raws) 0 (spared call.takes 0 raws) ⟨rows, false⟩ =
      .ok (session', reports') →
    (spared call.takes 0 reports).map unplaced = reports'.map unplaced
  stored : rowsAfter lib (batch call raws) rows = rowsAfter lib (without call raws) rows

/-- What the database answers to the rules of the batch that reach it. -/
def answers (lib : Library Ω) (call : ImportCall Ω) : ℕ → List (Value Ω) → List Bool
  | _, [] => []
  | index, raw :: raws =>
    if (accepted lib call raw).isSome then call.takes index :: answers lib call (index + 1) raws
    else answers lib call (index + 1) raws

variable {lib : Library Ω} {call : ImportCall Ω} {index : ℕ} {raw : Value Ω}
  {raws : List (Value Ω)} {session session' : Session} {report : SigmaImportReport}
  {rows : List DetectionRule} {n : NormalisedRule} {tenantId : Option TenantId}

theorem both_fail (f : Failure) : report.fail f = both report (emptyReport.fail f) := by
  simp only [SigmaImportReport.fail, both, emptyReport, List.append_nil, List.nil_append]

theorem both_add (r : SigmaImportResult) : report.add r = both report (emptyReport.add r) := by
  rw [SigmaImportReport.add, SigmaImportReport.add]
  cases r.action with
  | inserted => simp only [both, emptyReport, List.append_nil, List.nil_append]
  | updated => simp only [both, emptyReport, List.append_nil, List.nil_append]
  | skipped => simp only [both, emptyReport, List.append_nil, List.nil_append]

/-- A rule adds its own report to the one before. -/
theorem importRule_both : importRule lib call index raw session report =
    (fun p => (p.1, both report p.2)) <$> importRule lib call index raw session emptyReport := by
  cases raw with
  | dict raw =>
    simp only [importRule, map_bind]
    refine bind_congr fun upstreamId => bind_congr fun title => ?_
    by_cases hid : upstreamId = []
    · rw [if_pos hid, if_pos hid]
      exact congrArg (fun r => Except.ok (session, r)) (both_fail _)
    rw [if_neg hid, if_neg hid]
    cases normaliseRule lib raw call.origin (call.upstreamPaths upstreamId) with
    | error exc => exact congrArg (fun r => Except.ok (session, r)) (both_fail _)
    | ok normalised =>
      cases normalised with
      | none =>
        simp only [map_bind]
        refine bind_congr fun reason => ?_
        exact congrArg (fun r => Except.ok (session, r)) (both_add _)
      | some n =>
        dsimp only
        split_ifs
        · exact congrArg (fun r => Except.ok (_, r)) (both_fail _)
        · exact congrArg (fun r => Except.ok (_, r)) (both_add _)
  | _ => exact congrArg (fun r => Except.ok (session, r)) (both_fail _)

theorem outcomes_cons {session₁ : Session} {report₁ : SigmaImportReport}
    (h : importRule lib call index raw session emptyReport = .ok (session₁, report₁)) :
    outcomes lib call index (raw :: raws) session =
      (fun p => (p.1, report₁ :: p.2)) <$> outcomes lib call (index + 1) raws session₁ := by
  rw [outcomes, h]
  rfl

/-- The report of the batch is put together from those of its rules. -/
theorem importRules_outcomes : importRules lib call index raws session report =
    (fun p => (p.1, p.2.foldl both report)) <$> outcomes lib call index raws session := by
  induction raws generalizing index session report with
  | nil => rfl
  | cons raw raws ih =>
    rw [importRules, importRule_both]
    cases hrule : importRule lib call index raw session emptyReport with
    | error e =>
      rw [outcomes, hrule]
      rfl
    | ok p =>
      rw [outcomes_cons hrule, Functor.map_map]
      change importRules lib call (index + 1) raws p.1 (both report p.2) = _
      rw [ih]
      rfl

/-! ## One rule -/

/-- A rule that does not reach the database: its report tells its place, and nothing else of the
batch. -/
theorem importRule_unwritten (hread : readable lib call raw = true)
    (h : accepted lib call raw = none) : ∃ own : ℕ → SigmaImportReport,
      (∀ i j, unplaced (own i) = unplaced (own j)) ∧
      ∀ rules takes index session, importRule lib { call with rules := rules, takes := takes } index
        raw session emptyReport = .ok (session, own index) := by
  cases raw with
  | dict raw =>
    simp only [readable, accepted, importRule] at hread h ⊢
    cases hid : field lib raw "id" with
    | error e => simp [hid] at hread
    | ok id =>
      cases htitle : field lib raw "title" with
      | error e => cases id <;> simp [hid, htitle] at hread
      | ok title =>
        cases id with
        | nil =>
          exact ⟨fun index => emptyReport.fail (.missingId index (orNone title)),
            fun _ _ => rfl, fun _ _ _ _ => rfl⟩
        | cons c id =>
          simp only [hid, htitle] at hread h
          simp only [bind, Except.bind, reduceCtorEq, if_false]
          cases hnorm : normaliseRule lib raw call.origin (call.upstreamPaths (c :: id)) with
          | error exc =>
            exact ⟨fun index => emptyReport.fail (.normalisation index (c :: id) title exc),
              fun _ _ => rfl, fun _ _ _ _ => rfl⟩
          | ok normalised =>
            cases normalised with
            | some n => simp [hnorm] at h
            | none =>
              simp only [hnorm] at hread
              cases hreason : skipReason lib raw with
              | error e => simp [hreason, Except.isOk, Except.toBool] at hread
              | ok reason =>
                exact ⟨fun _ => emptyReport.add
                  ⟨none, call.origin.source, c :: id, title, .skipped, some reason⟩,
                  fun _ _ => rfl, fun _ _ _ _ => rfl⟩
  | _ => exact ⟨fun index => emptyReport.fail (.notDict index), fun _ _ => rfl, fun _ _ _ _ => rfl⟩

/-- A rule that reaches the database is refused, or it is written to the rows of the session. -/
theorem importRule_written (hread : readable lib call raw = true)
    (h : accepted lib call raw = some n) : ∃ refused : ℕ → Failure,
      ∀ rules takes index session, importRule lib { call with rules := rules, takes := takes } index
        raw session emptyReport =
          if session.failed = true ∨ takes index = false then
            .ok ({ session with failed := true }, emptyReport.fail (refused index))
          else .ok ({ session with rows := (upsertRule call.tenantId session.rows n).2 },
            emptyReport.add (upsertRule call.tenantId session.rows n).1) := by
  cases raw with
  | dict raw =>
    simp only [readable, accepted, importRule] at hread h ⊢
    cases hid : field lib raw "id" with
    | error e => simp [hid] at hread
    | ok id =>
      cases htitle : field lib raw "title" with
      | error e => cases id <;> simp [hid, htitle] at hread
      | ok title =>
        cases id with
        | nil => simp [hid] at h
        | cons c id =>
          simp only [hid] at h
          simp only [bind, Except.bind, reduceCtorEq, if_false]
          cases hnorm : normaliseRule lib raw call.origin (call.upstreamPaths (c :: id)) with
          | error exc => simp [hnorm] at h
          | ok normalised =>
            simp only [hnorm] at h
            rw [h]
            exact ⟨fun index => .persist index (c :: id) title, fun _ _ _ _ => rfl⟩
  | _ => cases h

/-! ## The batch -/

/-- Nothing is taken after the first refusal, and nothing at all in a session that has failed. -/
def NothingLost (failed : Bool) (answers : List Bool) : Prop :=
  (failed = true → true ∉ answers) ∧ answers.Pairwise fun first second => second = true → first

theorem nothingLost_refused {failed : Bool} {rest : List Bool} :
    NothingLost failed (false :: rest) ↔ NothingLost true rest := by
  rw [NothingLost, NothingLost, List.pairwise_cons]
  constructor
  · rintro ⟨-, hnone, hrest⟩
    exact ⟨fun _ htrue => absurd (hnone true htrue rfl) Bool.false_ne_true, hrest⟩
  · rintro ⟨hnone, hrest⟩
    refine ⟨fun _ htrue => ?_, fun b hb htrue => ?_, hrest⟩
    · rcases List.mem_cons.mp htrue with h | h
      · cases h
      · exact hnone rfl h
    · rw [htrue] at hb
      exact absurd hb (hnone rfl)

theorem nothingLost_taken {rest : List Bool} :
    NothingLost false (true :: rest) ↔ NothingLost false rest := by
  rw [NothingLost, NothingLost, List.pairwise_cons]
  refine and_congr ⟨fun _ => nofun, fun _ => nofun⟩ (and_iff_right fun _ _ _ => rfl)

theorem answers_of_none (h : accepted lib call raw = none) :
    answers lib call index (raw :: raws) = answers lib call (index + 1) raws := by
  rw [answers, h]
  rfl

theorem answers_of_some (h : accepted lib call raw = some n) :
    answers lib call index (raw :: raws) =
      call.takes index :: answers lib call (index + 1) raws := by
  rw [answers, h]
  rfl

/-- What was refused is a failure, and what was written is none. -/
theorem unplaced_fail_ne_add (f : Failure) (r : SigmaImportResult) :
    unplaced (emptyReport.fail f) ≠ unplaced (emptyReport.add r) := by
  intro h
  have hfailures := congrArg SigmaImportReport.failures h
  rw [SigmaImportReport.add] at hfailures
  cases haction : r.action <;> rw [haction] at hfailures <;> cases hfailures

/-- The invariant is that a session that has not failed is that of the other batch. -/
theorem outcomes_spared {rules rules' : Value Ω} {index' : ℕ}
    (hread : ∀ raw ∈ raws, readable lib call raw = true) (hother : session'.failed = false)
    (hsame : session.failed = false → session = session') :
    ∃ after reports after' reports',
      outcomes lib { call with rules := rules, takes := call.takes } index raws session =
        .ok (after, reports) ∧
      outcomes lib { call with rules := rules', takes := fun _ => true } index'
        (spared call.takes index raws) session' = .ok (after', reports') ∧
      ((spared call.takes index reports).map unplaced = reports'.map unplaced ↔
        NothingLost session.failed (answers lib call index raws)) := by
  induction raws generalizing index index' session session' with
  | nil =>
    exact ⟨_, _, _, _, rfl, rfl, iff_of_true rfl ⟨fun _ => List.not_mem_nil, List.Pairwise.nil⟩⟩
  | cons raw raws ih =>
    obtain ⟨hraw, hraws⟩ := List.forall_mem_cons.mp hread
    cases haccepted : accepted lib call raw with
    | none =>
      obtain ⟨own, hplaces, hrule⟩ := importRule_unwritten hraw haccepted
      rw [outcomes_cons (hrule rules call.takes index session), answers_of_none haccepted, spared]
      by_cases htakes : call.takes index = true
      · obtain ⟨after, reports, after', reports', hrun, hrun', hiff⟩ :=
          @ih (index + 1) session session' (index' + 1) hraws hother hsame
        rw [hrun, if_pos htakes,
          outcomes_cons (hrule rules' (fun _ => true) index' session'), hrun']
        refine ⟨_, _, _, _, rfl, rfl, ?_⟩
        rw [spared, if_pos htakes, List.map_cons, List.map_cons, hplaces index index',
          List.cons.injEq, and_iff_right rfl]
        exact hiff
      · obtain ⟨after, reports, after', reports', hrun, hrun', hiff⟩ :=
          @ih (index + 1) session session' index' hraws hother hsame
        rw [hrun, if_neg htakes, hrun']
        refine ⟨_, _, _, _, rfl, rfl, ?_⟩
        rw [spared, if_neg htakes]
        exact hiff
    | some n =>
      obtain ⟨refused, hrule⟩ := importRule_written hraw haccepted
      rw [answers_of_some haccepted, spared]
      by_cases htakes : call.takes index = true
      swap
      · -- the refused rule is not in the other batch
        have hfails := hrule rules call.takes index session
        rw [if_pos (Or.inr (Bool.eq_false_of_not_eq_true htakes))] at hfails
        obtain ⟨after, reports, after', reports', hrun, hrun', hiff⟩ :=
          @ih (index + 1) ⟨session.rows, true⟩ session' index' hraws hother nofun
        rw [outcomes_cons hfails, hrun, if_neg htakes, hrun']
        refine ⟨_, _, _, _, rfl, rfl, ?_⟩
        rw [spared, if_neg htakes, Bool.eq_false_of_not_eq_true htakes, nothingLost_refused]
        exact hiff
      have hwrites := hrule rules' (fun _ => true) index' session'
      rw [if_neg (by rw [hother]; decide)] at hwrites
      rw [if_pos htakes, outcomes_cons hwrites]
      cases hfailed : session.failed with
      | true =>
        have hfails := hrule rules call.takes index session
        rw [if_pos (Or.inl hfailed)] at hfails
        obtain ⟨after, reports, after', reports', hrun, hrun', -⟩ :=
          @ih (index + 1) ⟨session.rows, true⟩
            ⟨(upsertRule call.tenantId session'.rows n).2, session'.failed⟩ (index' + 1)
            hraws hother nofun
        rw [outcomes_cons hfails, hrun, hrun']
        refine ⟨_, _, _, _, rfl, rfl, iff_of_false ?_ fun h => h.1 rfl ?_⟩
        · rw [spared, if_pos htakes, List.map_cons, List.map_cons, List.cons.injEq, not_and]
          exact fun hreports => absurd hreports (unplaced_fail_ne_add _ _)
        · rw [htakes]
          exact List.mem_cons_self
      | false =>
        obtain rfl := hsame hfailed
        have hwrites' := hrule rules call.takes index session
        rw [if_neg (by rw [hfailed, htakes]; decide)] at hwrites'
        obtain ⟨after, reports, after', reports', hrun, hrun', hiff⟩ :=
          @ih (index + 1) ⟨(upsertRule call.tenantId session.rows n).2, session.failed⟩
            ⟨(upsertRule call.tenantId session.rows n).2, session.failed⟩ (index' + 1)
            hraws hother fun _ => rfl
        rw [outcomes_cons hwrites', hrun, hrun']
        refine ⟨_, _, _, _, rfl, rfl, ?_⟩
        rw [spared, if_pos htakes, List.map_cons, List.map_cons, List.cons.injEq,
          and_iff_right rfl, htakes, nothingLost_taken, ← hfailed]
        exact hiff

/-! ## What is stored -/

def versions (rows : List DetectionRule) : ℕ := (rows.map DetectionRule.version).sum

/-- Every write can be seen in the table: a new row has a version, an update counts it up. -/
theorem versions_upsertRule : versions rows < versions (upsertRule tenantId rows n).2 := by
  simp only [upsertRule]
  split
  · simp only [versions, List.map_append, List.sum_append, List.map_singleton, List.sum_singleton,
      applyNormalisedToRule, newRule]
    omega
  · rename_i existing hfind
    have hbump : ∀ rule : DetectionRule,
        rule.version < (bumpVersion (applyNormalisedToRule rule n)).version := by
      intro rule
      change rule.version < (if rule.version = 0 then 1 else rule.version) + 1
      split_ifs <;> omega
    rw [versions, versions, List.map_map]
    apply List.sum_lt_sum
    · intro rule _
      dsimp only [Function.comp_apply]
      split_ifs
      · exact (hbump rule).le
      · exact le_rfl
    · refine ⟨existing, List.mem_of_find?_eq_some hfind, ?_⟩
      dsimp only [Function.comp_apply]
      rw [if_pos rfl]
      exact hbump existing

theorem versions_foldl {ns : List NormalisedRule} : versions rows ≤
    versions (ns.foldl (fun rows n => (upsertRule tenantId rows n).2) rows) := by
  induction ns generalizing rows with
  | nil => exact le_rfl
  | cons n ns ih => exact versions_upsertRule.le.trans ih

theorem foldl_upsertRule_eq_iff {ns : List NormalisedRule} :
    ns.foldl (fun rows n => (upsertRule tenantId rows n).2) rows = rows ↔ ns = [] := by
  cases ns with
  | nil => exact iff_of_true rfl rfl
  | cons n ns =>
    refine iff_of_false (fun h => ?_) nofun
    have hlt := (@versions_upsertRule rows n tenantId).trans_le
      (@versions_foldl (upsertRule tenantId rows n).2 tenantId ns)
    rw [List.foldl_cons] at h
    exact hlt.ne (congrArg versions h).symm

theorem goesThrough_batch {all : List (Value Ω)}
    (hread : ∀ raw ∈ raws, readable lib call raw = true) :
    goesThrough lib (batch call all) index raws = true ↔
      false ∉ answers lib call index raws := by
  induction raws generalizing index with
  | nil => exact iff_of_true rfl List.not_mem_nil
  | cons raw raws ih =>
    obtain ⟨hraw, hraws⟩ := List.forall_mem_cons.mp hread
    change (readable lib call raw && ((accepted lib call raw).isNone || call.takes index) &&
      goesThrough lib (batch call all) (index + 1) raws) = true ↔ _
    rw [hraw, Bool.true_and, Bool.and_eq_true, ih hraws]
    cases haccepted : accepted lib call raw with
    | none => rw [answers_of_none haccepted, Option.isNone_none, Bool.true_or, and_iff_right rfl]
    | some n =>
      rw [answers_of_some haccepted, List.mem_cons, not_or, Option.isNone_some, Bool.false_or]
      cases call.takes index <;> simp

theorem goesThrough_without {all : List (Value Ω)}
    (hread : ∀ raw ∈ raws, readable lib call raw = true) :
    goesThrough lib (without call all) index raws = true := by
  induction raws generalizing index with
  | nil => rfl
  | cons raw raws ih =>
    obtain ⟨hraw, hraws⟩ := List.forall_mem_cons.mp hread
    change (readable lib call raw && ((accepted lib call raw).isNone || true) &&
      goesThrough lib (without call all) (index + 1) raws) = true
    rw [hraw, Bool.or_true, ih hraws]
    rfl

theorem mem_of_mem_spared {α : Type} {takes : ℕ → Bool} {xs : List α} {x : α}
    (h : x ∈ spared takes index xs) : x ∈ xs := by
  induction xs generalizing index with
  | nil => exact h
  | cons y ys ih =>
    rw [spared] at h
    split_ifs at h
    · rcases List.mem_cons.mp h with rfl | h
      · exact List.mem_cons_self
      · exact List.mem_cons_of_mem _ (ih h)
    · exact List.mem_cons_of_mem _ (ih h)

/-- The rules that reach the database and are taken. -/
theorem accepted_spared_eq_nil :
    (spared call.takes index raws).filterMap (accepted lib call) = [] ↔
      true ∉ answers lib call index raws := by
  induction raws generalizing index with
  | nil => exact iff_of_true rfl List.not_mem_nil
  | cons raw raws ih =>
    rw [spared]
    cases haccepted : accepted lib call raw with
    | none =>
      rw [answers_of_none haccepted]
      split_ifs
      · rw [List.filterMap_cons_none haccepted, ih]
      · exact ih
    | some n =>
      rw [answers_of_some haccepted, List.mem_cons, not_or]
      split_ifs with htakes
      · rw [List.filterMap_cons_some haccepted, htakes]
        exact iff_of_false nofun fun h => h.1 rfl
      · rw [ih, Bool.eq_false_of_not_eq_true htakes, and_iff_right (by decide)]

theorem accepted_spared_of_taken (h : false ∉ answers lib call index raws) :
    (spared call.takes index raws).filterMap (accepted lib call) =
      raws.filterMap (accepted lib call) := by
  induction raws generalizing index with
  | nil => rfl
  | cons raw raws ih =>
    rw [spared]
    cases haccepted : accepted lib call raw with
    | none =>
      rw [answers_of_none haccepted] at h
      rw [List.filterMap_cons_none haccepted, ← ih h]
      split_ifs
      · exact List.filterMap_cons_none haccepted
      · rfl
    | some n =>
      rw [answers_of_some haccepted, List.mem_cons, not_or] at h
      rw [if_pos (by simpa using h.1), List.filterMap_cons_some haccepted,
        List.filterMap_cons_some haccepted, ih h.2]

theorem stored_iff (hread : ∀ raw ∈ raws, readable lib call raw = true) :
    rowsAfter lib (batch call raws) rows = rowsAfter lib (without call raws) rows ↔
      (call.commits = true → false ∈ answers lib call 0 raws →
        true ∉ answers lib call 0 raws) := by
  have hbatch : applied lib (batch call raws) = if call.commits = true ∧
      goesThrough lib (batch call raws) 0 raws = true then
        raws.filterMap (accepted lib call) else [] := rfl
  have hwithout : applied lib (without call raws) = if call.commits = true ∧
      goesThrough lib (without call raws) 0 (spared call.takes 0 raws) = true then
        (spared call.takes 0 raws).filterMap (accepted lib call) else [] := rfl
  have hspared : ∀ raw ∈ spared call.takes 0 raws, readable lib call raw = true :=
    fun raw h => hread raw (mem_of_mem_spared h)
  have hthrough := @goesThrough_batch _ lib call 0 raws raws hread
  rw [rowsAfter_eq, rowsAfter_eq, hbatch, hwithout]
  change List.foldl (fun rows n => (upsertRule call.tenantId rows n).2) rows _ =
    List.foldl (fun rows n => (upsertRule call.tenantId rows n).2) rows _ ↔ _
  by_cases hcommits : call.commits = true
  swap
  · rw [if_neg fun h => hcommits h.1, if_neg fun h => hcommits h.1]
    exact iff_of_true rfl fun h => absurd h hcommits
  rw [@if_pos (call.commits = true ∧ goesThrough lib (without call raws) 0 _ = true) _
    ⟨hcommits, goesThrough_without hspared⟩]
  by_cases hrefused : false ∈ answers lib call 0 raws
  · rw [if_neg fun h => hthrough.mp h.2 hrefused, List.foldl_nil, eq_comm]
    refine foldl_upsertRule_eq_iff.trans ?_
    rw [accepted_spared_eq_nil]
    exact ⟨fun h _ _ => h, fun h => h hcommits hrefused⟩
  · rw [if_pos ⟨hcommits, hthrough.mpr hrefused⟩, accepted_spared_of_taken hrefused]
    exact iff_of_true rfl fun _ h => absurd h hrefused

/-- The failing rules are isolated exactly if all rules read and, of those that the database is
asked to take, none is taken after one that is refused, nor before it where the caller commits. -/
theorem rules_isolated_iff (lib : Library Ω) (call : ImportCall Ω) (raws : List (Value Ω))
    (rows : List DetectionRule) : Isolated lib call raws rows ↔
      (∀ raw ∈ raws, readable lib call raw = true) ∧
        ((answers lib call 0 raws).Pairwise fun first second => second = true → first = true) ∧
        (call.commits = true → false ∈ answers lib call 0 raws →
          true ∉ answers lib call 0 raws) := by
  have hreturns : (∃ result, importSigmaRules lib (batch call raws) rows = .ok result) ↔
      ∀ raw ∈ raws, readable lib call raw = true := importRules_returns_iff
  constructor
  · intro h
    have hread := hreturns.mp h.returns
    refine ⟨hread, ?_, (stored_iff hread).mp h.stored⟩
    obtain ⟨after, reports, after', reports', hrun, hrun', hiff⟩ :=
      @outcomes_spared _ lib call 0 raws ⟨rows, false⟩ ⟨rows, false⟩ (.list raws)
        (.list (spared call.takes 0 raws)) 0 hread rfl fun _ => rfl
    exact (hiff.mp (h.said _ _ _ _ hrun hrun')).2
  · rintro ⟨hread, horder, hstored⟩
    refine ⟨hreturns.mpr hread, ?_, (stored_iff hread).mpr hstored⟩
    intro after reports after' reports' hrun hrun'
    obtain ⟨after₁, reports₁, after₁', reports₁', hrun₁, hrun₁', hiff⟩ :=
      @outcomes_spared _ lib call 0 raws ⟨rows, false⟩ ⟨rows, false⟩ (.list raws)
        (.list (spared call.takes 0 raws)) 0 hread rfl fun _ => rfl
    obtain ⟨-, rfl⟩ := Prod.mk.inj (Except.ok.inj (hrun₁.symm.trans hrun))
    obtain ⟨-, rfl⟩ := Prod.mk.inj (Except.ok.inj (hrun₁'.symm.trans hrun'))
    exact hiff.mpr ⟨nofun, horder⟩

/-! ## A bad rule before a good one -/

def goodRule : Dict Empty :=
  [(.str (text "id"), .str (text "9c41")), (.str (text "title"), .str (text "Shadow copy")),
    (.str (text "detection"), .dict [(.str (text "condition"), .str (text "selection"))])]

/-- The database refuses the first rule of the batch. -/
def firstRefused : ImportCall Empty := { nightlyImport with takes := fun index => index ≠ 0 }

theorem first_spoils_second :
    ¬Isolated asciiLibrary firstRefused [.dict stableRule, .dict goodRule] [] := by
  intro h
  have hsaid := congrArg (List.map fun report => report.failures.length)
    (h.said _ _ _ _ rfl rfl)
  exact absurd hsaid (by decide)

end SigmaIsolation
