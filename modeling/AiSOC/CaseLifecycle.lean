import Mathlib.Data.Int.Notation
import Mathlib.Data.Nat.Notation
import Mathlib.Tactic.SplitIfs
import AiSOC.ReadCommitted
import AiSOC.TransitionSystem

/-! # Case lifecycle under concurrent updates

`update_case` reads the status, checks the transition against what it read, and writes with an
unconditional `UPDATE`. Calls of any number run at once in the database's default isolation. -/
namespace CaseLifecycle

open ReadCommitted (Store forall_update)
open TransitionSystem (System GuardedTrace runTrace guardedTrace_iff)

inductive CaseStatus where
  | new | triaged | investigating | contained | resolved | closed
  deriving DecidableEq, Repr

inductive CaseSeverity where
  | info | low | medium | high | critical
  deriving DecidableEq, Repr

/-- The forward-only state transitions. -/
def transitions : CaseStatus → List CaseStatus
  | .new => [.triaged]
  | .triaged => [.investigating]
  | .investigating => [.contained, .resolved]
  | .contained => [.resolved]
  | .resolved => [.closed]
  | .closed => []

/-- The columns of `aisoc_cases` that an update reads or writes. -/
structure Case where
  tenantID : String
  title : String
  description : Option String
  severity : CaseSeverity
  status : CaseStatus
  assignee : Option String
  mitreTechniques : List String
  complianceFrameworks : List String
  tags : List (String × String)
  slaDueAt : Option ℤ
  triagedAt : Option ℤ
  resolvedAt : Option ℤ
  closedAt : Option ℤ
  updatedAt : ℤ
  deriving DecidableEq

structure UpdateCaseRequest where
  title : Option String := none
  description : Option String := none
  severity : Option CaseSeverity := none
  status : Option CaseStatus := none
  assignee : Option String := none
  mitreTechniques : Option (List String) := none
  complianceFrameworks : Option (List String) := none
  tags : Option (List (String × String)) := none
  slaDueAt : Option ℤ := none

/-- The check against the status that was read. -/
def UpdateCaseRequest.passes (body : UpdateCaseRequest) (existing : CaseStatus) : Bool :=
  match body.status with
  | none => true
  | some status => status = existing || status ∈ transitions existing

/-- The assignments of the `UPDATE`. -/
def UpdateCaseRequest.apply (body : UpdateCaseRequest) (now : ℤ) (c : Case) : Case where
  tenantID := c.tenantID
  title := body.title.getD c.title
  description := body.description.or c.description
  severity := body.severity.getD c.severity
  status := body.status.getD c.status
  assignee := body.assignee.or c.assignee
  mitreTechniques := body.mitreTechniques.getD c.mitreTechniques
  complianceFrameworks := body.complianceFrameworks.getD c.complianceFrameworks
  tags := body.tags.getD c.tags
  slaDueAt := body.slaDueAt.or c.slaDueAt
  triagedAt := if body.status = some .triaged then some now else c.triagedAt
  resolvedAt := if body.status = some .resolved then some now else c.resolvedAt
  closedAt := if body.status = some .closed then some now else c.closedAt
  updatedAt := now

inductive Phase where
  | started
  | checked (existing : CaseStatus)
  | wrote (existing : CaseStatus) (now : ℤ)
  | done
  deriving DecidableEq

structure Call where
  caseID : String
  tenantID : String
  body : UpdateCaseRequest
  phase : Phase

/-- A committed update. -/
structure Change where
  caseID : String
  before : Case
  after : Case

structure State where
  table : Store ℕ String (Option Case)
  calls : ℕ → Option Call
  log : List Change

inductive Act where
  | call (id : ℕ) (caseID tenantID : String) (body : UpdateCaseRequest)
  | read (id : ℕ)
  | update (id : ℕ) (now : ℤ)
  | commit (id : ℕ)
  | rollback (id : ℕ)

def State.move (s : State) (id : ℕ) (call : Call) (phase : Phase) : State :=
  { s with calls := Function.update s.calls id (some { call with phase := phase }) }

/-- The row that the statements of a call name. -/
def State.row (s : State) (id : ℕ) (call : Call) : Option Case :=
  (s.table.read id call.caseID).filter fun c => c.tenantID = call.tenantID

def State.next (s : State) : Act → Option State
  | .call id caseID tenantID body =>
    if (s.calls id).isSome then none
    else some (s.move id ⟨caseID, tenantID, body, .started⟩ .started)
  | .read id => (s.calls id).bind fun call =>
    if call.phase = .started then
      match s.row id call with
      | none => some (s.move id call .done)
      | some c =>
        if call.body.passes c.status then some (s.move id call (.checked c.status))
        else some (s.move id call .done)
    else none
  | .update id now => (s.calls id).bind fun call =>
    match call.phase with
    | .checked existing =>
      match s.table.write id call.caseID (Option.map (call.body.apply now)) with
      -- another call holds the row
      | none => none
      | some table =>
        if (s.row id call).isSome then
          some (State.move { s with table := table } id call (.wrote existing now))
        else some (s.move id call .done)
    | _ => none
  | .commit id => (s.calls id).bind fun call =>
    match call.phase with
    | .wrote _ _ =>
      match s.table.committed call.caseID, s.table.read id call.caseID with
      | some before, some after =>
        let log := s.log ++ [⟨call.caseID, before, after⟩]
        some (State.move ⟨s.table.commit id, s.calls, log⟩ id call .done)
      | _, _ => none
    | _ => none
  | .rollback id => (s.calls id).bind fun call =>
    some (State.move { s with table := s.table.rollback id } id call .done)

def initial (cases : String → Option Case) : State := ⟨⟨cases, fun _ => none⟩, fun _ => none, []⟩

def system : System State Act where
  start s := ∃ cases, s = initial cases
  next := State.next

/-! ## What an update does to the status -/

def Case.stamps (c : Case) : Option ℤ × Option ℤ × Option ℤ :=
  (c.triagedAt, c.resolvedAt, c.closedAt)

/-- The status moves to a successor or stays, and with it the three timestamps. -/
def Change.Forward (d : Change) : Prop :=
  (d.after.status ≠ d.before.status → d.after.status ∈ transitions d.before.status) ∧
    (d.after.status = d.before.status → d.after.stamps = d.before.stamps)

/-- Whether the request may be carried out on the row as it is. -/
def UpdateCaseRequest.Allowed (body : UpdateCaseRequest) (now : ℤ) (c : Case) : Prop :=
  ∀ status ∈ body.status, (status ≠ c.status → status ∈ transitions c.status) ∧
    (status = c.status → (body.apply now c).stamps = c.stamps)

theorem stamps_apply_of_no_status {body : UpdateCaseRequest} (h : body.status = none) (now : ℤ)
    (c : Case) : (body.apply now c).stamps = c.stamps := by
  simp [UpdateCaseRequest.apply, Case.stamps, h]

theorem forward_apply_iff {body : UpdateCaseRequest} {now : ℤ} {c : Case} {caseID : String} :
    (⟨caseID, c, body.apply now c⟩ : Change).Forward ↔ body.Allowed now c := by
  have hstatus : (body.apply now c).status = body.status.getD c.status := rfl
  unfold Change.Forward UpdateCaseRequest.Allowed
  dsimp only
  rw [hstatus]
  cases hbody : body.status with
  | none =>
    refine iff_of_true ⟨fun hne => absurd rfl hne, fun _ => ?_⟩ nofun
    exact stamps_apply_of_no_status hbody now c
  | some status =>
    simp only [Option.getD_some, Option.mem_def, Option.some.injEq, forall_eq']

/-- What was checked against the row's own status may be carried out, unless it repeats the
status and so sets its timestamp again. -/
theorem allowed_of_passes {body : UpdateCaseRequest} {now : ℤ} {c : Case}
    (h : body.passes c.status = true)
    (hrepeat : body.status = some c.status → (body.apply now c).stamps = c.stamps) :
    body.Allowed now c := by
  intro status hstatus
  rw [UpdateCaseRequest.passes, Option.mem_def.mp hstatus] at h
  simp only [Bool.or_eq_true, decide_eq_true_eq] at h
  constructor
  · intro hne
    exact h.resolve_left hne
  · rintro rfl
    exact hrepeat hstatus

/-! ## What the calls hold -/

variable {s t : State} {id : ℕ} {call : Call}

def Phase.written : Phase → Bool
  | .wrote _ _ => true
  | _ => false

/-- The check that a phase is past was passed. -/
def Phase.valid (body : UpdateCaseRequest) : Phase → Bool
  | .checked existing | .wrote existing _ => body.passes existing
  | _ => true

/-- A locked row is held by a call that has written it, and is to become what the call makes of
the committed row. -/
structure Invariant (s : State) : Prop where
  held : ∀ k id v, s.table.held k = some (id, v) →
    ∃ call, s.calls id = some call ∧ call.phase.written = true ∧ call.caseID = k
  valid : ∀ id call, s.calls id = some call → call.phase.valid call.body = true
  wrote : ∀ id call existing now, s.calls id = some call → call.phase = .wrote existing now →
    ∃ c, s.table.committed call.caseID = some c ∧
      s.table.held call.caseID = some (id, some (call.body.apply now c))

theorem invariant_initial (cases : String → Option Case) : Invariant (initial cases) where
  held k id v h := by cases h
  valid id call h := by cases h
  wrote id call existing now h := by cases h

/-- Who has not written holds no row. -/
theorem Invariant.free (hi : Invariant s)
    (h : ∀ call, s.calls id = some call → call.phase.written = false) (k : String)
    (v : Option Case) : s.table.held k ≠ some (id, v) := by
  intro hheld
  obtain ⟨call, hcall, hwritten, -⟩ := hi.held k id v hheld
  rw [h call hcall] at hwritten
  cases hwritten

theorem Invariant.free_of_call (hi : Invariant s) (hcall : s.calls id = some call)
    (h : call.phase.written = false) (k : String) (v : Option Case) :
    s.table.held k ≠ some (id, v) := by
  apply hi.free
  intro call' hcall'
  exact Option.some.inj (hcall.symm.trans hcall') ▸ h

/-- A call gives up its rows, and no other row changes. -/
theorem Invariant.release (hi : Invariant s) {table : Store ℕ String (Option Case)}
    {log : List Change} {phase : Phase} (hheld : table.held = (s.table.rollback id).held)
    (hcommitted : ∀ k, (∀ v, s.table.held k ≠ some (id, v)) →
      table.committed k = s.table.committed k)
    (hwritten : phase.written = false) (hvalid : phase.valid call.body = true) :
    Invariant (State.move ⟨table, s.calls, log⟩ id call phase) := by
  constructor
  · intro k j v h
    simp only [State.move, hheld] at h
    obtain ⟨h, hj⟩ := ReadCommitted.held_rollback.mp h
    obtain ⟨call', hcall', hphase⟩ := hi.held k j v h
    exact ⟨call', (Function.update_of_ne hj _ _).trans hcall', hphase⟩
  · exact forall_update hvalid fun j _ => hi.valid j
  · intro j call' existing now
    revert j call'
    refine forall_update ?_ ?_
    · intro hphase
      rw [show phase = .wrote existing now from hphase] at hwritten
      cases hwritten
    · intro j hj call' hcall' hphase
      obtain ⟨c, hc, hrow⟩ := hi.wrote j call' existing now hcall' hphase
      simp only [State.move]
      refine ⟨c, ?_, ?_⟩
      · rw [hcommitted, hc]
        intro v hv
        rw [hrow] at hv
        exact hj (Prod.mk.inj (Option.some.inj hv)).1
      · rw [hheld]
        exact ReadCommitted.held_rollback.mpr ⟨hrow, hj⟩

/-- A step of a call that holds no row and takes none. -/
theorem Invariant.move (hi : Invariant s) {phase : Phase}
    (hfree : ∀ k v, s.table.held k ≠ some (id, v)) (hwritten : phase.written = false)
    (hvalid : phase.valid call.body = true) : Invariant (s.move id call phase) := by
  apply hi.release ?_ (fun _ _ => rfl) hwritten hvalid
  rw [ReadCommitted.rollback_of_free hfree]

theorem Invariant.update (hi : Invariant s) {existing : CaseStatus} {now : ℤ}
    {table : Store ℕ String (Option Case)} (hcall : s.calls id = some call)
    (hphase : call.phase = .checked existing)
    (hwrite : s.table.write id call.caseID (Option.map (call.body.apply now)) = some table)
    (hrow : (s.row id call).isSome) :
    Invariant (State.move { s with table := table } id call (.wrote existing now)) := by
  obtain ⟨hlock, rfl⟩ := ReadCommitted.write_eq_some_iff.mp hwrite
  have hfree := hi.free_of_call hcall (by rw [hphase]; rfl)
  have hread : s.table.read id call.caseID = s.table.committed call.caseID :=
    ReadCommitted.read_of_not_held (hfree call.caseID)
  obtain ⟨c, hc⟩ : ∃ c, s.table.committed call.caseID = some c := by
    obtain ⟨c, hc⟩ := Option.isSome_iff_exists.mp hrow
    rw [State.row, hread] at hc
    exact ⟨c, (Option.filter_eq_some_iff.mp hc).1⟩
  rw [hread, hc, Option.map_some]
  constructor
  · intro k j v h
    simp only [State.move] at h ⊢
    by_cases hk : k = call.caseID
    · rw [hk, Function.update_self] at h
      obtain ⟨rfl, -⟩ := Prod.mk.inj (Option.some.inj h)
      exact ⟨_, Function.update_self _ _ _, rfl, hk.symm⟩
    · rw [Function.update_of_ne hk] at h
      have hj : j ≠ id := by
        rintro rfl
        exact hfree k v h
      obtain ⟨call', hcall', hphase'⟩ := hi.held k j v h
      exact ⟨call', (Function.update_of_ne hj _ _).trans hcall', hphase'⟩
  · refine forall_update ?_ fun j _ => hi.valid j
    have hvalid := hi.valid id call hcall
    rwa [hphase] at hvalid
  · intro j call' existing' now'
    revert j call'
    refine forall_update ?_ ?_
    · intro hphase'
      obtain ⟨rfl, rfl⟩ := Phase.wrote.inj hphase'
      exact ⟨c, hc, Function.update_self _ _ _⟩
    · intro j hj call' hcall' hphase'
      obtain ⟨c', hc', hrow'⟩ := hi.wrote j call' existing' now' hcall' hphase'
      have hother : call'.caseID ≠ call.caseID := by
        intro heq
        exact hj (hlock j _ (heq ▸ hrow'))
      exact ⟨c', hc', (Function.update_of_ne hother _ _).trans hrow'⟩

theorem Invariant.next (hi : Invariant s) {e : Act} (h : s.next e = some t) : Invariant t := by
  rw [State.next.eq_def] at h
  cases e with
  | call id caseID tenantID body =>
    dsimp only at h
    split_ifs at h with hcall
    obtain rfl := Option.some.inj h
    refine hi.move (hi.free ?_) rfl rfl
    intro call hsome
    exact absurd (Option.isSome_of_eq_some hsome) hcall
  | read id =>
    obtain ⟨call, hcall, h⟩ := Option.bind_eq_some_iff.mp h
    split_ifs at h with hphase
    have hfree := hi.free_of_call hcall (by rw [hphase]; rfl)
    split at h
    · obtain rfl := Option.some.inj h
      exact hi.move hfree rfl rfl
    · split_ifs at h with hpasses
      · obtain rfl := Option.some.inj h
        exact hi.move hfree rfl hpasses
      · obtain rfl := Option.some.inj h
        exact hi.move hfree rfl rfl
  | update id now =>
    obtain ⟨call, hcall, h⟩ := Option.bind_eq_some_iff.mp h
    split at h
    · rename_i existing hphase
      split at h
      · cases h
      · rename_i table hwrite
        split_ifs at h with hrow
        · obtain rfl := Option.some.inj h
          exact hi.update hcall hphase hwrite hrow
        · obtain rfl := Option.some.inj h
          exact hi.move (hi.free_of_call hcall (by rw [hphase]; rfl)) rfl rfl
    · cases h
  | commit id =>
    obtain ⟨call, hcall, h⟩ := Option.bind_eq_some_iff.mp h
    split at h
    · split at h
      · obtain rfl := Option.some.inj h
        exact hi.release rfl (fun k hk => ReadCommitted.committed_commit_of_not_held hk) rfl rfl
      · cases h
    · cases h
  | rollback id =>
    obtain ⟨call, hcall, h⟩ := Option.bind_eq_some_iff.mp h
    obtain rfl := Option.some.inj h
    exact hi.release rfl (fun _ _ => rfl) rfl rfl

/-! ## Committed changes -/

/-- A commit finds the row in a state in which the request may be carried out. -/
def Guard (s : State) : Act → Prop
  | .commit id => ∀ call ∈ s.calls id, ∀ existing now, call.phase = .wrote existing now →
    ∀ c ∈ s.table.committed call.caseID, call.body.Allowed now c
  | _ => True

/-- Only a commit adds a change, and it meets the guard exactly when the change is forward. -/
theorem next_log (hi : Invariant s) {e : Act} (h : s.next e = some t) :
    ∃ added, t.log = s.log ++ added ∧ (Guard s e ↔ ∀ d ∈ added, d.Forward) := by
  have hsame : t.log = s.log → Guard s e →
      ∃ added, t.log = s.log ++ added ∧ (Guard s e ↔ ∀ d ∈ added, d.Forward) := by
    intro heq hguard
    exact ⟨[], by rw [heq, List.append_nil], iff_of_true hguard (List.forall_mem_nil _)⟩
  rw [State.next.eq_def] at h
  cases e with
  | call id caseID tenantID body =>
    dsimp only at h
    split_ifs at h
    obtain rfl := Option.some.inj h
    exact hsame rfl trivial
  | read id =>
    obtain ⟨call, hcall, h⟩ := Option.bind_eq_some_iff.mp h
    split_ifs at h
    split at h
    · obtain rfl := Option.some.inj h
      exact hsame rfl trivial
    · split_ifs at h <;> obtain rfl := Option.some.inj h
      · exact hsame rfl trivial
      · exact hsame rfl trivial
  | update id now =>
    obtain ⟨call, hcall, h⟩ := Option.bind_eq_some_iff.mp h
    split at h
    · split at h
      · cases h
      · split_ifs at h <;> obtain rfl := Option.some.inj h
        · exact hsame rfl trivial
        · exact hsame rfl trivial
    · cases h
  | commit id =>
    obtain ⟨call, hcall, h⟩ := Option.bind_eq_some_iff.mp h
    split at h
    · rename_i existing now hphase
      obtain ⟨c, hc, hheld⟩ := hi.wrote id call existing now hcall hphase
      rw [hc, ReadCommitted.read_of_held hheld] at h
      obtain rfl := Option.some.inj h
      refine ⟨_, rfl, ?_⟩
      rw [List.forall_mem_singleton, forward_apply_iff]
      constructor
      · intro hguard
        exact hguard call hcall existing now hphase c hc
      · intro hallowed call' hcall' existing' now' hphase' c' hc'
        obtain rfl := Option.some.inj (hcall.symm.trans hcall')
        obtain ⟨-, rfl⟩ := Phase.wrote.inj (hphase.symm.trans hphase')
        obtain rfl := Option.some.inj (hc.symm.trans hc')
        exact hallowed
    · cases h
  | rollback id =>
    obtain ⟨call, hcall, h⟩ := Option.bind_eq_some_iff.mp h
    obtain rfl := Option.some.inj h
    exact hsame rfl trivial

def sampleCase (status : CaseStatus) (triagedAt : Option ℤ) : Case :=
  ⟨"acme", "Beacon", none, .high, status, none, [], [], [], none, triagedAt, none, none, 0⟩

def setStatus (status : CaseStatus) : UpdateCaseRequest := { status := some status }

/-- A second call reads the status before the first one has committed. -/
def race : List Act :=
  [.call 0 "c" "acme" (setStatus .resolved), .call 1 "c" "acme" (setStatus .contained), .read 0,
    .read 1, .update 0 5, .commit 0, .update 1 6, .commit 1]

def triageAgain : List Act :=
  [.call 0 "c" "acme" (setStatus .triaged), .read 0, .update 0 5, .commit 0]

def stamped (status : CaseStatus) : Bool :=
  status ∈ [CaseStatus.triaged, .resolved, .closed]

/-- The guard holds at a commit that finds the status which the call has read, unless the request
repeats a status that has a timestamp. -/
theorem Invariant.guard_of_unchanged (hi : Invariant s)
    (h : ∀ call ∈ s.calls id, ∀ existing now, call.phase = .wrote existing now →
      ∀ c ∈ s.table.committed call.caseID, c.status = existing ∧
        (call.body.status = some existing → stamped existing = false)) :
    Guard s (.commit id) := by
  intro call hcall existing now hphase c hc
  obtain ⟨rfl, hrepeat⟩ := h call hcall existing now hphase c hc
  have hvalid := hi.valid id call hcall
  rw [hphase] at hvalid
  apply allowed_of_passes hvalid
  intro hsame
  have hstamped := hrepeat hsame
  rw [stamped, decide_eq_false_iff_not, List.mem_cons, List.mem_cons,
    List.mem_singleton, not_or, not_or] at hstamped
  obtain ⟨htriaged, hresolved, hclosed⟩ := hstamped
  simp only [UpdateCaseRequest.apply, Case.stamps, hsame, Option.some.injEq, if_neg htriaged,
    if_neg hresolved, if_neg hclosed]

end CaseLifecycle
