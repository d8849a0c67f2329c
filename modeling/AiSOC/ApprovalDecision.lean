import Mathlib.Data.Int.Notation
import Mathlib.Data.Nat.Notation
import Mathlib.Tactic.SplitIfs
import AiSOC.ReadCommitted
import AiSOC.TransitionSystem

/-! # Deciding an agent's approval request

`decide_approval` selects the row, checks its status, and writes the decision with an `UPDATE`
that names the row only by its id. Calls of any number run at once. -/
namespace ApprovalDecision

open ReadCommitted (Store updatesOf updatesOf_update forall_update)
open TransitionSystem (System Reachable GuardedTrace runTrace anyStep guardedTrace_cons)

inductive ApprovalStatus where
  | pending | approved | denied | expired
  deriving DecidableEq, Repr

def ApprovalStatus.text : ApprovalStatus → String
  | .pending => "pending"
  | .approved => "approved"
  | .denied => "denied"
  | .expired => "expired"

/-- A decision is still possible. -/
def ApprovalStatus.undecided (status : ApprovalStatus) : Bool :=
  status = .pending || status = .expired

structure AgentApproval where
  tenantID : String
  status : ApprovalStatus
  decidedByID : Option String
  decidedAt : Option ℤ
  decisionComment : Option String
  updatedAt : ℤ
  deriving DecidableEq

structure AuthUser where
  tenantID : String
  userID : String

inductive Decision where
  | approve | deny
  deriving DecidableEq

def Decision.newStatus : Decision → ApprovalStatus
  | .approve => .approved
  | .deny => .denied

structure ApprovalDecisionRequest where
  decision : Decision
  comment : Option String := none

/-- `raised` is a connection that is lost. -/
inductive Response where
  | approval (row : AgentApproval)
  | notFound (detail : String)
  | conflict (detail : String)
  | raised

inductive Phase where
  | started
  | found (seen : AgentApproval)
  | wrote (seen : AgentApproval) (now updatedAt : ℤ)
  | committed
  | done (response : Response)

structure Call where
  approvalID : String
  user : AuthUser
  body : ApprovalDecisionRequest
  phase : Phase

/-- What the call makes of the row that it has selected. -/
def Call.check (call : Call) (row : Option AgentApproval) : Phase :=
  let newStatus := call.body.decision.newStatus
  match row.filter fun r => r.tenantID = call.user.tenantID with
  | none => .done (.notFound "Approval not found")
  | some row =>
    if row.status = newStatus then .done (.approval row)
    else if row.status.undecided then .found row
    else .done (.conflict ("Approval already " ++ row.status.text ++ "; cannot change to " ++
      newStatus.text))

/-- The assignments of the `UPDATE`: a column that is set to what was read is left out. -/
def Call.assign (call : Call) (seen : AgentApproval) (now updatedAt : ℤ)
    (row : AgentApproval) : AgentApproval where
  tenantID := row.tenantID
  status := call.body.decision.newStatus
  decidedByID :=
    if seen.decidedByID = some call.user.userID then row.decidedByID else some call.user.userID
  decidedAt := if seen.decidedAt = some now then row.decidedAt else some now
  decisionComment :=
    if seen.decisionComment = call.body.comment then row.decisionComment else call.body.comment
  updatedAt := updatedAt

structure State where
  table : Store ℕ String (Option AgentApproval)
  calls : ℕ → Option Call

inductive Act where
  | call (id : ℕ) (approvalID : String) (user : AuthUser) (body : ApprovalDecisionRequest)
  | select (id : ℕ)
  | update (id : ℕ) (now updatedAt : ℤ)
  | commit (id : ℕ)
  | refresh (id : ℕ)
  | abort (id : ℕ)

def State.move (s : State) (id : ℕ) (call : Call) (phase : Phase) : State :=
  { s with calls := Function.update s.calls id (some { call with phase := phase }) }

def State.next (s : State) : Act → Option State
  | .call id approvalID user body =>
    if (s.calls id).isSome then none
    else some (s.move id ⟨approvalID, user, body, .started⟩ .started)
  | .select id => (s.calls id).bind fun call =>
    match call.phase with
    | .started => some (s.move id call (call.check (s.table.read id call.approvalID)))
    | _ => none
  | .update id now updatedAt => (s.calls id).bind fun call =>
    match call.phase with
    | .found seen =>
      (s.table.write id call.approvalID (Option.map (call.assign seen now updatedAt))).map
        fun table => State.move { s with table := table } id call (.wrote seen now updatedAt)
    | _ => none
  | .commit id => (s.calls id).bind fun call =>
    match call.phase with
    | .wrote .. => some (State.move { s with table := s.table.commit id } id call .committed)
    | _ => none
  | .refresh id => (s.calls id).bind fun call =>
    match call.phase with
    | .committed =>
      match s.table.read id call.approvalID with
      | none => some (s.move id call (.done .raised))
      | some row => some (s.move id call (.done (.approval row)))
    | _ => none
  | .abort id => (s.calls id).bind fun call =>
    match call.phase with
    | .done _ => none
    | _ => some (State.move { s with table := s.table.rollback id } id call (.done .raised))

def initial (approvals : String → Option AgentApproval) : State :=
  ⟨⟨approvals, fun _ => none⟩, fun _ => none⟩

def system : System State Act where
  start s := ∃ approvals, s = initial approvals
  next := State.next

/-! ## What the calls hold and know -/

def Call.write (call : Call) :
    Option (String × (Option AgentApproval → Option AgentApproval)) :=
  match call.phase with
  | .wrote seen now updatedAt => some (call.approvalID, Option.map (call.assign seen now updatedAt))
  | _ => none

/-- The decision is committed, or was there already. -/
def Phase.succeeded : Phase → Bool
  | .committed | .done (.approval _) => true
  | _ => false

/-- The row that the call has found, as it is committed. -/
def Call.Row (call : Call) (committed : String → Option AgentApproval)
    (P : ApprovalStatus → Prop) : Prop :=
  ∃ row, committed call.approvalID = some row ∧ row.tenantID = call.user.tenantID ∧ P row.status

/-- What a call knows about the committed rows. -/
def Call.Knows (call : Call) (committed : String → Option AgentApproval) : Prop :=
  match call.phase with
  | .found _ => call.Row committed fun _ => True
  | .wrote .. => call.Row committed fun status => status.undecided = true
  | .committed | .done (.approval _) =>
    call.Row committed fun status => status = call.body.decision.newStatus
  | .done (.notFound _) =>
    ∀ row, committed call.approvalID = some row → row.tenantID ≠ call.user.tenantID
  | _ => True

structure Invariant (s : State) : Prop where
  table : s.table.Pending (updatesOf Call.write s.calls)
  knows : ∀ id call, s.calls id = some call → call.Knows s.table.committed

/-- A decision is written while there is none yet: nobody's decision was committed since the call
has selected the row. -/
def StillUndecided (s : State) : Act → Prop
  | .update id _ _ => ∀ call, s.calls id = some call →
    ∀ row, s.table.committed call.approvalID = some row → row.status.undecided = true
  | _ => True

variable {s t : State} {id : ℕ} {call : Call} {phase : Phase}

theorem invariant_initial (approvals : String → Option AgentApproval) :
    Invariant (initial approvals) where
  table := ReadCommitted.pending_idle
  knows id call h := by cases h

theorem updatesOf_of_call (hcall : s.calls id = some call) :
    updatesOf Call.write s.calls id = call.write := by
  rw [updatesOf, hcall, Option.bind_some]

theorem update_eq_self {β : Type} {f : ℕ → Option β} (h : f id = none) :
    Function.update f id none = f := by
  rw [← h, Function.update_eq_self]

theorem newStatus_inj {decision decision' : Decision}
    (h : decision.newStatus = decision'.newStatus) : decision = decision' := by
  cases decision <;> cases decision' <;> first | rfl | cases h

theorem newStatus_undecided (decision : Decision) : decision.newStatus.undecided = false := by
  cases decision <;> rfl

/-- A step of one call that commits nothing. -/
theorem Invariant.move (hi : Invariant s)
    {table : Store ℕ String (Option AgentApproval)}
    (hcommitted : table.committed = s.table.committed)
    (htable : table.Pending
      (Function.update (updatesOf Call.write s.calls) id (Call.write { call with phase := phase })))
    (hknows : Call.Knows { call with phase := phase } s.table.committed) :
    Invariant (State.move { s with table := table } id call phase) where
  table := by
    rw [State.move, updatesOf_update]
    exact htable
  knows := by
    simp only [State.move, hcommitted]
    exact forall_update hknows fun j _ => hi.knows j

/-- A step that writes nothing either. -/
theorem Invariant.stay (hi : Invariant s) (hbefore : updatesOf Call.write s.calls id = none)
    (hafter : Call.write { call with phase := phase } = none)
    (hknows : Call.Knows { call with phase := phase } s.table.committed) :
    Invariant (s.move id call phase) := by
  apply hi.move rfl ?_ hknows
  rw [hafter, update_eq_self hbefore]
  exact hi.table

/-- What the check is past, and what it is not. -/
theorem Call.knows_check (call : Call) (committed : String → Option AgentApproval) :
    Call.Knows { call with phase := call.check (committed call.approvalID) } committed ∧
      Call.write { call with phase := call.check (committed call.approvalID) } = none := by
  have hrow : ∀ row, (committed call.approvalID).filter
      (fun r => decide (r.tenantID = call.user.tenantID)) = some row ↔
        committed call.approvalID = some row ∧ decide (row.tenantID = call.user.tenantID) = true :=
    fun row => Option.filter_eq_some_iff
  rw [Call.check]
  generalize hfilter : (committed call.approvalID).filter
    (fun r => decide (r.tenantID = call.user.tenantID)) = found
  rcases found with - | row
  · refine ⟨?_, rfl⟩
    intro row hcommitted htenant
    have hsome := (hrow row).mpr ⟨hcommitted, decide_eq_true htenant⟩
    rw [hfilter] at hsome
    cases hsome
  · obtain ⟨hcommitted, htenant⟩ := (hrow row).mp hfilter
    rw [decide_eq_true_eq] at htenant
    dsimp only
    split_ifs with hsame hopen
    · exact ⟨⟨row, hcommitted, htenant, hsame⟩, rfl⟩
    · exact ⟨⟨row, hcommitted, htenant, trivial⟩, rfl⟩
    · exact ⟨trivial, rfl⟩

theorem Invariant.update (hi : Invariant s) (hcall : s.calls id = some call)
    {seen : AgentApproval} {now updatedAt : ℤ} (hphase : call.phase = .found seen)
    {table : Store ℕ String (Option AgentApproval)}
    (hwrite : s.table.write id call.approvalID (Option.map (call.assign seen now updatedAt)) =
      some table)
    (hguard : ∀ row, s.table.committed call.approvalID = some row →
      row.status.undecided = true) :
    Invariant (State.move { s with table := table } id call (.wrote seen now updatedAt)) := by
  have hnone : updatesOf Call.write s.calls id = none := by
    rw [updatesOf_of_call hcall, Call.write, hphase]
  obtain ⟨-, heq⟩ := ReadCommitted.write_eq_some_iff.mp hwrite
  refine hi.move (by rw [heq]) (hi.table.write hnone hwrite) ?_
  have hknows := hi.knows id call hcall
  rw [Call.Knows, hphase] at hknows
  obtain ⟨row, hrow, htenant, -⟩ := hknows
  exact ⟨row, hrow, htenant, hguard row hrow⟩

/-- A commit brings its decision, and leaves every row alone that has one. -/
theorem Invariant.committed_commit (hi : Invariant s) (hcall : s.calls id = some call)
    {seen : AgentApproval} {now updatedAt : ℤ} (hphase : call.phase = .wrote seen now updatedAt) :
    (∃ row, s.table.committed call.approvalID = some row ∧ row.status.undecided = true ∧
      row.tenantID = call.user.tenantID ∧ (s.table.commit id).committed call.approvalID =
        some (call.assign seen now updatedAt row)) ∧
      ∀ k, k ≠ call.approvalID → (s.table.commit id).committed k = s.table.committed k := by
  have hupdate : updatesOf Call.write s.calls id =
      some (call.approvalID, Option.map (call.assign seen now updatedAt)) := by
    rw [updatesOf_of_call hcall, Call.write, hphase]
  have hknows := hi.knows id call hcall
  rw [Call.Knows, hphase] at hknows
  obtain ⟨row, hrow, htenant, hopen⟩ := hknows
  refine ⟨⟨row, hrow, hopen, htenant, ?_⟩, ?_⟩
  · rw [hi.table.committed_commit hupdate, hrow, Option.map_some]
  · intro k hk
    apply hi.table.committed_commit_of_ne
    intro f hf
    rw [hupdate] at hf
    exact hk (Prod.mk.inj (Option.some.inj hf)).1.symm

variable {committed committed' : String → Option AgentApproval}

theorem Call.write_fst (call : Call) {k : String} {f : Option AgentApproval → Option AgentApproval}
    (h : call.write = some (k, f)) : k = call.approvalID := by
  rw [Call.write] at h
  split at h
  · exact (Prod.mk.inj (Option.some.inj h)).1.symm
  · cases h

theorem Call.Knows.congr (h : call.Knows committed)
    (heq : committed' call.approvalID = committed call.approvalID) : call.Knows committed' := by
  rw [Call.Knows] at h ⊢
  simp only [Call.Row, heq] at h ⊢
  exact h

/-- What a call knows of a row without a decision stays true when another one decides. -/
theorem Call.Knows.decided (h : call.Knows committed) {row new : AgentApproval}
    (hrow : committed call.approvalID = some row) (hopen : row.status.undecided = true)
    (hnew : committed' call.approvalID = some new) (htenant : new.tenantID = row.tenantID)
    (hwrite : call.write = none) : call.Knows committed' := by
  have hfound : ∀ P, call.Row committed P → row.tenantID = call.user.tenantID ∧ P row.status := by
    rintro P ⟨row', hrow', h⟩
    obtain rfl := Option.some.inj (hrow.symm.trans hrow')
    exact h
  have hundecided : ¬ call.Row committed
      fun status => status = call.body.decision.newStatus := by
    intro hsucceeded
    rw [(hfound _ hsucceeded).2, newStatus_undecided] at hopen
    cases hopen
  rw [Call.Knows] at h ⊢
  rw [Call.write] at hwrite
  split at h
  · exact ⟨new, hnew, htenant.trans (hfound _ h).1, trivial⟩
  · rename_i hphase
    rw [hphase] at hwrite
    cases hwrite
  · exact absurd h hundecided
  · exact absurd h hundecided
  · intro new' hnew'
    obtain rfl := Option.some.inj (hnew.symm.trans hnew')
    rw [htenant]
    exact h row hrow
  · trivial

/-- What the others know stays true: none of them has written the row or has been told of its
decision. -/
theorem Invariant.commit (hi : Invariant s) (hcall : s.calls id = some call)
    {seen : AgentApproval} {now updatedAt : ℤ} (hphase : call.phase = .wrote seen now updatedAt) :
    Invariant (State.move { s with table := s.table.commit id } id call .committed) := by
  obtain ⟨⟨row, hrow, hopen, htenant, hnew⟩, hother⟩ := hi.committed_commit hcall hphase
  constructor
  · rw [State.move, updatesOf_update]
    exact hi.table.commit id
  · refine forall_update ⟨_, hnew, htenant, rfl⟩ ?_
    intro j hj call' hcall'
    have hknows := hi.knows j call' hcall'
    by_cases hk : call'.approvalID = call.approvalID
    · have hwrite : call'.write = none := by
        rcases hupdate : call'.write with - | ⟨k, f⟩
        · rfl
        · -- the row has one writer
          have hupdate' := updatesOf_of_call hcall'
          rw [hupdate, call'.write_fst hupdate, hk] at hupdate'
          have hwriter := updatesOf_of_call hcall
          rw [Call.write, hphase] at hwriter
          exact absurd (hi.table.writer_eq hupdate' hwriter) hj
      have hrow' : s.table.committed call'.approvalID = some row := by rw [hk, hrow]
      have hnew' : (s.table.commit id).committed call'.approvalID =
          some (call.assign seen now updatedAt row) := by rw [hk, hnew]
      exact hknows.decided hrow' hopen hnew' rfl hwrite
    · exact hknows.congr (hother _ hk)

theorem Invariant.next (hi : Invariant s) {e : Act} (hg : StillUndecided s e)
    (h : s.next e = some t) : Invariant t ∧
      ∀ k row, s.table.committed k = some row → row.status.undecided = false →
        t.table.committed k = some row := by
  rw [State.next.eq_def] at h
  cases e with
  | call id approvalID user body =>
    dsimp only at h
    split_ifs at h with hnew
    obtain rfl := Option.some.inj h
    have hfree : updatesOf Call.write s.calls id = none := by
      rw [updatesOf, Option.not_isSome_iff_eq_none.mp hnew]
      rfl
    exact ⟨hi.stay hfree rfl trivial, fun k row hrow _ => hrow⟩
  | select id =>
    obtain ⟨call, hcall, h⟩ := Option.bind_eq_some_iff.mp h
    split at h
    · rename_i hphase
      obtain rfl := Option.some.inj h
      have hfree : updatesOf Call.write s.calls id = none := by
        rw [updatesOf_of_call hcall, Call.write, hphase]
      rw [hi.table.read hfree]
      obtain ⟨hknows, hwrite⟩ := call.knows_check s.table.committed
      exact ⟨hi.stay hfree hwrite hknows, fun k row hrow _ => hrow⟩
    · cases h
  | update id now updatedAt =>
    obtain ⟨call, hcall, h⟩ := Option.bind_eq_some_iff.mp h
    split at h
    · rename_i hphase
      obtain ⟨table, hwrite, rfl⟩ := Option.map_eq_some_iff.mp h
      obtain ⟨-, heq⟩ := ReadCommitted.write_eq_some_iff.mp hwrite
      refine ⟨hi.update hcall hphase hwrite (hg call hcall), ?_⟩
      intro k row hrow _
      rw [heq]
      exact hrow
    · cases h
  | commit id =>
    obtain ⟨call, hcall, h⟩ := Option.bind_eq_some_iff.mp h
    split at h
    · rename_i hphase
      obtain rfl := Option.some.inj h
      refine ⟨hi.commit hcall hphase, ?_⟩
      obtain ⟨⟨row, hrow, hopen, -, -⟩, hother⟩ := hi.committed_commit hcall hphase
      intro k row' hrow' hdecided
      by_cases hk : k = call.approvalID
      · rw [hk, hrow] at hrow'
        rw [← Option.some.inj hrow', hopen] at hdecided
        cases hdecided
      · exact (hother k hk).trans hrow'
    · cases h
  | refresh id =>
    obtain ⟨call, hcall, h⟩ := Option.bind_eq_some_iff.mp h
    split at h
    · rename_i hphase
      have hfree : updatesOf Call.write s.calls id = none := by
        rw [updatesOf_of_call hcall, Call.write, hphase]
      have hknows := hi.knows id call hcall
      rw [Call.Knows, hphase] at hknows
      split at h
      · obtain rfl := Option.some.inj h
        exact ⟨hi.stay hfree rfl trivial, fun k row hrow _ => hrow⟩
      · obtain rfl := Option.some.inj h
        exact ⟨hi.stay hfree rfl hknows, fun k row hrow _ => hrow⟩
    · cases h
  | abort id =>
    obtain ⟨call, hcall, h⟩ := Option.bind_eq_some_iff.mp h
    split at h
    · cases h
    · obtain rfl := Option.some.inj h
      refine ⟨hi.move rfl ?_ trivial, fun k row hrow _ => hrow⟩
      exact hi.table.rollback id

/-! ## Decisions are final -/

/-- In the runs whose steps meet `G`: a decided row is never changed again, and of two calls with
opposite decisions one at most succeeds, the other being told of the conflict if it ends and is
not cut off. -/
structure DecisionsFinal (G : State → Act → Prop) : Prop where
  stays : ∀ s, Reachable system G s → ∀ k row, s.table.committed k = some row →
    row.status.undecided = false → ∀ es t, GuardedTrace system G s es →
      runTrace system s es = some t → t.table.committed k = some row
  exclusive : ∀ s, Reachable system G s → ∀ i j call call', s.calls i = some call →
    s.calls j = some call' → call.approvalID = call'.approvalID →
      call.body.decision ≠ call'.body.decision → call.phase.succeeded = true →
        call'.phase.succeeded = false ∧
          ∀ response, call'.phase = .done response →
            call'.user.tenantID = call.user.tenantID →
              response = .raised ∨ ∃ detail, response = .conflict detail

theorem invariant_of_reachable (h : Reachable system StillUndecided s) : Invariant s := by
  refine h.invariant ?_ fun s e t hi hg hn => (hi.next hg hn).1
  rintro s ⟨approvals, rfl⟩
  exact invariant_initial approvals

theorem decided_stays (hi : Invariant s) {es : List Act}
    (hg : GuardedTrace system StillUndecided s es) (hr : runTrace system s es = some t) {k : String}
    {row : AgentApproval} (hrow : s.table.committed k = some row)
    (hdecided : row.status.undecided = false) : t.table.committed k = some row := by
  induction es generalizing s with
  | nil => exact Option.some.inj hr ▸ hrow
  | cons e es ih =>
    obtain ⟨u, hu, hr⟩ := Option.bind_eq_some_iff.mp hr
    obtain ⟨hi', hstays⟩ := hi.next hg.1 hu
    exact ih hi' (hg.2 u hu) hr (hstays k row hrow hdecided)

theorem Call.Knows.succeeded (h : call.Knows committed) (hphase : call.phase.succeeded = true) :
    call.Row committed fun status => status = call.body.decision.newStatus := by
  rw [Phase.succeeded.eq_def] at hphase
  rw [Call.Knows] at h
  split at hphase
  · rename_i heq
    rwa [heq] at h
  · rename_i heq
    rwa [heq] at h
  · cases hphase

theorem decisions_final (s : State) (h : Reachable system StillUndecided s) :
    (∀ k row, s.table.committed k = some row → row.status.undecided = false →
      ∀ es t, GuardedTrace system StillUndecided s es → runTrace system s es = some t →
        t.table.committed k = some row) ∧
      ∀ i j call call', s.calls i = some call → s.calls j = some call' →
        call.approvalID = call'.approvalID → call.body.decision ≠ call'.body.decision →
          call.phase.succeeded = true → call'.phase.succeeded = false ∧
            ∀ response, call'.phase = .done response →
              call'.user.tenantID = call.user.tenantID →
                response = .raised ∨ ∃ detail, response = .conflict detail := by
  have hi := invariant_of_reachable h
  refine ⟨fun k row hrow hdecided es t hg hr => decided_stays hi hg hr hrow hdecided, ?_⟩
  intro i j call call' hcall hcall' hk hopposite hsucceeded
  obtain ⟨row, hrow, htenant, hstatus⟩ := (hi.knows i call hcall).succeeded hsucceeded
  have hknows := hi.knows j call' hcall'
  have hfails : call'.phase.succeeded = false := by
    rw [Bool.eq_false_iff]
    intro hboth
    obtain ⟨row', hrow', -, hstatus'⟩ := hknows.succeeded hboth
    rw [← hk, hrow] at hrow'
    obtain rfl := Option.some.inj hrow'
    exact hopposite (newStatus_inj (hstatus.symm.trans hstatus'))
  refine ⟨hfails, ?_⟩
  intro response hphase hsame
  rw [hphase] at hfails
  rw [Call.Knows, hphase] at hknows
  cases response with
  | approval row => cases hfails
  | notFound detail => exact absurd (htenant.trans hsame.symm) (hknows row (hk ▸ hrow))
  | conflict detail => exact Or.inr ⟨detail, rfl⟩
  | raised => exact Or.inl rfl

def isolateHost : AgentApproval := ⟨"acme", .pending, none, none, none, 0⟩

/-- The second call selects the row before the first one commits. -/
def approved : List Act :=
  [.call 0 "isolate-host" ⟨"acme", "ada"⟩ ⟨.approve, some "go"⟩,
    .call 1 "isolate-host" ⟨"acme", "bob"⟩ ⟨.deny, none⟩, .select 0, .select 1, .update 0 5 5,
    .commit 0, .refresh 0]

def denied : List Act := [.update 1 6 6, .commit 1, .refresh 1]

/-- The approval that was committed and answered becomes a denial, under the comment of the
approval. -/
theorem approval_is_denied : ¬ DecisionsFinal anyStep := by
  intro h
  obtain ⟨s, t, hs, ht, hrow, hrow'⟩ : ∃ s t,
      runTrace system (initial fun _ => some isolateHost) approved = some s ∧
        runTrace system s denied = some t ∧
        s.table.committed "isolate-host" =
          some ⟨"acme", .approved, some "ada", some 5, some "go", 5⟩ ∧
        t.table.committed "isolate-host" =
          some ⟨"acme", .denied, some "bob", some 6, some "go", 6⟩ :=
    ⟨_, _, rfl, rfl, rfl, rfl⟩
  have hstart : Reachable system anyStep (initial fun _ => some isolateHost) := .start ⟨_, rfl⟩
  have hreached := hstart.runTrace (TransitionSystem.anyStep_guarded _ _) hs
  have hsame := h.stays s hreached _ _ hrow rfl denied t
    (TransitionSystem.anyStep_guarded _ _) ht
  rw [hrow'] at hsame
  cases hsame

/-- A decision that nobody competes with. -/
def alone : List Act :=
  [.call 0 "isolate-host" ⟨"acme", "ada"⟩ ⟨.approve, none⟩, .select 0, .update 0 5 5, .commit 0,
    .refresh 0]

theorem alone_guarded :
    GuardedTrace system StillUndecided (initial fun _ => some isolateHost) alone := by
  refine guardedTrace_cons trivial rfl (guardedTrace_cons trivial rfl ?_)
  refine guardedTrace_cons ?_ rfl (guardedTrace_cons trivial rfl
    (guardedTrace_cons trivial rfl trivial))
  intro call _ row hrow
  obtain rfl := Option.some.inj hrow
  rfl

/-- A denial that comes after it finds it decided. -/
theorem approval_stays : ∃ s t, runTrace system (initial fun _ => some isolateHost) alone = some s ∧
    runTrace system s [.call 1 "isolate-host" ⟨"acme", "bob"⟩ ⟨.deny, none⟩, .select 1] = some t ∧
    t.table.committed "isolate-host" = some ⟨"acme", .approved, some "ada", some 5, none, 5⟩ := by
  obtain ⟨s, t, hs, ht, hrow⟩ : ∃ s t,
      runTrace system (initial fun _ => some isolateHost) alone = some s ∧
        runTrace system s [.call 1 "isolate-host" ⟨"acme", "bob"⟩ ⟨.deny, none⟩, .select 1] =
          some t ∧
        s.table.committed "isolate-host" =
          some ⟨"acme", .approved, some "ada", some 5, none, 5⟩ := ⟨_, _, rfl, rfl, rfl⟩
  have hstart : Reachable system StillUndecided (initial fun _ => some isolateHost) :=
    .start ⟨_, rfl⟩
  have hguarded : GuardedTrace system StillUndecided s
      [.call 1 "isolate-host" ⟨"acme", "bob"⟩ ⟨.deny, none⟩, .select 1] := by
    obtain rfl := Option.some.inj hs
    exact guardedTrace_cons trivial rfl (guardedTrace_cons trivial rfl trivial)
  have hfinal := decisions_final s (hstart.runTrace alone_guarded hs)
  exact ⟨s, t, hs, ht, hfinal.1 _ _ hrow rfl _ t hguarded ht⟩

end ApprovalDecision
