import Mathlib.Data.Int.Notation
import Mathlib.Data.Nat.Notation
import Mathlib.Logic.Function.Basic
import Mathlib.Tactic.SplitIfs
import AiSOC.TransitionSystem

/-! # Claiming an alert

A claim reads the alert, takes it if it is unassigned by one conditional update, and reads
again. The calls interleave between these statements, each of which is atomic. -/
namespace AlertClaim

open TransitionSystem

abbrev AlertId := ℕ
abbrev TenantId := ℕ
abbrev UserId := ℕ
abbrev CallId := ℕ

/-- The columns that a claim reads or writes. -/
structure Row where
  tenantId : TenantId
  assignedTo : Option UserId
  assignedAt : Option ℤ
  updatedAt : ℤ
  deriving DecidableEq, Repr

abbrev Database := AlertId → Option Row

structure Call where
  alertId : AlertId
  tenantId : TenantId
  userId : UserId
  deriving DecidableEq, Repr

/-- A claim returns the alert or raises; the last is what reloading a lost row raises. -/
inductive Outcome where
  | claimed (row : Row)
  | notFound
  | alreadyClaimed (owner : UserId)
  | lostRow
  deriving DecidableEq, Repr

/-- The statement that a call comes to next. -/
inductive Phase where
  | selecting | updating | rereading | refreshing
  | done (outcome : Outcome)
  deriving DecidableEq, Repr

def assign (row : Row) (userId : UserId) (now : ℤ) : Row :=
  { row with assignedTo := some userId, assignedAt := some now, updatedAt := now }

/-- One statement of a call. -/
def perform (db : Database) (call : Call) (now : ℤ) : Phase → Database × Phase
  | .selecting =>
    match (db call.alertId).filter fun row => row.tenantId = call.tenantId with
    | none => (db, .done .notFound)
    | some row =>
      if row.assignedTo = some call.userId then (db, .done (.claimed row))
      else match row.assignedTo with
        | some owner => (db, .done (.alreadyClaimed owner))
        | none => (db, .updating)
  | .updating =>
    match (db call.alertId).filter fun row => row.assignedTo = none with
    | some row =>
      (Function.update db call.alertId (some (assign row call.userId now)), .refreshing)
    | none => (db, .rereading)
  | .rereading =>
    match (db call.alertId).bind Row.assignedTo with
    | none => (db, .done .notFound)
    | some owner =>
      if owner = call.userId then (db, .refreshing) else (db, .done (.alreadyClaimed owner))
  | .refreshing =>
    match db call.alertId with
    | some row => (db, .done (.claimed row))
    | none => (db, .done .lostRow)
  | .done outcome => (db, .done outcome)

def Phase.isDone : Phase → Bool
  | .done _ => true
  | _ => false

structure State where
  db : Database
  phase : CallId → Phase

structure Event where
  callId : CallId
  now : ℤ

variable (calls : CallId → Call)

def next (s : State) (e : Event) : Option State :=
  if (s.phase e.callId).isDone then none
  else
    let (db, phase) := perform s.db (calls e.callId) e.now (s.phase e.callId)
    some ⟨db, Function.update s.phase e.callId phase⟩

/-- All calls are still to begin, on any database. -/
def system : System State Event where
  start s := ∀ c, s.phase c = .selecting
  next := next calls

/-- Rows stay, and an assigned row stays as it is. -/
def Grows (db db' : Database) : Prop :=
  ∀ a, (db a = none → db' a = none) ∧ ∀ row, db a = some row →
    ∃ row', db' a = some row' ∧ row'.tenantId = row.tenantId ∧
      (row.assignedTo ≠ none → row' = row)

theorem Grows.refl (db : Database) : Grows db db :=
  fun _ => ⟨id, fun row hrow => ⟨row, hrow, rfl, fun _ => rfl⟩⟩

theorem Grows.trans {db db' db'' : Database} (h : Grows db db') (h' : Grows db' db'') :
    Grows db db'' := by
  intro a
  refine ⟨fun hnone => (h' a).1 ((h a).1 hnone), ?_⟩
  intro row hrow
  obtain ⟨row', hrow', htenant, hkeep⟩ := (h a).2 row hrow
  obtain ⟨row'', hrow'', htenant', hkeep'⟩ := (h' a).2 row' hrow'
  refine ⟨row'', hrow'', htenant'.trans htenant, ?_⟩
  intro hassigned
  obtain rfl := hkeep hassigned
  exact hkeep' hassigned

theorem Grows.assigned {db db' : Database} (h : Grows db db') {a : AlertId} {row : Row}
    (hrow : db a = some row) (hassigned : row.assignedTo ≠ none) : db' a = some row := by
  obtain ⟨row', hrow', -, hkeep⟩ := (h a).2 row hrow
  rw [hrow', hkeep hassigned]

variable {calls}

/-- The alert exists in the tenant of the call. -/
def Present (db : Database) (call : Call) (owned : Option UserId → Prop) : Prop :=
  ∃ row, db call.alertId = some row ∧ row.tenantId = call.tenantId ∧ owned row.assignedTo

/-- What a call knows of the database. -/
def Knows (db : Database) (call : Call) : Phase → Prop
  | .selecting => True
  | .updating => Present db call fun _ => True
  | .rereading => Present db call fun owner => owner ≠ none
  | .refreshing => Present db call fun owner => owner = some call.userId
  | .done (.claimed row) => db call.alertId = some row ∧ row.tenantId = call.tenantId ∧
      row.assignedTo = some call.userId
  | .done .notFound => ∀ row, db call.alertId = some row → row.tenantId ≠ call.tenantId
  | .done (.alreadyClaimed owner) =>
      owner ≠ call.userId ∧ Present db call fun o => o = some owner
  | .done .lostRow => False

/-- What a call knows stays true while others go on. -/
theorem Knows.grows {db db' : Database} {call : Call} (h : Grows db db') :
    ∀ {phase : Phase}, Knows db call phase → Knows db' call phase
  | .selecting, _ => trivial
  | .updating, ⟨row, hrow, htenant, _⟩ => by
    obtain ⟨row', hrow', htenant', -⟩ := (h call.alertId).2 row hrow
    exact ⟨row', hrow', htenant'.trans htenant, trivial⟩
  | .rereading, ⟨row, hrow, htenant, hassigned⟩ =>
    ⟨row, h.assigned hrow hassigned, htenant, hassigned⟩
  | .refreshing, ⟨row, hrow, htenant, howner⟩ => by
    refine ⟨row, h.assigned hrow ?_, htenant, howner⟩
    rw [howner]
    exact Option.some_ne_none _
  | .done (.claimed row), ⟨hrow, htenant, howner⟩ => by
    refine ⟨h.assigned hrow ?_, htenant, howner⟩
    rw [howner]
    exact Option.some_ne_none _
  | .done .notFound, hknows => by
    intro row' hrow'
    rcases hrow : db call.alertId with _ | row
    · rw [(h call.alertId).1 hrow] at hrow'
      cases hrow'
    · obtain ⟨row'', hrow'', htenant, -⟩ := (h call.alertId).2 row hrow
      obtain rfl := Option.some.inj (hrow'.symm.trans hrow'')
      rw [htenant]
      exact hknows row hrow
  | .done (.alreadyClaimed owner), ⟨hne, row, hrow, htenant, howner⟩ => by
    refine ⟨hne, row, h.assigned hrow ?_, htenant, howner⟩
    rw [howner]
    exact Option.some_ne_none _

/-- Only the conditional update writes, and only to an unassigned row. -/
theorem perform_grows (db : Database) (call : Call) (now : ℤ) (phase : Phase) :
    Grows db (perform db call now phase).1 := by
  cases phase with
  | selecting =>
    simp only [perform]
    split
    · exact Grows.refl db
    · split_ifs
      · exact Grows.refl db
      · split
        · exact Grows.refl db
        · exact Grows.refl db
  | updating =>
    simp only [perform]
    split
    · rename_i row hrow
      obtain ⟨hrow, hfree⟩ := Option.filter_eq_some_iff.mp hrow
      intro a
      dsimp only
      by_cases ha : a = call.alertId
      · subst ha
        rw [Function.update_self, hrow]
        refine ⟨nofun, ?_⟩
        rintro _ ⟨⟩
        refine ⟨_, rfl, rfl, ?_⟩
        intro hassigned
        exact absurd (of_decide_eq_true hfree) hassigned
      · rw [Function.update_of_ne ha]
        exact Grows.refl db a
    · exact Grows.refl db
  | rereading =>
    simp only [perform]
    split
    · exact Grows.refl db
    · split_ifs
      · exact Grows.refl db
      · exact Grows.refl db
  | refreshing =>
    simp only [perform]
    split
    · exact Grows.refl db
    · exact Grows.refl db
  | done outcome => exact Grows.refl db

/-- Every statement leaves the call with what it has to know at the next one. -/
theorem perform_knows {db : Database} {call : Call} (now : ℤ) {phase : Phase}
    (h : Knows db call phase) :
    Knows (perform db call now phase).1 call (perform db call now phase).2 := by
  cases phase with
  | selecting =>
    simp only [perform]
    split
    · rename_i hnone
      intro row hrow htenant
      exact Option.filter_eq_none_iff.mp hnone row hrow (decide_eq_true htenant)
    · rename_i row hrow
      obtain ⟨hrow, htenant⟩ := Option.filter_eq_some_iff.mp hrow
      have htenant := of_decide_eq_true htenant
      split_ifs with hmine
      · exact ⟨hrow, htenant, hmine⟩
      · split
        · rename_i owner howner
          rw [howner] at hmine
          exact ⟨fun heq => hmine (congrArg some heq), row, hrow, htenant, howner⟩
        · exact ⟨row, hrow, htenant, trivial⟩
  | updating =>
    obtain ⟨row, hrow, htenant, -⟩ := h
    simp only [perform, hrow]
    split
    · rename_i row' hrow'
      obtain ⟨hrow', -⟩ := Option.filter_eq_some_iff.mp hrow'
      cases hrow'
      exact ⟨_, Function.update_self .., htenant, rfl⟩
    · rename_i hnone
      rw [Option.filter_eq_none_iff] at hnone
      exact ⟨row, hrow, htenant, fun hfree => hnone row rfl (decide_eq_true hfree)⟩
  | rereading =>
    obtain ⟨row, hrow, htenant, hassigned⟩ := h
    simp only [perform, hrow, Option.bind_some]
    split
    · rename_i hfree
      exact absurd hfree hassigned
    · rename_i owner howner
      split_ifs with hmine
      · exact ⟨row, hrow, htenant, hmine ▸ howner⟩
      · exact ⟨hmine, row, hrow, htenant, howner⟩
  | refreshing =>
    obtain ⟨row, hrow, htenant, howner⟩ := h
    simp only [perform, hrow]
    exact ⟨hrow, htenant, howner⟩
  | done outcome => exact h

theorem next_eq_some {s t : State} {e : Event} (h : next calls s e = some t) :
    (s.phase e.callId).isDone = false ∧
      t = ⟨(perform s.db (calls e.callId) e.now (s.phase e.callId)).1,
        Function.update s.phase e.callId
          (perform s.db (calls e.callId) e.now (s.phase e.callId)).2⟩ := by
  unfold next at h
  split at h
  · cases h
  · rename_i hdone
    exact ⟨Bool.not_eq_true _ ▸ hdone, (Option.some.inj h).symm⟩

theorem next_grows {s t : State} {e : Event} (h : next calls s e = some t) :
    Grows s.db t.db := by
  obtain ⟨-, rfl⟩ := next_eq_some h
  exact perform_grows s.db (calls e.callId) e.now (s.phase e.callId)

/-- All calls know what they rely on, at every point of every run. -/
theorem reachable_knows {s : State} (h : Reachable (system calls) anyStep s) :
    ∀ c, Knows s.db (calls c) (s.phase c) := by
  refine Reachable.invariant (P := fun s => ∀ c, Knows s.db (calls c) (s.phase c)) ?_ ?_ h
  · intro s hstart c
    rw [hstart c]
    trivial
  · intro s e t hknows _ hnext c
    have hgrows := next_grows hnext
    obtain ⟨-, rfl⟩ := next_eq_some hnext
    by_cases hc : c = e.callId
    · subst hc
      simp only [Function.update_self]
      exact perform_knows e.now (hknows e.callId)
    · simp only [Function.update_of_ne hc]
      exact (hknows c).grows hgrows

/-- How many statements a call has left at most. -/
def Phase.rest : Phase → ℕ
  | .selecting => 4
  | .updating => 3
  | .rereading => 2
  | .refreshing => 1
  | .done _ => 0

theorem perform_rest (db : Database) (call : Call) (now : ℤ) {phase : Phase}
    (h : phase.isDone = false) : (perform db call now phase).2.rest < phase.rest := by
  cases phase with
  | selecting =>
    simp only [perform]
    split
    · exact Nat.succ_pos 3
    · split_ifs
      · exact Nat.succ_pos 3
      · split
        · exact Nat.succ_pos 3
        · exact Nat.lt_succ_self 3
  | updating =>
    simp only [perform]
    split
    · exact Nat.lt_succ_of_lt (Nat.lt_succ_self 1)
    · exact Nat.lt_succ_self 2
  | rereading =>
    simp only [perform]
    split
    · exact Nat.succ_pos 1
    · split_ifs
      · exact Nat.lt_succ_self 1
      · exact Nat.succ_pos 1
  | refreshing =>
    simp only [perform]
    split
    · exact Nat.succ_pos 0
    · exact Nat.succ_pos 0
  | done outcome => cases h

/-- What holds between two points `s` and `t` of a run. -/
structure ExclusiveClaims (calls : CallId → Call) (s t : State) : Prop where
  oneWinner : ∀ c c' row row', t.phase c = .done (.claimed row) →
    t.phase c' = .done (.claimed row') → (calls c).alertId = (calls c').alertId →
    (calls c).userId = (calls c').userId
  rowKept : ∀ a row, s.db a = some row → row.assignedTo ≠ none → t.db a = some row
  outcome : ∀ c row result, t.phase c = .done result → t.db (calls c).alertId = some row →
    row.tenantId = (calls c).tenantId →
    (row.assignedTo = some (calls c).userId ∧ result = .claimed row) ∨
      ∃ owner, owner ≠ (calls c).userId ∧ row.assignedTo = some owner ∧
        result = .alreadyClaimed owner
  missing : ∀ c result, t.phase c = .done result →
    (∀ row, t.db (calls c).alertId = some row → row.tenantId ≠ (calls c).tenantId) →
    result = .notFound
  repeated : ∀ c now row, t.phase c = .selecting → t.db (calls c).alertId = some row →
    row.tenantId = (calls c).tenantId → row.assignedTo = some (calls c).userId →
    next calls t ⟨c, now⟩ = some ⟨t.db, Function.update t.phase c (.done (.claimed row))⟩
  finishes : ∀ c now, (t.phase c).isDone = false →
    ∃ t', next calls t ⟨c, now⟩ = some t' ∧ (t'.phase c).rest < (t.phase c).rest

theorem repeated_claim {t : State} {c : CallId} {row : Row} (now : ℤ)
    (hphase : t.phase c = .selecting) (hrow : t.db (calls c).alertId = some row)
    (htenant : row.tenantId = (calls c).tenantId)
    (howner : row.assignedTo = some (calls c).userId) : next calls t ⟨c, now⟩ =
      some ⟨t.db, Function.update t.phase c (.done (.claimed row))⟩ := by
  have hfilter : (some row).filter (fun row => decide (row.tenantId = (calls c).tenantId)) =
      some row := Option.filter_some_pos (decide_eq_true htenant)
  simp only [next, hphase, Phase.isDone, perform, hrow, hfilter, howner, if_true,
    Bool.false_eq_true, if_false]

/-- Claims are exclusive, in every interleaving of any calls. -/
theorem claims_exclusive {s t : State} {es : List Event}
    (hs : Reachable (system calls) anyStep s) (hrun : runTrace (system calls) s es = some t) :
    ExclusiveClaims calls s t := by
  have hknows := reachable_knows (hs.runTrace (anyStep_guarded es s) hrun)
  have hgrows : Grows s.db t.db := by
    refine runTrace_keeps (P := fun u => Grows s.db u.db) (Q := fun _ => True) ?_
      (Grows.refl s.db) (fun _ _ => trivial) hrun
    intro u e v hu _ hnext
    exact hu.trans (next_grows hnext)
  refine ⟨?_, fun a row => hgrows.assigned, ?_, ?_, fun c now row => repeated_claim now, ?_⟩
  · intro c c' row row' hc hc' halert
    have hfirst := hknows c
    have hsecond := hknows c'
    rw [hc] at hfirst
    rw [hc'] at hsecond
    obtain ⟨hrow, -, howner⟩ := hfirst
    obtain ⟨hrow', -, howner'⟩ := hsecond
    rw [← halert, hrow] at hrow'
    obtain rfl := Option.some.inj hrow'
    exact Option.some.inj (howner.symm.trans howner')
  · intro c row result hdone hrow htenant
    have h := hknows c
    rw [hdone] at h
    cases result with
    | claimed row' =>
      obtain ⟨hrow', -, howner⟩ := h
      obtain rfl := Option.some.inj (hrow'.symm.trans hrow)
      exact Or.inl ⟨howner, rfl⟩
    | notFound => exact absurd htenant (h row hrow)
    | alreadyClaimed owner =>
      obtain ⟨hne, row', hrow', -, howner⟩ := h
      obtain rfl := Option.some.inj (hrow'.symm.trans hrow)
      exact Or.inr ⟨owner, hne, howner, rfl⟩
    | lostRow => exact h.elim
  · intro c result hdone habsent
    have h := hknows c
    rw [hdone] at h
    cases result with
    | claimed row => exact absurd h.2.1 (habsent row h.1)
    | notFound => rfl
    | alreadyClaimed owner =>
      obtain ⟨-, row, hrow, htenant, -⟩ := h
      exact absurd htenant (habsent row hrow)
    | lostRow => exact h.elim
  · intro c now hrunning
    refine ⟨_, if_neg (by rw [hrunning]; exact Bool.false_ne_true), ?_⟩
    dsimp only
    rw [Function.update_self]
    exact perform_rest t.db (calls c) now hrunning

/-- Two users race for alert 5; the winner claims it again, and the last call is for no alert. -/
def race : CallId → Call
  | 0 => ⟨5, 1, 10⟩
  | 1 => ⟨5, 1, 20⟩
  | 2 => ⟨5, 1, 20⟩
  | _ => ⟨6, 1, 10⟩

def unassignedRow : Row := ⟨1, none, none, 0⟩

def raceStart : State :=
  ⟨fun a => if a = 5 then some unassignedRow else none, fun _ => .selecting⟩

def raceEvents : List Event :=
  [⟨0, 1⟩, ⟨1, 2⟩, ⟨1, 3⟩, ⟨0, 4⟩, ⟨0, 5⟩, ⟨1, 6⟩, ⟨2, 7⟩, ⟨3, 8⟩]

theorem race_exclusive : ∃ t, runTrace (system race) raceStart raceEvents = some t ∧
    ExclusiveClaims race raceStart t ∧
    t.phase 0 = .done (.alreadyClaimed 20) ∧
    t.phase 1 = .done (.claimed ⟨1, some 20, some 3, 3⟩) ∧
    t.phase 2 = .done (.claimed ⟨1, some 20, some 3, 3⟩) ∧ t.phase 3 = .done .notFound := by
  refine ⟨_, rfl, ?_, rfl, rfl, rfl, rfl⟩
  exact @claims_exclusive race raceStart _ raceEvents (.start fun _ => rfl) rfl

end AlertClaim
