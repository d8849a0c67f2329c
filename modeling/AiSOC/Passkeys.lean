import Mathlib.Data.Int.Notation
import Mathlib.Data.Nat.Notation
import Mathlib.Tactic.SplitIfs
import AiSOC.JsonText
import AiSOC.ReadCommitted
import AiSOC.TransitionSystem

/-! # Finishing a passkey ceremony

A finish call selects its challenge, marks it as consumed and commits. A registration then inserts
a credential; a login reads one, has the library check the assertion against the stored signature
counter, and writes the new counter. Every statement and every commit is a step of its own. -/
namespace Passkeys

open CodeText (Text text)
open JsonText (Json truthy)
open ReadCommitted (Store updatesOf updatesOf_update forall_update)
open TransitionSystem (System GuardedTrace runTrace guardedTrace_iff guardedTrace_and
  guardedTrace_congr guardedTrace_iff_forall)

/-- `F` are the floating-point numbers of JSON values. -/
abbrev Members (F : Type) := List (Text × Json F)

structure PasskeyChallenge where
  purpose : Text
  userID : Option String
  expiresAt : ℤ
  consumedAt : Option ℤ

structure PasskeyCredential (F : Type) where
  tenantID : String
  userID : String
  publicKey : Text
  signCount : ℤ
  transports : Json F
  deviceName : Text
  aaguid : Option Text
  isDiscoverable : Bool
  lastUsedAt : Option ℤ
  revokedAt : Option ℤ

/-- What the tokens are made from. -/
structure User where
  id : String
  tenantID : String
  role : Text
  email : Text

structure FinishRequest (F : Type) where
  credential : Members F
  challenge : Text
  challenge_length : 8 ≤ challenge.length ∧ challenge.length ≤ 512

/-- What the library makes of a registration; ids and keys are encoded. -/
structure Verified where
  credentialID : Text
  publicKey : Text
  signCount : ℤ
  aaguid : Option Text
  backedUp : Bool

/-- The checks of the library, with the settings filled in: an error is the text of the exception.
An assertion is checked against a public key and a counter, and gives the new counter. -/
structure Library (F : Type) where
  verifyRegistration : Members F → Text → Except Text Verified
  verifyAuthentication : Members F → Text → Text → ℤ → Except Text ℤ
  nonzero : F → Bool

variable {F : Type}

/-- An assertion whose counter is not above the one it is checked against is rejected, unless both
are zero. -/
def Library.RejectsStaleCounts (lib : Library F) : Prop :=
  ∀ credential challenge publicKey current new,
    lib.verifyAuthentication credential challenge publicKey current = .ok new →
      current < new ∨ current = 0 ∧ new = 0

inductive Kind where
  | register (userID tenantID : String)
  | authenticate

def Kind.purpose : Kind → Text
  | .register .. => text "register"
  | .authenticate => text "authenticate"

/-- `raised` is an exception without a handler. -/
inductive Response (F : Type) where
  | failed (status : ℕ) (detail : Text)
  | registered (credentialID : Text) (row : PasskeyCredential F)
  | tokens (user : User)
  | raised

def selectChallenge (row : Option PasskeyChallenge) (purpose : Text) (now : ℤ) :
    Option PasskeyChallenge :=
  row.filter fun r => r.purpose = purpose ∧ r.consumedAt = none ∧ now < r.expiresAt

def PasskeyChallenge.consume (now : ℤ) (row : PasskeyChallenge) : PasskeyChallenge :=
  { row with consumedAt := some now }

/-- `body.credential.get("response", {}).get("transports") or []`. -/
def transports (lib : Library F) (credential : Members F) : Option (Json F) :=
  match credential.lookup (text "response") with
  | none => some (.arr [])
  | some (.obj response) =>
    some (((response.lookup (text "transports")).filter (truthy lib.nonzero)).getD (.arr []))
  | some _ => none

/-- A name that is no text cannot be cut or cannot be stored. -/
def deviceName (lib : Library F) (credential : Members F) : Option Text :=
  match (credential.lookup (text "device_name")).filter (truthy lib.nonzero) with
  | none => some (text "My phone")
  | some (.str name) => some (name.take 120)
  | some _ => none

def newCredential (lib : Library F) (userID tenantID : String) (credential : Members F)
    (verified : Verified) : Option (PasskeyCredential F) :=
  (transports lib credential).bind fun transports =>
    (deviceName lib credential).map fun deviceName =>
      ⟨tenantID, userID, verified.publicKey, verified.signCount, transports, deviceName,
        verified.aaguid.filter fun t => t ≠ [], verified.backedUp, none, none⟩

/-- What a registration does after its challenge is consumed, up to the insertion. -/
def register (lib : Library F) (row : PasskeyChallenge) (userID tenantID : String)
    (request : FinishRequest F) : Except (Response F) (Text × PasskeyCredential F) :=
  if row.userID ≠ some userID then
    .error (.failed 400 (text "Challenge does not belong to the current user"))
  else
    match lib.verifyRegistration request.credential request.challenge with
    | .error exc => .error (.failed 400 (text "Registration verification failed: " ++ exc))
    | .ok verified =>
      match newCredential lib userID tenantID request.credential verified with
      | none => .error .raised
      | some credential => .ok (verified.credentialID, credential)

/-- `body.credential.get("id") or body.credential.get("rawId")`, if it is a text. -/
def rawCredentialID (lib : Library F) (credential : Members F) : Option Text :=
  match ((credential.lookup (text "id")).filter (truthy lib.nonzero)).or
    (credential.lookup (text "rawId")) with
  | some (.str id) => some id
  | _ => none

def lookupCredential (lib : Library F) (credentials : Text → Option (PasskeyCredential F))
    (request : FinishRequest F) : Except (Response F) (Text × PasskeyCredential F) :=
  match rawCredentialID lib request.credential with
  | none => .error (.failed 400 (text "Missing credential id in assertion"))
  | some key =>
    match (credentials key).filter fun c => c.revokedAt = none with
    | none => .error (.failed 404 (text "Unknown or revoked passkey"))
    | some row => .ok (key, row)

/-- The user of the credential, if active, and the counter of the assertion. -/
def verifyAssertion (lib : Library F) (activeUser : String → Option User)
    (request : FinishRequest F) (row : PasskeyCredential F) : Except (Response F) (User × ℤ) :=
  match activeUser row.userID with
  | none => .error (.failed 403 (text "User is inactive"))
  | some user =>
    match lib.verifyAuthentication request.credential request.challenge row.publicKey
      row.signCount with
    | .error exc => .error (.failed 401 (text "Passkey verification failed: " ++ exc))
    | .ok new => .ok (user, new)

/-- The UPDATE of a login that has read the counter `seen`; a column that stays equal is left
out. -/
def PasskeyCredential.signIn (seen new now : ℤ) (row : PasskeyCredential F) :
    PasskeyCredential F :=
  { row with signCount := if new = seen then row.signCount else new, lastUsedAt := some now }

inductive Phase (F : Type) where
  | started
  | found (row : PasskeyChallenge)
  | consuming (row : PasskeyChallenge) (now : ℤ)
  | consumed (row : PasskeyChallenge)
  | inserting (key : Text) (row : PasskeyCredential F)
  | inserted (key : Text) (row : PasskeyCredential F)
  | asserting (key : Text) (row : PasskeyCredential F)
  | verified (key : Text) (seen new : ℤ) (user : User)
  | updated (key : Text) (seen new : ℤ) (user : User) (now : ℤ)
  | done (response : Response F)

structure Call (F : Type) where
  kind : Kind
  request : FinishRequest F
  phase : Phase F

/-- The log tells which call has passed with which challenge. -/
structure World (F : Type) where
  challenges : Store ℕ Text (Option PasskeyChallenge)
  credentials : Store ℕ Text (Option (PasskeyCredential F))
  calls : ℕ → Option (Call F)
  log : List (Text × ℕ)

inductive Act (F : Type) where
  | call (id : ℕ) (kind : Kind) (request : FinishRequest F)
  | select (id : ℕ) (now : ℤ)
  | mark (id : ℕ) (now : ℤ)
  | register (id : ℕ)
  | insert (id : ℕ)
  | lookup (id : ℕ)
  | verify (id : ℕ) (activeUser : String → Option User)
  | update (id : ℕ) (now : ℤ)
  | commit (id : ℕ)
  | abort (id : ℕ)

def World.move (s : World F) (id : ℕ) (call : Call F) (phase : Phase F) : World F :=
  { s with calls := Function.update s.calls id (some { call with phase := phase }) }

def World.commit (s : World F) (id : ℕ) : World F :=
  { s with challenges := s.challenges.commit id, credentials := s.credentials.commit id }

def World.rollback (s : World F) (id : ℕ) : World F :=
  { s with challenges := s.challenges.rollback id, credentials := s.credentials.rollback id }

/-- A raised exception ends in `abort`, which may come at any time. -/
def World.next (lib : Library F) (s : World F) : Act F → Option (World F)
  | .call id kind request =>
    if (s.calls id).isSome then none
    else some (s.move id ⟨kind, request, .started⟩ .started)
  | .select id now => (s.calls id).bind fun call =>
    match call.phase with
    | .started =>
      match selectChallenge (s.challenges.read id call.request.challenge) call.kind.purpose
        now with
      | none => some (s.move id call (.done (.failed 400
          (text "Unknown, expired, or already-consumed passkey challenge"))))
      | some row => some (s.move id call (.found row))
    | _ => none
  | .mark id now => (s.calls id).bind fun call =>
    match call.phase with
    | .found row =>
      (s.challenges.write id call.request.challenge (Option.map (·.consume now))).map
        fun challenges => World.move { s with challenges := challenges } id call
          (.consuming row now)
    | _ => none
  | .register id => (s.calls id).bind fun call =>
    match call.phase, call.kind with
    | .consumed row, .register userID tenantID =>
      match register lib row userID tenantID call.request with
      | .error response => some (s.move id call (.done response))
      | .ok (key, credential) => some (s.move id call (.inserting key credential))
    | _, _ => none
  | .insert id => (s.calls id).bind fun call =>
    match call.phase with
    | .inserting key row =>
      -- the credential id is unique
      if (s.credentials.read id key).isSome then some (s.move id call (.done .raised))
      else (s.credentials.write id key fun _ => some row).map fun credentials =>
        World.move { s with credentials := credentials } id call (.inserted key row)
    | _ => none
  | .lookup id => (s.calls id).bind fun call =>
    match call.phase, call.kind with
    | .consumed _, .authenticate =>
      match lookupCredential lib (s.credentials.read id) call.request with
      | .error response => some (s.move id call (.done response))
      | .ok (key, row) => some (s.move id call (.asserting key row))
    | _, _ => none
  | .verify id activeUser => (s.calls id).bind fun call =>
    match call.phase with
    | .asserting key row =>
      match verifyAssertion lib activeUser call.request row with
      | .error response => some (s.move id call (.done response))
      | .ok (user, new) => some (s.move id call (.verified key row.signCount new user))
    | _ => none
  | .update id now => (s.calls id).bind fun call =>
    match call.phase with
    | .verified key seen new user =>
      (s.credentials.write id key (Option.map (·.signIn seen new now))).map
        fun credentials => World.move { s with credentials := credentials } id call
          (.updated key seen new user now)
    | _ => none
  | .commit id => (s.calls id).bind fun call =>
    match call.phase with
    | .consuming row now => some (World.move
        { s.commit id with log := s.log ++ [(call.request.challenge, id)] } id call
        (.consumed (row.consume now)))
    | .inserted key row => some ((s.commit id).move id call (.done (.registered key row)))
    | .updated _ _ _ user _ => some ((s.commit id).move id call (.done (.tokens user)))
    | _ => none
  | .abort id => (s.calls id).bind fun call =>
    some ((s.rollback id).move id call (.done .raised))

def initial (challenges : Text → Option PasskeyChallenge)
    (credentials : Text → Option (PasskeyCredential F)) : World F :=
  ⟨⟨challenges, fun _ => none⟩, ⟨credentials, fun _ => none⟩, fun _ => none, []⟩

def system (lib : Library F) : System (World F) (Act F) where
  start s := ∃ challenges credentials, s = initial challenges credentials
  next := World.next lib

/-! ## What the calls hold and know -/

def live (row : Option PasskeyChallenge) : Bool := row.any fun r => r.consumedAt.isNone

def Call.consumption (call : Call F) :
    Option (Text × (Option PasskeyChallenge → Option PasskeyChallenge)) :=
  match call.phase with
  | .consuming _ now => some (call.request.challenge, Option.map (·.consume now))
  | _ => none

def Call.credentialWrite (call : Call F) :
    Option (Text × (Option (PasskeyCredential F) → Option (PasskeyCredential F))) :=
  match call.phase with
  | .inserted key row => some (key, fun _ => some row)
  | .updated key seen new _ now => some (key, Option.map (·.signIn seen new now))
  | _ => none

def Phase.past : Phase F → Bool
  | .found _ | .consuming .. => true
  | _ => false

/-- A counter that has been checked. -/
def Phase.Above : Phase F → Prop
  | .verified _ seen new _ | .updated _ seen new _ _ => seen < new ∨ seen = 0 ∧ new = 0
  | _ => True

variable {lib : Library F} {start : Text → Option PasskeyChallenge} {s t u : World F} {id : ℕ}
  {call : Call F} {phase : Phase F}

structure Invariant (start : Text → Option PasskeyChallenge) (s : World F) : Prop where
  challenges : s.challenges.Pending (updatesOf Call.consumption s.calls)
  credentials : s.credentials.Pending (updatesOf Call.credentialWrite s.calls)
  unconsumed : ∀ c, live (s.challenges.committed c) = true ↔
    live (start c) = true ∧ c ∉ s.log.map Prod.fst
  read : ∀ id call, s.calls id = some call → call.phase.past = true →
    live (start call.request.challenge) = true
  fresh : ∀ id call key row, s.calls id = some call → call.phase = .inserted key row →
    s.credentials.committed key = none
  above : ∀ id call, s.calls id = some call → call.phase.Above

theorem invariant_initial (credentials : Text → Option (PasskeyCredential F)) :
    Invariant start (initial start credentials) where
  challenges := ReadCommitted.pending_idle
  credentials := ReadCommitted.pending_idle
  unconsumed c := (and_iff_left List.not_mem_nil).symm
  read id call h := by cases h
  fresh id call key row h := by cases h
  above id call h := by cases h

/-- A step of one call, that tells the others nothing but the rows it commits. -/
theorem Invariant.of_step (hi : Invariant start s)
    (hcalls : u.calls = Function.update s.calls id (some { call with phase := phase }))
    (hchallenges : u.challenges.Pending (Function.update (updatesOf Call.consumption s.calls) id
      (Call.consumption { call with phase := phase })))
    (hcredentials : u.credentials.Pending (Function.update (updatesOf Call.credentialWrite s.calls)
      id (Call.credentialWrite { call with phase := phase })))
    (hlive : ∀ c, live (u.challenges.committed c) = true ↔
      live (start c) = true ∧ c ∉ u.log.map Prod.fst)
    (hread : phase.past = true → live (start call.request.challenge) = true)
    (hfresh : ∀ key row, phase = .inserted key row → u.credentials.committed key = none)
    (hothers : ∀ j call key row, j ≠ id → s.calls j = some call → call.phase = .inserted key row →
      u.credentials.committed key = none)
    (habove : phase.Above) : Invariant start u where
  challenges := by rw [hcalls, updatesOf_update]; exact hchallenges
  credentials := by rw [hcalls, updatesOf_update]; exact hcredentials
  unconsumed := hlive
  read := by
    rw [hcalls]
    exact forall_update hread fun j _ => hi.read j
  fresh j call' key row hcall' := by
    rw [hcalls] at hcall'
    exact forall_update (hfresh key row) (fun j hj c => hothers j c key row hj) j call' hcall'
  above := by
    rw [hcalls]
    exact forall_update habove fun j _ => hi.above j

theorem update_eq_self {β : Type*} {f : ℕ → Option β} (h : f id = none) :
    Function.update f id none = f := by
  rw [← h, Function.update_eq_self]

theorem updatesOf_of_call {κ ν : Type*} {g : Call F → Option (κ × (ν → ν))}
    (hcall : s.calls id = some call) : updatesOf g s.calls id = g call := by
  rw [updatesOf, hcall, Option.bind_some]

/-- The call writes nothing in the phase. -/
def Phase.Idle (phase : Phase F) : Prop :=
  ∀ call : Call F, Call.consumption { call with phase := phase } = none ∧
    Call.credentialWrite { call with phase := phase } = none

/-- A step that writes and commits nothing. -/
theorem Invariant.move (hi : Invariant start s)
    (hbefore : updatesOf Call.consumption s.calls id = none ∧
      updatesOf Call.credentialWrite s.calls id = none)
    (hafter : phase.Idle)
    (hread : phase.past = true → live (start call.request.challenge) = true)
    (habove : phase.Above) : Invariant start (s.move id call phase) := by
  have hinserted : ∀ key row, phase ≠ .inserted key row := by
    rintro key row rfl
    cases (hafter call).2
  refine hi.of_step rfl ?_ ?_ hi.unconsumed hread ?_ ?_ habove
  · rw [(hafter call).1, update_eq_self hbefore.1]
    exact hi.challenges
  · rw [(hafter call).2, update_eq_self hbefore.2]
    exact hi.credentials
  · exact fun key row h => absurd h (hinserted key row)
  · exact fun j call' key row _ hcall' hphase => hi.fresh j call' key row hcall' hphase

theorem Invariant.mark (hi : Invariant start s) (hcall : s.calls id = some call)
    {row : PasskeyChallenge} {now : ℤ} (hphase : call.phase = .found row)
    {challenges : Store ℕ Text (Option PasskeyChallenge)}
    (hwrite : s.challenges.write id call.request.challenge (Option.map (·.consume now)) =
      some challenges) :
    Invariant start (World.move { s with challenges := challenges } id call
      (.consuming row now)) := by
  have hbefore : updatesOf Call.consumption s.calls id = none := by
    rw [updatesOf_of_call hcall, Call.consumption, hphase]
  have hbefore' : updatesOf Call.credentialWrite s.calls id = none := by
    rw [updatesOf_of_call hcall, Call.credentialWrite, hphase]
  have hpending := hi.challenges.write hbefore hwrite
  obtain ⟨-, rfl⟩ := ReadCommitted.write_eq_some_iff.mp hwrite
  refine hi.of_step rfl hpending ?_ hi.unconsumed ?_ ?_ ?_ trivial
  · exact (update_eq_self hbefore').symm ▸ hi.credentials
  · exact fun _ => hi.read id call hcall (by rw [hphase]; rfl)
  · intro key row h
    cases h
  · exact fun j call' key row _ hcall' hphase => hi.fresh j call' key row hcall' hphase

theorem Invariant.write (hi : Invariant start s)
    (hbefore : updatesOf Call.consumption s.calls id = none ∧
      updatesOf Call.credentialWrite s.calls id = none) {key : Text}
    {f : Option (PasskeyCredential F) → Option (PasskeyCredential F)}
    (hconsumption : Call.consumption { call with phase := phase } = none)
    (hafter : Call.credentialWrite { call with phase := phase } = some (key, f))
    (hpast : phase.past = false)
    (hfresh : ∀ key row, phase = .inserted key row → s.credentials.committed key = none)
    (habove : phase.Above) {credentials : Store ℕ Text (Option (PasskeyCredential F))}
    (hwrite : s.credentials.write id key f = some credentials) :
    Invariant start (World.move { s with credentials := credentials } id call phase) := by
  have hpending := hi.credentials.write hbefore.2 hwrite
  obtain ⟨-, rfl⟩ := ReadCommitted.write_eq_some_iff.mp hwrite
  refine hi.of_step rfl ?_ (hafter ▸ hpending) hi.unconsumed ?_ hfresh ?_ habove
  · rw [hconsumption, update_eq_self hbefore.1]
    exact hi.challenges
  · exact fun h => absurd (hpast.symm.trans h) Bool.false_ne_true
  · exact fun j call' key row _ hcall' hphase => hi.fresh j call' key row hcall' hphase

/-- A commit leaves the place of another call's insertion free. -/
theorem Invariant.fresh_commit (hi : Invariant start s) {j : ℕ} {key : Text}
    {row : PasskeyCredential F} (hj : j ≠ id) (hcall : s.calls j = some call)
    (hphase : call.phase = .inserted key row) :
    (s.credentials.commit id).committed key = none := by
  have hpending : updatesOf Call.credentialWrite s.calls j = some (key, fun _ => some row) := by
    rw [updatesOf_of_call hcall, Call.credentialWrite, hphase]
  rw [hi.credentials.committed_commit_of_ne, hi.fresh j call key row hcall hphase]
  intro f hf
  exact hj (hi.credentials.writer_eq hpending hf)

/-- The commit of a call, whatever becomes of the log. -/
theorem Invariant.commit (hi : Invariant start s) {log : List (Text × ℕ)}
    (hlive : ∀ c, live ((s.challenges.commit id).committed c) = true ↔
      live (start c) = true ∧ c ∉ log.map Prod.fst)
    (hafter : phase.Idle) (hpast : phase.past = false) (habove : phase.Above) :
    Invariant start (World.move { s.commit id with log := log } id call phase) := by
  apply hi.of_step rfl ?_ ?_ hlive ?_ ?_ ?_ habove
  · rw [(hafter call).1]
    exact hi.challenges.commit id
  · rw [(hafter call).2]
    exact hi.credentials.commit id
  · exact fun h => absurd (hpast.symm.trans h) Bool.false_ne_true
  · rintro key row rfl
    cases (hafter call).2
  · exact fun j call' key row hj hcall' hphase => hi.fresh_commit hj hcall' hphase

theorem Invariant.rollback (hi : Invariant start s) :
    Invariant start ((s.rollback id).move id call (.done .raised)) :=
  hi.of_step rfl (hi.challenges.rollback id) (hi.credentials.rollback id) hi.unconsumed
    (fun h => by cases h) (fun key row h => by cases h)
    (fun j call' key row _ hcall' hphase => hi.fresh j call' key row hcall' hphase) trivial

theorem Invariant.consume (hi : Invariant start s) (hcall : s.calls id = some call)
    {row : PasskeyChallenge} {now : ℤ} (hphase : call.phase = .consuming row now) :
    Invariant start (World.move
      { s.commit id with log := s.log ++ [(call.request.challenge, id)] } id call
      (.consumed (row.consume now))) := by
  have hpending : updatesOf Call.consumption s.calls id =
      some (call.request.challenge, Option.map (·.consume now)) := by
    rw [updatesOf_of_call hcall, Call.consumption, hphase]
  refine hi.commit ?_ (fun _ => ⟨rfl, rfl⟩) rfl trivial
  intro c
  simp only [List.map_append, List.map_cons, List.map_nil, List.mem_append, List.mem_singleton,
    not_or]
  by_cases hc : c = call.request.challenge
  · rw [hc, hi.challenges.committed_commit hpending]
    have hdead : live ((s.challenges.committed call.request.challenge).map (·.consume now)) =
        false := by
      cases s.challenges.committed call.request.challenge <;> rfl
    rw [hdead]
    exact iff_of_false Bool.false_ne_true fun h => h.2.2 rfl
  · rw [hi.challenges.committed_commit_of_ne, hi.unconsumed c]
    · exact and_congr_right fun _ => (and_iff_left hc).symm
    · intro f hf
      exact hc (Prod.mk.inj (Option.some.inj (hpending.symm.trans hf))).1.symm

theorem Invariant.commit_credential (hi : Invariant start s)
    (hbefore : updatesOf Call.consumption s.calls id = none) {response : Response F} :
    Invariant start ((s.commit id).move id call (.done response)) := by
  refine hi.commit ?_ (fun _ => ⟨rfl, rfl⟩) rfl trivial
  intro c
  rw [← hi.unconsumed c, hi.challenges.committed_commit_of_ne]
  intro f hf
  rw [hbefore] at hf
  cases hf

theorem live_of_select {row : Option PasskeyChallenge} {purpose : Text} {now : ℤ}
    {found : PasskeyChallenge} (h : selectChallenge row purpose now = some found) :
    live row = true := by
  obtain ⟨rfl, hrow⟩ := Option.filter_eq_some_iff.mp h
  obtain ⟨-, hconsumed, -⟩ := of_decide_eq_true hrow
  rw [live, Option.any_some, hconsumed, Option.isNone_none]

theorem above_of_verify (hlib : lib.RejectsStaleCounts) {activeUser : String → Option User}
    {request : FinishRequest F} {row : PasskeyCredential F} {user : User} {new : ℤ}
    (h : verifyAssertion lib activeUser request row = .ok (user, new)) :
    row.signCount < new ∨ row.signCount = 0 ∧ new = 0 := by
  rw [verifyAssertion] at h
  split at h
  · cases h
  · split at h
    · cases h
    · rename_i new' hverify
      obtain ⟨-, rfl⟩ := Prod.mk.inj (Except.ok.inj h)
      exact hlib _ _ _ _ _ hverify

/-- A call that is about to write nothing. -/
theorem quiet_of_phase (hcall : s.calls id = some call) (h : call.phase.Idle) :
    updatesOf Call.consumption s.calls id = none ∧
      updatesOf Call.credentialWrite s.calls id = none := by
  rw [updatesOf_of_call hcall, updatesOf_of_call hcall]
  exact h call

theorem Invariant.next (hlib : lib.RejectsStaleCounts) (hi : Invariant start s) {e : Act F}
    (h : s.next lib e = some t) : Invariant start t := by
  rw [World.next.eq_def] at h
  cases e with
  | call id kind request =>
    dsimp only at h
    split_ifs at h with hcall
    obtain rfl := Option.some.inj h
    rw [Option.not_isSome_iff_eq_none] at hcall
    have hbefore : ∀ {κ ν : Type} (g : Call F → Option (κ × (ν → ν))),
        updatesOf g s.calls id = none := by
      intro κ ν g
      rw [updatesOf, hcall, Option.bind_none]
    exact hi.move ⟨hbefore _, hbefore _⟩ (fun _ => ⟨rfl, rfl⟩) (fun h => by cases h) trivial
  | select id now =>
    obtain ⟨call, hcall, h⟩ := Option.bind_eq_some_iff.mp h
    split at h
    · rename_i hphase
      have hbefore := quiet_of_phase hcall (hphase ▸ fun _ => ⟨rfl, rfl⟩)
      split at h
      · obtain rfl := Option.some.inj h
        exact hi.move hbefore (fun _ => ⟨rfl, rfl⟩) (fun h => by cases h) trivial
      · rename_i row hrow
        obtain rfl := Option.some.inj h
        rw [hi.challenges.read hbefore.1] at hrow
        have hlive := ((hi.unconsumed _).mp (live_of_select hrow)).1
        exact hi.move hbefore (fun _ => ⟨rfl, rfl⟩) (fun _ => hlive) trivial
    · cases h
  | mark id now =>
    obtain ⟨call, hcall, h⟩ := Option.bind_eq_some_iff.mp h
    split at h
    · rename_i row hphase
      obtain ⟨challenges, hwrite, rfl⟩ := Option.map_eq_some_iff.mp h
      exact hi.mark hcall hphase hwrite
    · cases h
  | register id =>
    obtain ⟨call, hcall, h⟩ := Option.bind_eq_some_iff.mp h
    split at h
    · rename_i row userID tenantID hphase hkind
      have hbefore := quiet_of_phase hcall (hphase ▸ fun _ => ⟨rfl, rfl⟩)
      split at h <;> obtain rfl := Option.some.inj h
      · exact hi.move hbefore (fun _ => ⟨rfl, rfl⟩) (fun h => by cases h) trivial
      · exact hi.move hbefore (fun _ => ⟨rfl, rfl⟩) (fun h => by cases h) trivial
    · cases h
  | insert id =>
    obtain ⟨call, hcall, h⟩ := Option.bind_eq_some_iff.mp h
    split at h
    · rename_i key row hphase
      have hbefore := quiet_of_phase hcall (hphase ▸ fun _ => ⟨rfl, rfl⟩)
      split_ifs at h with hrow
      · obtain rfl := Option.some.inj h
        exact hi.move hbefore (fun _ => ⟨rfl, rfl⟩) (fun h => by cases h) trivial
      · obtain ⟨credentials, hwrite, rfl⟩ := Option.map_eq_some_iff.mp h
        rw [Option.not_isSome_iff_eq_none, hi.credentials.read hbefore.2] at hrow
        apply hi.write hbefore rfl rfl rfl ?_ ?_ hwrite
        · intro key' row' heq
          obtain ⟨rfl, -⟩ := Phase.inserted.inj heq
          exact hrow
        · trivial
    · cases h
  | lookup id =>
    obtain ⟨call, hcall, h⟩ := Option.bind_eq_some_iff.mp h
    split at h
    · rename_i row hphase hkind
      have hbefore := quiet_of_phase hcall (hphase ▸ fun _ => ⟨rfl, rfl⟩)
      split at h <;> obtain rfl := Option.some.inj h
      · exact hi.move hbefore (fun _ => ⟨rfl, rfl⟩) (fun h => by cases h) trivial
      · exact hi.move hbefore (fun _ => ⟨rfl, rfl⟩) (fun h => by cases h) trivial
    · cases h
  | verify id activeUser =>
    obtain ⟨call, hcall, h⟩ := Option.bind_eq_some_iff.mp h
    split at h
    · rename_i key row hphase
      have hbefore := quiet_of_phase hcall (hphase ▸ fun _ => ⟨rfl, rfl⟩)
      split at h
      · obtain rfl := Option.some.inj h
        exact hi.move hbefore (fun _ => ⟨rfl, rfl⟩) (fun h => by cases h) trivial
      · rename_i user new hverify
        obtain rfl := Option.some.inj h
        exact hi.move hbefore (fun _ => ⟨rfl, rfl⟩) (fun h => by cases h)
          (above_of_verify hlib hverify)
    · cases h
  | update id now =>
    obtain ⟨call, hcall, h⟩ := Option.bind_eq_some_iff.mp h
    split at h
    · rename_i key seen new user hphase
      have hbefore := quiet_of_phase hcall (hphase ▸ fun _ => ⟨rfl, rfl⟩)
      have habove : seen < new ∨ seen = 0 ∧ new = 0 := by
        have := hi.above id call hcall
        rw [hphase] at this
        exact this
      obtain ⟨credentials, hwrite, rfl⟩ := Option.map_eq_some_iff.mp h
      apply hi.write hbefore rfl rfl rfl ?_ ?_ hwrite
      · intro key' row' heq
        cases heq
      · exact habove
    · cases h
  | commit id =>
    obtain ⟨call, hcall, h⟩ := Option.bind_eq_some_iff.mp h
    split at h
    · rename_i row now hphase
      obtain rfl := Option.some.inj h
      exact hi.consume hcall hphase
    · rename_i key row hphase
      obtain rfl := Option.some.inj h
      exact hi.commit_credential (by rw [updatesOf_of_call hcall, Call.consumption, hphase])
    · rename_i key seen new user now hphase
      obtain rfl := Option.some.inj h
      exact hi.commit_credential (by rw [updatesOf_of_call hcall, Call.consumption, hphase])
    · cases h
  | abort id =>
    obtain ⟨call, hcall, h⟩ := Option.bind_eq_some_iff.mp h
    obtain rfl := Option.some.inj h
    exact hi.rollback

/-! ## Challenges are used once and counters do not go back -/

/-- No two calls pass with one challenge. -/
def SingleUse (log : List (Text × ℕ)) : Prop := (log.map Prod.fst).Nodup

/-- Every stored credential is still there, with a counter that is not below. -/
def CountsKept (s t : World F) : Prop :=
  ∀ key row, s.credentials.committed key = some row →
    ∃ row', t.credentials.committed key = some row' ∧ row.signCount ≤ row'.signCount

def CountsNeverDecrease (lib : Library F) (s : World F) (es : List (Act F)) : Prop :=
  ∀ before e after, es = before ++ e :: after → ∀ u, runTrace (system lib) s before = some u →
    ∀ v, u.next lib e = some v → CountsKept u v

/-- Where the call is about to pass, its challenge is still unconsumed. -/
def Call.unconsumed (challenges : Text → Option PasskeyChallenge) (call : Call F) : Bool :=
  match call.phase with
  | .consuming .. => live (challenges call.request.challenge)
  | _ => true

/-- Where the stored counter has risen since the call read it, it is not above the counter of the
call's own assertion. -/
def Call.notOvertaken (credentials : Text → Option (PasskeyCredential F)) (call : Call F) : Bool :=
  match call.phase with
  | .updated key seen new _ _ => (credentials key).all fun row =>
    decide (seen < row.signCount → new = seen ∨ row.signCount ≤ new)
  | _ => true

def ChallengeGuard (s : World F) : Act F → Prop
  | .commit id => ∀ call ∈ s.calls id, call.unconsumed s.challenges.committed = true
  | _ => True

def CountGuard (s : World F) : Act F → Prop
  | .commit id => ∀ call ∈ s.calls id, call.notOvertaken s.credentials.committed = true
  | _ => True

def Guard (s : World F) (e : Act F) : Prop := ChallengeGuard s e ∧ CountGuard s e

instance (s : World F) : (e : Act F) → Decidable (Guard s e)
  | .commit id => inferInstanceAs (Decidable ((∀ call ∈ s.calls id, _ = true) ∧
    ∀ call ∈ s.calls id, _ = true))
  | .call .. | .select .. | .mark .. | .register .. | .insert .. | .lookup .. | .verify ..
  | .update .. | .abort .. => isTrue ⟨trivial, trivial⟩

/-- Only a commit changes what is stored, or adds to the log. -/
theorem next_stored {e : Act F} (h : s.next lib e = some t) (hcommit : ∀ id, e ≠ .commit id) :
    t.log = s.log ∧ t.credentials.committed = s.credentials.committed := by
  rw [World.next.eq_def] at h
  cases e with
  | commit id => exact absurd rfl (hcommit id)
  | call id kind request =>
    dsimp only at h
    split_ifs at h
    obtain rfl := Option.some.inj h
    exact ⟨rfl, rfl⟩
  | select id now =>
    obtain ⟨call, -, h⟩ := Option.bind_eq_some_iff.mp h
    split at h
    · split at h <;> obtain rfl := Option.some.inj h
      · exact ⟨rfl, rfl⟩
      · exact ⟨rfl, rfl⟩
    · cases h
  | mark id now =>
    obtain ⟨call, -, h⟩ := Option.bind_eq_some_iff.mp h
    split at h
    · obtain ⟨challenges, -, rfl⟩ := Option.map_eq_some_iff.mp h
      exact ⟨rfl, rfl⟩
    · cases h
  | register id =>
    obtain ⟨call, -, h⟩ := Option.bind_eq_some_iff.mp h
    split at h
    · split at h <;> obtain rfl := Option.some.inj h
      · exact ⟨rfl, rfl⟩
      · exact ⟨rfl, rfl⟩
    · cases h
  | insert id =>
    obtain ⟨call, -, h⟩ := Option.bind_eq_some_iff.mp h
    split at h
    · split_ifs at h
      · obtain rfl := Option.some.inj h
        exact ⟨rfl, rfl⟩
      · obtain ⟨credentials, hwrite, rfl⟩ := Option.map_eq_some_iff.mp h
        obtain ⟨-, rfl⟩ := ReadCommitted.write_eq_some_iff.mp hwrite
        exact ⟨rfl, rfl⟩
    · cases h
  | lookup id =>
    obtain ⟨call, -, h⟩ := Option.bind_eq_some_iff.mp h
    split at h
    · split at h <;> obtain rfl := Option.some.inj h
      · exact ⟨rfl, rfl⟩
      · exact ⟨rfl, rfl⟩
    · cases h
  | verify id activeUser =>
    obtain ⟨call, -, h⟩ := Option.bind_eq_some_iff.mp h
    split at h
    · split at h <;> obtain rfl := Option.some.inj h
      · exact ⟨rfl, rfl⟩
      · exact ⟨rfl, rfl⟩
    · cases h
  | update id now =>
    obtain ⟨call, -, h⟩ := Option.bind_eq_some_iff.mp h
    split at h
    · obtain ⟨credentials, hwrite, rfl⟩ := Option.map_eq_some_iff.mp h
      obtain ⟨-, rfl⟩ := ReadCommitted.write_eq_some_iff.mp hwrite
      exact ⟨rfl, rfl⟩
    · cases h
  | abort id =>
    obtain ⟨call, -, h⟩ := Option.bind_eq_some_iff.mp h
    obtain rfl := Option.some.inj h
    exact ⟨rfl, rfl⟩

/-- The log stays free of a second use exactly when the step meets the guard. -/
theorem next_log (hi : Invariant start s) {e : Act F} (h : s.next lib e = some t) :
    SingleUse t.log ↔ SingleUse s.log ∧ ChallengeGuard s e := by
  by_cases hcommit : ∃ id, e = .commit id
  · obtain ⟨id, rfl⟩ := hcommit
    obtain ⟨call, hcall, h⟩ := Option.bind_eq_some_iff.mp h
    have hguard : ChallengeGuard s (.commit id) ↔
        call.unconsumed s.challenges.committed = true := by
      rw [ChallengeGuard, hcall]
      simp only [Option.mem_def, Option.some.injEq, forall_eq']
    rw [hguard, Call.unconsumed]
    split at h
    · rename_i row now hphase
      obtain rfl := Option.some.inj h
      have hread := hi.read id call hcall (by rw [hphase]; rfl)
      simp only [hphase, hi.unconsumed, hread, World.move, SingleUse, List.map_append,
        List.map_cons, List.map_nil, List.nodup_append, List.nodup_cons, List.nodup_nil,
        List.not_mem_nil, not_false_eq_true, List.forall_mem_singleton, List.forall_mem_ne',
        ne_eq, true_and]
    · rename_i key row hphase
      obtain rfl := Option.some.inj h
      rw [hphase]
      exact (and_iff_left rfl).symm
    · rename_i key seen new user now hphase
      obtain rfl := Option.some.inj h
      rw [hphase]
      exact (and_iff_left rfl).symm
    · cases h
  · have hother : ∀ id, e ≠ .commit id := fun id heq => hcommit ⟨id, heq⟩
    rw [(next_stored h hother).1]
    refine (and_iff_left ?_).symm
    cases e with
    | commit id => exact absurd rfl (hother id)
    | _ => trivial

theorem CountsKept.of_eq (h : t.credentials.committed = s.credentials.committed) :
    CountsKept s t := by
  intro key row hrow
  exact ⟨row, h ▸ hrow, Int.le_refl _⟩

theorem signIn_keeps {row : PasskeyCredential F} {seen new now : ℤ}
    (habove : seen < new ∨ seen = 0 ∧ new = 0) :
    row.signCount ≤ (row.signIn seen new now).signCount ↔
      (seen < row.signCount → new = seen ∨ row.signCount ≤ new) := by
  dsimp only [PasskeyCredential.signIn]
  split_ifs with h
  · exact iff_of_true (Int.le_refl _) fun _ => Or.inl h
  · omega

theorem Invariant.countsKept_commit (hi : Invariant start s) {key : Text}
    {f : Option (PasskeyCredential F) → Option (PasskeyCredential F)}
    (hpending : updatesOf Call.credentialWrite s.calls id = some (key, f))
    (ht : t.credentials = s.credentials.commit id) :
    CountsKept s t ↔ ∀ row, s.credentials.committed key = some row →
      ∃ row', f (some row) = some row' ∧ row.signCount ≤ row'.signCount := by
  rw [CountsKept, ht]
  constructor
  · intro h row hrow
    have hkey := h key row hrow
    rw [hi.credentials.committed_commit hpending, hrow] at hkey
    exact hkey
  · intro h key' row hrow
    by_cases hkey : key' = key
    · rw [hkey] at hrow
      rw [hkey, hi.credentials.committed_commit hpending, hrow]
      exact h row hrow
    · rw [hi.credentials.committed_commit_of_ne]
      · exact ⟨row, hrow, Int.le_refl _⟩
      · intro g hg
        exact hkey (Prod.mk.inj (Option.some.inj (hpending.symm.trans hg))).1.symm

/-- A commit keeps the counters exactly when it meets the guard. -/
theorem next_counts (hi : Invariant start s) (e : Act F) :
    CountGuard s e ↔ ∀ t, s.next lib e = some t → CountsKept s t := by
  by_cases hcommit : ∃ id, e = .commit id
  · obtain ⟨id, rfl⟩ := hcommit
    rcases hcall : s.calls id with _ | call
    · refine iff_of_true ?_ ?_
      · intro call hsome
        rw [hcall] at hsome
        cases hsome
      · intro t h
        rw [World.next, hcall] at h
        cases h
    · have hguard : CountGuard s (.commit id) ↔
          call.notOvertaken s.credentials.committed = true := by
        rw [CountGuard, hcall]
        simp only [Option.mem_def, Option.some.injEq, forall_eq']
      rw [hguard, Call.notOvertaken]
      by_cases hupdated : ∃ key seen new user now, call.phase = .updated key seen new user now
      · obtain ⟨key, seen, new, user, now, hphase⟩ := hupdated
        have hnext : s.next lib (.commit id) =
            some ((s.commit id).move id call (.done (.tokens user))) := by
          rw [World.next, hcall, Option.bind_some, hphase]
        have hpending : updatesOf Call.credentialWrite s.calls id =
            some (key, Option.map (·.signIn seen new now)) := by
          rw [updatesOf_of_call hcall, Call.credentialWrite, hphase]
        have habove : seen < new ∨ seen = 0 ∧ new = 0 := by
          have := hi.above id call hcall
          rw [hphase] at this
          exact this
        have hkept := hi.countsKept_commit
          (t := (s.commit id).move id call (.done (.tokens user))) hpending rfl
        simp only [hphase, hnext, Option.some.injEq, forall_eq', hkept, Option.map_some,
          exists_eq_left', signIn_keeps habove, Option.all_eq_true, decide_eq_true_eq]
      · refine iff_of_true ?_ ?_
        · split
          · rename_i key seen new user now hphase
            exact absurd ⟨key, seen, new, user, now, hphase⟩ hupdated
          · rfl
        · intro t h
          obtain ⟨call', hcall', h⟩ := Option.bind_eq_some_iff.mp h
          obtain rfl := Option.some.inj (hcall.symm.trans hcall')
          split at h
          · rename_i row now hphase
            obtain rfl := Option.some.inj h
            apply CountsKept.of_eq
            funext key
            apply hi.credentials.committed_commit_of_ne
            rw [updatesOf_of_call hcall, Call.credentialWrite, hphase]
            exact nofun
          · rename_i key row hphase
            obtain rfl := Option.some.inj h
            have hpending : updatesOf Call.credentialWrite s.calls id =
                some (key, fun _ => some row) := by
              rw [updatesOf_of_call hcall, Call.credentialWrite, hphase]
            rw [hi.countsKept_commit hpending rfl]
            intro old hold
            rw [hi.fresh id call key row hcall hphase] at hold
            cases hold
          · rename_i key seen new user now hphase
            exact absurd ⟨key, seen, new, user, now, hphase⟩ hupdated
          · cases h
  · have hother : ∀ id, e ≠ .commit id := fun id heq => hcommit ⟨id, heq⟩
    refine iff_of_true ?_ fun t h => .of_eq (next_stored h hother).2
    cases e with
    | commit id => exact absurd rfl (hother id)
    | _ => trivial

/-- Challenges are used once and counters do not go back exactly in the runs whose commits all
meet the guard. -/
theorem replay_safe_iff {lib : Library F} (hlib : lib.RejectsStaleCounts) {es : List (Act F)}
    {s t : World F} (hs : (system lib).start s) (hr : runTrace (system lib) s es = some t) :
    GuardedTrace (system lib) Guard s es ↔ SingleUse t.log ∧ CountsNeverDecrease lib s es := by
  obtain ⟨start, credentials, rfl⟩ := hs
  have hinitial : Invariant start (initial start credentials) := invariant_initial credentials
  have hkeep : ∀ s e t, Invariant start s → (system lib).next s e = some t → Invariant start t :=
    fun s e t hi h => hi.next hlib h
  have hlog := guardedTrace_iff (M := system lib) (G := ChallengeGuard) (I := Invariant start)
    (P := fun s => SingleUse s.log) hkeep (fun s e t hi h => next_log hi h) hinitial hr
  have hcounts : GuardedTrace (system lib) CountGuard (initial start credentials) es ↔
      CountsNeverDecrease lib (initial start credentials) es := by
    have hstep : ∀ s e, Invariant start s →
        (CountGuard s e ↔ ∀ t, s.next lib e = some t → CountsKept s t) :=
      fun s e hi => next_counts hi e
    rw [guardedTrace_congr (fun s e t hi _ h => hkeep s e t hi h) hstep hinitial]
    exact guardedTrace_iff_forall
  have hstart : SingleUse (initial start credentials).log := List.nodup_nil
  exact guardedTrace_and.trans (and_congr (hlog.trans (and_iff_right hstart)).symm hcounts)

/-- A library that takes the counter from the assertion and compares it. -/
def sampleLibrary : Library Unit where
  verifyRegistration _ _ := .error (text "no attestation")
  verifyAuthentication credential _ _ current :=
    match credential.lookup (text "counter") with
    | some (.int n) => if current < n then .ok n else .error (text "stale counter")
    | _ => .error (text "no counter")
  nonzero _ := true

theorem sampleLibrary_rejects : sampleLibrary.RejectsStaleCounts := by
  intro credential challenge publicKey current new h
  dsimp only [sampleLibrary] at h
  split at h
  · split_ifs at h with hlt
    exact Or.inl (Except.ok.inj h ▸ hlt)
  · cases h

def sampleChallenges (challenge : Text) : Option PasskeyChallenge :=
  if challenge = text "challenge" then some ⟨text "authenticate", none, 300, none⟩ else none

def sampleCredential : PasskeyCredential Unit :=
  ⟨"acme", "ada", text "public key", 5, .arr [], text "My phone", none, true, none, none⟩

def sampleCredentials (key : Text) : Option (PasskeyCredential Unit) :=
  if key = text "key" then some sampleCredential else none

def sampleUser (_ : String) : Option User := some ⟨"ada", "acme", text "analyst", text "a@b.io"⟩

def assertion (counter : ℤ) : FinishRequest Unit where
  credential := [(text "id", .str (text "key")), (text "counter", .int counter)]
  challenge := text "challenge"
  challenge_length := by decide

def begun (id : ℕ) (counter : ℤ) : List (Act Unit) :=
  [.call id .authenticate (assertion counter), .select id 1]

def passed (id : ℕ) : List (Act Unit) := [.mark id 2, .commit id]

def checked (id : ℕ) : List (Act Unit) := [.lookup id, .verify id sampleUser]

/-- Both assertions are in flight with one challenge: both pass, and the stored counter goes from
9 to 7. -/
def replay : List (Act Unit) :=
  begun 0 9 ++ begun 1 7 ++ passed 0 ++ passed 1 ++ checked 0 ++ checked 1 ++
    [.update 0 3, .commit 0] ++ [.update 1 4]

theorem replay_passes : ∃ t, runTrace (system sampleLibrary)
    (initial sampleChallenges sampleCredentials) (replay ++ [.commit 1]) = some t ∧
      ¬SingleUse t.log ∧
      ¬CountsNeverDecrease sampleLibrary (initial sampleChallenges sampleCredentials)
        (replay ++ [.commit 1]) := by
  have hlog : (runTrace (system sampleLibrary) (initial sampleChallenges sampleCredentials)
      (replay ++ [.commit 1])).map World.log =
        some [(text "challenge", 0), (text "challenge", 1)] := by decide +kernel
  have hcounts : ((runTrace (system sampleLibrary) (initial sampleChallenges sampleCredentials)
      replay).bind fun u => (u.next sampleLibrary (.commit 1)).map fun v =>
        ((u.credentials.committed (text "key")).map PasskeyCredential.signCount,
          (v.credentials.committed (text "key")).map PasskeyCredential.signCount)) =
            some (some 9, some 7) := by decide +kernel
  obtain ⟨t, ht, hlog⟩ := Option.map_eq_some_iff.mp hlog
  refine ⟨t, ht, ?_, ?_⟩
  · rw [SingleUse, hlog]
    decide +kernel
  · intro h
    obtain ⟨u, hu, hv⟩ := Option.bind_eq_some_iff.mp hcounts
    obtain ⟨v, hv, hcounts⟩ := Option.map_eq_some_iff.mp hv
    obtain ⟨hbefore, hafter⟩ := Prod.mk.inj hcounts
    obtain ⟨row, hrow, hnine⟩ := Option.map_eq_some_iff.mp hbefore
    obtain ⟨row', hrow', hle⟩ := h replay (.commit 1) [] rfl u hu v hv _ row hrow
    rw [hrow', Option.map_some, Option.some.injEq] at hafter
    omega

/-- One assertion after the other: the second finds its challenge consumed. -/
theorem one_after_the_other : ∃ t, runTrace (system sampleLibrary)
    (initial sampleChallenges sampleCredentials)
    (begun 0 9 ++ passed 0 ++ checked 0 ++ [.update 0 3, .commit 0] ++ begun 1 7) = some t ∧
      SingleUse t.log ∧
      CountsNeverDecrease sampleLibrary (initial sampleChallenges sampleCredentials)
        (begun 0 9 ++ passed 0 ++ checked 0 ++ [.update 0 3, .commit 0] ++ begun 1 7) := by
  have hrun : (runTrace (system sampleLibrary) (initial sampleChallenges sampleCredentials)
      (begun 0 9 ++ passed 0 ++ checked 0 ++ [.update 0 3, .commit 0] ++ begun 1 7)).isSome =
        true := by decide +kernel
  obtain ⟨t, ht⟩ := Option.isSome_iff_exists.mp hrun
  exact ⟨t, ht, (replay_safe_iff sampleLibrary_rejects ⟨_, _, rfl⟩ ht).mp (by decide +kernel)⟩

end Passkeys
