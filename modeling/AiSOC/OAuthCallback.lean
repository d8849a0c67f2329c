import Mathlib.Data.Int.Notation
import Mathlib.Data.Nat.Notation
import Mathlib.Tactic.SplitIfs
import AiSOC.JsonText
import AiSOC.OrderedDict
import AiSOC.ReadCommitted
import AiSOC.TransitionSystem

/-! # The callback of the hosted OAuth flow

A call reads the row of its state, goes to the provider over the network, writes a connector and
deletes the row, or only deletes the row on the way out. Each statement, the exchange and the
commit are steps of their own, so calls with one state come in any order. -/
namespace OAuthCallback

open CodeText (Text text digits)
open JsonText (Json)
open OrderedDict (setEntry)
open ReadCommitted (Store forall_update)
open TransitionSystem (System GuardedTrace runTrace guardedTrace_iff)

/-- `F` are the floating-point numbers of JSON values. -/
abbrev Config (F : Type) := List (Text × Json F)

/-- The columns of `oauth_states` that the callback reads. -/
structure OAuthState (F : Type) where
  tenantID : String
  connectorType : Text
  connectorID : Option String
  extras : Config F
  expiresAt : ℤ

/-- The columns of `connectors` that the callback reads or writes. -/
structure Connector (F : Type) where
  tenantID : String
  name : Text
  connectorType : Text
  category : Text
  authConfig : Text
  connectorConfig : Config F
  healthStatus : String
  oauthProvisioned : Bool
  isEnabled : Bool

structure Request where
  code : Option Text
  error : Option Text
  errorDescription : Option Text

/-- Status 400, or back to the console with a code and a message. -/
inductive Rejection where
  | badRequest (detail : Text)
  | redirect (code detail : Text)

/-- The vault, the text of the instant at which tokens expire, and what the floats are worth. -/
structure Library (F : Type) where
  decrypt : Text → Option Text
  encryptDict : Config F → Option Text
  expiresAt : ℤ → Json F → Option Text
  nonzero : F → Bool

inductive Exchange (F : Type) where
  | status (code : ℕ)
  | unreachable
  | malformed
  | token (payload : Config F)

/-- What the callback is told on its way: the vaulted client secret of the tenant's app, the
category in the catalog, and how the token exchange ends. -/
structure Answers (F : Type) where
  clientSecretVault : Option Text
  category : Option Text
  exchange : Exchange F

variable {F : Type}

def Library.truthy (lib : Library F) : Json F → Bool
  | .null => false
  | .bool b => b
  | .int n => n ≠ 0
  | .float x => lib.nonzero x
  | .str s => s ≠ []
  | .arr items => !items.isEmpty
  | .obj members => !members.isEmpty

/-- A query parameter that is not empty. -/
def given (o : Option Text) : Option Text := o.filter fun t => t ≠ []

/-- The checks before the exchange; the code is what comes out of them. -/
def precheck (row : OAuthState F) (request : Request) (now : ℤ) : Except Rejection Text :=
  if row.expiresAt < now then
    .error (.badRequest (text "OAuth state has expired; restart the connector flow"))
  else
    match given request.error with
    | some error =>
      .error (.redirect error
        ((given request.errorDescription).getD (text "Provider rejected the OAuth request.")))
    | none =>
      match given request.code with
      | none => .error (.badRequest (text "Missing authorization code on callback"))
      | some code => .ok code

def authPayload (lib : Library F) (now : ℤ) (accessToken : Json F) (payload : Config F) :
    Config F :=
  [(text "access_token", accessToken)] ++
    [text "refresh_token", text "id_token", text "token_type"].filterMap
      (fun key => (payload.lookup key).map fun value => (key, value)) ++
    (((payload.lookup (text "expires_in")).bind (lib.expiresAt now)).map fun t =>
      (text "expires_at", Json.str t)).toList

/-- The category and the encrypted tokens, or the way out. -/
def exchangeCode (lib : Library F) (row : OAuthState F) (answers : Answers F) (now : ℤ) :
    Except Rejection (Text × Text) :=
  match answers.clientSecretVault with
  | none => .error (.redirect (text "missing_app_credential")
      (text "OAuth app credential disappeared mid-flow."))
  | some vaulted =>
    match lib.decrypt vaulted with
    | none => .error (.redirect (text "vault_failure")
        (text "Could not decrypt OAuth client secret; operator must rotate it."))
    | some _ =>
      match answers.category with
      | none => .error (.redirect (text "connector_type_unknown")
          (text "Connector type " ++ row.connectorType ++ text " is no longer available."))
      | some category =>
        match answers.exchange with
        | .status code => .error (.redirect (text "token_exchange_failed")
            (text "Provider returned " ++ digits code ++ text "."))
        | .unreachable => .error (.redirect (text "token_exchange_unreachable")
            (text "Could not reach the OAuth provider's token endpoint."))
        | .malformed => .error (.redirect (text "token_response_malformed")
            (text "Provider returned a non-JSON token response."))
        | .token payload =>
          match (payload.lookup (text "access_token")).filter lib.truthy with
          | none => .error (.redirect (text "no_access_token")
              (text "Provider response did not include an access_token."))
          | some accessToken =>
            match lib.encryptDict (authPayload lib now accessToken payload) with
            | none => .error (.redirect (text "vault_failure")
                (text "Could not encrypt new OAuth tokens."))
            | some auth =>
              .ok (if category = [] then text "uncategorized" else category, auth)

/-- The extras without the display name. -/
def OAuthState.config (row : OAuthState F) : Config F :=
  row.extras.filter fun e => e.1 ≠ text "display_name"

/-- `none` where the name is no text, which the column refuses. -/
def newConnector (lib : Library F) (row : OAuthState F) (category auth : Text) :
    Option (Connector F) :=
  let name :=
    match (row.extras.lookup (text "display_name")).filter lib.truthy with
    | some (.str s) => some s
    | some _ => none
    | none => some row.connectorType
  name.map fun name =>
    ⟨row.tenantID, name, row.connectorType, category, auth, row.config, "configuring", true, true⟩

/-- What is written to `connectors`. -/
inductive Write (F : Type) where
  | insert (connector : Connector F)
  | rotate (auth : Text) (config : Config F)

def Write.apply : Write F → Option (Connector F) → Option (Connector F)
  | .insert connector, _ => some connector
  | .rotate auth config, row => row.map fun c =>
    { c with authConfig := auth, connectorConfig := config, oauthProvisioned := true,
             healthStatus := "configuring" }

inductive Phase (F : Type) where
  | started
  | exchanging (row : OAuthState F) (code : Text)
  | granted (row : OAuthState F) (category auth : Text)
  | prepared (connector : String) (write : Write F)
  | flushed (connector : String)
  | rejecting (reason : Rejection)
  | deleted (connector : Option String)
  | done

structure Call (F : Type) where
  state : Text
  request : Request
  phase : Phase F

/-- A committed deletion of a state, with the connector that was written along with it. -/
structure Consumption where
  state : Text
  connector : Option String
  deriving DecidableEq

structure World (F : Type) where
  states : Store ℕ Text (Option (OAuthState F))
  connectors : Store ℕ String (Option (Connector F))
  calls : ℕ → Option (Call F)
  log : List Consumption

inductive Act (F : Type) where
  | call (id : ℕ) (state : Text) (request : Request)
  | lookup (id : ℕ) (now : ℤ)
  | exchange (id : ℕ) (answers : Answers F) (now : ℤ)
  | prepare (id : ℕ) (newID : String)
  | flush (id : ℕ)
  | delete (id : ℕ)
  | commit (id : ℕ)
  | abort (id : ℕ)

def World.move (s : World F) (id : ℕ) (call : Call F) (phase : Phase F) : World F :=
  { s with calls := Function.update s.calls id (some { call with phase := phase }) }

/-- The connector that the phase is about to write, or the way out. -/
def prepare (lib : Library F) (connectors : Store ℕ String (Option (Connector F))) (id : ℕ)
    (row : OAuthState F) (category auth : Text) (newID : String) : Option (Phase F) :=
  match row.connectorID with
  | none => (newConnector lib row category auth).map fun c => .prepared newID (.insert c)
  | some key =>
    match (connectors.read id key).filter fun c => c.tenantID = row.tenantID with
    | none => some (.rejecting (.redirect (text "connector_disappeared")
        (text "Connector instance disappeared mid-flow.")))
    | some c =>
      let merged := row.config.foldl (fun d e => setEntry e.1 e.2 d) c.connectorConfig
      some (.prepared key (.rotate auth merged))

/-- A raised exception ends in `abort`, which may come at any time. -/
def World.next (lib : Library F) (s : World F) : Act F → Option (World F)
  | .call id state request =>
    if (s.calls id).isSome then none else some (s.move id ⟨state, request, .started⟩ .started)
  | .lookup id now => (s.calls id).bind fun call =>
    match call.phase with
    | .started =>
      match s.states.read id call.state with
      -- unknown or already consumed
      | none => some (s.move id call .done)
      | some row =>
        match precheck row call.request now with
        | .ok code => some (s.move id call (.exchanging row code))
        | .error reason => some (s.move id call (.rejecting reason))
    | _ => none
  | .exchange id answers now => (s.calls id).bind fun call =>
    match call.phase with
    | .exchanging row _ =>
      match exchangeCode lib row answers now with
      | .ok (category, auth) => some (s.move id call (.granted row category auth))
      | .error reason => some (s.move id call (.rejecting reason))
    | _ => none
  | .prepare id newID => (s.calls id).bind fun call =>
    match call.phase with
    | .granted row category auth =>
      (prepare lib s.connectors id row category auth newID).map fun phase => s.move id call phase
    | _ => none
  | .flush id => (s.calls id).bind fun call =>
    match call.phase with
    | .prepared key write => (s.connectors.write id key write.apply).map fun connectors =>
      World.move { s with connectors := connectors } id call (.flushed key)
    | _ => none
  | .delete id => (s.calls id).bind fun call =>
    let connector : Option (Option String) :=
      match call.phase with
      | .flushed key => some (some key)
      | .rejecting _ => some none
      | _ => none
    connector.bind fun connector =>
      (s.states.write id call.state fun _ => none).map fun states =>
        World.move { s with states := states } id call (.deleted connector)
  | .commit id => (s.calls id).bind fun call =>
    match call.phase with
    | .deleted connector =>
      some (World.move ⟨s.states.commit id, s.connectors.commit id, s.calls,
        s.log ++ [⟨call.state, connector⟩]⟩ id call .done)
    | _ => none
  | .abort id => (s.calls id).bind fun call =>
    some (World.move ⟨s.states.rollback id, s.connectors.rollback id, s.calls, s.log⟩ id call .done)

def initial (states : Text → Option (OAuthState F)) (connectors : String → Option (Connector F)) :
    World F := ⟨⟨states, fun _ => none⟩, ⟨connectors, fun _ => none⟩, fun _ => none, []⟩

def system (lib : Library F) : System (World F) (Act F) where
  start s := ∃ states connectors, s = initial states connectors
  next := World.next lib

/-! ## Which rows are gone -/

def Phase.past : Phase F → Bool
  | .started | .done => false
  | _ => true

def Phase.deleting : Phase F → Bool
  | .deleted _ => true
  | _ => false

variable {lib : Library F} {start : Text → Option (OAuthState F)} {s t u : World F} {id : ℕ}
  {call : Call F} {phase : Phase F}

/-- Rows only go away, with a commit that the log tells of, and a lock on one is held by a call
that has deleted it. -/
structure Invariant (start : Text → Option (OAuthState F)) (s : World F) : Prop where
  gone : ∀ state, s.states.committed state = none ↔
    start state = none ∨ ∃ d ∈ s.log, d.state = state
  held : ∀ state id v, s.states.held state = some (id, v) →
    ∃ call, s.calls id = some call ∧ call.state = state ∧ call.phase.deleting = true
  known : ∀ id call, s.calls id = some call → call.phase.past = true → start call.state ≠ none
  deleted : ∀ id call, s.calls id = some call → call.phase.deleting = true →
    s.states.held call.state = some (id, none)

theorem invariant_initial (connectors : String → Option (Connector F)) :
    Invariant start (initial start connectors) where
  gone state := by simp [initial]
  held state id v h := by cases h
  known id call h := by cases h
  deleted id call h := by cases h

theorem Invariant.free (hi : Invariant start s)
    (h : ∀ call, s.calls id = some call → call.phase.deleting = false) (state : Text)
    (v : Option (OAuthState F)) : s.states.held state ≠ some (id, v) := by
  intro hheld
  obtain ⟨call, hcall, -, hdeleting⟩ := hi.held state id v hheld
  rw [h call hcall] at hdeleting
  cases hdeleting

theorem Invariant.free_of_call (hi : Invariant start s) (hcall : s.calls id = some call)
    (h : call.phase.deleting = false) (state : Text) (v : Option (OAuthState F)) :
    s.states.held state ≠ some (id, v) := by
  apply hi.free
  intro call' hcall'
  exact Option.some.inj (hcall.symm.trans hcall') ▸ h

/-- A call gives up its locks. -/
theorem Invariant.release (hi : Invariant start s)
    (hheld : u.states.held = (s.states.rollback id).held)
    (hcalls : u.calls = Function.update s.calls id (some { call with phase := phase }))
    (hgone : ∀ state, u.states.committed state = none ↔
      start state = none ∨ ∃ d ∈ u.log, d.state = state)
    (hdeleting : phase.deleting = false) (hknown : phase.past = true → start call.state ≠ none) :
    Invariant start u := by
  refine ⟨hgone, ?_, ?_, ?_⟩
  · intro state j v h
    rw [hheld] at h
    obtain ⟨h, hj⟩ := ReadCommitted.held_rollback.mp h
    obtain ⟨call', hcall', hphase⟩ := hi.held state j v h
    exact ⟨call', by rw [hcalls, Function.update_of_ne hj, hcall'], hphase⟩
  · rw [hcalls]
    exact forall_update hknown fun j _ => hi.known j
  · rw [hcalls]
    refine forall_update ?_ fun j hj call' hcall' hdel => ?_
    · exact fun hdel => absurd (hdel.symm.trans hdeleting) (by decide)
    · rw [hheld]
      exact ReadCommitted.held_rollback.mpr ⟨hi.deleted j call' hcall' hdel, hj⟩

/-- A step of a call that holds no lock and takes none. -/
theorem Invariant.move (hi : Invariant start s) (hstates : u.states = s.states)
    (hlog : u.log = s.log)
    (hcalls : u.calls = Function.update s.calls id (some { call with phase := phase }))
    (hfree : ∀ state v, s.states.held state ≠ some (id, v)) (hdeleting : phase.deleting = false)
    (hknown : phase.past = true → start call.state ≠ none) : Invariant start u := by
  apply hi.release ?_ hcalls ?_ hdeleting hknown
  · rw [hstates, ReadCommitted.rollback_of_free hfree]
  · rw [hstates, hlog]
    exact hi.gone

theorem Invariant.delete (hi : Invariant start s) {connector : Option String}
    {states : Store ℕ Text (Option (OAuthState F))} (hcall : s.calls id = some call)
    (hpast : call.phase.past = true) (hphase : call.phase.deleting = false)
    (hwrite : s.states.write id call.state (fun _ => none) = some states) :
    Invariant start (World.move { s with states := states } id call (.deleted connector)) := by
  obtain ⟨hlock, rfl⟩ := ReadCommitted.write_eq_some_iff.mp hwrite
  have hfree := hi.free_of_call hcall hphase
  refine ⟨hi.gone, ?_, ?_, ?_⟩
  · intro state j v h
    simp only [World.move] at h ⊢
    by_cases hstate : state = call.state
    · rw [hstate, Function.update_self] at h
      obtain ⟨rfl, -⟩ := Prod.mk.inj (Option.some.inj h)
      exact ⟨_, Function.update_self _ _ _, hstate.symm, rfl⟩
    · rw [Function.update_of_ne hstate] at h
      have hj : j ≠ id := by
        rintro rfl
        exact hfree state v h
      obtain ⟨call', hcall', hphase'⟩ := hi.held state j v h
      exact ⟨call', (Function.update_of_ne hj _ _).trans hcall', hphase'⟩
  · exact forall_update (fun _ => hi.known id call hcall hpast) fun j _ => hi.known j
  · refine forall_update (fun _ => Function.update_self _ _ _) fun j hj call' hcall' hdel => ?_
    have hrow := hi.deleted j call' hcall' hdel
    have hother : call'.state ≠ call.state := by
      intro heq
      exact hj (hlock j _ (heq ▸ hrow))
    exact (Function.update_of_ne hother _ _).trans hrow

theorem Invariant.commit (hi : Invariant start s) {connector : Option String}
    (hcall : s.calls id = some call) (hphase : call.phase = .deleted connector) :
    Invariant start (World.move ⟨s.states.commit id, s.connectors.commit id, s.calls,
      s.log ++ [⟨call.state, connector⟩]⟩ id call .done) := by
  refine hi.release rfl rfl ?_ rfl nofun
  have hrow := hi.deleted id call hcall (by rw [hphase]; rfl)
  intro state
  simp only [World.move, ReadCommitted.committed_commit, List.mem_append, List.mem_singleton,
    or_and_right, exists_or, exists_eq_left]
  by_cases hstate : state = call.state
  · rw [hstate, ReadCommitted.read_of_held hrow]
    exact iff_of_true rfl (Or.inr (Or.inr rfl))
  · have hother : ∀ v, s.states.held state ≠ some (id, v) := by
      intro v hv
      obtain ⟨call', hcall', hstate', -⟩ := hi.held state id v hv
      obtain rfl := Option.some.inj (hcall.symm.trans hcall')
      exact hstate hstate'.symm
    rw [ReadCommitted.read_of_not_held hother, hi.gone state]
    simp only [Ne.symm hstate, or_false]

theorem prepare_phase {connectors : Store ℕ String (Option (Connector F))} {row : OAuthState F}
    {category auth : Text} {newID : String}
    (h : prepare lib connectors id row category auth newID = some phase) :
    phase.deleting = false := by
  rw [prepare] at h
  split at h
  · obtain ⟨c, -, rfl⟩ := Option.map_eq_some_iff.mp h
    rfl
  · split at h
    · obtain rfl := Option.some.inj h
      rfl
    · obtain rfl := Option.some.inj h
      rfl

theorem Invariant.next (hi : Invariant start s) {e : Act F} (h : s.next lib e = some t) :
    Invariant start t := by
  rw [World.next.eq_def] at h
  cases e with
  | call id state request =>
    dsimp only at h
    split_ifs at h with hcall
    obtain rfl := Option.some.inj h
    refine hi.move rfl rfl rfl (hi.free ?_) rfl nofun
    intro call hsome
    exact absurd (Option.isSome_of_eq_some hsome) hcall
  | lookup id now =>
    obtain ⟨call, hcall, h⟩ := Option.bind_eq_some_iff.mp h
    split at h
    · rename_i hphase
      have hfree := hi.free_of_call hcall (by rw [hphase]; rfl)
      have hread := ReadCommitted.read_of_not_held (hfree call.state)
      split at h
      · obtain rfl := Option.some.inj h
        exact hi.move rfl rfl rfl hfree rfl nofun
      · rename_i row hrow
        have hknown : start call.state ≠ none := by
          intro hnone
          rw [hread, (hi.gone call.state).mpr (Or.inl hnone)] at hrow
          cases hrow
        split at h <;> obtain rfl := Option.some.inj h
        · exact hi.move rfl rfl rfl hfree rfl fun _ => hknown
        · exact hi.move rfl rfl rfl hfree rfl fun _ => hknown
    · cases h
  | exchange id answers now =>
    obtain ⟨call, hcall, h⟩ := Option.bind_eq_some_iff.mp h
    split at h
    · rename_i row code hphase
      have hfree := hi.free_of_call hcall (by rw [hphase]; rfl)
      have hknown := hi.known id call hcall (by rw [hphase]; rfl)
      split at h <;> obtain rfl := Option.some.inj h
      · exact hi.move rfl rfl rfl hfree rfl fun _ => hknown
      · exact hi.move rfl rfl rfl hfree rfl fun _ => hknown
    · cases h
  | prepare id newID =>
    obtain ⟨call, hcall, h⟩ := Option.bind_eq_some_iff.mp h
    split at h
    · rename_i row category auth hphase
      obtain ⟨phase, hprepare, rfl⟩ := Option.map_eq_some_iff.mp h
      have hfree := hi.free_of_call hcall (by rw [hphase]; rfl)
      have hknown := hi.known id call hcall (by rw [hphase]; rfl)
      exact hi.move rfl rfl rfl hfree (prepare_phase hprepare) fun _ => hknown
    · cases h
  | flush id =>
    obtain ⟨call, hcall, h⟩ := Option.bind_eq_some_iff.mp h
    split at h
    · rename_i key write hphase
      obtain ⟨connectors, -, rfl⟩ := Option.map_eq_some_iff.mp h
      have hfree := hi.free_of_call hcall (by rw [hphase]; rfl)
      have hknown := hi.known id call hcall (by rw [hphase]; rfl)
      exact hi.move rfl rfl rfl hfree rfl fun _ => hknown
    · cases h
  | delete id =>
    obtain ⟨call, hcall, h⟩ := Option.bind_eq_some_iff.mp h
    obtain ⟨connector, hconnector, h⟩ := Option.bind_eq_some_iff.mp h
    obtain ⟨states, hwrite, rfl⟩ := Option.map_eq_some_iff.mp h
    split at hconnector
    · rename_i key hphase
      exact hi.delete hcall (by rw [hphase]; rfl) (by rw [hphase]; rfl) hwrite
    · rename_i reason hphase
      exact hi.delete hcall (by rw [hphase]; rfl) (by rw [hphase]; rfl) hwrite
    · cases hconnector
  | commit id =>
    obtain ⟨call, hcall, h⟩ := Option.bind_eq_some_iff.mp h
    split at h
    · rename_i connector hphase
      obtain rfl := Option.some.inj h
      exact hi.commit hcall hphase
    · cases h
  | abort id =>
    obtain ⟨call, hcall, h⟩ := Option.bind_eq_some_iff.mp h
    obtain rfl := Option.some.inj h
    exact hi.release rfl rfl hi.gone rfl nofun

/-! ## Single use -/

/-- Once the deletion of a state is committed, no call with that state commits a connector; so
at most one call ever does. -/
def SingleUse (log : List Consumption) : Prop :=
  log.Pairwise fun earlier later => earlier.state = later.state → later.connector = none

/-- A call that has written a connector finds the row of its state still there when it
commits. -/
def Guard (s : World F) : Act F → Prop
  | .commit id => ∀ call ∈ s.calls id, ∀ key, call.phase = .deleted (some key) →
    s.states.committed call.state ≠ none
  | _ => True

/-- A commit keeps the log single-use exactly when it meets the guard; no other step adds to the
log. -/
theorem next_log (hi : Invariant start s) {e : Act F} (h : s.next lib e = some t) :
    SingleUse t.log ↔ SingleUse s.log ∧ Guard s e := by
  have hsame : t.log = s.log → Guard s e → (SingleUse t.log ↔ SingleUse s.log ∧ Guard s e) := by
    intro heq hguard
    rw [heq]
    exact (and_iff_left hguard).symm
  rw [World.next.eq_def] at h
  cases e with
  | commit id =>
    obtain ⟨call, hcall, h⟩ := Option.bind_eq_some_iff.mp h
    split at h
    · rename_i connector hphase
      obtain rfl := Option.some.inj h
      have hknown := hi.known id call hcall (by rw [hphase]; rfl)
      have hguard : Guard s (.commit id) ↔
          ∀ key, connector = some key → ¬∃ d ∈ s.log, d.state = call.state := by
        simp only [Guard, hcall, Option.mem_def, Option.some.injEq, forall_eq', hphase,
          Phase.deleted.injEq, ne_eq, hi.gone, hknown, false_or]
      have hlast : (∀ d ∈ s.log, ∀ e ∈ [Consumption.mk call.state connector],
          d.state = e.state → e.connector = none) ↔
          ∀ d ∈ s.log, d.state = call.state → connector = none := by
        simp only [List.forall_mem_singleton]
      simp only [World.move, SingleUse, List.pairwise_append, List.pairwise_singleton, true_and,
        hlast, hguard]
      refine and_congr_right fun _ => ?_
      cases connector with
      | none => exact iff_of_true (fun _ _ _ => rfl) nofun
      | some key =>
        simp only [Option.some.injEq, forall_eq', reduceCtorEq, imp_false, not_exists, not_and]
    · cases h
  | call id state request =>
    dsimp only at h
    split_ifs at h
    obtain rfl := Option.some.inj h
    exact hsame rfl trivial
  | lookup id now =>
    obtain ⟨call, hcall, h⟩ := Option.bind_eq_some_iff.mp h
    split at h
    · split at h
      · obtain rfl := Option.some.inj h
        exact hsame rfl trivial
      · split at h <;> obtain rfl := Option.some.inj h
        · exact hsame rfl trivial
        · exact hsame rfl trivial
    · cases h
  | exchange id answers now =>
    obtain ⟨call, hcall, h⟩ := Option.bind_eq_some_iff.mp h
    split at h
    · split at h <;> obtain rfl := Option.some.inj h
      · exact hsame rfl trivial
      · exact hsame rfl trivial
    · cases h
  | prepare id newID =>
    obtain ⟨call, hcall, h⟩ := Option.bind_eq_some_iff.mp h
    split at h
    · obtain ⟨phase, -, rfl⟩ := Option.map_eq_some_iff.mp h
      exact hsame rfl trivial
    · cases h
  | flush id =>
    obtain ⟨call, hcall, h⟩ := Option.bind_eq_some_iff.mp h
    split at h
    · obtain ⟨connectors, -, rfl⟩ := Option.map_eq_some_iff.mp h
      exact hsame rfl trivial
    · cases h
  | delete id =>
    obtain ⟨call, hcall, h⟩ := Option.bind_eq_some_iff.mp h
    obtain ⟨connector, -, h⟩ := Option.bind_eq_some_iff.mp h
    obtain ⟨states, -, rfl⟩ := Option.map_eq_some_iff.mp h
    exact hsame rfl trivial
  | abort id =>
    obtain ⟨call, hcall, h⟩ := Option.bind_eq_some_iff.mp h
    obtain rfl := Option.some.inj h
    exact hsame rfl trivial

/-- States are single-use exactly in the runs in which every call that commits a connector finds
the row of its state still there. -/
theorem single_use_iff {lib : Library F} {es : List (Act F)} {s t : World F}
    (hs : (system lib).start s) (hr : runTrace (system lib) s es = some t) :
    GuardedTrace (system lib) Guard s es ↔ SingleUse t.log := by
  obtain ⟨start, connectors, rfl⟩ := hs
  have hall := guardedTrace_iff (M := system lib) (G := Guard) (I := Invariant start)
    (P := fun s => SingleUse s.log) (fun s e t hi h => hi.next h)
    (fun s e t hi h => next_log hi h) (invariant_initial connectors) hr
  rw [hall]
  exact (and_iff_right List.Pairwise.nil).symm

/-- A vault that cannot fail. -/
def sampleLibrary : Library Unit where
  decrypt vaulted := some vaulted
  encryptDict _ := some (text "ciphertext")
  expiresAt _ _ := none
  nonzero _ := true

def sampleState : OAuthState Unit := ⟨"acme", text "jira", none, [], 600⟩

def sampleRequest : Request := ⟨some (text "code"), none, none⟩

def granted : Answers Unit :=
  ⟨some (text "secret"), some (text "ticketing"),
    .token [(text "access_token", .str (text "token"))]⟩

def reach (id : ℕ) (newID : String) : List (Act Unit) :=
  [.call id (text "nonce") sampleRequest, .lookup id 0, .exchange id granted 1, .prepare id newID,
    .flush id]

def finish (id : ℕ) : List (Act Unit) := [.delete id, .commit id]

def oneState (state : Text) : Option (OAuthState Unit) :=
  if state = text "nonce" then some sampleState else none

/-- Both calls read the state before either deletes it, and each creates a connector. -/
theorem second_call_creates : ∃ t, runTrace (system sampleLibrary) (initial oneState fun _ => none)
    (reach 0 "a" ++ reach 1 "b" ++ finish 0 ++ finish 1) = some t ∧ ¬SingleUse t.log := by
  have hrun : (runTrace (system sampleLibrary) (initial oneState fun _ => none)
      (reach 0 "a" ++ reach 1 "b" ++ finish 0 ++ finish 1)).map World.log =
      some [⟨text "nonce", some "a"⟩, ⟨text "nonce", some "b"⟩] := by decide +kernel
  obtain ⟨t, ht, hlog⟩ := Option.map_eq_some_iff.mp hrun
  refine ⟨t, ht, ?_⟩
  rw [hlog, SingleUse, List.pairwise_pair]
  exact fun h => nomatch h rfl

/-- The second call comes after the first has committed, and finds no state. -/
theorem second_call_refused : ∃ t, runTrace (system sampleLibrary)
    (initial oneState fun _ => none)
    (reach 0 "a" ++ finish 0 ++ [.call 1 (text "nonce") sampleRequest, .lookup 1 5]) = some t ∧
      GuardedTrace (system sampleLibrary) Guard (initial oneState fun _ => none)
        (reach 0 "a" ++ finish 0 ++ [.call 1 (text "nonce") sampleRequest, .lookup 1 5]) := by
  have hrun : (runTrace (system sampleLibrary) (initial oneState fun _ => none)
      (reach 0 "a" ++ finish 0 ++ [.call 1 (text "nonce") sampleRequest, .lookup 1 5])).map
        World.log = some [⟨text "nonce", some "a"⟩] := by decide +kernel
  obtain ⟨t, ht, hlog⟩ := Option.map_eq_some_iff.mp hrun
  refine ⟨t, ht, (single_use_iff ⟨_, _, rfl⟩ ht).mpr ?_⟩
  rw [hlog]
  exact List.pairwise_singleton _ _

/-- At most one call commits a connector for a state. -/
theorem SingleUse.at_most_one {log : List Consumption} (h : SingleUse log) (state : Text) :
    (log.filter fun d => d.state = state ∧ d.connector.isSome).length ≤ 1 := by
  have hfilter := List.Pairwise.filter (fun d => d.state = state ∧ d.connector.isSome) h
  have hmem : ∀ d ∈ log.filter fun d => d.state = state ∧ d.connector.isSome,
      d.state = state ∧ d.connector.isSome := by
    intro d hd
    exact of_decide_eq_true (List.mem_filter.mp hd).2
  generalize (log.filter fun d => d.state = state ∧ d.connector.isSome) = written
    at hfilter hmem ⊢
  match written with
  | [] => exact Nat.zero_le 1
  | [_] => exact Nat.le_refl 1
  | a :: b :: rest =>
    have hab := (List.pairwise_cons.mp hfilter).1 b List.mem_cons_self
    obtain ⟨ha, -⟩ := hmem a List.mem_cons_self
    obtain ⟨hb, hsome⟩ := hmem b (List.mem_cons_of_mem _ List.mem_cons_self)
    rw [hab (ha.trans hb.symm)] at hsome
    cases hsome

end OAuthCallback
