import Mathlib.Data.Int.Notation
import Mathlib.Data.List.Nodup
import Mathlib.Tactic.SplitIfs
import AiSOC.JsonText
import AiSOC.OrderedDict
import AiSOC.ReadCommitted
import AiSOC.TransitionSystem

/-! # The worker that refreshes OAuth tokens

A pass reads all connectors in one statement. One connector after the other, it then exchanges
the refresh token that it read, writes the row by its id and commits. A re-consent writes new
tokens to a row and commits. The rows tell from which grant their tokens come. -/
namespace OAuthRefresh

open CodeText (Text text digits)
open JsonText (Json truthy)
open ReadCommitted (Store updatesOf updatesOf_update forall_update)
open TransitionSystem (System Reachable GuardedTrace runTrace guardedTrace_iff)

/-- `F` are the floating-point numbers of JSON values. -/
abbrev Config (F : Type) := OrderedDict Text (Json F)

/-- The columns of `connectors` that the worker reads or writes. -/
structure Connector (F : Type) where
  tenantId : String
  connectorType : String
  authConfig : Config F
  oauthProvisioned : Bool
  isEnabled : Bool
  healthStatus : String
  oauthRefreshFailures : ℕ
  oauthLastRefreshAt : Option ℤ
  updatedAt : ℤ

structure OAuthAppCredential where
  clientId : Text
  clientSecretVault : Text
  tokenUrl : Option Text

structure Settings where
  leadTime : ℤ
  alarmThreshold : ℕ

/-- The vault, the reading and writing of instants, and what the floats are worth. -/
structure Library (F : Type) where
  decrypt : Text → Option Text
  decryptDict : Config F → Option (Config F)
  encryptDict : Config F → Option (Config F)
  parseExpiresAt : Json F → Option ℤ
  expiresAt : ℤ → Json F → Option Text
  nonzero : F → Bool

/-- What is posted to the token endpoint. -/
structure Request (F : Type) where
  tokenUrl : Text
  refreshToken : Json F
  clientId : Text
  clientSecret : Text

inductive Exchange (F : Type) where
  | status (code : ℕ)
  | unreachable
  | malformed
  | token (payload : Config F)

/-- What the worker is told on its way: the app of the tenant, the endpoint in the catalog, and
how the provider answers. -/
structure Answers (F : Type) where
  appCredential : Option OAuthAppCredential
  hintedUrl : Option Text
  exchange : Request F → Exchange F

inductive Outcome (F : Type) where
  | skipped
  | failed (reason : Text)
  | refreshed (auth : Config F)

variable {F : Type}

def Library.given (lib : Library F) (config : Config F) (key : Text) : Option (Json F) :=
  (config.get key).filter (truthy lib.nonzero)

/-- Rows that cannot be decrypted are due, and those without a refresh token are not. -/
def isDue (lib : Library F) (cutoff : ℤ) (c : Connector F) : Bool :=
  match lib.decryptDict c.authConfig with
  | none => true
  | some decrypted =>
    match lib.given decrypted (text "refresh_token") with
    | none => false
    | some _ =>
      match (decrypted.get (text "expires_at")).bind lib.parseExpiresAt with
      | none => true
      | some expiresAt => expiresAt ≤ cutoff

def resolveTokenUrl (app : OAuthAppCredential) (hintedUrl : Option Text) : Option Text :=
  let url := (app.tokenUrl.filter fun t => t ≠ []).or hintedUrl
  (url.map CodeText.strip).filter fun t => t ≠ []

/-- The tokens are kept where the provider sends none. -/
def authPayload (lib : Library F) (now : ℤ) (decrypted : Config F) (accessToken : Json F)
    (payload : Config F) : Config F :=
  let auth := decrypted.set (text "access_token") accessToken
  let auth := match lib.given payload (text "refresh_token") with
    | some token => auth.set (text "refresh_token") token
    | none => auth
  let auth := [text "id_token", text "token_type"].foldl (fun auth key =>
    match payload.get key with
    | some value => auth.set key value
    | none => auth) auth
  match (payload.get (text "expires_in")).bind (lib.expiresAt now) with
  | some t => auth.set (text "expires_at") (.str t)
  | none => auth.erase (text "expires_at")

/-- What comes of a connector as the pass has read it; `none` where the vault raises at the end. -/
def refreshOne (lib : Library F) (c : Connector F) (answers : Answers F) (now : ℤ) :
    Option (Outcome F) :=
  match lib.decryptDict c.authConfig with
  | none => some (.failed (text "decrypt_failed"))
  | some decrypted =>
    match lib.given decrypted (text "refresh_token") with
    | none => some .skipped
    | some refreshToken =>
      match answers.appCredential with
      | none => some (.failed (text "app_credential_missing"))
      | some app =>
        match lib.decrypt app.clientSecretVault with
        | none => some (.failed (text "client_secret_decrypt_failed"))
        | some clientSecret =>
          match resolveTokenUrl app answers.hintedUrl with
          | none => some (.failed (text "token_url_missing"))
          | some url =>
            match answers.exchange ⟨url, refreshToken, app.clientId, clientSecret⟩ with
            | .status code => some (.failed (text "http_" ++ digits code))
            | .unreachable => some (.failed (text "unreachable"))
            | .malformed => some (.failed (text "malformed_response"))
            | .token payload =>
              match lib.given payload (text "access_token") with
              | none => some (.failed (text "no_access_token"))
              | some accessToken =>
                (lib.encryptDict (authPayload lib now decrypted accessToken payload)).map .refreshed

/-- A row with the number of the grants to its connector, and the one from which its tokens
come. -/
structure Row (F : Type) where
  connector : Connector F
  origin : ℕ
  grants : ℕ

/-- The columns that the worker writes, computed from the row as it has read it. -/
def Outcome.columns (settings : Settings) (now : ℤ) (read : Connector F) :
    Outcome F → Connector F → Connector F
  | .skipped, c => c
  | .failed _, c =>
    let failures := read.oauthRefreshFailures + 1
    { c with
      oauthRefreshFailures := failures
      healthStatus := if settings.alarmThreshold ≤ failures then "unhealthy" else c.healthStatus
      updatedAt := now }
  | .refreshed auth, c =>
    { c with
      authConfig := auth
      oauthRefreshFailures := 0
      oauthLastRefreshAt := some now
      healthStatus :=
        if read.healthStatus = "unhealthy" then "healthy" else read.healthStatus
      updatedAt := now }

/-- `renews` tells whether refreshed tokens count as a grant of their own, as where the provider
rotates them. -/
def Outcome.write (settings : Settings) (renews : Bool) (now : ℤ) (read : Row F)
    (outcome : Outcome F) (row : Row F) : Row F :=
  let connector := outcome.columns settings now read.connector row.connector
  match outcome with
  | .refreshed _ =>
    if renews then ⟨connector, row.grants + 1, row.grants + 1⟩
    else ⟨connector, read.origin, row.grants⟩
  | _ => { row with connector := connector }

/-- A re-consent replaces the tokens and changes other columns as it likes. -/
def reconsent (auth : Config F) (change : Connector F → Connector F) (row : Row F) : Row F :=
  ⟨{ change row.connector with authConfig := auth }, row.grants + 1, row.grants + 1⟩

/-- What a session has still to do. -/
inductive Phase (F : Type) where
  | between (due : List (String × Row F))
  | exchanged (key : String) (read : Row F) (now : ℤ) (outcome : Outcome F)
    (due : List (String × Row F))
  | written (key : String) (read : Row F) (now : ℤ) (outcome : Outcome F)
    (due : List (String × Row F))
  | reconsented (key : String) (auth : Config F) (change : Connector F → Connector F)
  | done

/-- A committed refresh: the grant from which its tokens come, and the last one committed
before it. -/
structure Refresh where
  connector : String
  derivedFrom : ℕ
  latest : Option ℕ
  deriving DecidableEq

structure World (F : Type) where
  connectors : Store ℕ String (Option (Row F))
  sessions : ℕ → Option (Phase F)
  log : List Refresh

/-- The keys of `select` are those of the table, in the order of the answer. -/
inductive Act (F : Type) where
  | select (id : ℕ) (keys : List String) (now : ℤ)
  | exchange (id : ℕ) (answers : Answers F) (now : ℤ)
  | write (id : ℕ)
  | reconsent (id : ℕ) (key : String) (auth : Config F) (change : Connector F → Connector F)
  | commit (id : ℕ)
  | abort (id : ℕ)

def World.move (s : World F) (id : ℕ) (phase : Phase F) : World F :=
  { s with sessions := Function.update s.sessions id (some phase) }

/-- What a commit of the worker adds to the log. -/
def World.logged (s : World F) (key : String) (read : Row F) : Outcome F → List Refresh
  | .refreshed _ => [⟨key, read.origin, (s.connectors.committed key).map Row.grants⟩]
  | .skipped | .failed _ => []

def selectDueConnectors (lib : Library F) (settings : Settings) (now : ℤ)
    (rows : List (String × Row F)) : List (String × Row F) :=
  rows.filter fun r => r.2.connector.oauthProvisioned ∧ r.2.connector.isEnabled ∧
    isDue lib (now + settings.leadTime) r.2.connector

/-- A raised exception ends in `abort`, which may come at any time. -/
def World.next (lib : Library F) (settings : Settings) (renews : Bool) (s : World F) :
    Act F → Option (World F)
  | .select id keys now =>
    if (s.sessions id).isSome ∨ ¬keys.Nodup then none
    else
      let rows := keys.filterMap fun key => (s.connectors.read id key).map fun row => (key, row)
      some (s.move id (.between (selectDueConnectors lib settings now rows)))
  | .exchange id answers now => (s.sessions id).bind fun phase =>
    match phase with
    | .between ((key, read) :: due) =>
      (refreshOne lib read.connector answers now).map fun outcome =>
        match outcome with
        | .skipped => s.move id (.between due)
        | outcome => s.move id (.exchanged key read now outcome due)
    | _ => none
  | .write id => (s.sessions id).bind fun phase =>
    match phase with
    | .exchanged key read now outcome due =>
      (s.connectors.write id key (Option.map (outcome.write settings renews now read))).map
        fun connectors =>
          World.move { s with connectors := connectors } id (.written key read now outcome due)
    | _ => none
  | .reconsent id key auth change =>
    if (s.sessions id).isSome then none
    else
      (s.connectors.write id key (Option.map (reconsent auth change))).map fun connectors =>
        World.move { s with connectors := connectors } id (.reconsented key auth change)
  | .commit id => (s.sessions id).bind fun phase =>
    match phase with
    | .written key read _ outcome due =>
      let log := s.log ++ s.logged key read outcome
      some (World.move ⟨s.connectors.commit id, s.sessions, log⟩ id (.between due))
    | .reconsented .. => some (World.move { s with connectors := s.connectors.commit id } id .done)
    | _ => none
  | .abort id => (s.sessions id).map fun _ =>
    World.move { s with connectors := s.connectors.rollback id } id .done

/-- Nothing is known of the grants before the start. -/
def initial (connectors : String → Option (Connector F)) : World F :=
  let rows := fun key => (connectors key).map fun c => ⟨c, 0, 0⟩
  ⟨⟨rows, fun _ => none⟩, fun _ => none, []⟩

def system (lib : Library F) (settings : Settings) (renews : Bool) :
    System (World F) (Act F) where
  start s := ∃ connectors, s = initial connectors
  next := World.next lib settings renews

/-- What a refresh writes comes from the last grant committed before it. -/
def Fresh (log : List Refresh) : Prop := ∀ r ∈ log, ∀ n ∈ r.latest, r.derivedFrom = n

/-- No grant has been committed to the connector since the worker has read its row. -/
def Guard (s : World F) : Act F → Prop
  | .commit id => ∀ key read now auth due,
    s.sessions id = some (.written key read now (.refreshed auth) due) →
    ∀ row ∈ s.connectors.committed key, row.grants = read.grants
  | _ => True

/-! ## Rows and what was read of them -/

/-- The write that a session has not yet committed. -/
def Phase.update (settings : Settings) (renews : Bool) :
    Phase F → Option (String × (Option (Row F) → Option (Row F)))
  | .written key read now outcome _ =>
    some (key, Option.map (outcome.write settings renews now read))
  | .reconsented key auth change => some (key, Option.map (OAuthRefresh.reconsent auth change))
  | _ => none

/-- The rows of which a session holds a copy. -/
def Phase.reads : Phase F → List (Row F)
  | .between due => due.map Prod.snd
  | .exchanged _ read _ _ due | .written _ read _ _ due => read :: due.map Prod.snd
  | .reconsented .. | .done => []

/-- The tokens of the row come from the last grant. -/
def Row.Current (row : Row F) : Prop := row.origin = row.grants

variable {lib : Library F} {settings : Settings} {renews : Bool} {s t u : World F} {id : ℕ}
  {phase : Phase F} {key : String} {read row : Row F} {outcome : Outcome F} {now : ℤ}
  {due : List (String × Row F)} {log : List Refresh}

/-- While every refresh was fresh, every row and every copy of one has the tokens of its last
grant. -/
structure Invariant (settings : Settings) (renews : Bool) (s : World F) : Prop where
  pending : s.connectors.Pending (updatesOf (Phase.update settings renews) s.sessions)
  rows : Fresh s.log → ∀ key, ∀ row ∈ s.connectors.committed key, row.Current
  reads : Fresh s.log → ∀ id, ∀ phase ∈ s.sessions id, ∀ row ∈ phase.reads, row.Current

theorem invariant_initial (connectors : String → Option (Connector F)) :
    Invariant settings renews (initial connectors) where
  pending := ReadCommitted.pending_idle
  rows _ key row h := by
    obtain ⟨c, -, rfl⟩ := Option.map_eq_some_iff.mp h
    rfl
  reads _ id phase h := by cases h

theorem fresh_append_singleton {r : Refresh} :
    Fresh (log ++ [r]) ↔ Fresh log ∧ ∀ n ∈ r.latest, r.derivedFrom = n := by
  simp only [Fresh, List.mem_append, List.mem_singleton, or_imp, forall_and, forall_eq]

/-- A step of one session, that tells the others nothing but the rows it commits. -/
theorem Invariant.of_step (hi : Invariant settings renews s)
    (hsessions : u.sessions = Function.update s.sessions id (some phase))
    (hpending : u.connectors.Pending
      (Function.update (updatesOf (Phase.update settings renews) s.sessions) id
        (phase.update settings renews)))
    (hlog : Fresh u.log → Fresh s.log)
    (hrows : Fresh u.log → ∀ key, ∀ row ∈ u.connectors.committed key, row.Current)
    (hreads : Fresh u.log → ∀ row ∈ phase.reads, row.Current) :
    Invariant settings renews u where
  pending := by rw [hsessions, updatesOf_update]; exact hpending
  rows := hrows
  reads hfresh := by
    rw [hsessions]
    exact forall_update (hreads hfresh) fun j _ => hi.reads (hlog hfresh) j

theorem updatesOf_of_session (hphase : s.sessions id = some phase) :
    updatesOf (Phase.update settings renews) s.sessions id = phase.update settings renews := by
  rw [updatesOf, hphase, Option.bind_some]

theorem updatesOf_of_none (hnone : s.sessions id = none) :
    updatesOf (Phase.update settings renews) s.sessions id = none := by
  rw [updatesOf, hnone, Option.bind_none]

/-- A step that neither writes nor commits. -/
theorem Invariant.move (hi : Invariant settings renews s)
    (hbefore : updatesOf (Phase.update settings renews) s.sessions id = none)
    (hafter : phase.update settings renews = none)
    (hreads : Fresh s.log → ∀ row ∈ phase.reads, row.Current) :
    Invariant settings renews (s.move id phase) := by
  refine hi.of_step rfl ?_ (fun h => h) hi.rows hreads
  rw [hafter, ← hbefore, Function.update_eq_self]
  exact hi.pending

/-- A step that writes without a commit. -/
theorem Invariant.write (hi : Invariant settings renews s)
    {connectors : Store ℕ String (Option (Row F))} {f : Option (Row F) → Option (Row F)}
    (hbefore : updatesOf (Phase.update settings renews) s.sessions id = none)
    (hwrite : s.connectors.write id key f = some connectors)
    (hafter : phase.update settings renews = some (key, f))
    (hreads : Fresh s.log → ∀ row ∈ phase.reads, row.Current) :
    Invariant settings renews (World.move { s with connectors := connectors } id phase) := by
  have hpending := hi.pending.write hbefore hwrite
  obtain ⟨-, rfl⟩ := ReadCommitted.write_eq_some_iff.mp hwrite
  refine hi.of_step rfl ?_ (fun h => h) hi.rows hreads
  rw [hafter]
  exact hpending

/-- What a commit makes of the rows. -/
theorem Invariant.committed (hi : Invariant settings renews s)
    (hphase : s.sessions id = some phase) {f : Option (Row F) → Option (Row F)}
    (hupdate : phase.update settings renews = some (key, f)) (other : String) :
    (s.connectors.commit id).committed other =
      if other = key then f (s.connectors.committed key) else s.connectors.committed other := by
  have hpending := (updatesOf_of_session hphase).trans hupdate
  by_cases hkey : other = key
  · rw [if_pos hkey, hkey]
    exact hi.pending.committed_commit hpending
  · rw [if_neg hkey]
    apply hi.pending.committed_commit_of_ne
    intro g hg
    exact hkey (Prod.mk.inj (Option.some.inj (hg.symm.trans hpending))).1

/-- A commit that leaves the row of its write current. -/
theorem Invariant.commit (hi : Invariant settings renews s) (hphase : s.sessions id = some phase)
    {f : Row F → Row F} (hupdate : phase.update settings renews = some (key, Option.map f))
    {after : Phase F} (hafter : after.update settings renews = none)
    (hlog : Fresh log → Fresh s.log)
    (hrow : Fresh log → ∀ row ∈ s.connectors.committed key, (f row).Current)
    (hreads : Fresh log → ∀ row ∈ after.reads, row.Current) :
    Invariant settings renews
      (World.move ⟨s.connectors.commit id, s.sessions, log⟩ id after) := by
  refine hi.of_step rfl ?_ hlog ?_ hreads
  · rw [hafter]
    exact hi.pending.commit id
  · intro hfresh other row hmem
    have hmem : (s.connectors.commit id).committed other = some row := hmem
    rw [hi.committed hphase hupdate] at hmem
    split_ifs at hmem
    · obtain ⟨old, hold, rfl⟩ := Option.map_eq_some_iff.mp hmem
      exact hrow hfresh old hold
    · exact hi.rows (hlog hfresh) other row hmem

/-- A refresh writes the tokens of the grant that was read. -/
theorem current_write (hread : read.Current) (hrow : row.Current)
    (hgrants : ∀ auth, outcome = .refreshed auth → row.grants = read.grants) :
    (outcome.write settings renews now read row).Current := by
  cases outcome with
  | skipped => exact hrow
  | failed reason => exact hrow
  | refreshed auth =>
    rw [Outcome.write]
    split_ifs
    · rfl
    · exact Eq.trans hread (hgrants auth rfl).symm

theorem Invariant.fresh_commit (hi : Invariant settings renews s)
    (hphase : s.sessions id = some (.written key read now outcome due)) :
    Fresh (s.log ++ s.logged key read outcome) ↔ Fresh s.log ∧ Guard s (.commit id) := by
  cases outcome with
  | skipped | failed reason =>
    rw [World.logged, List.append_nil]
    refine (and_iff_left ?_).symm
    intro key read now auth due hwritten
    cases hphase.symm.trans hwritten
  | refreshed auth =>
    rw [World.logged, fresh_append_singleton]
    refine and_congr_right fun hfresh => ?_
    have hread : read.origin = read.grants := hi.reads hfresh id _ hphase read List.mem_cons_self
    constructor
    · intro hlatest key' read' now' auth' due' hwritten row hrow
      obtain ⟨rfl, rfl, -⟩ := Phase.written.inj (Option.some.inj (hphase.symm.trans hwritten))
      exact (hlatest row.grants (Option.mem_map_of_mem _ hrow)).symm.trans hread
    · intro hguard n hn
      obtain ⟨row, hrow, rfl⟩ := Option.map_eq_some_iff.mp hn
      rw [hguard key read now auth due hphase row hrow, hread]

/-- What a step keeps, and when it adds a refresh that is not fresh. -/
theorem Invariant.next (hi : Invariant settings renews s) {e : Act F}
    (h : s.next lib settings renews e = some t) :
    Invariant settings renews t ∧ (Fresh t.log ↔ Fresh s.log ∧ Guard s e) := by
  have hsame : Guard s e → (Fresh s.log ↔ Fresh s.log ∧ Guard s e) := by
    intro hguard
    exact (and_iff_left hguard).symm
  rw [World.next.eq_def] at h
  cases e with
  | select id keys now =>
    dsimp only at h
    split_ifs at h with hbusy
    obtain rfl := Option.some.inj h
    have hnone := Option.not_isSome_iff_eq_none.mp (not_or.mp hbusy).1
    refine ⟨hi.move (updatesOf_of_none hnone) rfl ?_, hsame trivial⟩
    intro hfresh row hrow
    obtain ⟨⟨key, copy⟩, hcopy, rfl⟩ := List.mem_map.mp hrow
    obtain ⟨other, -, hread⟩ := List.mem_filterMap.mp (List.mem_of_mem_filter hcopy)
    obtain ⟨found, hfound, heq⟩ := Option.map_eq_some_iff.mp hread
    obtain ⟨rfl, rfl⟩ := Prod.mk.inj heq
    rw [hi.pending.read (updatesOf_of_none hnone)] at hfound
    exact hi.rows hfresh _ _ hfound
  | exchange id answers now =>
    obtain ⟨phase, hphase, h⟩ := Option.bind_eq_some_iff.mp h
    split at h
    · rename_i key read due
      obtain ⟨outcome, -, rfl⟩ := Option.map_eq_some_iff.mp h
      have hbefore : updatesOf (Phase.update settings renews) s.sessions id = none :=
        updatesOf_of_session hphase
      have hreads : Fresh s.log → ∀ row ∈ read :: due.map Prod.snd, row.Current :=
        fun hfresh => hi.reads hfresh id _ hphase
      cases outcome with
      | skipped =>
        refine ⟨hi.move hbefore rfl ?_, hsame trivial⟩
        exact fun hfresh row hrow => hreads hfresh row (List.mem_cons_of_mem _ hrow)
      | failed reason => exact ⟨hi.move hbefore rfl hreads, hsame trivial⟩
      | refreshed auth => exact ⟨hi.move hbefore rfl hreads, hsame trivial⟩
    · cases h
  | write id =>
    obtain ⟨phase, hphase, h⟩ := Option.bind_eq_some_iff.mp h
    split at h
    · rename_i key read now outcome due
      obtain ⟨connectors, hwrite, rfl⟩ := Option.map_eq_some_iff.mp h
      refine ⟨hi.write (updatesOf_of_session hphase) hwrite rfl ?_, hsame trivial⟩
      exact fun hfresh => hi.reads hfresh id (.exchanged key read now outcome due) hphase
    · cases h
  | reconsent id key auth change =>
    dsimp only at h
    split_ifs at h with hbusy
    obtain ⟨connectors, hwrite, rfl⟩ := Option.map_eq_some_iff.mp h
    have hnone := Option.not_isSome_iff_eq_none.mp hbusy
    refine ⟨hi.write (updatesOf_of_none hnone) hwrite rfl ?_, hsame trivial⟩
    exact fun _ row hrow => absurd hrow List.not_mem_nil
  | commit id =>
    obtain ⟨phase, hphase, h⟩ := Option.bind_eq_some_iff.mp h
    split at h
    · rename_i key read now outcome due
      obtain rfl := Option.some.inj h
      have hfresh := hi.fresh_commit hphase
      refine ⟨hi.commit hphase rfl rfl (fun h => (hfresh.mp h).1) ?_ ?_, hfresh⟩
      · intro h row hrow
        obtain ⟨hbefore, hguard⟩ := hfresh.mp h
        have hread := hi.reads hbefore id _ hphase read List.mem_cons_self
        refine current_write hread (hi.rows hbefore key row hrow) ?_
        rintro auth rfl
        exact hguard key read now auth due hphase row hrow
      · intro h row hrow
        exact hi.reads (hfresh.mp h).1 id _ hphase row (List.mem_cons_of_mem _ hrow)
    · rename_i key auth change
      obtain rfl := Option.some.inj h
      refine ⟨hi.commit hphase rfl rfl (fun h => h) (fun _ _ _ => rfl) ?_, hsame ?_⟩
      · exact fun _ row hrow => absurd hrow List.not_mem_nil
      · intro key read now auth due hwritten
        cases hphase.symm.trans hwritten
    · cases h
  | abort id =>
    obtain ⟨phase, hphase, rfl⟩ := Option.map_eq_some_iff.mp h
    refine ⟨hi.of_step rfl (hi.pending.rollback id) (fun h => h) hi.rows ?_, hsame trivial⟩
    exact fun _ row hrow => absurd hrow List.not_mem_nil

/-- Where no grant comes between a worker's read and its commit, the stored tokens of every
connector come from its last grant. -/
theorem current_of_reachable (h : Reachable (system lib settings renews) Guard s) :
    ∀ row ∈ s.connectors.committed key, row.Current := by
  have hkeeps := h.invariant (P := fun s => Invariant settings renews s ∧ Fresh s.log) ?_ ?_
  · exact hkeeps.1.rows hkeeps.2 key
  · rintro s ⟨connectors, rfl⟩
    exact ⟨invariant_initial connectors, fun r hr => absurd hr List.not_mem_nil⟩
  · rintro s e t ⟨hi, hfresh⟩ hguard hnext
    obtain ⟨hafter, hiff⟩ := Invariant.next hi hnext
    exact ⟨hafter, hiff.mpr ⟨hfresh, hguard⟩⟩

/-- Every refresh writes tokens of the last grant, exactly in the runs in which no grant is
committed to a connector between a worker's read of its row and its write. -/
theorem fresh_iff {es : List (Act F)} (hs : (system lib settings renews).start s)
    (hr : runTrace (system lib settings renews) s es = some t) :
    GuardedTrace (system lib settings renews) Guard s es ↔ Fresh t.log := by
  obtain ⟨connectors, rfl⟩ := hs
  have hall := guardedTrace_iff (M := system lib settings renews) (G := Guard)
    (P := fun s => Fresh s.log) (fun s e t hi h => (Invariant.next hi h).1)
    (fun s e t hi h => (Invariant.next hi h).2) (invariant_initial connectors) hr
  rw [hall]
  exact (and_iff_right fun r hr => absurd hr List.not_mem_nil).symm

/-! ## A re-consent during the exchange -/

/-- A vault that keeps the text as it is. -/
def sampleLibrary : Library Unit where
  decrypt vaulted := some vaulted
  decryptDict config := some config
  encryptDict config := some config
  parseExpiresAt _ := none
  expiresAt _ _ := none
  nonzero _ := true

def sampleSettings : Settings := ⟨300, 3⟩

def tokens (access refresh : String) : Config Unit :=
  OrderedDict.ofList [(text "access_token", .str (text access)),
    (text "refresh_token", .str (text refresh))]

def sampleConnectors (key : String) : Option (Connector Unit) :=
  if key = "c" then
    some ⟨"acme", "salesforce", tokens "a0" "r0", true, true, "healthy", 0, none, 0⟩
  else none

def sampleAnswers : Answers Unit where
  appCredential := some ⟨text "client", text "secret", some (text "https://id.example/token")⟩
  hintedUrl := none
  exchange _ := .token (tokens "a1" "r1")

def refreshTo (id : ℕ) : List (Act Unit) :=
  [.select id ["c"] 0, .exchange id sampleAnswers 1]

def reconsentTo (id : ℕ) : List (Act Unit) :=
  [.reconsent id "c" (tokens "a2" "r2") fun c => c, .commit id]

/-- The tokens of the new grant are replaced by those refreshed from the old one. -/
theorem reconsent_lost : ∃ t, runTrace (system sampleLibrary sampleSettings false)
    (initial sampleConnectors) (refreshTo 0 ++ reconsentTo 1 ++ [.write 0, .commit 0]) = some t ∧
      ¬Fresh t.log := by
  have hrun : (runTrace (system sampleLibrary sampleSettings false) (initial sampleConnectors)
      (refreshTo 0 ++ reconsentTo 1 ++ [.write 0, .commit 0])).map World.log =
      some [⟨"c", 0, some 1⟩] := by
    decide +kernel
  obtain ⟨t, ht, hlog⟩ := Option.map_eq_some_iff.mp hrun
  refine ⟨t, ht, ?_⟩
  rw [hlog]
  intro hfresh
  exact absurd (hfresh _ List.mem_cons_self 1 rfl) (by decide)

/-- A re-consent before the worker reads the row. -/
theorem refresh_after_reconsent : ∃ t, runTrace (system sampleLibrary sampleSettings false)
    (initial sampleConnectors) (reconsentTo 1 ++ refreshTo 0 ++ [.write 0, .commit 0]) = some t ∧
      GuardedTrace (system sampleLibrary sampleSettings false) Guard (initial sampleConnectors)
        (reconsentTo 1 ++ refreshTo 0 ++ [.write 0, .commit 0]) := by
  have hrun : (runTrace (system sampleLibrary sampleSettings false) (initial sampleConnectors)
      (reconsentTo 1 ++ refreshTo 0 ++ [.write 0, .commit 0])).map World.log =
      some [⟨"c", 1, some 1⟩] := by
    decide +kernel
  obtain ⟨t, ht, hlog⟩ := Option.map_eq_some_iff.mp hrun
  refine ⟨t, ht, (fresh_iff ⟨_, rfl⟩ ht).mpr ?_⟩
  rw [hlog]
  intro r hr n hn
  obtain rfl := List.mem_singleton.mp hr
  exact Option.some.inj hn

end OAuthRefresh
