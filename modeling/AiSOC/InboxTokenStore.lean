import Mathlib.Data.List.AList
import AiSOC.TransitionSystem

/-! # Inbox token resolution

The resolver of the push endpoints: a map of cached lookups in front of the
`tenant_inbox_tokens` table, and the HTTP wrapper that turns its result into a status.
Times are nanoseconds. The goroutine that refreshes `last_used_at` and the operator's
mint and revoke requests are separate events, so they may fall between any two calls. -/
namespace InboxTokenStore

open TransitionSystem (System Reachable GuardedTrace anyStep runTrace)

def second : Nat := 1000000000

structure Token where
  token : String
  tenantID : String
  templateID : String
  label : String
  hmacSecret : String
  createdAt : Nat
  lastUsedAt : Option Nat
  deriving DecidableEq, Repr

inductive ResolveError where
  | tokenNotFound
  | tokenRevoked
  | queryFailed
  deriving DecidableEq, Repr

structure CachedEntry where
  token : Option Token
  revoked : Bool
  expires : Nat
  deriving DecidableEq, Repr

/-- A row of `tenant_inbox_tokens`, keyed by its `token` column. -/
structure Row where
  tenantID : String
  templateID : String
  label : Option String
  hmacSecret : Option String
  createdAt : Nat
  revokedAt : Option Nat
  lastUsedAt : Option Nat
  deriving DecidableEq, Repr

structure Store where
  cache : AList (fun _ : String => CachedEntry)
  cacheTTL : Nat
  cacheMax : Nat

/-- The process's store, the wall clock and the shared table. -/
structure World where
  store : Store
  now : Nat
  rows : String → Option Row

/-- The columns selected by the query; `COALESCE` fills the two nullable texts. -/
def Row.scan (r : Row) (token : String) : Token where
  token := token
  tenantID := r.tenantID
  templateID := r.templateID
  label := r.label.getD ""
  hmacSecret := r.hmacSecret.getD ""
  createdAt := r.createdAt
  lastUsedAt := r.lastUsedAt

def dropExpired (now : Nat) (c : AList (fun _ : String => CachedEntry)) :
    AList (fun _ : String => CachedEntry) :=
  c.entries.foldl (fun acc e => if e.2.expires < now then acc.erase e.1 else acc) c

/-- Go's map order is arbitrary, so the entry dropped is the one at an arbitrary position. -/
def dropAny (pick : Nat) (c : AList (fun _ : String => CachedEntry)) :
    AList (fun _ : String => CachedEntry) :=
  match c.keys[pick % c.keys.length]? with
  | some k => c.erase k
  | none => c

def evictIfFullLocked (s : Store) (now pick : Nat) : Store :=
  if s.cache.keys.length < s.cacheMax then s
  else
    let live := dropExpired now s.cache
    if live.keys.length < s.cacheMax then { s with cache := live }
    else { s with cache := dropAny pick live }

/-- The common body of the three cache writers. -/
def putEntry (s : Store) (now pick : Nat) (token : String) (e : CachedEntry) : Store :=
  let s := evictIfFullLocked s now pick
  { s with cache := s.cache.insert token e }

def cacheHit (s : Store) (now pick : Nat) (token : String) (t : Token) : Store :=
  putEntry s now pick token ⟨some t, false, now + s.cacheTTL⟩

def cacheRevoked (s : Store) (now pick : Nat) (token : String) : Store :=
  putEntry s now pick token ⟨none, true, now + s.cacheTTL⟩

def cacheMiss (s : Store) (now pick : Nat) (token : String) (persist : Bool) : Store :=
  if !persist then s else putEntry s now pick token ⟨none, false, now + 5 * second⟩

/-- The part of `Resolve` behind the cache: one indexed query, which may fail. -/
def queryDatabase (w : World) (token : String) (queryFails : Bool) (pick : Nat) :
    Store × Option Token × Option ResolveError :=
  if queryFails then (w.store, none, some .queryFailed)
  else match w.rows token with
    | none => (cacheMiss w.store w.now pick token true, none, some .tokenNotFound)
    | some row =>
      if row.revokedAt.isSome then
        (cacheRevoked w.store w.now pick token, none, some .tokenRevoked)
      else
        (cacheHit w.store w.now pick token (row.scan token), some (row.scan token), none)

/-- The unexpired entry that a lookup is answered from, if any. -/
def freshEntry (w : World) (token : String) : Option CachedEntry :=
  (w.store.cache.lookup token).filter fun e => w.now < e.expires

def resolve (w : World) (token : String) (queryFails : Bool) (pick : Nat) :
    Store × Option Token × Option ResolveError :=
  if token = "" then (w.store, none, some .tokenNotFound)
  else match freshEntry w token with
    | some entry =>
      if entry.revoked then (w.store, none, some .tokenRevoked)
      else (w.store, entry.token, none)
    | none => queryDatabase w token queryFails pick

/-- The token handed to the route and the status already written, if one was. -/
def resolveOrFail (h : Option World) (token : String) (queryFails : Bool) (pick : Nat) :
    Option Token × Option Nat :=
  match h with
  | none => (none, some 503)
  | some w =>
    match (resolve w token queryFails pick).2 with
    | (_, some .tokenNotFound) => (none, some 404)
    | (_, some .tokenRevoked) => (none, some 410)
    | (_, some .queryFailed) => (none, some 500)
    | (tok, none) => (tok, none)

/-- The routes return at once when they get no token. `net/http` answers 200 for a handler
that returns without writing. `process` is the status of the rest of the route. -/
def serve (h : Option World) (token : String) (queryFails : Bool) (pick : Nat)
    (process : Token → Nat) : Nat :=
  match resolveOrFail h token queryFails pick with
  | (some tok, _) => process tok
  | (none, some status) => status
  | (none, none) => 200

def Success (status : Nat) : Prop := 200 ≤ status ∧ status < 300

inductive Event where
  | resolve (token : String) (queryFails : Bool) (pick : Nat)
  | touchLastUsed (token : String)
  | invalidate (token : String)
  | mint (token : String) (tenantID templateID : String) (label hmacSecret : Option String)
  | revoke (token : String)
  | advance (d : Nat)
  deriving DecidableEq, Repr

def setRow (w : World) (token : String) (f : Row → Row) : World :=
  { w with rows := Function.update w.rows token ((w.rows token).map f) }

/-- Tokens are primary keys, so a mint needs a fresh one. Revocation and the usage update
select active rows only. -/
def next (w : World) : Event → Option World
  | .resolve token queryFails pick =>
    some { w with store := (resolve w token queryFails pick).1 }
  | .touchLastUsed token =>
    some (setRow w token fun r =>
      if r.revokedAt.isSome then r else { r with lastUsedAt := some w.now })
  | .invalidate token =>
    some { w with store := { w.store with cache := w.store.cache.erase token } }
  | .mint token tenantID templateID label hmacSecret =>
    if (w.rows token).isSome then none
    else some { w with
      rows := Function.update w.rows token
        (some ⟨tenantID, templateID, label, hmacSecret, w.now, none, none⟩) }
  | .revoke token =>
    some (setRow w token fun r =>
      if r.revokedAt.isSome then r else { r with revokedAt := some w.now })
  | .advance d => some { w with now := w.now + d }

/-- A process starts with an empty cache over any table written in the past. -/
def inbox : System World Event where
  start w := w.store.cache = ∅ ∧ ∀ k r, w.rows k = some r → r.createdAt ≤ w.now
  next := next

/-- The row was usable at the instant `t`; the instant of revocation still counts. -/
def Row.ActiveAt (r : Row) (t : Nat) : Prop :=
  r.createdAt ≤ t ∧ ∀ u, r.revokedAt = some u → t ≤ u

/-- The token was active in the table at some instant of the last cache TTL. -/
def RecentlyActive (w : World) (token : String) : Prop :=
  ∃ row t, w.rows token = some row ∧ t ≤ w.now ∧ w.now ≤ t + w.store.cacheTTL ∧ row.ActiveAt t

/-- The contract of one call: a token that was recently active and no error, or no token
and an error. -/
def FailClosed (w : World) (token : String) : Option Token × Option ResolveError → Prop
  | (some t, none) => t.token = token ∧ RecentlyActive w token
  | (none, some _) => True
  | _ => False

/-- Every resolution of the run fails closed, and no route answers a token that was not
recently active with a success status, whatever the rest of the route does. -/
def CallFailsClosed (w : World) : Event → Prop
  | .resolve token queryFails pick =>
    FailClosed w token (resolve w token queryFails pick).2 ∧
      ∀ process, Success (serve (some w) token queryFails pick process) → RecentlyActive w token
  | _ => True

/-- The lookup would be answered from an unexpired "no such token" entry. -/
def LiveNegative (w : World) (token : String) : Prop :=
  token ≠ "" ∧ ∃ e, freshEntry w token = some e ∧ e.revoked = false ∧ e.token = none

def NoNegativeHit (w : World) : Event → Prop
  | .resolve token _ _ => ¬ LiveNegative w token
  | _ => True

/-- A cached token speaks for the row it was scanned from. -/
def Describes (t : Token) (token : String) (r : Row) : Prop :=
  t.token = token ∧ t.tenantID = r.tenantID ∧ t.templateID = r.templateID

structure Invariant (w : World) : Prop where
  created : ∀ k r, w.rows k = some r → r.createdAt ≤ w.now
  cached_active : ∀ k e t, w.store.cache.lookup k = some e → e.token = some t →
    ∃ row u, w.rows k = some row ∧ Describes t k row ∧ u ≤ w.now ∧
      e.expires = u + w.store.cacheTTL ∧ row.ActiveAt u

/-- `c` holds nothing that was not in `b`. -/
def Within (c b : AList (fun _ : String => CachedEntry)) : Prop :=
  ∀ k e, c.lookup k = some e → b.lookup k = some e

theorem erase_within (c : AList (fun _ : String => CachedEntry)) (k : String) :
    Within (c.erase k) c := by
  intro j e h
  by_cases hj : j = k
  · subst hj; simp [AList.lookup_erase] at h
  · rwa [AList.lookup_erase_ne hj] at h

theorem dropExpired_within (now : Nat) (c : AList (fun _ : String => CachedEntry)) :
    Within (dropExpired now c) c := by
  suffices aux : ∀ (es : List (Sigma fun _ : String => CachedEntry)) acc, Within acc c →
      Within (es.foldl (fun acc e => if e.2.expires < now then acc.erase e.1 else acc) acc) c by
    exact aux _ _ fun _ _ h => h
  intro es
  induction es with
  | nil => intro acc h; exact h
  | cons e es ih =>
    intro acc h
    refine ih _ ?_
    dsimp only
    split
    · exact fun k x hk => h k x (erase_within acc e.1 k x hk)
    · exact h

theorem dropAny_within (pick : Nat) (c : AList (fun _ : String => CachedEntry)) :
    Within (dropAny pick c) c := by
  unfold dropAny
  split
  · exact erase_within c _
  · exact fun _ _ h => h

theorem evict_within (s : Store) (now pick : Nat) :
    Within (evictIfFullLocked s now pick).cache s.cache := by
  unfold evictIfFullLocked
  split
  · exact fun _ _ h => h
  · dsimp only
    split
    · exact dropExpired_within now s.cache
    · exact fun k e h => dropExpired_within now s.cache k e (dropAny_within pick _ k e h)

@[simp] theorem evict_cacheTTL (s : Store) (now pick : Nat) :
    (evictIfFullLocked s now pick).cacheTTL = s.cacheTTL := by
  unfold evictIfFullLocked
  split
  · rfl
  · dsimp only; split <;> rfl

@[simp] theorem putEntry_cacheTTL (s : Store) (now pick : Nat) (token : String)
    (e : CachedEntry) : (putEntry s now pick token e).cacheTTL = s.cacheTTL := by
  simp [putEntry]

/-- After a write the cache holds the new entry and otherwise only old ones. -/
theorem lookup_putEntry {s : Store} {now pick : Nat} {token k : String} {e x : CachedEntry}
    (h : (putEntry s now pick token e).cache.lookup k = some x) :
    (k = token ∧ x = e) ∨ s.cache.lookup k = some x := by
  by_cases hk : k = token
  · subst hk
    simp only [putEntry, AList.lookup_insert, Option.some.injEq] at h
    exact Or.inl ⟨rfl, h.symm⟩
  · simp only [putEntry, AList.lookup_insert_ne hk] at h
    exact Or.inr (evict_within s now pick k x h)

@[simp] theorem resolve_cacheTTL (w : World) (token : String) (queryFails : Bool) (pick : Nat) :
    (resolve w token queryFails pick).1.cacheTTL = w.store.cacheTTL := by
  unfold resolve queryDatabase
  repeat' split
  all_goals simp [cacheMiss, cacheRevoked, cacheHit]

/-- What a lookup leaves in the cache: an old entry, an entry without a token, or the
token scanned just now from an active row. -/
theorem lookup_resolve {w : World} {token k : String} {queryFails : Bool} {pick : Nat}
    {x : CachedEntry} (h : (resolve w token queryFails pick).1.cache.lookup k = some x) :
    w.store.cache.lookup k = some x ∨ x.token = none ∨
    ∃ row, w.rows k = some row ∧ row.revokedAt = none ∧
      x = ⟨some (row.scan k), false, w.now + w.store.cacheTTL⟩ := by
  unfold resolve queryDatabase at h
  split at h
  · exact Or.inl h
  split at h
  · split at h <;> exact Or.inl h
  split at h
  · exact Or.inl h
  split at h
  · rcases lookup_putEntry h with ⟨-, rfl⟩ | h
    · exact Or.inr (Or.inl rfl)
    · exact Or.inl h
  · rename_i row hrow
    split at h
    · rcases lookup_putEntry h with ⟨-, rfl⟩ | h
      · exact Or.inr (Or.inl rfl)
      · exact Or.inl h
    · rename_i hact
      rcases lookup_putEntry h with ⟨rfl, rfl⟩ | h
      · exact Or.inr (Or.inr ⟨row, hrow, by simpa using hact, rfl⟩)
      · exact Or.inl h

theorem start_invariant {w : World} (h : inbox.start w) : Invariant w where
  created := h.2
  cached_active k e t he := by simp [h.1] at he

/-- Rows only ever gain a usage time or, when still active, a revocation dated now. -/
def Later (now : Nat) (r s : Row) : Prop :=
  s.tenantID = r.tenantID ∧ s.templateID = r.templateID ∧ s.createdAt = r.createdAt ∧
    (s.revokedAt = r.revokedAt ∨ s.revokedAt = some now)

theorem Later.activeAt {now t : Nat} {r s : Row} (h : Later now r s) (ht : t ≤ now)
    (ha : r.ActiveAt t) : s.ActiveAt t := by
  obtain ⟨-, -, hc, hr⟩ := h
  refine ⟨hc ▸ ha.1, fun u hu => ?_⟩
  rcases hr with hr | hr
  · exact ha.2 u (hr ▸ hu)
  · rw [hr] at hu
    exact Option.some.inj hu ▸ ht

/-- Updating the rows in place keeps the invariant, whatever the store. -/
theorem setRow_invariant {w : World} (h : Invariant w) (token : String) (f : Row → Row)
    (hf : ∀ r, Later w.now r (f r)) : Invariant (setRow w token f) := by
  have row_of : ∀ k r, w.rows k = some r →
      ∃ s, (setRow w token f).rows k = some s ∧ Later w.now r s := by
    intro k r hr
    by_cases hk : k = token
    · subst hk; exact ⟨f r, by simp [setRow, hr], hf r⟩
    · exact ⟨r, by simp [setRow, hk, hr], rfl, rfl, rfl, Or.inl rfl⟩
  constructor
  · intro k r hr
    by_cases hk : k = token
    · subst hk
      simp only [setRow, Function.update_self, Option.map_eq_some_iff] at hr
      obtain ⟨q, hq, rfl⟩ := hr
      exact (hf q).2.2.1 ▸ h.created k q hq
    · exact h.created k r (by simpa [setRow, hk] using hr)
  · intro k e t he ht
    obtain ⟨row, u, hrow, hd, hu, hx, ha⟩ := h.cached_active k e t he ht
    obtain ⟨s, hs, hl⟩ := row_of k row hrow
    exact ⟨s, u, hs, ⟨hd.1, hd.2.1.trans hl.1.symm, hd.2.2.trans hl.2.1.symm⟩, hu, hx,
      hl.activeAt hu ha⟩

theorem next_invariant {w u : World} {e : Event} (h : Invariant w)
    (hn : next w e = some u) : Invariant u := by
  cases e with
  | resolve token queryFails pick =>
    simp only [next, Option.some.injEq] at hn
    subst hn
    refine ⟨h.created, ?_⟩
    intro k e t he ht
    simp only [resolve_cacheTTL]
    rcases lookup_resolve he with he | hnone | ⟨row, hrow, hact, rfl⟩
    · exact h.cached_active k e t he ht
    · rw [hnone] at ht; cases ht
    · simp only [Option.some.injEq] at ht
      subst ht
      exact ⟨row, w.now, hrow, ⟨rfl, rfl, rfl⟩, le_rfl, rfl, h.created k row hrow,
        fun u hu => by rw [hact] at hu; cases hu⟩
  | touchLastUsed token =>
    simp only [next, Option.some.injEq] at hn
    subst hn
    refine setRow_invariant h token _ fun r => ?_
    split
    · exact ⟨rfl, rfl, rfl, Or.inl rfl⟩
    · exact ⟨rfl, rfl, rfl, Or.inl rfl⟩
  | invalidate token =>
    simp only [next, Option.some.injEq] at hn
    subst hn
    exact ⟨h.created, fun k e t he => h.cached_active k e t (erase_within _ token k e he)⟩
  | mint token tenantID templateID label hmacSecret =>
    simp only [next] at hn
    split at hn
    · cases hn
    rename_i hfresh
    simp only [Option.some.injEq] at hn
    subst hn
    have hnone : w.rows token = none := by simpa using hfresh
    constructor
    · intro k r hr
      by_cases hk : k = token
      · subst hk
        simp only [Function.update_self, Option.some.injEq] at hr
        subst hr
        exact le_rfl
      · exact h.created k r (by simpa [hk] using hr)
    · intro k e t he ht
      obtain ⟨row, u, hrow, hd, hu, hx, ha⟩ := h.cached_active k e t he ht
      have hk : k ≠ token := by rintro rfl; rw [hnone] at hrow; cases hrow
      exact ⟨row, u, by simpa [hk] using hrow, hd, hu, hx, ha⟩
  | revoke token =>
    simp only [next, Option.some.injEq] at hn
    subst hn
    refine setRow_invariant h token _ fun r => ?_
    split
    · exact ⟨rfl, rfl, rfl, Or.inl rfl⟩
    · exact ⟨rfl, rfl, rfl, Or.inr rfl⟩
  | advance d =>
    simp only [next, Option.some.injEq] at hn
    subst hn
    constructor
    · exact fun k r hr => Nat.le_add_right_of_le (h.created k r hr)
    · intro k e t he ht
      obtain ⟨row, u, hrow, hd, hu, hx, ha⟩ := h.cached_active k e t he ht
      exact ⟨row, u, hrow, hd, Nat.le_add_right_of_le hu, hx, ha⟩

theorem reachable_invariant {w : World} (h : Reachable inbox anyStep w) : Invariant w :=
  h.invariant (fun _ => start_invariant) (fun _ _ _ hi _ hn => next_invariant hi hn)

theorem freshEntry_eq_some {w : World} {token : String} {e : CachedEntry} :
    freshEntry w token = some e ↔ w.store.cache.lookup token = some e ∧ w.now < e.expires := by
  simp [freshEntry, Option.filter_eq_some_iff]

theorem fresh_token_active {w : World} (h : Invariant w) {token : String} {e : CachedEntry}
    {t : Token} (he : freshEntry w token = some e) (ht : e.token = some t) :
    t.token = token ∧ RecentlyActive w token := by
  obtain ⟨hl, hx⟩ := freshEntry_eq_some.mp he
  obtain ⟨row, u, hrow, hd, hu, hexp, ha⟩ := h.cached_active token e t hl ht
  exact ⟨hd.1, row, u, hrow, hu, by omega, ha⟩

theorem active_row {w : World} (h : Invariant w) {token : String} {row : Row}
    (hrow : w.rows token = some row) (hact : row.revokedAt = none) : RecentlyActive w token :=
  ⟨row, w.now, hrow, le_rfl, Nat.le_add_right _ _, h.created token row hrow,
    fun u hu => by rw [hact] at hu; cases hu⟩

/-- The database half of a lookup always meets the contract. -/
theorem queryDatabase_fail_closed {w : World} (h : Invariant w) (token : String)
    (queryFails : Bool) (pick : Nat) :
    FailClosed w token (queryDatabase w token queryFails pick).2 := by
  unfold queryDatabase
  split
  · trivial
  split
  · trivial
  rename_i row hrow
  split
  · trivial
  · rename_i hact
    exact ⟨rfl, active_row h hrow (by simpa using hact)⟩

theorem resolve_fail_closed {w : World} (h : Invariant w) {token : String}
    (hn : ¬ LiveNegative w token) (queryFails : Bool) (pick : Nat) :
    FailClosed w token (resolve w token queryFails pick).2 := by
  unfold resolve
  split
  · trivial
  rename_i hne
  split
  · rename_i e he
    split
    · trivial
    rename_i hrev
    cases ht : e.token with
    | none => exact (hn ⟨hne, e, he, by simpa using hrev, ht⟩).elim
    | some t => exact fresh_token_active h he ht
  · exact queryDatabase_fail_closed h token queryFails pick

theorem resolve_live_negative {w : World} {token : String} (hn : LiveNegative w token)
    (queryFails : Bool) (pick : Nat) :
    (resolve w token queryFails pick).2 = (none, none) := by
  obtain ⟨hne, e, he, hrev, ht⟩ := hn
  simp [resolve, hne, he, hrev, ht]

/-- The wrapper writes an error status for every result that carries an error. -/
theorem serve_success {w : World} {token : String} {queryFails : Bool} {pick : Nat}
    {process : Token → Nat} (hr : FailClosed w token (resolve w token queryFails pick).2)
    (hs : Success (serve (some w) token queryFails pick process)) : RecentlyActive w token := by
  unfold serve resolveOrFail at hs
  rcases hres : (resolve w token queryFails pick).2 with ⟨_ | t, _ | err⟩
  · rw [hres] at hr; exact hr.elim
  · cases err <;> simp [hres, Success] at hs
  · rw [hres] at hr; exact hr.2
  · rw [hres] at hr; exact hr.elim

theorem call_fails_closed_iff {w : World} (h : Invariant w) (e : Event) :
    CallFailsClosed w e ↔ NoNegativeHit w e := by
  cases e with
  | resolve token queryFails pick =>
    constructor
    · rintro ⟨hf, -⟩ hn
      rw [resolve_live_negative hn] at hf
      exact hf
    · intro hn
      have hf := resolve_fail_closed h hn queryFails pick
      exact ⟨hf, fun process => serve_success hf⟩
  | _ => exact Iff.rfl

/-- Along every history the calls fail closed exactly when none of them is answered from
an unexpired entry for an unknown token. -/
theorem resolve_fails_closed_iff_no_negative_hit {w : World} (hw : inbox.start w)
    (es : List Event) :
    GuardedTrace inbox CallFailsClosed w es ↔ GuardedTrace inbox NoNegativeHit w es :=
  TransitionSystem.guardedTrace_congr (fun _ _ _ hi _ hn => next_invariant hi hn)
    (fun _ e hi => call_fails_closed_iff hi e) (start_invariant hw)

/-- A process that has just started, over an empty table, with the default limits. -/
def freshWorld : World := ⟨⟨∅, 60 * second, 4096⟩, 0, fun _ => none⟩

theorem resolve_fails_closed_fresh_world :
    GuardedTrace inbox CallFailsClosed freshWorld [.resolve "bogus" false 0] ↔
      GuardedTrace inbox NoNegativeHit freshWorld [.resolve "bogus" false 0] :=
  resolve_fails_closed_iff_no_negative_hit ⟨rfl, fun _ _ h => by cases h⟩ _

/-- The second request for an unknown token within five seconds gets neither a token nor
an error, and the route answers it with 200. -/
theorem second_unknown_lookup_succeeds :
    ¬ ∀ w es, inbox.start w → GuardedTrace inbox CallFailsClosed w es := by
  intro h
  have hs : inbox.start freshWorld := ⟨rfl, fun _ _ h => by cases h⟩
  have hg := h freshWorld [.resolve "bogus" false 0, .resolve "bogus" false 0] hs
  exact (hg.2 _ rfl).1.1

end InboxTokenStore
