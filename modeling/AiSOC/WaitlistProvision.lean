import AiSOC.CodeText
import AiSOC.ReadCommitted
import AiSOC.TransitionSystem
import AiSOC.UniqueIndex

/-! # Promoting a waitlist entry into a tenant

`provision_from_waitlist` looks at the entry, picks a slug, inserts the tenant and its admin,
seeds demo data and stamps the entry, all in the transaction of its caller. Calls of any number
run at once for one entry. -/
namespace WaitlistProvision

open CodeText (Text CodePoint cp text strip between)
open ReadCommitted (Store)
open TransitionSystem (System Reachable runTrace GuardedTrace anyStep)
open UniqueIndex (Table)

inductive WaitlistStatus where
  | new | contacted | onboarded | declined
  deriving DecidableEq, Repr

structure WaitlistEntry where
  email : String
  company : Text
  status : WaitlistStatus
  provisionedTenantID : Option String
  contactedAt : Option ℤ
  onboardedAt : Option ℤ

/-- `settingsFrom` is the entry that the settings name, the last two are the columns of the
migration. -/
structure Tenant where
  id : String
  name : Text
  slug : Text
  fingerprint : Text
  settingsFrom : Option String
  provisionedFrom : Option String
  provisionedAt : Option ℤ
  deriving DecidableEq

/-- The rows of `users` are kept under their e-mail. -/
structure User where
  id : String
  tenantID : String
  role : String

structure ProvisionResult where
  tenantID : String
  tenantSlug : Text
  tenantName : Text
  waitlistEntryID : String
  adminID : String
  adminEmail : String
  adminRole : String
  demoSeeded : Bool
  fingerprint : Text

/-- The entry that is promoted, and `str.lower`. -/
structure Config where
  entryID : String
  lower : Text → Text

/-! ## Slugs -/

/-- Every run of characters that meet `p` becomes one dash; `inRun` is set inside a run. -/
def replaceRuns (p : CodePoint → Bool) (inRun : Bool) : Text → Text
  | [] => []
  | c :: t =>
    if p c then
      if inRun then replaceRuns p true t else cp '-' :: replaceRuns p true t
    else c :: replaceRuns p false t

def slugChar (c : CodePoint) : Bool := between 'a' 'z' c || between '0' '9' c || c = cp '-'

def stripDashes (t : Text) : Text := (t.dropWhile (· = cp '-')).rdropWhile (· = cp '-')

def normalizeSlugSeed (config : Config) (companyName : Text) : Text :=
  if companyName = [] then text "tenant"
  else
    let seed := (config.lower (strip companyName)).map fun c =>
      if c = cp '_' || c = cp ' ' then cp '-' else c
    let seed := replaceRuns (fun c => !slugChar c) false seed
    let seed := stripDashes (replaceRuns (· = cp '-') false seed)
    let seed :=
      if seed.length < 3 then if seed ≠ [] then seed ++ text "-tenant" else text "tenant"
      else seed
    seed.take 60

/-- A suffix that is too long cuts the seed from its end. -/
def slugWithShard (seed shard : Text) : Text :=
  let suffix := cp '-' :: shard
  let head :=
    if suffix.length ≤ 60 then seed.take (60 - suffix.length)
    else seed.take (seed.length - (suffix.length - 60))
  head ++ suffix

/-- The slug of each attempt: the seed itself, then with shards. -/
def candidate (config : Config) (companyName : Text) (attempt : ℕ) (shard : Text) : Text :=
  let seed := normalizeSlugSeed config companyName
  if attempt = 0 then seed else slugWithShard seed shard

example : normalizeSlugSeed ⟨"e", fun t => t.map CodeText.foldCase⟩ (text "Acme, Inc. (HQ)") =
    text "acme-inc-hq" := by decide

/-! ## The calls -/

inductive Response where
  | provisioned (result : ProvisionResult)
  | failed (detail : Text)

/-- `raised` is an exception that has not reached the caller's rollback yet. -/
inductive Phase where
  | started
  | existing (entry : WaitlistEntry) (tenantID : String)
  | foundTenant (entry : WaitlistEntry) (tenant : Tenant)
  | allocating (entry : WaitlistEntry) (attempt : ℕ)
  | allocated (entry : WaitlistEntry) (slug : Text)
  | tenantInserted (entry : WaitlistEntry) (tenant : Tenant)
  | persisted (entry : WaitlistEntry) (tenant : Tenant)
  | adminInserted (entry : WaitlistEntry) (tenant : Tenant) (admin : User)
  | seeded (entry : WaitlistEntry) (tenant : Tenant) (admin : User) (demoSeeded : Bool)
  | stamped (tenant : Tenant) (admin : User) (result : ProvisionResult)
  | returning (result : ProvisionResult)
  | raised (detail : Text)
  | done (response : Response)

structure Call where
  seedDemo : Bool
  phase : Phase

def Clash (a b : Tenant) : Prop := a.id = b.id ∨ a.slug = b.slug

instance : DecidableRel Clash := fun _ _ => inferInstanceAs (Decidable (_ ∨ _))

structure State where
  tenants : Table ℕ Tenant
  users : Store ℕ String (Option User)
  entries : Store ℕ String (Option WaitlistEntry)
  calls : ℕ → Option Call

/-- What the seeder comes to: it returns, or raises, with or without having broken the
transaction. -/
inductive Seeding where
  | returns | raises | breaks

/-- A `seed` is a write of the demo seeder on the users. -/
inductive Act where
  | call (id : ℕ) (seedDemo : Bool)
  | load (id : ℕ)
  | findTenant (id : ℕ)
  | findAdmin (id : ℕ) (newID : String)
  | probe (id : ℕ) (shard : Text)
  | insertTenant (id : ℕ) (tenantID : String) (fingerprint : Text)
  | persist (id : ℕ) (now : ℤ)
  | insertAdmin (id : ℕ) (adminID : String)
  | seed (id : ℕ) (email : String) (f : Option User → Option User)
  | seedEnds (id : ℕ) (outcome : Seeding)
  | stamp (id : ℕ) (now : ℤ)
  | commit (id : ℕ)
  | abort (id : ℕ)

def State.move (s : State) (id : ℕ) (call : Call) (phase : Phase) : State :=
  { s with calls := Function.update s.calls id (some { call with phase := phase }) }

def State.rollback (s : State) (id : ℕ) : State :=
  { s with
    tenants := s.tenants.rollback id
    users := s.users.rollback id
    entries := s.entries.rollback id }

def State.commit (s : State) (id : ℕ) : State :=
  { s with
    tenants := s.tenants.commit id
    users := s.users.commit id
    entries := s.entries.commit id }

/-- The `UPDATE` of the entry; columns that keep the value that was read are left out. -/
def WaitlistEntry.stamp (seen : WaitlistEntry) (tenantID : String) (now : ℤ)
    (entry : WaitlistEntry) : WaitlistEntry :=
  { entry with
    status := if seen.status = .onboarded then entry.status else .onboarded
    provisionedTenantID := some tenantID
    contactedAt := if seen.contactedAt = none then some now else entry.contactedAt
    onboardedAt := if seen.onboardedAt = some now then entry.onboardedAt else some now }

/-- What is made of the entry that is read. -/
def check (config : Config) (entry : Option WaitlistEntry) : Phase :=
  match entry with
  | none => .raised (text "waitlist entry " ++ text config.entryID ++ text " not found")
  | some entry =>
    match entry.provisionedTenantID with
    | some tenantID => .existing entry tenantID
    | none =>
      if entry.status = .declined then
        .raised (text "waitlist entry " ++ text config.entryID ++
          text " is declined; refusing to promote")
      else .allocating entry 0

def resultForExisting (config : Config) (entry : WaitlistEntry) (tenant : Tenant)
    (admin : Option User) (newID : String) : ProvisionResult :=
  let admin := admin.filter fun u => u.tenantID = tenant.id
  { tenantID := tenant.id, tenantSlug := tenant.slug, tenantName := tenant.name
    waitlistEntryID := config.entryID
    adminID := (admin.map User.id).getD newID
    adminEmail := entry.email
    adminRole := (admin.map User.role).getD "tenant_admin"
    demoSeeded := false, fingerprint := tenant.fingerprint }

def resultForNew (config : Config) (entry : WaitlistEntry) (tenant : Tenant) (admin : User)
    (demoSeeded : Bool) : ProvisionResult :=
  { tenantID := tenant.id, tenantSlug := tenant.slug, tenantName := tenant.name
    waitlistEntryID := config.entryID
    adminID := admin.id, adminEmail := entry.email, adminRole := admin.role
    demoSeeded := demoSeeded, fingerprint := tenant.fingerprint }

/-- The insertion of a tenant, before its columns are set. -/
def newTenant (config : Config) (entry : WaitlistEntry) (slug : Text) (tenantID : String)
    (fingerprint : Text) : Tenant :=
  ⟨tenantID, entry.company, slug, fingerprint, some config.entryID, none, none⟩

/-- An `UPDATE` of the tenant with the id. -/
def persistProvisioningColumns (config : Config) (tenantID : String) (now : ℤ)
    (tenant : Tenant) : Tenant :=
  if tenant.id = tenantID then
    { tenant with provisionedFrom := some config.entryID, provisionedAt := some now }
  else tenant

/-- A step that is not enabled waits, or does not apply. The seeder may write any user, but
leaves the admin to the tenant. -/
def State.next (config : Config) (s : State) : Act → Option State
  | .call id seedDemo =>
    if (s.calls id).isSome then none else some (s.move id ⟨seedDemo, .started⟩ .started)
  | .load id => (s.calls id).bind fun call =>
    match call.phase with
    | .started => some (s.move id call (check config (s.entries.read id config.entryID)))
    | _ => none
  | .findTenant id => (s.calls id).bind fun call =>
    match call.phase with
    | .existing entry tenantID =>
      match (s.tenants.visible id).find? fun t => t.id = tenantID with
      | none => some (s.move id call (.raised (text "waitlist entry " ++ text config.entryID ++
          text " pointed at a deleted tenant; cleared the pointer")))
      | some tenant => some (s.move id call (.foundTenant entry tenant))
    | _ => none
  | .findAdmin id newID => (s.calls id).bind fun call =>
    match call.phase with
    | .foundTenant entry tenant => some (s.move id call (.returning
        (resultForExisting config entry tenant (s.users.read id entry.email) newID)))
    | _ => none
  | .probe id shard => (s.calls id).bind fun call =>
    match call.phase with
    | .allocating entry attempt =>
      let slug := candidate config entry.company attempt shard
      if (s.tenants.visible id).all fun t => t.slug ≠ slug then
        some (s.move id call (.allocated entry slug))
      else if attempt < 8 then some (s.move id call (.allocating entry (attempt + 1)))
      else some (s.move id call (.raised (text "could not allocate a unique slug for '" ++
        entry.company ++ text "' after 8 attempts")))
    | _ => none
  | .insertTenant id tenantID fingerprint => (s.calls id).bind fun call =>
    match call.phase with
    | .allocated entry slug =>
      let tenant := newTenant config entry slug tenantID fingerprint
      match s.tenants.insert Clash id tenant with
      | .waits => none
      | .violated => some (s.move id call (.raised (text "IntegrityError")))
      | .done tenants =>
        some (State.move { s with tenants := tenants } id call (.tenantInserted entry tenant))
    | _ => none
  | .persist id now => (s.calls id).bind fun call =>
    match call.phase with
    | .tenantInserted entry tenant =>
      let columns := persistProvisioningColumns config tenant.id now
      some (State.move { s with tenants := s.tenants.amend id columns } id call
        (.persisted entry (columns tenant)))
    | _ => none
  | .insertAdmin id adminID => (s.calls id).bind fun call =>
    match call.phase with
    | .persisted entry tenant =>
      let admin : User := ⟨adminID, tenant.id, "tenant_admin"⟩
      (s.users.write id entry.email fun _ => some admin).map fun users =>
        if (s.users.read id entry.email).isSome then
          s.move id call (.raised (text "IntegrityError"))
        else State.move { s with users := users } id call (.adminInserted entry tenant admin)
    | _ => none
  | .seed id email f => (s.calls id).bind fun call =>
    match call.phase with
    | .adminInserted entry tenant admin =>
      let row := f (s.users.read id email)
      if call.seedDemo ∧ (email = entry.email → row.map User.tenantID = some tenant.id) then
        (s.users.write id email f).map fun users =>
          State.move { s with users := users } id call (.adminInserted entry tenant admin)
      else none
    | _ => none
  | .seedEnds id outcome => (s.calls id).bind fun call =>
    match call.phase with
    | .adminInserted entry tenant admin =>
      match call.seedDemo, outcome with
      | false, .returns | true, .raises =>
        some (s.move id call (.seeded entry tenant admin false))
      | true, .returns => some (s.move id call (.seeded entry tenant admin true))
      -- the next statement fails
      | true, .breaks => some (s.move id call (.raised (text "PendingRollbackError")))
      | false, _ => none
    | _ => none
  | .stamp id now => (s.calls id).bind fun call =>
    match call.phase with
    | .seeded entry tenant admin demoSeeded =>
      (s.entries.write id config.entryID (Option.map (entry.stamp tenant.id now))).map
        fun entries => State.move { s with entries := entries } id call
          (.stamped tenant admin (resultForNew config entry tenant admin demoSeeded))
    | _ => none
  | .commit id => (s.calls id).bind fun call =>
    match call.phase with
    | .stamped _ _ result | .returning result =>
      some ((s.commit id).move id call (.done (.provisioned result)))
    | _ => none
  | .abort id => (s.calls id).bind fun call =>
    match call.phase with
    | .done _ => none
    | .raised detail => some ((s.rollback id).move id call (.done (.failed detail)))
    | _ => some ((s.rollback id).move id call (.done (.failed (text "connection lost"))))

/-! ## What is committed -/

def Config.ofEntry (config : Config) (tenant : Tenant) : Bool :=
  tenant.settingsFrom = some config.entryID

/-- The tenant is the only one of the entry, which points at it and has the e-mail of its
admin. -/
structure Promoted (config : Config) (email : String) (s : State) (tenant : Tenant) : Prop where
  alone : s.tenants.rows.filter config.ofEntry = [tenant]
  pointed : ∃ entry, s.entries.committed config.entryID = some entry ∧ entry.email = email ∧
    entry.provisionedTenantID = some tenant.id
  admin : ∃ admin, s.users.committed email = some admin ∧ admin.tenantID = tenant.id

structure Settled (config : Config) (email : String) (s : State) : Prop where
  address : ∀ entry, s.entries.committed config.entryID = some entry → entry.email = email
  one : ∀ tenant ∈ s.tenants.rows, config.ofEntry tenant = true → Promoted config email s tenant
  pointed : ∀ entry tenantID, s.entries.committed config.entryID = some entry →
    entry.provisionedTenantID = some tenantID →
      ∀ tenant ∈ s.tenants.rows, tenant.id = tenantID → config.ofEntry tenant = true

structure Idle (s : State) : Prop where
  tenants : s.tenants.pending = []
  users : ∀ email, s.users.held email = none
  entries : ∀ id, s.entries.held id = none
  calls : ∀ id, s.calls id = none

def system (config : Config) : System State Act where
  start s := Idle s ∧ s.tenants.Unique Clash ∧ ∃ email, Settled config email s
  next := State.next config

/-! ## What the calls hold and know -/

/-- The rows that a call may have inserted. -/
def Phase.Owns (tenant : Tenant) : Phase → Prop
  | .tenantInserted _ t | .persisted _ t | .adminInserted _ t _ | .seeded _ t _ _ |
    .stamped t _ _ => tenant = t
  | .raised _ => True
  | _ => False

def Phase.writesUsers : Phase → Bool
  | .adminInserted .. | .seeded .. | .stamped .. | .raised _ => true
  | _ => false

def Phase.writesEntry : Phase → Bool
  | .stamped .. => true
  | _ => false

/-- Nothing is written yet, or nothing any more. -/
def Phase.quiet : Phase → Bool
  | .started | .existing .. | .foundTenant .. | .allocating .. | .allocated .. | .returning _ |
    .done _ => true
  | _ => false

section

variable (config : Config) (email : String)

def Loaded (s : State) (entry : WaitlistEntry) : Prop :=
  entry.email = email ∧ (s.entries.committed config.entryID).isSome

/-- The tenant and its admin are inserted, and nobody else has the e-mail. -/
structure Built (s : State) (id : ℕ) (tenant : Tenant) : Prop where
  inserted : (id, tenant) ∈ s.tenants.pending
  admin : ∃ admin, s.users.held email = some (id, some admin) ∧ admin.tenantID = tenant.id
  free : s.users.committed email = none

def Phase.Knows (s : State) (id : ℕ) : Phase → Prop
  | .existing _ tenantID => ∀ t ∈ s.tenants.rows, t.id = tenantID → config.ofEntry t = true
  | .foundTenant _ tenant => tenant ∈ s.tenants.rows ∧ config.ofEntry tenant = true
  | .allocating entry _ | .allocated entry _ => Loaded config email s entry
  | .tenantInserted entry tenant | .persisted entry tenant =>
    Loaded config email s entry ∧ (id, tenant) ∈ s.tenants.pending
  | .adminInserted entry tenant _ | .seeded entry tenant _ _ =>
    Loaded config email s entry ∧ Built email s id tenant
  | .stamped tenant _ result => Built email s id tenant ∧ result.tenantID = tenant.id ∧
    ∃ entry, s.entries.held config.entryID = some (id, some entry) ∧ entry.email = email ∧
      entry.provisionedTenantID = some tenant.id
  | .returning result | .done (.provisioned result) =>
    ∃ t ∈ s.tenants.rows, config.ofEntry t = true ∧ result.tenantID = t.id
  | _ => True

structure Invariant (s : State) : Prop where
  settled : Settled config email s
  unique : s.tenants.Unique Clash
  tenants : ∀ id tenant, (id, tenant) ∈ s.tenants.pending → config.ofEntry tenant = true ∧
    ∃ call, s.calls id = some call ∧ call.phase.Owns tenant
  users : ∀ k id v, s.users.held k = some (id, v) →
    ∃ call, s.calls id = some call ∧ call.phase.writesUsers = true
  entries : ∀ k id v, s.entries.held k = some (id, v) →
    ∃ call, s.calls id = some call ∧ call.phase.writesEntry = true
  knows : ∀ id call, s.calls id = some call → call.phase.Knows config email s id

/-- What a step of one call leaves to the others. -/
structure Frame (s u : State) (id : ℕ) : Prop where
  pending : ∀ j t, j ≠ id → ((j, t) ∈ u.tenants.pending ↔ (j, t) ∈ s.tenants.pending)
  users : ∀ k j v, j ≠ id → (u.users.held k = some (j, v) ↔ s.users.held k = some (j, v))
  entries : ∀ k j v, j ≠ id → (u.entries.held k = some (j, v) ↔ s.entries.held k = some (j, v))
  rows : ∀ t ∈ s.tenants.rows, t ∈ u.tenants.rows
  news : ∀ t ∈ u.tenants.rows, t ∈ s.tenants.rows ∨ config.ofEntry t = true
  free : ∀ j v, j ≠ id → s.users.held email = some (j, v) →
    u.users.committed email = s.users.committed email
  entry : (s.entries.committed config.entryID).isSome →
    (u.entries.committed config.entryID).isSome

end

variable {config : Config} {email : String} {s t u : State} {id j : ℕ} {call : Call}
  {phase : Phase} {tenant : Tenant} {admin : User}

theorem Built.frame (h : Built email s j tenant) (hf : Frame config email s u id)
    (hj : j ≠ id) : Built email u j tenant := by
  obtain ⟨admin, hheld, hbelongs⟩ := h.admin
  constructor
  · exact (hf.pending j tenant hj).mpr h.inserted
  · exact ⟨admin, (hf.users email j _ hj).mpr hheld, hbelongs⟩
  · exact (hf.free j _ hj hheld).trans h.free

theorem Phase.Knows.frame (h : phase.Knows config email s j) (hf : Frame config email s u id)
    (hj : j ≠ id) : phase.Knows config email u j := by
  have hrow : ∀ {P : Tenant → Prop}, (∃ t ∈ s.tenants.rows, config.ofEntry t = true ∧ P t) →
      ∃ t ∈ u.tenants.rows, config.ofEntry t = true ∧ P t := by
    rintro P ⟨t, ht, hP⟩
    exact ⟨t, hf.rows t ht, hP⟩
  cases phase with
  | existing entry tenantID =>
    intro t ht hid
    rcases hf.news t ht with hold | hnew
    · exact h t hold hid
    · exact hnew
  | foundTenant entry tenant => exact ⟨hf.rows _ h.1, h.2⟩
  | allocating entry attempt => exact ⟨h.1, hf.entry h.2⟩
  | allocated entry slug => exact ⟨h.1, hf.entry h.2⟩
  | tenantInserted entry tenant =>
    exact ⟨⟨h.1.1, hf.entry h.1.2⟩, (hf.pending j tenant hj).mpr h.2⟩
  | persisted entry tenant => exact ⟨⟨h.1.1, hf.entry h.1.2⟩, (hf.pending j tenant hj).mpr h.2⟩
  | adminInserted entry tenant admin => exact ⟨⟨h.1.1, hf.entry h.1.2⟩, h.2.frame hf hj⟩
  | seeded entry tenant admin demoSeeded => exact ⟨⟨h.1.1, hf.entry h.1.2⟩, h.2.frame hf hj⟩
  | stamped tenant admin result =>
    obtain ⟨hbuilt, hresult, entry, hheld, hentry⟩ := h
    exact ⟨hbuilt.frame hf hj, hresult, entry, (hf.entries _ j _ hj).mpr hheld, hentry⟩
  | returning result => exact hrow h
  | started => trivial
  | raised detail => trivial
  | done response =>
    cases response with
    | provisioned result => exact hrow h
    | failed detail => trivial

theorem Invariant.step (hi : Invariant config email s) (hf : Frame config email s u id)
    (hcalls : u.calls = Function.update s.calls id (some { call with phase := phase }))
    (hsettled : Settled config email u) (hunique : u.tenants.Unique Clash)
    (htenants : ∀ t, (id, t) ∈ u.tenants.pending → config.ofEntry t = true ∧ phase.Owns t)
    (husers : ∀ k v, u.users.held k = some (id, v) → phase.writesUsers = true)
    (hentries : ∀ k v, u.entries.held k = some (id, v) → phase.writesEntry = true)
    (hknows : phase.Knows config email u id) : Invariant config email u := by
  have hself : u.calls id = some { call with phase := phase } := by
    rw [hcalls, Function.update_self]
  have hother : ∀ j, j ≠ id → u.calls j = s.calls j := by
    intro j hj
    rw [hcalls, Function.update_of_ne hj]
  refine ⟨hsettled, hunique, ?_, ?_, ?_, ?_⟩
  · intro j t ht
    by_cases hj : j = id
    · rw [hj] at ht ⊢
      exact ⟨(htenants t ht).1, _, hself, (htenants t ht).2⟩
    · rw [hother j hj]
      exact hi.tenants j t ((hf.pending j t hj).mp ht)
  · intro k j v hheld
    by_cases hj : j = id
    · rw [hj] at hheld ⊢
      exact ⟨_, hself, husers k v hheld⟩
    · rw [hother j hj]
      exact hi.users k j v ((hf.users k j v hj).mp hheld)
  · intro k j v hheld
    by_cases hj : j = id
    · rw [hj] at hheld ⊢
      exact ⟨_, hself, hentries k v hheld⟩
    · rw [hother j hj]
      exact hi.entries k j v ((hf.entries k j v hj).mp hheld)
  · intro j call' hcall'
    by_cases hj : j = id
    · rw [hj] at hcall' ⊢
      rw [hself] at hcall'
      rw [← Option.some.inj hcall']
      exact hknows
    · rw [hother j hj] at hcall'
      exact (hi.knows j call' hcall').frame hf hj

/-! ### The kinds of steps -/

/-- A step that writes no table. -/
theorem frame_move : Frame config email s (s.move id call phase) id :=
  ⟨fun _ _ _ => Iff.rfl, fun _ _ _ _ => Iff.rfl, fun _ _ _ _ => Iff.rfl, fun _ h => h,
    fun _ h => Or.inl h, fun _ _ _ _ => rfl, fun h => h⟩

theorem frame_tenants {tenants : Table ℕ Tenant} (hrows : tenants.rows = s.tenants.rows)
    (hpending : ∀ j t, j ≠ id → ((j, t) ∈ tenants.pending ↔ (j, t) ∈ s.tenants.pending)) :
    Frame config email s (State.move { s with tenants := tenants } id call phase) id :=
  ⟨hpending, fun _ _ _ _ => Iff.rfl, fun _ _ _ _ => Iff.rfl, fun _ h => hrows.symm ▸ h,
    fun _ h => Or.inl (hrows ▸ h), fun _ _ _ _ => rfl, fun h => h⟩

theorem frame_users {users : Store ℕ String (Option User)} {k : String}
    {f : Option User → Option User} (hwrite : s.users.write id k f = some users) :
    Frame config email s (State.move { s with users := users } id call phase) id := by
  refine ⟨fun _ _ _ => Iff.rfl, fun _ _ _ hj => ReadCommitted.held_write_of_ne hwrite hj,
    fun _ _ _ _ => Iff.rfl, fun _ h => h, fun _ h => Or.inl h, ?_, fun h => h⟩
  intro j v _ _
  exact congrFun (ReadCommitted.committed_write hwrite) email

theorem frame_entries {entries : Store ℕ String (Option WaitlistEntry)} {k : String}
    {f : Option WaitlistEntry → Option WaitlistEntry}
    (hwrite : s.entries.write id k f = some entries) :
    Frame config email s (State.move { s with entries := entries } id call phase) id := by
  refine ⟨fun _ _ _ => Iff.rfl, fun _ _ _ _ => Iff.rfl,
    fun _ _ _ hj => ReadCommitted.held_write_of_ne hwrite hj, fun _ h => h, fun _ h => Or.inl h,
    fun _ _ _ _ => rfl, ?_⟩
  intro h
  rw [State.move, ReadCommitted.committed_write hwrite]
  exact h

theorem frame_rollback : Frame config email s ((s.rollback id).move id call phase) id :=
  ⟨fun _ _ hj => UniqueIndex.mem_pending_rollback.trans (and_iff_left hj),
    fun _ _ _ hj => ReadCommitted.held_rollback.trans (and_iff_left hj),
    fun _ _ _ hj => ReadCommitted.held_rollback.trans (and_iff_left hj),
    fun _ h => h, fun _ h => Or.inl h, fun _ _ _ _ => rfl, fun h => h⟩

theorem Invariant.frame_commit (hi : Invariant config email s)
    (hentry : (s.entries.committed config.entryID).isSome →
      (s.entries.read id config.entryID).isSome) :
    Frame config email s ((s.commit id).move id call phase) id := by
  refine ⟨fun _ _ hj => UniqueIndex.mem_pending_commit.trans (and_iff_left hj),
    fun _ _ _ hj => ReadCommitted.held_rollback.trans (and_iff_left hj),
    fun _ _ _ hj => ReadCommitted.held_rollback.trans (and_iff_left hj),
    fun _ h => UniqueIndex.mem_rows_commit.mpr (Or.inl h), ?_, ?_, hentry⟩
  · intro t ht
    rcases UniqueIndex.mem_rows_commit.mp ht with hold | hnew
    · exact Or.inl hold
    · exact Or.inr (hi.tenants id t hnew).1
  · intro j v hj hheld
    apply ReadCommitted.committed_commit_of_not_held
    intro w hw
    rw [hheld] at hw
    exact hj (Prod.mk.inj (Option.some.inj hw)).1

/-! ### What a call holds -/

theorem Invariant.owns (hi : Invariant config email s) (hcall : s.calls id = some call)
    (h : (id, tenant) ∈ s.tenants.pending) :
    config.ofEntry tenant = true ∧ call.phase.Owns tenant := by
  obtain ⟨hof, call', hcall', howns⟩ := hi.tenants id tenant h
  obtain rfl := Option.some.inj (hcall.symm.trans hcall')
  exact ⟨hof, howns⟩

theorem Invariant.writesUsers (hi : Invariant config email s) (hcall : s.calls id = some call)
    {k : String} {v : Option User} (h : s.users.held k = some (id, v)) :
    call.phase.writesUsers = true := by
  obtain ⟨call', hcall', hwrites⟩ := hi.users k id v h
  obtain rfl := Option.some.inj (hcall.symm.trans hcall')
  exact hwrites

theorem Invariant.writesEntry (hi : Invariant config email s) (hcall : s.calls id = some call)
    {k : String} {v : Option WaitlistEntry} (h : s.entries.held k = some (id, v)) :
    call.phase.writesEntry = true := by
  obtain ⟨call', hcall', hwrites⟩ := hi.entries k id v h
  obtain rfl := Option.some.inj (hcall.symm.trans hcall')
  exact hwrites

theorem Invariant.no_users (hi : Invariant config email s) (hcall : s.calls id = some call)
    (hphase : call.phase.writesUsers = false) (k : String) (v : Option User) :
    s.users.held k ≠ some (id, v) := by
  intro hheld
  have hwrites := hi.writesUsers hcall hheld
  rw [hphase] at hwrites
  cases hwrites

theorem Invariant.no_entries (hi : Invariant config email s) (hcall : s.calls id = some call)
    (hphase : call.phase.writesEntry = false) (k : String) (v : Option WaitlistEntry) :
    s.entries.held k ≠ some (id, v) := by
  intro hheld
  have hwrites := hi.writesEntry hcall hheld
  rw [hphase] at hwrites
  cases hwrites

theorem Settled.of_eq (h : Settled config email s) (hrows : u.tenants.rows = s.tenants.rows)
    (husers : u.users.committed = s.users.committed)
    (hentries : u.entries.committed = s.entries.committed) : Settled config email u := by
  constructor
  · rw [hentries]
    exact h.address
  · rw [hrows]
    intro tenant htenant hof
    obtain ⟨halone, hpointed, hadmin⟩ := h.one tenant htenant hof
    constructor
    · rw [hrows]
      exact halone
    · rw [hentries]
      exact hpointed
    · rw [husers]
      exact hadmin
  · rw [hentries, hrows]
    exact h.pointed

theorem knows_move {phase' : Phase} (h : phase.Knows config email s id) :
    phase.Knows config email (s.move j call phase') id := by
  cases phase with
  | done response => cases response <;> exact h
  | adminInserted => exact ⟨h.1, h.2.1, h.2.2, h.2.3⟩
  | seeded => exact ⟨h.1, h.2.1, h.2.2, h.2.3⟩
  | stamped => exact ⟨⟨h.1.1, h.1.2, h.1.3⟩, h.2⟩
  | _ => exact h

/-- A step that writes nothing. -/
theorem Invariant.stay (hi : Invariant config email s) (hcall : s.calls id = some call)
    (howns : ∀ t, call.phase.Owns t → phase.Owns t)
    (husers : call.phase.writesUsers = true → phase.writesUsers = true)
    (hentries : call.phase.writesEntry = true → phase.writesEntry = true)
    (hknows : phase.Knows config email s id) :
    Invariant config email (s.move id call phase) := by
  refine hi.step frame_move rfl (hi.settled.of_eq rfl rfl rfl) hi.unique ?_ ?_ ?_
    (knows_move hknows)
  · intro t ht
    exact ⟨(hi.owns hcall ht).1, howns t (hi.owns hcall ht).2⟩
  · exact fun k v hheld => husers (hi.writesUsers hcall hheld)
  · exact fun k v hheld => hentries (hi.writesEntry hcall hheld)

theorem Invariant.stay_quiet (hi : Invariant config email s) (hcall : s.calls id = some call)
    (hquiet : call.phase.quiet = true) (hknows : phase.Knows config email s id) :
    Invariant config email (s.move id call phase) := by
  have hnothing : (∀ t, ¬ call.phase.Owns t) ∧ call.phase.writesUsers = false ∧
      call.phase.writesEntry = false := by
    cases hphase : call.phase with
    | tenantInserted | persisted | adminInserted | seeded | stamped | raised =>
      rw [hphase] at hquiet
      cases hquiet
    | _ => exact ⟨fun _ h => h, rfl, rfl⟩
  obtain ⟨howns, husers, hentry⟩ := hnothing
  refine hi.stay hcall ?_ ?_ ?_ hknows
  · exact fun t h => absurd h (howns t)
  · rw [husers]
    nofun
  · rw [hentry]
    nofun

theorem Invariant.raise (hi : Invariant config email s) (hcall : s.calls id = some call)
    (hphase : call.phase.writesEntry = false) (detail : Text) :
    Invariant config email (s.move id call (.raised detail)) := by
  refine hi.stay hcall ?_ ?_ ?_ trivial
  · exact fun _ _ => trivial
  · exact fun _ => rfl
  · rw [hphase]
    nofun

/-! ### The steps -/

theorem symm_clash (a b : Tenant) (h : Clash a b) : Clash b a := h.imp Eq.symm Eq.symm

/-- What is made of the entry that is committed. -/
theorem knows_check (hi : Invariant config email s)
    (hread : s.entries.read id config.entryID = s.entries.committed config.entryID) :
    (check config (s.entries.read id config.entryID)).Knows config email s id := by
  rw [hread]
  rcases hentry : s.entries.committed config.entryID with - | entry
  · trivial
  · rw [check.eq_def]
    dsimp only
    split
    · rename_i tenantID hpointer
      exact hi.settled.pointed entry tenantID hentry hpointer
    · split_ifs
      · trivial
      · exact ⟨hi.settled.address entry hentry, Option.isSome_of_eq_some hentry⟩

theorem Invariant.insertTenant (hi : Invariant config email s) (hcall : s.calls id = some call)
    {entry : WaitlistEntry} {slug : Text} (hphase : call.phase = .allocated entry slug)
    {tenantID : String} {fingerprint : Text} {tenants : Table ℕ Tenant}
    (hinsert : s.tenants.insert Clash id
      (newTenant config entry slug tenantID fingerprint) = .done tenants) :
    Invariant config email (State.move { s with tenants := tenants } id call
      (.tenantInserted entry (newTenant config entry slug tenantID fingerprint))) := by
  have hknows := hi.knows id call hcall
  rw [hphase] at hknows
  have hunique := hi.unique.insert hinsert
  obtain ⟨-, -, rfl⟩ := UniqueIndex.insert_eq_done_iff.mp hinsert
  have hfresh : ∀ t, (id, t) ∈ s.tenants.pending ++ [(id, newTenant config entry slug tenantID
      fingerprint)] → t = newTenant config entry slug tenantID fingerprint := by
    intro t ht
    rcases List.mem_append.mp ht with hold | hnew
    · have howns := (hi.owns hcall hold).2
      rw [hphase] at howns
      exact howns.elim
    · exact (Prod.mk.inj (List.mem_singleton.mp hnew)).2
  refine hi.step (frame_tenants rfl ?_) rfl (hi.settled.of_eq rfl rfl rfl) hunique ?_ ?_ ?_
    ⟨hknows, List.mem_append_right _ (List.mem_singleton_self _)⟩
  · intro j t hj
    rw [List.mem_append, List.mem_singleton]
    refine or_iff_left ?_
    intro heq
    exact hj (Prod.mk.inj heq).1
  · intro t ht
    rw [hfresh t ht]
    exact ⟨decide_eq_true rfl, rfl⟩
  · exact fun k v hheld => absurd hheld (hi.no_users hcall (by rw [hphase]; rfl) k v)
  · exact fun k v hheld => absurd hheld (hi.no_entries hcall (by rw [hphase]; rfl) k v)

theorem persist_id (tenantID : String) (now : ℤ) (t : Tenant) :
    (persistProvisioningColumns config tenantID now t).id = t.id := by
  rw [persistProvisioningColumns]
  split_ifs <;> rfl

theorem persist_slug (tenantID : String) (now : ℤ) (t : Tenant) :
    (persistProvisioningColumns config tenantID now t).slug = t.slug := by
  rw [persistProvisioningColumns]
  split_ifs <;> rfl

theorem ofEntry_persist (tenantID : String) (now : ℤ) (t : Tenant) :
    config.ofEntry (persistProvisioningColumns config tenantID now t) = config.ofEntry t := by
  rw [persistProvisioningColumns]
  split_ifs <;> rfl

theorem Invariant.persist (hi : Invariant config email s) (hcall : s.calls id = some call)
    {entry : WaitlistEntry} (hphase : call.phase = .tenantInserted entry tenant)
    {columns : Tenant → Tenant} {now : ℤ}
    (hcolumns : columns = persistProvisioningColumns config tenant.id now) :
    Invariant config email (State.move { s with tenants := s.tenants.amend id columns } id call
      (.persisted entry (columns tenant))) := by
  have hknows := hi.knows id call hcall
  rw [hphase] at hknows
  have hself : ∀ t, (id, t) ∈ s.tenants.pending → t = tenant := by
    intro t ht
    have howns := (hi.owns hcall ht).2
    rwa [hphase] at howns
  have hunique : (s.tenants.amend id columns).Unique Clash := by
    rw [hcolumns]
    apply hi.unique.amend
    · intro a b h
      rwa [Clash, persist_id, persist_slug] at h
    · intro a b h
      rwa [Clash, persist_id, persist_slug] at h
  refine hi.step (frame_tenants rfl ?_) rfl (hi.settled.of_eq rfl rfl rfl) hunique ?_ ?_ ?_
    ⟨hknows.1, UniqueIndex.mem_pending_amend.mpr (Or.inr ⟨rfl, tenant, hknows.2, rfl⟩)⟩
  · intro j t hj
    rw [UniqueIndex.mem_pending_amend]
    constructor
    · rintro (h | h)
      · exact h.2
      · exact absurd h.1 hj
    · exact fun h => Or.inl ⟨hj, h⟩
  · intro t ht
    rcases UniqueIndex.mem_pending_amend.mp ht with h | ⟨-, t', ht', rfl⟩
    · exact absurd rfl h.1
    · rw [hself t' ht', hcolumns, ofEntry_persist]
      exact ⟨(hi.owns hcall hknows.2).1, rfl⟩
  · exact fun k v hheld => absurd hheld (hi.no_users hcall (by rw [hphase]; rfl) k v)
  · exact fun k v hheld => absurd hheld (hi.no_entries hcall (by rw [hphase]; rfl) k v)

/-- The admin has a new e-mail, or the index would have refused it. -/
theorem Invariant.insertAdmin (hi : Invariant config email s) (hcall : s.calls id = some call)
    {entry : WaitlistEntry} (hphase : call.phase = .persisted entry tenant)
    (hadmin : admin.tenantID = tenant.id) {users : Store ℕ String (Option User)}
    (hwrite : s.users.write id entry.email (fun _ => some admin) = some users)
    (hfree : s.users.read id entry.email = none) :
    Invariant config email (State.move { s with users := users } id call
      (.adminInserted entry tenant admin)) := by
  have hknows := hi.knows id call hcall
  rw [hphase] at hknows
  obtain ⟨hloaded, hinserted⟩ := hknows
  have hcommitted := ReadCommitted.committed_write hwrite
  rw [hloaded.1] at hwrite hfree
  rw [ReadCommitted.read_of_not_held (hi.no_users hcall (by rw [hphase]; rfl) email)] at hfree
  refine hi.step (frame_users hwrite) rfl (hi.settled.of_eq rfl hcommitted rfl) hi.unique ?_ ?_ ?_
    ⟨hloaded, hinserted, ⟨admin, ReadCommitted.held_write_self hwrite, hadmin⟩,
      (congrFun hcommitted email).trans hfree⟩
  · intro t ht
    have howns := hi.owns hcall ht
    rw [hphase] at howns
    exact howns
  · exact fun _ _ _ => rfl
  · exact fun k v hheld => absurd hheld (hi.no_entries hcall (by rw [hphase]; rfl) k v)

theorem Invariant.seed (hi : Invariant config email s) (hcall : s.calls id = some call)
    {entry : WaitlistEntry} (hphase : call.phase = .adminInserted entry tenant admin)
    {k : String} {f : Option User → Option User} {users : Store ℕ String (Option User)}
    (hkeeps : k = entry.email → (f (s.users.read id k)).map User.tenantID = some tenant.id)
    (hwrite : s.users.write id k f = some users) :
    Invariant config email (State.move { s with users := users } id call
      (.adminInserted entry tenant admin)) := by
  have hknows := hi.knows id call hcall
  rw [hphase] at hknows
  obtain ⟨hloaded, hinserted, ⟨admin', hheld, hbelongs⟩, hfree⟩ := hknows
  have hcommitted := ReadCommitted.committed_write hwrite
  have hadmin : ∃ admin, users.held email = some (id, some admin) ∧
      admin.tenantID = tenant.id := by
    by_cases hk : k = entry.email
    · obtain ⟨admin'', hrow, hbelongs'⟩ := Option.map_eq_some_iff.mp (hkeeps hk)
      have hself := ReadCommitted.held_write_self hwrite
      rw [hrow, hk, hloaded.1] at hself
      exact ⟨admin'', hself, hbelongs'⟩
    · have hother : email ≠ k := by
        rw [← hloaded.1]
        exact fun h => hk h.symm
      rw [ReadCommitted.held_write_of_ne_row hwrite hother]
      exact ⟨admin', hheld, hbelongs⟩
  refine hi.step (frame_users hwrite) rfl (hi.settled.of_eq rfl hcommitted rfl) hi.unique ?_ ?_ ?_
    ⟨hloaded, hinserted, hadmin, (congrFun hcommitted email).trans hfree⟩
  · intro t ht
    have howns := hi.owns hcall ht
    rw [hphase] at howns
    exact howns
  · exact fun _ _ _ => rfl
  · exact fun k v hheld => absurd hheld (hi.no_entries hcall (by rw [hphase]; rfl) k v)

theorem Invariant.stamp (hi : Invariant config email s) (hcall : s.calls id = some call)
    {entry : WaitlistEntry} {demoSeeded : Bool}
    (hphase : call.phase = .seeded entry tenant admin demoSeeded) {now : ℤ}
    {entries : Store ℕ String (Option WaitlistEntry)}
    (hwrite : s.entries.write id config.entryID
      (Option.map (entry.stamp tenant.id now)) = some entries) :
    Invariant config email (State.move { s with entries := entries } id call
      (.stamped tenant admin (resultForNew config entry tenant admin demoSeeded))) := by
  have hknows := hi.knows id call hcall
  rw [hphase] at hknows
  obtain ⟨⟨haddress, hsome⟩, hbuilt⟩ := hknows
  obtain ⟨row, hrow⟩ := Option.isSome_iff_exists.mp hsome
  have hread := ReadCommitted.read_of_not_held
    (hi.no_entries hcall (by rw [hphase]; rfl) config.entryID)
  have hself := ReadCommitted.held_write_self hwrite
  rw [hread, hrow, Option.map_some] at hself
  refine hi.step (frame_entries hwrite) rfl
    (hi.settled.of_eq rfl rfl (ReadCommitted.committed_write hwrite)) hi.unique ?_ ?_ ?_
    ⟨⟨hbuilt.inserted, hbuilt.admin, hbuilt.free⟩, rfl, _, hself,
      hi.settled.address row hrow, rfl⟩
  · intro t ht
    have howns := hi.owns hcall ht
    rw [hphase] at howns
    exact howns
  · intro k v hheld
    have hwrites := hi.writesUsers hcall hheld
    rw [hphase] at hwrites
    exact hwrites
  · exact fun _ _ _ => rfl

/-- What a call holds goes with its end. -/
theorem Invariant.abort (hi : Invariant config email s) (detail : Text) :
    Invariant config email ((s.rollback id).move id call (.done (.failed detail))) := by
  refine hi.step frame_rollback rfl (hi.settled.of_eq rfl rfl rfl) (hi.unique.rollback id)
    ?_ ?_ ?_ trivial
  · intro t ht
    exact absurd rfl (UniqueIndex.mem_pending_rollback.mp ht).2
  · intro k v hheld
    exact absurd rfl (ReadCommitted.held_rollback.mp hheld).2
  · intro k v hheld
    exact absurd rfl (ReadCommitted.held_rollback.mp hheld).2

theorem Invariant.commit (hi : Invariant config email s)
    (hentry : (s.entries.committed config.entryID).isSome →
      (s.entries.read id config.entryID).isSome)
    {response : Response} (hsettled : Settled config email (s.commit id))
    (hknows : (Phase.done response).Knows config email (s.commit id) id) :
    Invariant config email ((s.commit id).move id call (.done response)) := by
  have hknows' : (Phase.done response).Knows config email
      ((s.commit id).move id call (.done response)) id := by
    cases response <;> exact hknows
  refine hi.step (hi.frame_commit hentry) rfl (hsettled.of_eq rfl rfl rfl)
    (hi.unique.commit symm_clash id) ?_ ?_ ?_ hknows'
  · intro t ht
    exact absurd rfl (UniqueIndex.mem_pending_commit.mp ht).2
  · intro k v hheld
    exact absurd rfl (ReadCommitted.held_rollback.mp hheld).2
  · intro k v hheld
    exact absurd rfl (ReadCommitted.held_rollback.mp hheld).2

/-- No tenant of the entry was there, since its admin would have the e-mail. -/
theorem Built.none_before (h : Built email s id tenant) (hi : Invariant config email s) :
    ∀ t ∈ s.tenants.rows, config.ofEntry t ≠ true := by
  intro t ht hof
  obtain ⟨admin, hadmin, -⟩ := (hi.settled.one t ht hof).admin
  rw [h.free] at hadmin
  cases hadmin

theorem Invariant.commit_stamped (hi : Invariant config email s) (hcall : s.calls id = some call)
    {result : ProvisionResult} (hphase : call.phase = .stamped tenant admin result) :
    Invariant config email ((s.commit id).move id call (.done (.provisioned result))) := by
  have hknows := hi.knows id call hcall
  rw [hphase] at hknows
  obtain ⟨hbuilt, hresult, entry, hentry, haddress, hpointer⟩ := hknows
  have hread := ReadCommitted.read_of_held hentry
  have hof := (hi.owns hcall hbuilt.inserted).1
  have hrow : tenant ∈ (s.tenants.commit id).rows :=
    UniqueIndex.mem_rows_commit.mpr (Or.inr hbuilt.inserted)
  have honly : ∀ t ∈ (s.tenants.commit id).rows, config.ofEntry t = true → t = tenant := by
    intro t ht hoft
    rcases UniqueIndex.mem_rows_commit.mp ht with hold | hnew
    · exact absurd hoft (hbuilt.none_before hi t hold)
    · have howns := (hi.owns hcall hnew).2
      rwa [hphase] at howns
  have hunique : (s.tenants.commit id).Unique Clash := hi.unique.commit symm_clash id
  have hsettled : Settled config email (s.commit id) := by
    constructor
    · intro entry' hentry'
      obtain rfl := Option.some.inj (hread.symm.trans hentry')
      exact haddress
    · intro t ht hoft
      obtain rfl := honly t ht hoft
      constructor
      · refine hunique.filter_eq ?_ ht hoft
        intro a ha b hb hofa hofb
        rw [honly a ha hofa, honly b hb hofb]
        exact Or.inl rfl
      · exact ⟨entry, hread, haddress, hpointer⟩
      · obtain ⟨admin', hheld, hbelongs⟩ := hbuilt.admin
        exact ⟨admin', ReadCommitted.read_of_held hheld, hbelongs⟩
    · intro entry' tenantID hentry' htenantID t ht hid
      obtain rfl := Option.some.inj (hread.symm.trans hentry')
      obtain rfl := Option.some.inj (hpointer.symm.trans htenantID)
      have heq := hunique.eq_of_clash symm_clash (List.mem_append_left _ ht)
        (List.mem_append_left _ hrow) (Or.inl hid)
      rw [heq]
      exact hof
  refine hi.commit ?_ hsettled ⟨tenant, hrow, hof, hresult⟩
  intro _
  rw [hread]
  rfl

/-- Without writes there is nothing to commit. -/
theorem Invariant.commit_returning (hi : Invariant config email s)
    (hcall : s.calls id = some call) {result : ProvisionResult}
    (hphase : call.phase = .returning result) :
    Invariant config email ((s.commit id).move id call (.done (.provisioned result))) := by
  have hknows := hi.knows id call hcall
  rw [hphase] at hknows
  have hrows : (s.commit id).tenants.rows = s.tenants.rows := by
    apply UniqueIndex.commit_of_free
    intro t ht
    have howns := (hi.owns hcall ht).2
    rwa [hphase] at howns
  have husers : (s.commit id).users.committed = s.users.committed :=
    funext fun k => ReadCommitted.read_of_not_held (hi.no_users hcall (by rw [hphase]; rfl) k)
  have hentries : (s.commit id).entries.committed = s.entries.committed :=
    funext fun k => ReadCommitted.read_of_not_held (hi.no_entries hcall (by rw [hphase]; rfl) k)
  refine hi.commit ?_ (hi.settled.of_eq hrows husers hentries) ?_
  · intro hsome
    rw [← hentries] at hsome
    exact hsome
  · obtain ⟨t, ht, hof⟩ := hknows
    exact ⟨t, hrows.symm ▸ ht, hof⟩

theorem Invariant.called (hi : Invariant config email s) (hnew : s.calls id = none) :
    Invariant config email (s.move id call .started) := by
  refine hi.step frame_move rfl (hi.settled.of_eq rfl rfl rfl) hi.unique ?_ ?_ ?_ trivial
  · intro t ht
    obtain ⟨-, call, hcall, -⟩ := hi.tenants id t ht
    rw [hnew] at hcall
    cases hcall
  · intro k v hheld
    obtain ⟨call, hcall, -⟩ := hi.users k id v hheld
    rw [hnew] at hcall
    cases hcall
  · intro k v hheld
    obtain ⟨call, hcall, -⟩ := hi.entries k id v hheld
    rw [hnew] at hcall
    cases hcall

theorem Invariant.next (hi : Invariant config email s) {e : Act}
    (h : s.next config e = some u) : Invariant config email u := by
  cases e with
  | call id seedDemo =>
    rw [State.next] at h
    split_ifs at h with hnew
    obtain rfl := Option.some.inj h
    exact hi.called (Option.not_isSome_iff_eq_none.mp hnew)
  | load id =>
    obtain ⟨call, hcall, h⟩ := Option.bind_eq_some_iff.mp h
    split at h
    · rename_i hphase
      obtain rfl := Option.some.inj h
      have hread := ReadCommitted.read_of_not_held
        (hi.no_entries hcall (by rw [hphase]; rfl) config.entryID)
      exact hi.stay_quiet hcall (by rw [hphase]; rfl) (knows_check hi hread)
    · cases h
  | findTenant id =>
    obtain ⟨call, hcall, h⟩ := Option.bind_eq_some_iff.mp h
    split at h
    · rename_i entry tenantID hphase
      have hknows := hi.knows id call hcall
      rw [hphase] at hknows
      split at h
      · obtain rfl := Option.some.inj h
        exact hi.raise hcall (by rw [hphase]; rfl) _
      · rename_i tenant hfind
        obtain rfl := Option.some.inj h
        have hfree : ∀ t, (id, t) ∉ s.tenants.pending := by
          intro t ht
          have howns := (hi.owns hcall ht).2
          rwa [hphase] at howns
        rw [UniqueIndex.visible_of_free hfree] at hfind
        have hid := of_decide_eq_true
          (List.find?_some (p := fun t : Tenant => decide (t.id = tenantID)) hfind)
        have hrow := List.mem_of_find?_eq_some hfind
        exact hi.stay_quiet hcall (by rw [hphase]; rfl) ⟨hrow, hknows tenant hrow hid⟩
    · cases h
  | findAdmin id newID =>
    obtain ⟨call, hcall, h⟩ := Option.bind_eq_some_iff.mp h
    split at h
    · rename_i entry tenant hphase
      have hknows := hi.knows id call hcall
      rw [hphase] at hknows
      obtain rfl := Option.some.inj h
      exact hi.stay_quiet hcall (by rw [hphase]; rfl) ⟨tenant, hknows.1, hknows.2, rfl⟩
    · cases h
  | probe id shard =>
    obtain ⟨call, hcall, h⟩ := Option.bind_eq_some_iff.mp h
    split at h
    · rename_i entry attempt hphase
      have hknows := hi.knows id call hcall
      rw [hphase] at hknows
      dsimp only at h
      split_ifs at h
      · obtain rfl := Option.some.inj h
        exact hi.stay_quiet hcall (by rw [hphase]; rfl) hknows
      · obtain rfl := Option.some.inj h
        exact hi.stay_quiet hcall (by rw [hphase]; rfl) hknows
      · obtain rfl := Option.some.inj h
        exact hi.raise hcall (by rw [hphase]; rfl) _
    · cases h
  | insertTenant id tenantID fingerprint =>
    obtain ⟨call, hcall, h⟩ := Option.bind_eq_some_iff.mp h
    split at h
    · rename_i entry slug hphase
      dsimp only at h
      split at h
      · cases h
      · obtain rfl := Option.some.inj h
        exact hi.raise hcall (by rw [hphase]; rfl) _
      · rename_i tenants hinsert
        obtain rfl := Option.some.inj h
        exact hi.insertTenant hcall hphase hinsert
    · cases h
  | persist id now =>
    obtain ⟨call, hcall, h⟩ := Option.bind_eq_some_iff.mp h
    split at h
    · rename_i entry tenant hphase
      obtain rfl := Option.some.inj h
      exact hi.persist hcall hphase rfl
    · cases h
  | insertAdmin id adminID =>
    obtain ⟨call, hcall, h⟩ := Option.bind_eq_some_iff.mp h
    split at h
    · rename_i entry tenant hphase
      obtain ⟨users, hwrite, h⟩ := Option.map_eq_some_iff.mp h
      split_ifs at h with htaken
      · rw [← h]
        exact hi.raise hcall (by rw [hphase]; rfl) _
      · rw [← h]
        exact hi.insertAdmin hcall hphase rfl hwrite (Option.not_isSome_iff_eq_none.mp htaken)
    · cases h
  | seed id k f =>
    obtain ⟨call, hcall, h⟩ := Option.bind_eq_some_iff.mp h
    split at h
    · rename_i entry tenant admin hphase
      dsimp only at h
      split_ifs at h with hseed
      obtain ⟨users, hwrite, rfl⟩ := Option.map_eq_some_iff.mp h
      exact hi.seed hcall hphase hseed.2 hwrite
    · cases h
  | seedEnds id outcome =>
    obtain ⟨call, hcall, h⟩ := Option.bind_eq_some_iff.mp h
    split at h
    · rename_i entry tenant admin hphase
      have hseeded : ∀ demoSeeded, Invariant config email
          (s.move id call (.seeded entry tenant admin demoSeeded)) := by
        intro demoSeeded
        have hknows := hi.knows id call hcall
        rw [hphase] at hknows
        refine hi.stay hcall ?_ ?_ ?_ hknows
        · rw [hphase]
          exact fun _ h => h
        · exact fun _ => rfl
        · rw [hphase]
          rintro ⟨⟩
      split at h
      · obtain rfl := Option.some.inj h
        exact hseeded false
      · obtain rfl := Option.some.inj h
        exact hseeded false
      · obtain rfl := Option.some.inj h
        exact hseeded true
      · obtain rfl := Option.some.inj h
        exact hi.raise hcall (by rw [hphase]; rfl) _
      · cases h
    · cases h
  | stamp id now =>
    obtain ⟨call, hcall, h⟩ := Option.bind_eq_some_iff.mp h
    split at h
    · rename_i entry tenant admin demoSeeded hphase
      obtain ⟨entries, hwrite, rfl⟩ := Option.map_eq_some_iff.mp h
      exact hi.stamp hcall hphase hwrite
    · cases h
  | commit id =>
    obtain ⟨call, hcall, h⟩ := Option.bind_eq_some_iff.mp h
    split at h
    · rename_i tenant admin result hphase
      obtain rfl := Option.some.inj h
      exact hi.commit_stamped hcall hphase
    · rename_i result hphase
      obtain rfl := Option.some.inj h
      exact hi.commit_returning hcall hphase
    · cases h
  | abort id =>
    obtain ⟨call, hcall, h⟩ := Option.bind_eq_some_iff.mp h
    split at h
    · cases h
    · obtain rfl := Option.some.inj h
      exact hi.abort _
    · obtain rfl := Option.some.inj h
      exact hi.abort _

/-! ## Runs -/

theorem Invariant.of_start (hidle : Idle s) (hunique : s.tenants.Unique Clash)
    (hsettled : Settled config email s) : Invariant config email s := by
  refine ⟨hsettled, hunique, ?_, ?_, ?_, ?_⟩
  · intro id tenant h
    rw [hidle.tenants] at h
    cases h
  · intro k id v h
    rw [hidle.users] at h
    cases h
  · intro k id v h
    rw [hidle.entries] at h
    cases h
  · intro id call h
    rw [hidle.calls] at h
    cases h

theorem exists_invariant (h : Reachable (system config) anyStep s) :
    ∃ email, Invariant config email s := by
  refine Reachable.invariant (P := fun s => ∃ email, Invariant config email s) ?_ ?_ h
  · rintro s ⟨hidle, hunique, email, hsettled⟩
    exact ⟨email, .of_start hidle hunique hsettled⟩
  · rintro s e u ⟨email, hi⟩ - hnext
    exact ⟨email, hi.next hnext⟩

/-! ## Nobody waits for ever -/

/-- A step of the calls themselves, not one that cuts them off. -/
def GoesOn (config : Config) (s : State) : Prop :=
  ∃ e u, s.next config e = some u ∧ ∀ id, e = .abort id →
    ∃ call detail, s.calls id = some call ∧ call.phase = .raised detail

theorem goesOn_of_isSome {e : Act} (h : (s.next config e).isSome)
    (he : ∀ id, e ≠ .abort id) : GoesOn config s := by
  obtain ⟨u, hu⟩ := Option.isSome_iff_exists.mp h
  exact ⟨e, u, hu, fun id hid => absurd hid (he id)⟩

theorem write_waits {ν : Type*} {table : Store ℕ String ν} {k : String} {f : ν → ν}
    (h : ¬ (table.write id k f).isSome) : ∃ j v, table.held k = some (j, v) := by
  by_contra hfree
  push Not at hfree
  apply h
  rw [Option.isSome_iff_exists]
  exact ⟨_, ReadCommitted.write_eq_some_iff.mpr ⟨fun j v hv => absurd hv (hfree j v), rfl⟩⟩

theorem Invariant.stamped_goesOn (hi : Invariant config email s) {k : String}
    {v : Option WaitlistEntry} (hheld : s.entries.held k = some (id, v)) : GoesOn config s := by
  obtain ⟨call, hcall, hwrites⟩ := hi.entries k id v hheld
  refine goesOn_of_isSome (e := .commit id) ?_ nofun
  rw [State.next, hcall, Option.bind_some]
  cases hphase : call.phase with
  | stamped => rfl
  | _ =>
    rw [hphase] at hwrites
    cases hwrites

/-- Who holds users waits for the entry at most. -/
theorem Invariant.writesUsers_goesOn (hi : Invariant config email s)
    (hcall : s.calls id = some call) (hwrites : call.phase.writesUsers = true) :
    GoesOn config s := by
  cases hphase : call.phase with
  | adminInserted entry tenant admin =>
    refine goesOn_of_isSome (e := .seedEnds id .returns) ?_ nofun
    rw [State.next, hcall, Option.bind_some, hphase]
    cases call.seedDemo <;> rfl
  | seeded entry tenant admin demoSeeded =>
    by_cases hwrite :
        (s.entries.write id config.entryID (Option.map (entry.stamp tenant.id 0))).isSome
    · refine goesOn_of_isSome (e := .stamp id 0) ?_ nofun
      rw [State.next, hcall, Option.bind_some, hphase]
      dsimp only
      rw [Option.isSome_map]
      exact hwrite
    · obtain ⟨j, v, hheld⟩ := write_waits hwrite
      exact hi.stamped_goesOn hheld
  | stamped tenant admin result =>
    refine goesOn_of_isSome (e := .commit id) ?_ nofun
    rw [State.next, hcall, Option.bind_some, hphase]
    rfl
  | raised detail =>
    refine ⟨.abort id, (s.rollback id).move id call (.done (.failed detail)), ?_, ?_⟩
    · rw [State.next, hcall, Option.bind_some, hphase]
    · intro j hj
      rw [Act.abort.inj hj] at hcall
      exact ⟨call, detail, hcall, hphase⟩
  | _ =>
    rw [hphase] at hwrites
    cases hwrites

theorem Invariant.persisted_goesOn (hi : Invariant config email s)
    (hcall : s.calls id = some call) {entry : WaitlistEntry}
    (hphase : call.phase = .persisted entry tenant) : GoesOn config s := by
  by_cases hwrite : (s.users.write id entry.email
      fun _ => some ⟨"", tenant.id, "tenant_admin"⟩).isSome
  · refine goesOn_of_isSome (e := .insertAdmin id "") ?_ nofun
    rw [State.next, hcall, Option.bind_some, hphase]
    dsimp only
    rw [Option.isSome_map]
    exact hwrite
  · obtain ⟨j, v, hheld⟩ := write_waits hwrite
    obtain ⟨call', hcall', hwrites⟩ := hi.users _ j v hheld
    exact hi.writesUsers_goesOn hcall' hwrites

/-- Who holds a slug waits for the e-mail at most. -/
theorem Invariant.owns_goesOn (hi : Invariant config email s)
    (hinserted : (id, tenant) ∈ s.tenants.pending) : GoesOn config s := by
  obtain ⟨-, call, hcall, howns⟩ := hi.tenants id tenant hinserted
  cases hphase : call.phase with
  | tenantInserted entry t =>
    refine goesOn_of_isSome (e := .persist id 0) ?_ nofun
    rw [State.next, hcall, Option.bind_some, hphase]
    rfl
  | persisted entry t => exact hi.persisted_goesOn hcall hphase
  | adminInserted | seeded | stamped | raised =>
    exact hi.writesUsers_goesOn hcall (by rw [hphase]; rfl)
  | _ =>
    rw [hphase] at howns
    exact howns.elim

/-- As long as a call is not done, some call can go on. -/
theorem exists_next (h : Reachable (system config) anyStep s) (hcall : s.calls id = some call)
    (hphase : ∀ response, call.phase ≠ .done response) : GoesOn config s := by
  obtain ⟨email, hi⟩ := exists_invariant h
  cases hcase : call.phase with
  | started =>
    refine goesOn_of_isSome (e := .load id) ?_ (by rintro _ ⟨⟩)
    rw [State.next, hcall, Option.bind_some, hcase]
    rfl
  | existing entry tenantID =>
    refine goesOn_of_isSome (e := .findTenant id) ?_ (by rintro _ ⟨⟩)
    rw [State.next, hcall, Option.bind_some, hcase]
    dsimp only
    split <;> rfl
  | foundTenant entry tenant =>
    refine goesOn_of_isSome (e := .findAdmin id "") ?_ (by rintro _ ⟨⟩)
    rw [State.next, hcall, Option.bind_some, hcase]
    rfl
  | allocating entry attempt =>
    refine goesOn_of_isSome (e := .probe id []) ?_ (by rintro _ ⟨⟩)
    rw [State.next, hcall, Option.bind_some, hcase]
    dsimp only
    split_ifs <;> rfl
  | allocated entry slug =>
    rcases hinsert : s.tenants.insert Clash id (newTenant config entry slug "" []) with
      - | - | tenants
    · obtain ⟨⟨j, t⟩, hp, -⟩ := UniqueIndex.insert_eq_waits hinsert
      exact hi.owns_goesOn hp
    · refine goesOn_of_isSome (e := .insertTenant id "" []) ?_ (by rintro _ ⟨⟩)
      rw [State.next, hcall, Option.bind_some, hcase]
      dsimp only
      rw [hinsert]
      rfl
    · refine goesOn_of_isSome (e := .insertTenant id "" []) ?_ (by rintro _ ⟨⟩)
      rw [State.next, hcall, Option.bind_some, hcase]
      dsimp only
      rw [hinsert]
      rfl
  | tenantInserted entry tenant =>
    refine goesOn_of_isSome (e := .persist id 0) ?_ (by rintro _ ⟨⟩)
    rw [State.next, hcall, Option.bind_some, hcase]
    rfl
  | persisted entry tenant => exact hi.persisted_goesOn hcall hcase
  | adminInserted | seeded | stamped | raised =>
    exact hi.writesUsers_goesOn hcall (by rw [hcase]; rfl)
  | returning result =>
    refine goesOn_of_isSome (e := .commit id) ?_ (by rintro _ ⟨⟩)
    rw [State.next, hcall, Option.bind_some, hcase]
    rfl
  | done response => exact absurd hcase (hphase response)

/-! ## What a run does to the committed rows -/

def Act.caller : Act → ℕ
  | .call id _ | .load id | .findTenant id | .findAdmin id _ | .probe id _ |
    .insertTenant id _ _ | .persist id _ | .insertAdmin id _ | .seed id _ _ | .seedEnds id _ |
    .stamp id _ | .commit id | .abort id => id

structure SameCommitted (s u : State) : Prop where
  tenants : u.tenants.rows = s.tenants.rows
  users : u.users.committed = s.users.committed
  entries : u.entries.committed = s.entries.committed

/-- Only a call that goes on moves, and what it commits it answers for. -/
theorem next_spec {e : Act} (h : s.next config e = some u) :
    (∀ call response, s.calls e.caller = some call → call.phase ≠ .done response) ∧
      ∃ call, u.calls = Function.update s.calls e.caller (some call) ∧
        (SameCommitted s u ∨ ∃ result, call.phase = .done (.provisioned result)) := by
  have hgoes : ∀ {id call}, s.calls id = some call → (∀ response, call.phase ≠ .done response) →
      ∀ call' response, s.calls id = some call' → call'.phase ≠ .done response := by
    intro id call hcall hphase call' response hcall'
    obtain rfl := Option.some.inj (hcall.symm.trans hcall')
    exact hphase response
  cases e with
  | call id seedDemo =>
    rw [State.next] at h
    split_ifs at h with hnew
    obtain rfl := Option.some.inj h
    refine ⟨?_, _, rfl, Or.inl ⟨rfl, rfl, rfl⟩⟩
    intro call response hcall
    exact absurd (Option.isSome_of_eq_some hcall) hnew
  | load id =>
    obtain ⟨call, hcall, h⟩ := Option.bind_eq_some_iff.mp h
    split at h
    · rename_i hphase
      obtain rfl := Option.some.inj h
      exact ⟨hgoes hcall (by rw [hphase]; rintro _ ⟨⟩), _, rfl, Or.inl ⟨rfl, rfl, rfl⟩⟩
    · cases h
  | findTenant id =>
    obtain ⟨call, hcall, h⟩ := Option.bind_eq_some_iff.mp h
    split at h
    · rename_i hphase
      split at h
      · obtain rfl := Option.some.inj h
        exact ⟨hgoes hcall (by rw [hphase]; rintro _ ⟨⟩), _, rfl, Or.inl ⟨rfl, rfl, rfl⟩⟩
      · obtain rfl := Option.some.inj h
        exact ⟨hgoes hcall (by rw [hphase]; rintro _ ⟨⟩), _, rfl, Or.inl ⟨rfl, rfl, rfl⟩⟩
    · cases h
  | findAdmin id newID =>
    obtain ⟨call, hcall, h⟩ := Option.bind_eq_some_iff.mp h
    split at h
    · rename_i hphase
      obtain rfl := Option.some.inj h
      exact ⟨hgoes hcall (by rw [hphase]; rintro _ ⟨⟩), _, rfl, Or.inl ⟨rfl, rfl, rfl⟩⟩
    · cases h
  | probe id shard =>
    obtain ⟨call, hcall, h⟩ := Option.bind_eq_some_iff.mp h
    split at h
    · rename_i hphase
      refine ⟨hgoes hcall (by rw [hphase]; rintro _ ⟨⟩), ?_⟩
      dsimp only at h
      split_ifs at h
      · obtain rfl := Option.some.inj h
        exact ⟨_, rfl, Or.inl ⟨rfl, rfl, rfl⟩⟩
      · obtain rfl := Option.some.inj h
        exact ⟨_, rfl, Or.inl ⟨rfl, rfl, rfl⟩⟩
      · obtain rfl := Option.some.inj h
        exact ⟨_, rfl, Or.inl ⟨rfl, rfl, rfl⟩⟩
    · cases h
  | insertTenant id tenantID fingerprint =>
    obtain ⟨call, hcall, h⟩ := Option.bind_eq_some_iff.mp h
    split at h
    · rename_i hphase
      refine ⟨hgoes hcall (by rw [hphase]; rintro _ ⟨⟩), ?_⟩
      dsimp only at h
      split at h
      · cases h
      · obtain rfl := Option.some.inj h
        exact ⟨_, rfl, Or.inl ⟨rfl, rfl, rfl⟩⟩
      · rename_i tenants hinsert
        obtain ⟨-, -, rfl⟩ := UniqueIndex.insert_eq_done_iff.mp hinsert
        obtain rfl := Option.some.inj h
        exact ⟨_, rfl, Or.inl ⟨rfl, rfl, rfl⟩⟩
    · cases h
  | persist id now =>
    obtain ⟨call, hcall, h⟩ := Option.bind_eq_some_iff.mp h
    split at h
    · rename_i hphase
      obtain rfl := Option.some.inj h
      exact ⟨hgoes hcall (by rw [hphase]; rintro _ ⟨⟩), _, rfl, Or.inl ⟨rfl, rfl, rfl⟩⟩
    · cases h
  | insertAdmin id adminID =>
    obtain ⟨call, hcall, h⟩ := Option.bind_eq_some_iff.mp h
    split at h
    · rename_i hphase
      refine ⟨hgoes hcall (by rw [hphase]; rintro _ ⟨⟩), ?_⟩
      obtain ⟨users, hwrite, h⟩ := Option.map_eq_some_iff.mp h
      split_ifs at h
      · rw [← h]
        exact ⟨_, rfl, Or.inl ⟨rfl, rfl, rfl⟩⟩
      · rw [← h]
        exact ⟨_, rfl, Or.inl ⟨rfl, ReadCommitted.committed_write hwrite, rfl⟩⟩
    · cases h
  | seed id k f =>
    obtain ⟨call, hcall, h⟩ := Option.bind_eq_some_iff.mp h
    split at h
    · rename_i hphase
      dsimp only at h
      split_ifs at h
      obtain ⟨users, hwrite, rfl⟩ := Option.map_eq_some_iff.mp h
      exact ⟨hgoes hcall (by rw [hphase]; rintro _ ⟨⟩), _, rfl,
        Or.inl ⟨rfl, ReadCommitted.committed_write hwrite, rfl⟩⟩
    · cases h
  | seedEnds id outcome =>
    obtain ⟨call, hcall, h⟩ := Option.bind_eq_some_iff.mp h
    split at h
    · rename_i hphase
      refine ⟨hgoes hcall (by rw [hphase]; rintro _ ⟨⟩), ?_⟩
      split at h
      · obtain rfl := Option.some.inj h
        exact ⟨_, rfl, Or.inl ⟨rfl, rfl, rfl⟩⟩
      · obtain rfl := Option.some.inj h
        exact ⟨_, rfl, Or.inl ⟨rfl, rfl, rfl⟩⟩
      · obtain rfl := Option.some.inj h
        exact ⟨_, rfl, Or.inl ⟨rfl, rfl, rfl⟩⟩
      · obtain rfl := Option.some.inj h
        exact ⟨_, rfl, Or.inl ⟨rfl, rfl, rfl⟩⟩
      · cases h
    · cases h
  | stamp id now =>
    obtain ⟨call, hcall, h⟩ := Option.bind_eq_some_iff.mp h
    split at h
    · rename_i hphase
      obtain ⟨entries, hwrite, rfl⟩ := Option.map_eq_some_iff.mp h
      exact ⟨hgoes hcall (by rw [hphase]; rintro _ ⟨⟩), _, rfl,
        Or.inl ⟨rfl, rfl, ReadCommitted.committed_write hwrite⟩⟩
    · cases h
  | commit id =>
    obtain ⟨call, hcall, h⟩ := Option.bind_eq_some_iff.mp h
    split at h
    · rename_i hphase
      obtain rfl := Option.some.inj h
      exact ⟨hgoes hcall (by rw [hphase]; rintro _ ⟨⟩), _, rfl, Or.inr ⟨_, rfl⟩⟩
    · rename_i hphase
      obtain rfl := Option.some.inj h
      exact ⟨hgoes hcall (by rw [hphase]; rintro _ ⟨⟩), _, rfl, Or.inr ⟨_, rfl⟩⟩
    · cases h
  | abort id =>
    obtain ⟨call, hcall, h⟩ := Option.bind_eq_some_iff.mp h
    split at h
    · cases h
    · rename_i hphase
      obtain rfl := Option.some.inj h
      exact ⟨hgoes hcall (by rw [hphase]; rintro _ ⟨⟩), _, rfl, Or.inl ⟨rfl, rfl, rfl⟩⟩
    · rename_i hdone _
      obtain rfl := Option.some.inj h
      exact ⟨hgoes hcall hdone, _, rfl, Or.inl ⟨rfl, rfl, rfl⟩⟩

theorem runTrace_done {response : Response} (hcall : s.calls id = some call)
    (hphase : call.phase = .done response) {es : List Act}
    (hr : runTrace (system config) s es = some u) : u.calls id = some call := by
  refine TransitionSystem.runTrace_keeps (P := fun s => s.calls id = some call)
    (Q := fun _ => True) ?_ hcall (fun _ _ => trivial) hr
  intro s e t hcall _ hnext
  obtain ⟨hgoes, call', hcalls, -⟩ := next_spec hnext
  have hne : id ≠ e.caller := by
    rintro rfl
    exact hgoes call response hcall hphase
  rw [hcalls, Function.update_of_ne hne]
  exact hcall

def KeepsCommitted (config : Config) (id : ℕ) (s : State) (e : Act) : Prop :=
  e.caller = id → ∀ u, s.next config e = some u → SameCommitted s u

theorem guardedTrace_of_failed {detail : Text} {es : List Act}
    (hr : runTrace (system config) s es = some u) (hcall : u.calls id = some call)
    (hphase : call.phase = .done (.failed detail)) :
    GuardedTrace (system config) (KeepsCommitted config id) s es := by
  induction es generalizing s with
  | nil => trivial
  | cons e es ih =>
    obtain ⟨t, hnext, hr⟩ := Option.bind_eq_some_iff.mp hr
    refine TransitionSystem.guardedTrace_cons ?_ hnext (ih hr)
    intro he v hv
    obtain rfl := Option.some.inj (hnext.symm.trans hv)
    obtain ⟨-, call', hcalls, hsame | ⟨result, hresult⟩⟩ := next_spec hnext
    · exact hsame
    · have hcall' : t.calls id = some call' := by
        rw [hcalls, he, Function.update_self]
      obtain rfl := Option.some.inj ((runTrace_done hcall' hresult hr).symm.trans hcall)
      rw [hphase] at hresult
      cases hresult

/-- The call holds no rows, and none of its steps changed what is committed. -/
structure Traceless (config : Config) (start : State) (es : List Act) (s : State) (id : ℕ) :
    Prop where
  tenants : ∀ tenant, (id, tenant) ∉ s.tenants.pending
  users : ∀ email user, s.users.held email ≠ some (id, user)
  entries : ∀ entryID entry, s.entries.held entryID ≠ some (id, entry)
  committed : GuardedTrace (system config) (KeepsCommitted config id) start es

def Answered (config : Config) (email : String) (start : State) (es : List Act) (s : State)
    (id : ℕ) : Response → Prop
  | .provisioned result =>
    ∃ tenant, Promoted config email s tenant ∧ result.tenantID = tenant.id
  | .failed _ => Traceless config start es s id

theorem promotes_once (config : Config) (start : State) (hstart : (system config).start start)
    (es : List Act) (s : State) (hr : runTrace (system config) start es = some s) :
    ∃ email, (∀ tenant ∈ s.tenants.rows, config.ofEntry tenant = true →
        Promoted config email s tenant) ∧
      ∀ id call response, s.calls id = some call → call.phase = .done response →
        Answered config email start es s id response := by
  obtain ⟨email, hi⟩ := exists_invariant
    ((Reachable.start hstart).runTrace (TransitionSystem.anyStep_guarded es start) hr)
  refine ⟨email, hi.settled.one, ?_⟩
  intro id call response hcall hphase
  cases response with
  | provisioned result =>
    have hknows := hi.knows id call hcall
    rw [hphase] at hknows
    obtain ⟨tenant, hrow, hof, hresult⟩ := hknows
    exact ⟨tenant, hi.settled.one tenant hrow hof, hresult⟩
  | failed detail =>
    constructor
    · intro tenant htenant
      have howns := (hi.owns hcall htenant).2
      rwa [hphase] at howns
    · exact hi.no_users hcall (by rw [hphase]; rfl)
    · exact hi.no_entries hcall (by rw [hphase]; rfl)
    · exact guardedTrace_of_failed hr hcall hphase

def sample : Config := ⟨"w1", fun t => t.map CodeText.foldCase⟩

def signup : State where
  tenants := ⟨[], []⟩
  users := ⟨fun _ => none, fun _ => none⟩
  entries := ⟨fun id => if id = "w1" then some ⟨"ada@acme.io", text "Acme", .new, none, none, none⟩
    else none, fun _ => none⟩
  calls := fun _ => none

/-- Two calls find the slug free, the seeder of the first raises, and a third comes later. -/
def race : List Act :=
  [.call 0 true, .call 1 false, .load 0, .load 1, .probe 0 [], .probe 1 [],
    .insertTenant 0 "t0" (text "k0"), .persist 0 7, .insertAdmin 0 "u0",
    .seed 0 "demo@aisoc.dev" (fun _ => some ⟨"demo", "t0", "tenant_admin"⟩), .seedEnds 0 .raises,
    .stamp 0 8, .commit 0, .insertTenant 1 "t1" (text "k1"), .abort 1, .call 2 true, .load 2,
    .findTenant 2, .findAdmin 2 "u2", .commit 2]

theorem start_signup : (system sample).start signup := by
  refine ⟨⟨rfl, fun _ => rfl, fun _ => rfl, fun _ => rfl⟩, List.Pairwise.nil, "ada@acme.io", ?_⟩
  constructor
  · intro entry hentry
    obtain rfl := Option.some.inj hentry
    rfl
  · nofun
  · intro entry tenantID hentry hpromoted
    obtain rfl := Option.some.inj hentry
    cases hpromoted

theorem race_promotes_once : ∃ s, runTrace (system sample) signup race = some s ∧
    ∃ email, (∀ tenant ∈ s.tenants.rows, sample.ofEntry tenant = true →
        Promoted sample email s tenant) ∧
      ∀ id call response, s.calls id = some call → call.phase = .done response →
        Answered sample email signup race s id response := by
  obtain ⟨s, hs⟩ : ∃ s, runTrace (system sample) signup race = some s := ⟨_, rfl⟩
  exact ⟨s, hs, promotes_once sample signup start_signup race s hs⟩

end WaitlistProvision
