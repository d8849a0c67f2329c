import Mathlib.Data.List.Sort
import AiSOC.TransitionSystem
import AiSOC.AuditHash

/-! # Audit emission

`emitAudit` appends rows to the chain of one tenant, inside transactions that see the
committed rows and their own. An emission stamps its time first and looks the chain up
later, so other transactions may move in between. -/
namespace AuditEmission

open HashChain (Digest Block Linked tip)
open TransitionSystem (System Reachable runTrace)
open AuditHash

/-- What a caller passes, with the headers of its request if it has one. `clientIp` is the
resolved address, absent when the resolution failed. -/
structure Emission (J : Type) where
  tenantId : UUID
  actorId : Option UUID
  actorEmail : Option String
  action : String
  resource : Option String
  resourceId : Option String
  changes : Option J
  clientIp : Option String
  userAgent : Option String
  requestId : Option String

def maxUaLen : Nat := 512

def maxRequestIdLen : Nat := 128

def safeTruncate (value : Option String) (limit : Nat) : Option String :=
  value.map fun v => String.ofList (v.toList.take limit)

def nonempty (value : Option String) : Option String := value.filter fun v => v ≠ ""

/-- `meta or None`: the column is null when no header was kept. -/
def buildMetadata (userAgent requestId : Option String) : Option Metadata :=
  let ua := nonempty (safeTruncate userAgent maxUaLen)
  let rid := nonempty (safeTruncate requestId maxRequestIdLen)
  if ua = none ∧ rid = none then none else some ⟨ua, rid⟩

variable {H J : Type} (F : Digest H (HashedFields J)) (redact : Option J → Option J)

/-- The event before it is chained: `id` is fresh and `createdAt` is the clock's value. -/
def buildEvent (id : UUID) (createdAt : Int) (e : Emission J) : HashedFields J where
  id := id
  tenantId := e.tenantId
  actorId := e.actorId
  actorEmail := e.actorEmail
  actorIp := e.clientIp
  action := e.action
  resource := e.resource
  resourceId := e.resourceId
  changes := redact e.changes
  metadata := buildMetadata e.userAgent e.requestId
  createdAt := createdAt

/-- The order of the chain: creation time, then id. -/
def Before (a b : HashedFields J) : Prop :=
  a.createdAt < b.createdAt ∨ (a.createdAt = b.createdAt ∧ a.id < b.id)

instance (a b : HashedFields J) : Decidable (Before a b) :=
  inferInstanceAs (Decidable (_ ∨ _))

/-- The first row in descending order. -/
def latest (rows : List (Row H J)) : Option (Row H J) :=
  rows.foldl (fun best r => match best with
    | some b => if Before r.fields b.fields then some b else some r
    | none => some r) none

def resolvePrevHash (tenantId : UUID) (rows : List (Row H J)) : Option H :=
  (latest (rows.filter fun r => r.fields.tenantId = tenantId ∧ r.entryHash.isSome)).bind
    Row.entryHash

/-- The chaining half of an emission. A failing lookup leaves the row unchained. -/
def chainEvent (fields : HashedFields J) (rows : List (Row H J)) (lookupFails : Bool) : Row H J :=
  if lookupFails then ⟨fields, none, none⟩
  else
    let prev := resolvePrevHash fields.tenantId rows
    ⟨fields, prev, some (computeEntryHash F prev fields)⟩

def emitAudit (id : UUID) (createdAt : Int) (e : Emission J) (rows : List (Row H J))
    (lookupFails : Bool) : Row H J :=
  chainEvent F (buildEvent redact id createdAt e) rows lookupFails

/-- The rows as a verifier reads them. -/
def sortRows (rows : List (Row H J)) : List (Row H J) :=
  rows.insertionSort fun a b => ¬ Before b.fields a.fields

theorem Before.asymm {a b : HashedFields J} (h : Before a b) : ¬ Before b a := by
  rintro (hlt | ⟨heq, hid⟩)
  · rcases h with h | ⟨h, -⟩ <;> omega
  · rcases h with h | ⟨-, h⟩
    · omega
    · exact Nat.lt_asymm h hid

def Ordered (rows : List (Row H J)) : Prop :=
  rows.Pairwise fun a b => Before a.fields b.fields

theorem ordered_concat {rows : List (Row H J)} {r : Row H J} :
    Ordered (rows ++ [r]) ↔ Ordered rows ∧ ∀ q ∈ rows, Before q.fields r.fields := by
  simp [Ordered, List.pairwise_append]

theorem sortRows_ordered {rows : List (Row H J)} (h : Ordered rows) : sortRows rows = rows :=
  List.Pairwise.insertionSort_eq (h.imp fun hab => hab.asymm)

theorem latest_mem {rows : List (Row H J)} {b : Row H J} (h : latest rows = some b) :
    b ∈ rows := by
  induction rows using List.reverseRecOn generalizing b with
  | nil => cases h
  | append_singleton rows r ih =>
    simp only [latest, List.foldl_append, List.foldl_cons, List.foldl_nil] at h
    split at h
    · rename_i best hbest
      split at h
      · exact List.mem_append_left _ (ih (hbest.trans h))
      · simp [← Option.some.inj h]
    · simp [← Option.some.inj h]

theorem latest_concat {rows : List (Row H J)} {r : Row H J}
    (h : ∀ q ∈ rows, Before q.fields r.fields) : latest (rows ++ [r]) = some r := by
  simp only [latest, List.foldl_append, List.foldl_cons, List.foldl_nil]
  split
  · rename_i best hbest
    rw [if_neg (h best (latest_mem hbest)).asymm]
  · rfl

def OfTenant (tenant : UUID) (rows : List (Row H J)) : Prop :=
  ∀ r ∈ rows, r.fields.tenantId = tenant

/-- On an ordered table the lookup finds the tip of the chain. -/
theorem resolvePrevHash_chained {tenant : UUID} {legacy : List (Row H J)}
    {blocks : List (Block H (HashedFields J))} (hl : Unhashed legacy)
    (ht : OfTenant tenant (legacy ++ blocks.map toRow))
    (ho : Ordered (legacy ++ blocks.map toRow)) :
    resolvePrevHash tenant (legacy ++ blocks.map toRow) = tip none blocks := by
  have hfilter : (legacy ++ blocks.map toRow).filter
      (fun r => r.fields.tenantId = tenant ∧ r.entryHash.isSome) = blocks.map toRow := by
    rw [List.filter_append, List.filter_eq_nil_iff.mpr, List.nil_append, List.filter_eq_self]
    · intro r hr
      have hhash : r.entryHash.isSome := by
        obtain ⟨b, -, rfl⟩ := List.mem_map.mp hr
        rfl
      simp [ht r (List.mem_append_right _ hr), hhash]
    · intro r hr
      simp [hl r hr]
  rw [resolvePrevHash, hfilter]
  have ho := (List.pairwise_append.mp ho).2.1
  rcases List.eq_nil_or_concat blocks with rfl | ⟨bs, b, rfl⟩
  · rfl
  · rw [List.concat_eq_append, List.map_append, List.map_singleton] at ho ⊢
    rw [latest_concat (ordered_concat.mp ho).2, HashChain.tip_concat]
    rfl

variable [DecidableEq H] {F} {redact}

/-- A table that verifies, in the order of the chain and of one tenant. -/
structure Good (F : Digest H (HashedFields J)) (tenant : UUID) (rows : List (Row H J)) : Prop where
  tenant_rows : OfTenant tenant rows
  ordered : Ordered rows
  accepted : Accepted F rows

/-- Chaining an event onto a good table it comes after keeps the table good. -/
theorem Good.chainEvent {tenant : UUID} {rows : List (Row H J)} (h : Good F tenant rows)
    {fields : HashedFields J} (ht : fields.tenantId = tenant)
    (hlast : ∀ r ∈ rows, Before r.fields fields) :
    Good F tenant (rows ++ [chainEvent F fields rows false]) := by
  obtain ⟨legacy, blocks, rfl, hu, hl⟩ := accepted_iff.mp h.accepted
  have hprev := resolvePrevHash_chained hu h.tenant_rows h.ordered
  constructor
  · intro r hr
    rcases List.mem_append.mp hr with hr | hr
    · exact h.tenant_rows r hr
    · rw [List.mem_singleton.mp hr]
      exact ht
  · exact ordered_concat.mpr ⟨h.ordered, hlast⟩
  · refine accepted_iff.mpr
      ⟨legacy, blocks ++ [⟨fields, tip none blocks, F.entry (tip none blocks) fields⟩], ?_, hu,
        HashChain.linked_concat.mpr ⟨hl, rfl, rfl⟩⟩
    simp [AuditEmission.chainEvent, ht, hprev, toRow, computeEntryHash]

/-- The rows of one tenant emitted one after the other, each after all the earlier ones. -/
inductive Emitted (F : Digest H (HashedFields J)) (redact : Option J → Option J)
    (tenant : UUID) : List (Row H J) → Prop where
  | nil : Emitted F redact tenant []
  | emit {rows id createdAt e} : Emitted F redact tenant rows → e.tenantId = tenant →
      (∀ r ∈ rows, Before r.fields (buildEvent redact id createdAt e)) →
      Emitted F redact tenant (rows ++ [emitAudit F redact id createdAt e rows false])

theorem Emitted.good {tenant : UUID} {rows : List (Row H J)} (h : Emitted F redact tenant rows) :
    Good F tenant rows := by
  induction h with
  | nil => exact ⟨fun _ hr => (List.not_mem_nil hr).elim, List.Pairwise.nil, rfl⟩
  | emit _ ht hlast ih => exact ih.chainEvent ht hlast

omit [DecidableEq H] in
theorem Emitted.hashed {tenant : UUID} {rows : List (Row H J)}
    (h : Emitted F redact tenant rows) : ∀ r ∈ rows, r.entryHash ≠ none := by
  induction h with
  | nil => exact fun _ hr => (List.not_mem_nil hr).elim
  | emit _ _ _ ih =>
    intro r hr
    rcases List.mem_append.mp hr with hr | hr
    · exact ih r hr
    · rw [List.mem_singleton.mp hr]
      simp [emitAudit, AuditEmission.chainEvent]

/-- Emitted rows form a linked chain from the start. -/
theorem Emitted.linked {tenant : UUID} {rows : List (Row H J)}
    (h : Emitted F redact tenant rows) :
    ∃ blocks, rows = blocks.map toRow ∧ Linked F none blocks := by
  obtain ⟨legacy, blocks, hrows, hu, hl⟩ := accepted_iff.mp h.good.accepted
  rcases legacy with _ | ⟨r, legacy⟩
  · exact ⟨blocks, hrows, hl⟩
  · refine (h.hashed r ?_ (hu r List.mem_cons_self)).elim
    rw [hrows]
    exact List.mem_cons_self

/-- An alteration of the kind the replay cannot see: unhashed rows in front of a linked
chain, at least one of them or another last hash than the original's. -/
def Undetected (F : Digest H (HashedFields J)) (orig alt : List (Row H J)) : Prop :=
  ∃ legacy blocks, alt = legacy ++ blocks.map toRow ∧ Chained F legacy blocks ∧
    (legacy ≠ [] ∨ lastHash alt ≠ lastHash orig)

/-- An altered chain is accepted only when it is the original, unless it is of the kind that
the replay cannot see. -/
theorem accepted_eq_iff_not_undetected {tenant : UUID} {orig : List (Row H J)}
    (horig : Emitted F redact tenant orig) (alt : List (Row H J)) :
    (Accepted F alt → alt = orig) ↔ ¬ Undetected F orig alt := by
  constructor
  · rintro honly ⟨legacy, blocks, halt, hchained, hdiff⟩
    have heq := honly (accepted_iff.mpr ⟨legacy, blocks, halt, hchained⟩)
    rcases hdiff with hlegacy | hlast
    · obtain ⟨r, hr⟩ := List.exists_mem_of_ne_nil legacy hlegacy
      refine horig.hashed r ?_ (hchained.1 r hr)
      rw [← heq, halt]
      exact List.mem_append_left _ hr
    · exact hlast (congrArg lastHash heq)
  · intro hdetected haccepted
    obtain ⟨legacy, blocks, halt, hchained⟩ := accepted_iff.mp haccepted
    have hlegacy : legacy = [] := by
      by_contra hne
      exact hdetected ⟨legacy, blocks, halt, hchained, Or.inl hne⟩
    have hlast : lastHash alt = lastHash orig := by
      by_contra hne
      exact hdetected ⟨legacy, blocks, halt, hchained, Or.inr hne⟩
    obtain ⟨original, rfl, hlinked⟩ := horig.linked
    subst hlegacy
    rw [List.nil_append] at halt
    subst halt
    rw [lastHash_toRow, lastHash_toRow] at hlast
    rw [HashChain.eq_of_tip_eq hchained.2 hlinked hlast]

abbrev IdealRow := Row (HashChain.Term (HashedFields Unit)) Unit

def login : Emission Unit where
  tenantId := 1
  actorId := some 9
  actorEmail := none
  action := "auth:login"
  resource := none
  resourceId := none
  changes := none
  clientIp := some "10.0.0.1"
  userAgent := none
  requestId := none

def firstLogin : IdealRow := emitAudit (HashChain.ideal _) id 1 100 login [] false

def secondLogin : IdealRow := emitAudit (HashChain.ideal _) id 2 200 login [firstLogin] false

theorem two_logins_emitted :
    Emitted (HashChain.ideal (HashedFields Unit)) id 1 [firstLogin, secondLogin] := by
  have hfirst : Emitted (HashChain.ideal (HashedFields Unit)) id 1 [firstLogin] :=
    Emitted.nil.emit rfl fun _ hr => (List.not_mem_nil hr).elim
  refine hfirst.emit rfl fun r hr => ?_
  rw [List.mem_singleton.mp hr]
  decide

/-- Deleting the newest entry leaves a chain that verifies. -/
theorem truncated_chain_accepted :
    Emitted (HashChain.ideal (HashedFields Unit)) id 1 [firstLogin, secondLogin] ∧
      Accepted (HashChain.ideal (HashedFields Unit)) [firstLogin] ∧
      [firstLogin] ≠ [firstLogin, secondLogin] :=
  ⟨two_logins_emitted, by decide, by simp⟩

/-- Swapping the two entries is not an alteration that goes undetected. -/
theorem swapped_logins_detected :
    (Accepted (HashChain.ideal (HashedFields Unit)) [secondLogin, firstLogin] →
        [secondLogin, firstLogin] = [firstLogin, secondLogin]) ↔
      ¬ Undetected (HashChain.ideal (HashedFields Unit)) [firstLogin, secondLogin]
        [secondLogin, firstLogin] :=
  accepted_eq_iff_not_undetected two_logins_emitted [secondLogin, firstLogin]

/-- `stamped` is the event of a transaction whose lookup is still awaited, `pending` its rows
that are not committed. -/
structure World (H J : Type) where
  committed : List (Row H J)
  pending : Nat → List (Row H J)
  stamped : Nat → Option (HashedFields J)

inductive Event (J : Type) where
  | stamp (t : Nat) (id : UUID) (createdAt : Int) (e : Emission J)
  | link (t : Nat) (lookupFails : Bool)
  | commit (t : Nat)
  | rollback (t : Nat)

/-- A statement sees the committed rows and those of its own transaction. -/
def visible (w : World H J) (t : Nat) : List (Row H J) := w.committed ++ w.pending t

def next (F : Digest H (HashedFields J)) (redact : Option J → Option J) (tenant : UUID)
    (w : World H J) : Event J → Option (World H J)
  | .stamp t id createdAt e =>
    if w.stamped t = none ∧ e.tenantId = tenant then
      some { w with
        stamped := Function.update w.stamped t (some (buildEvent redact id createdAt e)) }
    else none
  | .link t lookupFails =>
    match w.stamped t with
    | some fields =>
      some { w with
        stamped := Function.update w.stamped t none
        pending := Function.update w.pending t
          (w.pending t ++ [chainEvent F fields (visible w t) lookupFails]) }
    | none => none
  | .commit t =>
    if w.stamped t = none then
      some { w with
        committed := w.committed ++ w.pending t
        pending := Function.update w.pending t [] }
    else none
  | .rollback t =>
    some { w with
      pending := Function.update w.pending t []
      stamped := Function.update w.stamped t none }

/-- Transactions of one tenant over a table that verifies. -/
def emissions (F : Digest H (HashedFields J)) (redact : Option J → Option J) (tenant : UUID) :
    System (World H J) (Event J) where
  start w := Good F tenant w.committed ∧ (∀ t, w.pending t = []) ∧ ∀ t, w.stamped t = none
  next := next F redact tenant

/-- The chain is looked up successfully, while no other transaction holds uncommitted rows,
for an event that comes after every row in sight. -/
def Serial (w : World H J) : Event J → Prop
  | .link t lookupFails =>
    lookupFails = false ∧ (∀ u, u ≠ t → w.pending u = []) ∧
      ∀ fields, w.stamped t = some fields → ∀ r ∈ visible w t, Before r.fields fields
  | _ => True

structure Invariant (F : Digest H (HashedFields J)) (tenant : UUID) (w : World H J) : Prop where
  single_writer : ∀ t u, w.pending t ≠ [] → w.pending u ≠ [] → t = u
  visible_good : ∀ t, Good F tenant (visible w t)
  stamped_tenant : ∀ t fields, w.stamped t = some fields → fields.tenantId = tenant

theorem Good.left {tenant : UUID} {a b : List (Row H J)} (h : Good F tenant (a ++ b)) :
    Good F tenant a where
  tenant_rows r hr := h.tenant_rows r (List.mem_append_left b hr)
  ordered := (List.pairwise_append.mp h.ordered).1
  accepted := verifyFrom_append_left h.accepted

theorem start_invariant {tenant : UUID} {w : World H J}
    (h : (emissions F redact tenant).start w) : Invariant F tenant w where
  single_writer t _ ht := (ht (h.2.1 t)).elim
  visible_good t := by rw [visible, h.2.1 t, List.append_nil]; exact h.1
  stamped_tenant t fields ht := by rw [h.2.2 t] at ht; cases ht

omit [DecidableEq H] in
theorem pending_of_cleared {w : World H J} {t v : Nat}
    (h : Function.update w.pending t [] v ≠ []) : w.pending v ≠ [] := by
  by_cases hvt : v = t
  · subst hvt
    simp at h
  · simpa [hvt] using h

theorem Invariant.stamped_tenant_of_cleared {tenant : UUID} {w : World H J} {t : Nat}
    (h : Invariant F tenant w) (v : Nat) (fields : HashedFields J)
    (hv : Function.update w.stamped t none v = some fields) : fields.tenantId = tenant := by
  by_cases hvt : v = t
  · subst hvt
    simp at hv
  · exact h.stamped_tenant v fields (by simpa [hvt] using hv)

theorem next_invariant {tenant : UUID} {w u : World H J} {e : Event J}
    (h : Invariant F tenant w) (hg : Serial w e) (hn : next F redact tenant w e = some u) :
    Invariant F tenant u := by
  cases e with
  | stamp t id createdAt e =>
    simp only [next] at hn
    split at hn
    · rename_i hok
      cases Option.some.inj hn
      refine ⟨h.single_writer, h.visible_good, fun v fields hv => ?_⟩
      by_cases hvt : v = t
      · subst hvt
        simp only [Function.update_self, Option.some.injEq] at hv
        rw [← hv]
        exact hok.2
      · exact h.stamped_tenant v fields (by simpa [hvt] using hv)
    · cases hn
  | link t lookupFails =>
    obtain ⟨rfl, halone, hlast⟩ := hg
    simp only [next] at hn
    split at hn
    swap
    · cases hn
    rename_i fields hfields
    cases Option.some.inj hn
    constructor
    · intro v x hv hx
      have only : ∀ y, Function.update w.pending t
          (w.pending t ++ [chainEvent F fields (visible w t) false]) y ≠ [] → y = t := by
        intro y hy
        by_contra hyt
        rw [Function.update_of_ne hyt] at hy
        exact hy (halone y hyt)
      exact (only v hv).trans (only x hx).symm
    · intro v
      by_cases hvt : v = t
      · subst hvt
        have hgood := (h.visible_good v).chainEvent (h.stamped_tenant v fields hfields)
          (hlast fields hfields)
        simpa [visible] using hgood
      · simpa [visible, hvt] using h.visible_good v
    · exact h.stamped_tenant_of_cleared
  | commit t =>
    simp only [next] at hn
    split at hn
    swap
    · cases hn
    cases Option.some.inj hn
    have other : ∀ v, v ≠ t → w.pending t ≠ [] → w.pending v = [] := by
      intro v hvt ht
      by_contra hv
      exact hvt (h.single_writer v t hv ht)
    constructor
    · intro v x hv hx
      exact h.single_writer v x (pending_of_cleared hv) (pending_of_cleared hx)
    · intro v
      by_cases hvt : v = t
      · subst hvt
        simpa [visible] using h.visible_good v
      · by_cases ht : w.pending t = []
        · simpa [visible, hvt, ht] using h.visible_good v
        · simpa [visible, hvt, other v hvt ht] using h.visible_good t
    · exact h.stamped_tenant
  | rollback t =>
    cases Option.some.inj hn
    constructor
    · intro v x hv hx
      exact h.single_writer v x (pending_of_cleared hv) (pending_of_cleared hx)
    · intro v
      by_cases hvt : v = t
      · subst hvt
        simpa [visible] using (h.visible_good v).left
      · simpa [visible, hvt] using h.visible_good v
    · exact h.stamped_tenant_of_cleared

theorem reachable_invariant {tenant : UUID} {w : World H J}
    (h : Reachable (emissions F redact tenant) Serial w) : Invariant F tenant w :=
  h.invariant (fun _ => start_invariant) (fun _ _ _ hi hg hn => next_invariant hi hg hn)

def emptyWorld : World (HashChain.Term (HashedFields Unit)) Unit :=
  ⟨[], fun _ => [], fun _ => none⟩

theorem emptyWorld_start :
    (emissions (HashChain.ideal (HashedFields Unit)) id 1).start emptyWorld := by
  have hnil : Emitted (HashChain.ideal (HashedFields Unit)) id 1 [] := Emitted.nil
  exact ⟨hnil.good, fun _ => rfl, fun _ => rfl⟩

theorem emptyWorld_reachable {w : World (HashChain.Term (HashedFields Unit)) Unit}
    (es : List (Event Unit))
    (hr : runTrace (emissions (HashChain.ideal (HashedFields Unit)) id 1) emptyWorld es = some w)
    (hg : TransitionSystem.GuardedTrace (emissions (HashChain.ideal (HashedFields Unit)) id 1)
      Serial emptyWorld es) :
    Reachable (emissions (HashChain.ideal (HashedFields Unit)) id 1) Serial w :=
  (Reachable.start emptyWorld_start).runTrace hg hr

def singleEmission : List (Event Unit) := [.stamp 0 1 100 login, .link 0 false, .commit 0]

end AuditEmission
