import Mathlib.Data.List.Dedup
import AiSOC.CodeText
import AiSOC.SecondaryIndex
import AiSOC.TransitionSystem

/-! # Push subscriptions

The record of an id is at its own key, and three families of sets index the records by tenant, by
user and by topic. No key expires; a call whose transaction fails leaves everything as it was. -/
namespace PushManager

open SecondaryIndex (addAll removeAll Exact)
open TransitionSystem (System Reachable)

def key (parts : List String) : String := ":".intercalate ("aisoc" :: "push" :: parts)

/-- An empty text counts as none. -/
def truthy (field : Option String) : Option String := field.filter (· ≠ "")

structure PushKeys where
  p256dh : String
  auth : String
  deriving DecidableEq

structure SubscriptionPayload where
  endpoint : String
  keys : Option PushKeys

structure SubscribeRequestBody where
  subscription : Option SubscriptionPayload
  userAgent : Option String
  topics : Option (List String)

structure SubscriptionRecord where
  id : String
  tenantId : String
  userId : Option String
  endpoint : String
  keys : PushKeys
  userAgent : Option String
  topics : List String
  createdAt : String
  lastSeenAt : String
  deriving DecidableEq

structure State where
  records : String → Option SubscriptionRecord
  sets : String → List String

/-- Whether pushing is enabled, and how an endpoint gets its id. -/
structure Manager where
  enabled : Bool
  hashEndpoint : String → String

def defaultTopics : List String := ["p0_alert", "agent_approval", "oncall_handoff"]

def topicsOf (body : SubscribeRequestBody) : List String :=
  match body.topics with
  | some (topic :: topics) => topic :: topics
  | _ => defaultTopics

/-- The endpoint and the keys of a request, if it has them all. -/
def subscriptionOf (body : SubscribeRequestBody) : Option (String × PushKeys) := do
  let sub ← body.subscription
  let keys ← sub.keys
  if sub.endpoint = "" ∨ keys.p256dh = "" ∨ keys.auth = "" then none
  else some (sub.endpoint, keys)

/-- The sets that are to hold the id of a record. -/
def keysOf (r : SubscriptionRecord) : List String :=
  key ["tenant", r.tenantId] ::
    ((truthy r.userId).toList.map fun user => key ["user", r.tenantId, user]) ++
      r.topics.map fun topic => key ["topic", r.tenantId, topic]

/-- `now` is read for the creation and for the last sight. -/
def newRecord (existing : Option SubscriptionRecord) (id tenantId : String)
    (userId : Option String) (body : SubscribeRequestBody) (sub : String × PushKeys)
    (now : String × String) : SubscriptionRecord where
  id := id
  tenantId := tenantId
  userId := userId
  endpoint := sub.1
  keys := sub.2
  userAgent := body.userAgent
  topics := topicsOf body
  createdAt := (existing.map SubscriptionRecord.createdAt).getD now.1
  lastSeenAt := now.2

/-- Topics of the record before that are none of the new ones. -/
def prunedTopics (existing : Option SubscriptionRecord) (topics : List String) : List String :=
  ((existing.map SubscriptionRecord.topics).getD []).filter (· ∉ topics)

def upsertSubscription (m : Manager) (s : State) (tenantId : String) (userId : Option String)
    (body : SubscribeRequestBody) (now : String × String) : State × Option SubscriptionRecord :=
  match subscriptionOf body with
  | none => (s, none)
  | some sub =>
    let id := m.hashEndpoint sub.1
    let record := newRecord (s.records id) id tenantId userId body sub now
    let pruned := (prunedTopics (s.records id) record.topics).map fun topic =>
      key ["topic", tenantId, topic]
    (⟨Function.update s.records id (some record),
      removeAll (addAll s.sets id (keysOf record)) id pruned⟩, some record)

/-- The sets are those of the stored record; the tenant of the call is not looked at. -/
def removeSubscriptionById (s : State) (id : String) : State × Bool :=
  match s.records id with
  | none => (s, false)
  | some record =>
    (⟨Function.update s.records id none, removeAll s.sets id (keysOf record)⟩, true)

structure Target where
  tenantId : String
  userIds : Option (List String)
  topic : Option String

def users (target : Target) : List String := target.userIds.getD []

def listIds (s : State) (target : Target) : List String :=
  if users target ≠ [] then
    (users target).flatMap fun user => s.sets (key ["user", target.tenantId, user])
  else
    match truthy target.topic with
    | some topic => s.sets (key ["topic", target.tenantId, topic])
    | none => s.sets (key ["tenant", target.tenantId])

def resolveSubscriptions (s : State) (target : Target) : List SubscriptionRecord :=
  (listIds s target).dedup.filterMap s.records

/-- How the push service answers: by 404 or 410 if the endpoint is gone. -/
inductive Answer where
  | delivered
  | gone
  | failed

/-- The record that was passed is written, not the stored one. -/
def sendToSubscription (m : Manager) (s : State) (record : SubscriptionRecord) (answer : Answer)
    (now : String) : State × (Bool × Bool) :=
  if m.enabled then
    match answer with
    | .delivered =>
      ({ s with
        records := Function.update s.records record.id (some { record with lastSeenAt := now }) },
        (true, false))
    | .gone => ((removeSubscriptionById s record.id).1, (false, true))
    | .failed => (s, (false, false))
  else (s, (false, false))

inductive Call where
  | upsert (tenantId : String) (userId : Option String) (body : SubscribeRequestBody)
    (now : String × String)
  | remove (tenantId id : String)
  | send (record : SubscriptionRecord) (answer : Answer) (now : String)

def perform (m : Manager) (s : State) : Call → State
  | .upsert tenantId userId body now => (upsertSubscription m s tenantId userId body now).1
  | .remove _ id => (removeSubscriptionById s id).1
  | .send record answer now => (sendToSubscription m s record answer now).1

def system (m : Manager) : System State Call where
  start s := s = ⟨fun _ => none, fun _ => []⟩
  next s c := some (perform m s c)

/-- Users count if there are any, else the topic if there is one. -/
def Matches (target : Target) (r : SubscriptionRecord) : Prop :=
  r.tenantId = target.tenantId ∧
    if users target ≠ [] then ∃ user ∈ users target, r.userId = some user
    else ∀ topic, truthy target.topic = some topic → topic ∈ r.topics

def ResolvesExactly (s : State) : Prop :=
  ∀ target, (resolveSubscriptions s target).Nodup ∧
    ∀ r, r ∈ resolveSubscriptions s target ↔ (∃ id, s.records id = some r) ∧ Matches target r

/-- Texts that two parts of a key cannot share differently. -/
structure Plain (tenantId : String) (userId : Option String) (topics : List String) : Prop where
  tenant : ':' ∉ tenantId.toList
  user : ∀ user, userId = some user → user ≠ "" ∧ ':' ∉ user.toList
  topic : ∀ topic ∈ topics, ':' ∉ topic.toList

/-- An endpoint stays with its tenant and its user, and a record is delivered to while the stored
one has the same tenant, user and topics. -/
def Keeps (m : Manager) (s : State) : Call → Prop
  | .upsert tenantId userId body _ => ∀ sub, subscriptionOf body = some sub →
      Plain tenantId userId (topicsOf body) ∧
        ∀ e, s.records (m.hashEndpoint sub.1) = some e →
          e.tenantId = tenantId ∧ (truthy e.userId = none ∨ e.userId = userId)
  | .send record .delivered _ => m.enabled = true → ∃ e, s.records record.id = some e ∧
      e.tenantId = record.tenantId ∧ e.userId = record.userId ∧
        ∀ topic, topic ∈ e.topics ↔ topic ∈ record.topics
  | _ => True

variable {m : Manager} {s t : State} {r e : SubscriptionRecord} {c : Call} {target : Target}
  {k k' x x' tenant tenant' part part' : String} {xs xs' : List String}

/-! ## Keys -/

theorem key_inj (hk : ':' ∉ k.toList) (hk' : ':' ∉ k'.toList)
    (h : key (k :: x :: xs) = key (k' :: x' :: xs')) :
    k = k' ∧ ":".intercalate (x :: xs) = ":".intercalate (x' :: xs') := by
  simp only [key, String.intercalate_cons_cons] at h
  have hparts := (String.append_right_inj _).mp ((String.append_right_inj _).mp h)
  have hlist := congrArg String.toList hparts
  have hcolon : ":".toList = [':'] := by decide
  simp only [String.toList_append, hcolon, List.append_assoc, List.singleton_append] at hlist
  obtain ⟨hkind, hrest⟩ := CodeText.append_cons_inj hk hk' hlist
  exact ⟨String.toList_inj.mp hkind, String.toList_inj.mp hrest⟩

/-- The text has one colon, which is where it is split. -/
theorem pair_inj (htenant : ':' ∉ tenant.toList) (hpart : ':' ∉ part.toList)
    (h : ":".intercalate [tenant', part'] = ":".intercalate [tenant, part]) :
    tenant' = tenant ∧ part' = part := by
  have hlist := congrArg String.toList h
  have hcolon : ":".toList = [':'] := by decide
  simp only [String.intercalate_cons_cons, String.intercalate_singleton, String.toList_append,
    hcolon, List.append_assoc, List.singleton_append] at hlist
  have hcount := congrArg (List.count ':') hlist
  rw [List.count_append, List.count_cons_self, List.count_append, List.count_cons_self,
    List.count_eq_zero.mpr htenant, List.count_eq_zero.mpr hpart] at hcount
  have htenant' : ':' ∉ tenant'.toList := List.count_eq_zero.mp (by omega)
  obtain ⟨hleft, hright⟩ := CodeText.append_cons_inj htenant' htenant hlist
  exact ⟨String.toList_inj.mp hleft, String.toList_inj.mp hright⟩

theorem mem_keysOf : k ∈ keysOf r ↔ k = key ["tenant", r.tenantId] ∨
    (∃ user, truthy r.userId = some user ∧ k = key ["user", r.tenantId, user]) ∨
      ∃ topic ∈ r.topics, k = key ["topic", r.tenantId, topic] := by
  simp only [keysOf, List.mem_append, List.mem_cons, List.mem_map, Option.mem_toList, or_assoc,
    eq_comm]

theorem tenant_mem_keysOf : key ["tenant", tenant] ∈ keysOf r ↔ r.tenantId = tenant := by
  rw [mem_keysOf]
  constructor
  · rintro (h | ⟨user, -, h⟩ | ⟨topic, -, h⟩)
    · have hpart := (key_inj (by decide) (by decide) h).2
      rw [String.intercalate_singleton, String.intercalate_singleton] at hpart
      exact hpart.symm
    · exact absurd (key_inj (by decide) (by decide) h).1 (by decide)
    · exact absurd (key_inj (by decide) (by decide) h).1 (by decide)
  · rintro rfl
    exact Or.inl rfl

theorem truthy_eq_some (hr : Plain r.tenantId r.userId r.topics) :
    truthy r.userId = some part ↔ r.userId = some part := by
  rw [truthy, Option.filter_eq_some_iff, decide_eq_true_iff]
  exact and_iff_left_of_imp fun h => (hr.user part h).1

theorem user_mem_keysOf (hr : Plain r.tenantId r.userId r.topics) :
    key ["user", tenant, part] ∈ keysOf r ↔ r.tenantId = tenant ∧ r.userId = some part := by
  rw [mem_keysOf]
  constructor
  · rintro (h | ⟨user, huser, h⟩ | ⟨topic, -, h⟩)
    · exact absurd (key_inj (by decide) (by decide) h).1 (by decide)
    · rw [truthy_eq_some hr] at huser
      have hparts := (key_inj (by decide) (by decide) h).2
      obtain ⟨rfl, rfl⟩ := pair_inj hr.tenant (hr.user user huser).2 hparts
      exact ⟨rfl, huser⟩
    · exact absurd (key_inj (by decide) (by decide) h).1 (by decide)
  · rintro ⟨rfl, huser⟩
    exact Or.inr (Or.inl ⟨part, (truthy_eq_some hr).mpr huser, rfl⟩)

theorem topic_mem_keysOf (hr : Plain r.tenantId r.userId r.topics) :
    key ["topic", tenant, part] ∈ keysOf r ↔ r.tenantId = tenant ∧ part ∈ r.topics := by
  rw [mem_keysOf]
  constructor
  · rintro (h | ⟨user, -, h⟩ | ⟨topic, htopic, h⟩)
    · exact absurd (key_inj (by decide) (by decide) h).1 (by decide)
    · exact absurd (key_inj (by decide) (by decide) h).1 (by decide)
    · have hparts := (key_inj (by decide) (by decide) h).2
      obtain ⟨rfl, rfl⟩ := pair_inj hr.tenant (hr.topic topic htopic) hparts
      exact ⟨rfl, htopic⟩
  · rintro ⟨rfl, htopic⟩
    exact Or.inr (Or.inr ⟨part, htopic, rfl⟩)

/-! ## Every run -/

structure Invariant (s : State) : Prop where
  id : ∀ id r, s.records id = some r → r.id = id
  plain : ∀ id r, s.records id = some r → Plain r.tenantId r.userId r.topics
  exact : Exact keysOf s.records s.sets

theorem Invariant.resolvesExactly (h : Invariant s) : ResolvesExactly s := by
  intro target
  have hids : ∀ id, id ∈ listIds s target ↔ ∃ r, s.records id = some r ∧ Matches target r := by
    intro id
    rw [listIds]
    by_cases husers : users target ≠ []
    · simp only [if_pos husers, List.mem_flatMap, h.exact _ id, Matches]
      constructor
      · rintro ⟨user, huser, r, hr, hk⟩
        obtain ⟨htenant, hsome⟩ := (user_mem_keysOf (h.plain id r hr)).mp hk
        exact ⟨r, hr, htenant, user, huser, hsome⟩
      · rintro ⟨r, hr, htenant, user, huser, hsome⟩
        exact ⟨user, huser, r, hr, (user_mem_keysOf (h.plain id r hr)).mpr ⟨htenant, hsome⟩⟩
    · simp only [if_neg husers, Matches]
      cases htopic : truthy target.topic with
      | some topic =>
        simp only [Option.some.injEq, forall_eq', h.exact _ id]
        constructor
        · rintro ⟨r, hr, hk⟩
          exact ⟨r, hr, (topic_mem_keysOf (h.plain id r hr)).mp hk⟩
        · rintro ⟨r, hr, hmatch⟩
          exact ⟨r, hr, (topic_mem_keysOf (h.plain id r hr)).mpr hmatch⟩
      | none =>
        simp only [reduceCtorEq, false_implies, implies_true, and_true, h.exact _ id,
          tenant_mem_keysOf]
  constructor
  · have hinj : ∀ id id' r, r ∈ s.records id → r ∈ s.records id' → id = id' := by
      intro id id' r hr hr'
      rw [← h.id id r hr, h.id id' r hr']
    exact (List.nodup_dedup _).filterMap hinj
  · intro r
    simp only [resolveSubscriptions, List.mem_filterMap, List.mem_dedup, hids]
    constructor
    · rintro ⟨id, ⟨r', hr', hmatch⟩, hr⟩
      obtain rfl := Option.some.inj (hr'.symm.trans hr)
      exact ⟨⟨id, hr⟩, hmatch⟩
    · rintro ⟨⟨id, hr⟩, hmatch⟩
      exact ⟨id, ⟨r, hr, hmatch⟩, hr⟩

/-- A record that is written under its id. -/
theorem Invariant.write (h : Invariant s) (hr : Plain r.tenantId r.userId r.topics)
    {sets : String → List String}
    (hexact : Exact keysOf (Function.update s.records r.id (some r)) sets) :
    Invariant ⟨Function.update s.records r.id (some r), sets⟩ := by
  have hrecords : ∀ id e, Function.update s.records r.id (some r) id = some e →
      e = r ∧ id = r.id ∨ s.records id = some e := by
    intro id e he
    by_cases hid : id = r.id
    · subst hid
      rw [Function.update_self, Option.some.injEq] at he
      exact Or.inl ⟨he.symm, rfl⟩
    · rw [Function.update_of_ne hid] at he
      exact Or.inr he
  constructor
  case id =>
    intro id e he
    rcases hrecords id e he with ⟨rfl, rfl⟩ | he
    · rfl
    · exact h.id id e he
  case plain =>
    intro id e he
    rcases hrecords id e he with ⟨rfl, rfl⟩ | he
    · exact hr
    · exact h.plain id e he
  case exact => exact hexact

theorem Invariant.remove (h : Invariant s) (id : String) :
    Invariant (removeSubscriptionById s id).1 := by
  rw [removeSubscriptionById]
  cases hr : s.records id with
  | none => exact h
  | some r =>
    have hrecords : ∀ id' e, Function.update s.records id none id' = some e →
        s.records id' = some e := by
      intro id' e he
      by_cases hid : id' = id
      · rw [hid, Function.update_self] at he
        exact absurd he.symm (Option.some_ne_none e)
      · rwa [Function.update_of_ne hid] at he
    exact ⟨fun id' e he => h.id id' e (hrecords id' e he),
      fun id' e he => h.plain id' e (hrecords id' e he), h.exact.erase hr⟩

theorem Invariant.upsert (h : Invariant s) {tenantId : String} {userId : Option String}
    {body : SubscribeRequestBody} {now : String × String}
    (hkeeps : Keeps m s (.upsert tenantId userId body now)) :
    Invariant (upsertSubscription m s tenantId userId body now).1 := by
  cases hsub : subscriptionOf body with
  | none =>
    simp only [upsertSubscription, hsub]
    exact h
  | some sub =>
    obtain ⟨hplain, hsame⟩ := hkeeps sub hsub
    simp only [upsertSubscription, hsub]
    apply Invariant.write (r := newRecord _ (m.hashEndpoint sub.1) tenantId userId body sub now) h
      hplain
    apply h.exact.put
    · intro e he k hk
      obtain ⟨htenant, huser⟩ := hsame e he
      rcases mem_keysOf.mp hk with rfl | ⟨user, hu, rfl⟩ | ⟨topic, htopic, rfl⟩
      · refine Or.inl (mem_keysOf.mpr (Or.inl ?_))
        rw [htenant]
        rfl
      · refine Or.inl (mem_keysOf.mpr (Or.inr (Or.inl ⟨user, ?_, ?_⟩)))
        · rcases huser with hnone | heq
          · exact absurd (hnone.symm.trans hu) (Option.some_ne_none user).symm
          · rw [← hu, heq]
            rfl
        · rw [htenant]
          rfl
      · by_cases hmem : topic ∈ topicsOf body
        · refine Or.inl (mem_keysOf.mpr (Or.inr (Or.inr ⟨topic, hmem, ?_⟩)))
          rw [htenant]
          rfl
        · have hexisting : s.records (m.hashEndpoint sub.1) = some e := he
          right
          rw [htenant, hexisting]
          apply List.mem_map_of_mem
          exact List.mem_filter.mpr ⟨htopic, decide_eq_true hmem⟩
    · intro k hk
      obtain ⟨topic, htopic, rfl⟩ := List.mem_map.mp hk
      have hnotMem := of_decide_eq_true (List.mem_filter.mp htopic).2
      rw [topic_mem_keysOf hplain]
      exact fun hmem => hnotMem hmem.2

theorem Invariant.send (h : Invariant s) {answer : Answer} {now : String}
    (hkeeps : Keeps m s (.send r answer now)) :
    Invariant (sendToSubscription m s r answer now).1 := by
  by_cases henabled : m.enabled = true
  · simp only [sendToSubscription, if_pos henabled]
    cases answer with
    | delivered =>
      obtain ⟨e, he, htenant, huser, htopics⟩ := hkeeps henabled
      have hplain := h.plain _ e he
      rw [htenant, huser] at hplain
      apply Invariant.write (r := { r with lastSeenAt := now }) h
      · exact ⟨hplain.tenant, hplain.user,
          fun topic ht => hplain.topic topic ((htopics topic).mpr ht)⟩
      · apply h.exact.replace he
        intro k
        simp only [mem_keysOf, htenant, huser, htopics]
    | gone => exact h.remove r.id
    | failed => exact h
  · simp only [sendToSubscription, if_neg henabled]
    exact h

/-- A call that keeps the owners keeps the invariant. -/
theorem Invariant.perform (h : Invariant s) (hkeeps : Keeps m s c) : Invariant (perform m s c) := by
  cases c with
  | upsert tenantId userId body now => exact h.upsert hkeeps
  | remove tenantId id => exact h.remove id
  | send record answer now => exact h.send hkeeps

theorem invariant_of_reachable (h : Reachable (system m) (Keeps m) s) : Invariant s := by
  apply h.invariant
  · rintro s rfl
    exact ⟨nofun, nofun, SecondaryIndex.exact_empty keysOf⟩
  · rintro s c t hs hkeeps hnext
    obtain rfl := Option.some.inj hnext
    exact hs.perform hkeeps

/-- The endpoint is its own id. -/
def plainManager : Manager := ⟨true, fun endpoint => endpoint⟩

def phone : SubscribeRequestBody := ⟨some ⟨"phone", some ⟨"p", "a"⟩⟩, none, none⟩

def registered (s : State) (tenantId : String) : State :=
  perform plainManager s (.upsert tenantId none phone ("t0", "t0"))

def noRecords : State := ⟨fun _ => none, fun _ => []⟩

end PushManager
