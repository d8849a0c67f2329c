import AiSOC.EventNormalizer

/-! # What an event id identifies

The id is made from the connector, the tenant, the time of receipt and the id of the payload, if it
has one. So it changes with the delivery, and events without ids of their own that come at one time
share it. -/
namespace EventIdentity

open ByteText NestedMaps EventNormalizer

section
variable {A T : Type}

/-- The same but for when it was received. -/
structure SameSource (a b : RawEvent A) : Prop where
  connectorID : a.connectorID = b.connectorID
  connectorType : a.connectorType = b.connectorType
  tenantID : a.tenantID = b.tenantID
  payload : a.payload = b.payload
  sourceFormat : a.sourceFormat = b.sourceFormat

/-- The id that the payload has, if it is a text and not empty. -/
@[grind =]
def payloadID (raw : RawEvent A) : Option Bytes :=
  match raw.payload (bytes "id") with
  | some (.leaf (.str s)) => if s = [] then none else some s
  | _ => none

def split (s : Bytes) : List Bytes := s.splitOn (byte ':')

/-- The pieces between the colons of the fields that are looked at, in a row. -/
@[grind =]
def pieces (raw : RawEvent A) : List Bytes :=
  split raw.connectorID ++ (split raw.tenantID ++
    (split raw.receivedAt ++ (payloadID raw).elim [] split))

/-- The map of the payload is as it came, and no reference leads to it. -/
structure Intact (raw : RawEvent A) (h : Maps A) : Prop where
  unreferenced : Unreferenced h payloadMap
  kept : ∀ k, (h (payloadMap, k)).value = (start raw.payload (payloadMap, k)).value

variable {env : Env A T} {raw : RawEvent A} {h : Maps A} {a : Addr Root Bytes} {k : Bytes}

theorem intact_start (raw : RawEvent A) : Intact raw (start raw.payload) := by
  refine ⟨?_, fun _ => rfl⟩
  rintro ⟨b, j⟩ hb
  match b with
  | .made _ _ _ => cases hb
  | .base .output => cases hb
  | .base (.payload path) =>
    obtain ⟨y, -, hy⟩ := Option.map_eq_some_iff.mp hb
    cases y with
    | leaf x => cases hy
    | map members =>
      have hpath := Root.payload.inj (Addr.base.inj (Value.ref.inj hy))
      exact List.append_ne_nil_of_right_ne_nil path (List.cons_ne_nil j []) hpath

theorem Intact.put (hi : Intact raw h) (ha : a ≠ payloadMap) (x : Leaf A) :
    Intact raw (put h a k (.leaf x)) := by
  constructor
  · apply hi.unreferenced.put
    rintro ⟨⟩
  · intro j
    rw [NestedMaps.put, modify_other fun heq => ha (Prod.mk.inj heq).1.symm, hi.kept]

theorem Intact.make (hi : Intact raw h) (ha : a ≠ payloadMap) : Intact raw (make h a k) := by
  constructor
  · exact hi.unreferenced.make
  · intro j
    rw [NestedMaps.make, modify_other fun heq => ha (Prod.mk.inj heq).1.symm, hi.kept]

theorem ocsf_ne_payloadMap : ocsf ≠ payloadMap := by
  rintro ⟨⟩

theorem Intact.assign (hi : Intact raw h) (key : String) (x : Leaf A) :
    Intact raw (assign h key x) :=
  hi.put ocsf_ne_payloadMap x

theorem intact_copyField (hi : Intact raw h) (entry : Bytes × Bytes) :
    Intact raw (copyField h entry) := by
  rw [copyField]
  cases hv : getNestedField h entry.1 with
  | none => exact hi
  | some v =>
    have hne : v ≠ .ref payloadMap := by
      rintro rfl
      have hlookup : lookup h (.ref payloadMap) (splitPath entry.1) ≠ some (.ref payloadMap) :=
        lookup_unreferenced hi.unreferenced (Or.inr (List.splitOn_ne_nil (byte '.') entry.1))
      rw [getNestedField] at hv
      split at hv
      · cases hv
      · exact hlookup hv
    constructor
    · exact hi.unreferenced.setNested hne
    · intro j
      have hother := @setNested_unreferenced _ _ _ _ ocsf j (splitPath entry.2) v _ _ _
        hi.unreferenced (Or.inl ocsf_ne_payloadMap)
      exact (congrArg Cell.value hother).trans (hi.kept j)

theorem intact_copied (env : Env A T) (profile : ConnectorProfile) (raw : RawEvent A) :
    Intact raw (copied env profile raw) := by
  have hbase : Intact raw (assignBase env profile raw (start raw.payload)) := by
    have hactivity := ((((intact_start raw).assign "class_uid" (.int profile.classUID)).assign
      "class_name" (.str profile.className)).assign "category_uid"
        (.int (profile.classUID / 1000))).assign "activity_id" (.int 1)
    exact (hactivity.assign _ _).assign _ _
  rw [copied]
  apply foldl_invariant _ hbase
  exact fun h hi entry _ => intact_copyField hi entry

theorem intact_assignSeverity (profile : ConnectorProfile) (hi : Intact raw h) :
    Intact raw (assignSeverity profile h).1 := by
  rw [assignSeverity]
  split
  · split
    · exact (hi.assign _ _).assign _ _
    · exact (hi.assign _ _).assign _ _
  · exact (hi.assign _ _).assign _ _

theorem intact_assignMetadata (profile : ConnectorProfile) (hi : Intact raw h) :
    Intact raw (assignMetadata env profile raw h) := by
  have hfresh : fresh h ocsf (bytes "metadata") ≠ payloadMap := by
    rintro ⟨⟩
  rw [assignMetadata]
  exact ((((hi.make ocsf_ne_payloadMap).put hfresh _).put hfresh _).put hfresh _).put hfresh _

/-! ## The key of the id -/

theorem payloadID_eq (hi : Intact raw h) :
    (payloadString h (bytes "id")).filter (· ≠ []) = payloadID raw := by
  have hcell : (h (payloadMap, bytes "id")).value =
      (raw.payload (bytes "id")).map (anyOf [bytes "id"]) := by
    rw [hi.kept]
    change ((child (.map raw.payload) (bytes "id")).bind (treeAt · [])).map _ = _
    rw [child]
    cases raw.payload (bytes "id") with
    | none => rfl
    | some y => rfl
  rw [payloadString, hcell, payloadID]
  cases raw.payload (bytes "id") with
  | none => rfl
  | some y =>
    cases y with
    | map members => rfl
    | leaf x =>
      cases x with
      | str s =>
        by_cases hs : s = []
        · simp [anyOf, hs]
        · simp [anyOf, hs]
      | _ => rfl

/-- Between its colons the key has the pieces of the fields. -/
theorem split_eventKey (hi : Intact raw h) : split (eventKey raw h) = pieces raw := by
  have hsplit : ∀ s t : Bytes, split (s ++ byte ':' :: t) = split s ++ split t :=
    fun s t => List.splitOn_append_cons_self s t
  rw [eventKey, payloadID_eq hi, pieces]
  cases payloadID raw with
  | none =>
    dsimp only
    rw [hsplit, hsplit, Option.elim_none, List.append_nil]
  | some id =>
    dsimp only
    rw [hsplit, hsplit, hsplit, Option.elim_some, List.append_assoc, List.append_assoc]

theorem split_injective : Function.Injective split := by
  intro s t hst
  have hs : [byte ':'].intercalate (split s) = s := List.intercalate_splitOn (byte ':')
  have ht : [byte ':'].intercalate (split t) = t := List.intercalate_splitOn (byte ':')
  rw [← hs, hst, ht]

/-! ## The id of a published event -/

variable {hash : Bytes → Bytes} {event : NormalizedEvent A}

theorem value_assign_other (h : Maps A) (key : String) (x : Leaf A)
    (hne : bytes "event_id" ≠ bytes key) :
    (assign h key x (ocsf, bytes "event_id")).value = (h (ocsf, bytes "event_id")).value := by
  rw [assign, put, modify_other fun heq => hne (Prod.mk.inj heq).2]

theorem value_enrich_other (h : Maps A) (key : String) (found : Option A)
    (hne : bytes "event_id" ≠ bytes key) :
    (enrich key found h (ocsf, bytes "event_id")).value = (h (ocsf, bytes "event_id")).value := by
  cases found with
  | none => rfl
  | some a => exact value_assign_other h key (.other a) hne

theorem value_assignRaw (env : Env A T) (h : Maps A) :
    (assignRaw env h (ocsf, bytes "event_id")).value = (h (ocsf, bytes "event_id")).value := by
  rw [assignRaw]
  cases env.marshal h with
  | none => rfl
  | some text => exact value_assign_other h _ _ (by decide)

/-- What comes after the id leaves it as it is. -/
theorem eventID_publish (env : Env A T) (hash : Bytes → Bytes) (profile : ConnectorProfile)
    (raw : RawEvent A) :
    ∃ key, eventID (publish env hash profile raw) = some (.leaf (.str (hash key))) ∧
      split key = pieces raw := by
  have hseverity := intact_assignSeverity profile (intact_copied env profile raw)
  have hintact := @intact_assignMetadata _ _ env _ _ profile hseverity
  have hstamped := (hintact.assign "tenant_uid" (.str raw.tenantID)).assign "source_connector_id"
    (.str raw.connectorID)
  refine ⟨_, ?_, split_eventKey hstamped⟩
  rw [eventID, publish]
  dsimp only [enriched]
  rw [value_enrich_other _ _ _ (by decide), value_enrich_other _ _ _ (by decide),
    value_enrich_other _ _ _ (by decide), value_assignRaw, assign, put, modify_same]
  rfl

theorem eventID_normalize (h : normalize env hash raw = .ok event) :
    ∃ key, eventID event = some (.leaf (.str (hash key))) ∧ split key = pieces raw := by
  rw [EventNormalizer.normalize] at h
  by_cases htenant : raw.tenantID = []
  · rw [if_pos htenant] at h
    cases h
  rw [if_neg htenant] at h
  cases hprofile : connectorProfiles.lookup raw.connectorType with
  | some profile =>
    rw [hprofile] at h
    cases h
    exact eventID_publish env hash profile raw
  | none =>
    rw [hprofile] at h
    dsimp only at h
    split_ifs at h
    cases h
    exact eventID_publish env hash splunkEnterprise raw

/-- Two events of a tenant have one id if and only if they are one, for the pairs that are one and
were received at one time, and those that are two and differ between the colons. -/
theorem event_id_identifies_iff {env env' : Env A T} (hash : Bytes → Bytes)
    (hhash : Function.Injective hash) {a b : RawEvent A} {event event' : NormalizedEvent A}
    (ha : normalize env hash a = .ok event) (hb : normalize env' hash b = .ok event')
    (htenant : a.tenantID = b.tenantID) :
    (eventID event = eventID event' ↔ SameSource a b) ↔
      (SameSource a b → a.receivedAt = b.receivedAt) ∧ (¬SameSource a b → pieces a ≠ pieces b) := by
  obtain ⟨key, hkey, hpieces⟩ := eventID_normalize ha
  obtain ⟨key', hkey', hpieces'⟩ := eventID_normalize hb
  have hids : eventID event = eventID event' ↔ pieces a = pieces b := by
    rw [hkey, hkey', ← hpieces, ← hpieces', split_injective.eq_iff, Option.some_inj,
      Value.leaf.injEq, Leaf.str.injEq, hhash.eq_iff]
  have hsame : SameSource a b → (pieces a = pieces b ↔ a.receivedAt = b.receivedAt) := by
    intro hsource
    have hid : payloadID a = payloadID b := by rw [payloadID, payloadID, hsource.payload]
    rw [pieces, pieces, hsource.connectorID, htenant, hid, List.append_cancel_left_eq,
      List.append_cancel_left_eq, List.append_cancel_right_eq, split_injective.eq_iff]
  rw [hids]
  by_cases hsource : SameSource a b
  · simp only [hsource, hsame hsource, iff_true, true_imp_iff, not_true, false_imp_iff, and_true]
  · simp only [hsource, iff_false, false_imp_iff, true_and, not_false_iff, true_imp_iff, ne_eq]

end

def fixedEnv : Env Unit Unit where
  strict := true
  version := bytes "1.1.0"
  parse _ _ := none
  formatUTC _ _ := bytes "2026-05-08T12:30:01Z"
  nowTime := ()
  nowIngest := ()
  nowMetadata := ()
  newID := bytes "e-1"
  order entries := entries
  order_perm := List.Perm.refl
  marshal _ := none
  techniques _ := none
  shodan _ := none
  vulnerabilities _ := none

/-- An event with one field in its payload. -/
def oneField (connectorID connectorType receivedAt key value : String) : RawEvent Unit where
  connectorID := bytes connectorID
  connectorType := bytes connectorType
  tenantID := bytes "t1"
  receivedAt := bytes receivedAt
  payload k := if k = bytes key then some (.leaf (.str (bytes value))) else none
  sourceFormat := bytes "json"

def search (value : String) : RawEvent Unit :=
  oneField "c1" "splunk_enterprise" "2026-05-08T12:30:01Z" "id" value

theorem normalize_ok {A T : Type} (env : Env A T) (hash : Bytes → Bytes) {raw : RawEvent A}
    (htenant : raw.tenantID ≠ [])
    (hprofile : (connectorProfiles.lookup raw.connectorType).isSome = true) :
    ∃ event, EventNormalizer.normalize env hash raw = .ok event := by
  obtain ⟨profile, hprofile⟩ := Option.isSome_iff_exists.mp hprofile
  rw [EventNormalizer.normalize, if_neg htenant, hprofile]
  exact ⟨_, rfl⟩

theorem not_sameSource {raw raw' : RawEvent Unit} (key : Bytes)
    (h : (raw.payload key).map (anyOf [key]) ≠ (raw'.payload key).map (anyOf [key])) :
    ¬SameSource raw raw' :=
  fun hsource => h (by rw [hsource.payload])

theorem payload_ids_tell_apart : ∃ event event', normalize fixedEnv id (search "A-1") = .ok event ∧
    normalize fixedEnv id (search "B-2") = .ok event' ∧
    (eventID event = eventID event' ↔ SameSource (search "A-1") (search "B-2")) := by
  obtain ⟨event, ha⟩ := @normalize_ok _ _ fixedEnv id (search "A-1") (by decide) (by decide +kernel)
  obtain ⟨event', hb⟩ := @normalize_ok _ _ fixedEnv id (search "B-2") (by decide)
    (by decide +kernel)
  have hpieces : pieces (search "A-1") ≠ pieces (search "B-2") := by decide +kernel
  exact ⟨event, event', ha, hb, (event_id_identifies_iff id Function.injective_id ha hb rfl).mpr
    ⟨fun _ => rfl, fun _ => hpieces⟩⟩

/-- Audit events have an `auditID` and no `id`. -/
def audit (receivedAt auditID : String) : RawEvent Unit :=
  oneField "kubernetes-audit-t1" "kubernetes_audit" receivedAt "auditID" auditID

/-- An audit event that is sent again a second later gets another id, and two events of one batch
get the same. -/
theorem delivery_decides : ∃ first again other,
    normalize fixedEnv id (audit "2026-05-08T12:30:01Z" "a") = .ok first ∧
    normalize fixedEnv id (audit "2026-05-08T12:30:02Z" "a") = .ok again ∧
    normalize fixedEnv id (audit "2026-05-08T12:30:01Z" "b") = .ok other ∧
    (SameSource (audit "2026-05-08T12:30:01Z" "a") (audit "2026-05-08T12:30:02Z" "a") ∧
      eventID first ≠ eventID again) ∧
    ¬SameSource (audit "2026-05-08T12:30:01Z" "a") (audit "2026-05-08T12:30:01Z" "b") ∧
      eventID first = eventID other := by
  obtain ⟨first, hfirst⟩ := @normalize_ok _ _ fixedEnv id (audit "2026-05-08T12:30:01Z" "a")
    (by decide) (by decide +kernel)
  obtain ⟨again, hagain⟩ := @normalize_ok _ _ fixedEnv id (audit "2026-05-08T12:30:02Z" "a")
    (by decide) (by decide +kernel)
  obtain ⟨other, hother⟩ := @normalize_ok _ _ fixedEnv id (audit "2026-05-08T12:30:01Z" "b")
    (by decide) (by decide +kernel)
  obtain ⟨key, hkey, hpieces⟩ := eventID_normalize hfirst
  obtain ⟨key', hkey', hpieces'⟩ := eventID_normalize hagain
  obtain ⟨key'', hkey'', hpieces''⟩ := eventID_normalize hother
  refine ⟨first, again, other, hfirst, hagain, hother, ⟨⟨rfl, rfl, rfl, rfl, rfl⟩, ?_⟩, ?_, ?_⟩
  · intro heq
    rw [hkey, hkey', Option.some_inj, Value.leaf.injEq, Leaf.str.injEq] at heq
    have hsame : pieces (audit "2026-05-08T12:30:01Z" "a") =
        pieces (audit "2026-05-08T12:30:02Z" "a") := by
      rw [← hpieces, ← hpieces']
      exact congrArg split heq
    revert hsame
    decide +kernel
  · exact not_sameSource (bytes "auditID") (by decide +kernel)
  · have hsame : pieces (audit "2026-05-08T12:30:01Z" "a") =
        pieces (audit "2026-05-08T12:30:01Z" "b") := by
      decide +kernel
    rw [← hpieces, ← hpieces''] at hsame
    rw [hkey, hkey'', split_injective hsame]

end EventIdentity
