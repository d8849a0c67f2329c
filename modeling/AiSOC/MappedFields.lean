import Mathlib.Data.List.Pairwise
import AiSOC.EventIdentity
import AiSOC.NestedFrames

/-! # What becomes of mapped fields

The profile of a connector copies fields of the payload to places in the event. What is done
afterwards leaves all places alone but three: the severity is taken from another field of the
payload, a time is copied over the one that was converted, and the text of the payload is put over
what was copied to its place. -/
namespace MappedFields

open ByteText NestedMaps NestedFrames EventNormalizer

section
variable {A T : Type}

def profileOf (raw : RawEvent A) : ConnectorProfile :=
  (connectorProfiles.lookup raw.connectorType).getD splunkEnterprise

def severity : Bytes := bytes "severity"
def time : Bytes := bytes "time"
def rawData : Bytes := bytes "raw_data"

/-- The id and the name of a severity. -/
def severityOf (profile : ConnectorProfile) (word : Option Bytes) : ℤ × Bytes :=
  match word.bind fun w => (profile.severityMap.lookup w).map fun id => (id, w) with
  | some severity => severity
  | none => (0, bytes "Unknown")

def textOf : Any A → Option Bytes
  | .leaf (.str s) => some s
  | _ => none

/-- The value is a time that can be read, and the text is its form in UTC. -/
def IsTime (env : Env A T) (v : Any A) (t : Bytes) : Prop :=
  ∃ s parsed, v = .leaf (.str s) ∧ timeFormats.findSome? (env.parse · s) = some parsed ∧
    t = env.formatUTC parsed rfc3339Nano

/-- A place in the event has the value that was mapped to it: as severity and time it is converted,
and a map is there with all that is in it. -/
def Survives (env : Env A T) (raw : RawEvent A) (h : Maps A) (place : Bytes) (v : Any A) : Prop :=
  if place = severity then
    let converted := severityOf (profileOf raw) (textOf v)
    (h (ocsf, bytes "severity_id")).value = some (.leaf (.int converted.1)) ∧
      (h (ocsf, severity)).value = some (.leaf (.str converted.2))
  else if place = time then ∃ t, IsTime env v t ∧ (h (ocsf, time)).value = some (.leaf (.str t))
  else lookup h (.ref ocsf) (splitPath place) = some v ∧
    ∀ path, lookup h v path = lookup (start raw.payload) v path

/-- Every field that is there is at the place to which the profile maps it. -/
def MappedSurvive (env : Env A T) (raw : RawEvent A) (h : Maps A) : Prop :=
  ∀ entry ∈ (profileOf raw).fieldMap, ∀ v,
    getNestedField (start raw.payload) entry.1 = some v → Survives env raw h entry.2 v

/-- The severity of the mapped value is that of the field `severity`, a mapped time has its own
form in UTC, and what is mapped to the place of the payload's text is that text, if there is one. -/
def Undisturbed (env : Env A T) (raw : RawEvent A) (place : Bytes) (v : Any A) : Prop :=
  if place = severity then
    severityOf (profileOf raw) (textOf v) =
      severityOf (profileOf raw) (payloadString (start raw.payload) severity)
  else if place = time then ∃ t, IsTime env v t ∧ v = .leaf (.str t)
  else if place = rawData then ∀ text, env.marshal (start raw.payload) = some text →
    v = .leaf (.str text)
  else True

def AllUndisturbed (env : Env A T) (raw : RawEvent A) : Prop :=
  ∀ entry ∈ (profileOf raw).fieldMap, ∀ v,
    getNestedField (start raw.payload) entry.1 = some v → Undisturbed env raw entry.2 v

/-- The maps of the payload are the same. -/
def SamePayload (h h' : Maps A) : Prop :=
  ∀ path k, h (.base (.payload path), k) = h' (.base (.payload path), k)

/-- The JSON text is made from the payload alone. -/
def MarshalsPayload (env : Env A T) : Prop :=
  ∀ h h' : Maps A, SamePayload h h' → env.marshal h = env.marshal h'

variable {env : Env A T} {raw : RawEvent A} {h h' : Maps A} {k : Bytes} {path : List Bytes}
  {v : Any A}

/-! ## The payload -/

/-- A value of the payload: no map that was made. -/
def OfPayload : Any A → Prop
  | .leaf _ => True
  | .ref (.base (.payload _)) => True
  | .ref _ => False

theorem ofPayload_start {x : Addr Root Bytes × Bytes}
    (hx : (start raw.payload x).value = some v) : OfPayload v := by
  obtain ⟨a, k⟩ := x
  match a with
  | .made _ _ _ => cases hx
  | .base .output => cases hx
  | .base (.payload path) =>
    obtain ⟨y, -, rfl⟩ := Option.map_eq_some_iff.mp hx
    cases y <;> trivial

theorem ofPayload_payloadMap : OfPayload (.ref payloadMap : Any A) := by
  unfold payloadMap
  trivial

/-- Ways that begin in the payload stay there. -/
theorem lookup_payload (hsame : SamePayload h (start raw.payload)) (hv : OfPayload v) :
    lookup h v path = lookup (start raw.payload) v path ∧
      ∀ u ∈ lookup (start raw.payload) v path, OfPayload u := by
  induction path generalizing v with
  | nil =>
    rw [lookup, lookup]
    exact ⟨rfl, fun u hu => Option.some.inj hu ▸ hv⟩
  | cons k path ih =>
    rcases v with x | ((_ | p) | _)
    · exact ⟨rfl, by rintro u ⟨⟩⟩
    · exact hv.elim
    · rw [lookup, lookup, hsame p k]
      cases hvalue : (start raw.payload (.base (.payload p), k)).value with
      | none => exact ⟨rfl, by rintro u ⟨⟩⟩
      | some u => exact ih (ofPayload_start hvalue)
    · exact hv.elim

/-! ## The profiles -/

def severityKeys : List Bytes := [bytes "severity_id", severity]

/-- Written between the severity and the text of the payload. -/
def contextKeys : List Bytes :=
  [bytes "metadata", bytes "tenant_uid", bytes "source_connector_id", bytes "event_id"]

def enrichedKeys : List Bytes :=
  [bytes "mitre_attck", bytes "shodan", bytes "vulnerability_matches"]

def laterKeys : List Bytes := severityKeys ++ (contextKeys ++ rawData :: enrichedKeys)

instance (p q : List Bytes) : Decidable (Apart p q) := inferInstanceAs (Decidable (_ ∧ _))

/-- The places of a profile are apart, and all but two begin with no key that is written later. -/
structure Separate (profile : ConnectorProfile) : Prop where
  pairwise : profile.fieldMap.Pairwise fun e e' => Apart (splitPath e.2) (splitPath e'.2)
  keys : ∀ e ∈ profile.fieldMap, e.2 = severity ∨ e.2 = rawData ∨
    ∀ k ∈ (splitPath e.2).take 1, k ∉ laterKeys

theorem separate_profiles : ∀ p ∈ connectorProfiles, Separate p.2 := by
  have hpairwise : ∀ p ∈ connectorProfiles, p.2.fieldMap.Pairwise fun e e' =>
      Apart (splitPath e.2) (splitPath e'.2) := by
    decide
  have hkeys : ∀ p ∈ connectorProfiles, ∀ e ∈ p.2.fieldMap, e.2 = severity ∨ e.2 = rawData ∨
      ∀ k ∈ (splitPath e.2).take 1, k ∉ laterKeys := by
    decide
  exact fun p hp => ⟨hpairwise p hp, hkeys p hp⟩

theorem separate_profileOf (raw : RawEvent A) : Separate (profileOf raw) := by
  rw [profileOf]
  cases hprofile : connectorProfiles.lookup raw.connectorType with
  | none =>
    exact separate_profiles (bytes "splunk_enterprise", splunkEnterprise)
      (List.mem_cons_of_mem _ (List.mem_cons_of_mem _ List.mem_cons_self))
  | some profile =>
    obtain ⟨before, after, hsplit, -⟩ := List.lookup_eq_some_iff.mp hprofile
    refine separate_profiles (raw.connectorType, profile) ?_
    rw [hsplit]
    exact List.mem_append_right _ List.mem_cons_self

/-! ## Copying -/

/-- While fields are copied: the payload is as it was, and the ways to the places are private. -/
structure Copying (raw : RawEvent A) (places : List (List Bytes)) (h : Maps A) : Prop where
  wellFormed : WellFormed h
  same : SamePayload h (start raw.payload)
  ways : ∀ p ∈ places, Private h ocsf p

theorem wellFormed_start (payload : Bytes → Option (EventNormalizer.Tree A)) :
    WellFormed (start payload) := by
  constructor
  · rintro ⟨a, k⟩ b hb
    match a with
    | .made _ _ _ => cases hb
    | .base .output => cases hb
    | .base (.payload path) =>
      obtain ⟨y, -, hy⟩ := Option.map_eq_some_iff.mp hb
      cases y with
      | leaf x => cases hy
      | map members =>
        obtain rfl := Value.ref.inj hy
        trivial
  · rintro ⟨a, k⟩ hold
    match a with
    | .made _ _ _ => rfl
    | .base _ => exact absurd trivial hold

theorem not_under_payload {p : List Bytes} {j : Bytes} :
    ¬Under ocsf k ((.base (.payload p), j) : Addr Root Bytes × Bytes) := by
  rintro (heq | ⟨n, hbelow⟩)
  · cases heq
  · cases hbelow

theorem samePayload_of_changed {ks : List Bytes} (hc : ChangedUnder ocsf ks h h') :
    SamePayload h' h :=
  fun _ _ => hc _ fun _ _ => not_under_payload

theorem SamePayload.trans {h'' : Maps A} (hs : SamePayload h h') (hs' : SamePayload h' h'') :
    SamePayload h h'' :=
  fun p k => (hs p k).trans (hs' p k)

theorem private_assign {key : String} {x : Leaf A} (hp : Private h ocsf path) :
    Private (assign h key x) ocsf path := by
  match path with
  | [] => trivial
  | [k] => trivial
  | k :: j :: path =>
    by_cases hk : k = bytes key
    · intro b hb
      rw [assign, hk, put, modify_same] at hb
      cases hb
    · exact (changedUnder_put.lookup_eq (by simpa using hk) hp).2

theorem Copying.assign {places : List (List Bytes)} (hc : Copying raw places h) (key : String)
    (x : Leaf A) : Copying raw places (assign h key x) where
  wellFormed := hc.wellFormed.put trivial trivial
  same := (samePayload_of_changed changedUnder_put).trans hc.same
  ways p hp := private_assign (hc.ways p hp)

theorem copying_base (env : Env A T) (profile : ConnectorProfile) (raw : RawEvent A)
    (places : List (List Bytes)) :
    Copying raw places (assignBase env profile raw (start raw.payload)) := by
  have hstart : Copying raw places (start raw.payload) :=
    ⟨wellFormed_start raw.payload, fun _ _ => rfl, fun _ _ => private_of_empty fun _ => rfl⟩
  exact (((((hstart.assign _ _).assign _ _).assign _ _).assign _ _).assign _ _).assign _ _

theorem getNestedField_eq {src : Bytes} (hsame : SamePayload h (start raw.payload)) :
    getNestedField h src = getNestedField (start raw.payload) src := by
  have hlookup : lookup h (.ref payloadMap) (splitPath src) =
      lookup (start raw.payload) (.ref payloadMap) (splitPath src) :=
    (lookup_payload hsame ofPayload_payloadMap).1
  rw [getNestedField, hlookup, getNestedField]

theorem ofPayload_getNestedField {src : Bytes}
    (hv : getNestedField (start raw.payload) src = some v) : OfPayload v := by
  rw [getNestedField] at hv
  split at hv
  · cases hv
  · exact (lookup_payload (fun _ _ => rfl) ofPayload_payloadMap).2 _ hv

theorem OfPayload.old (hv : OfPayload v) : OldValue h v := by
  match v with
  | .leaf x => trivial
  | .ref (.base _) => trivial
  | .ref (.made _ _ _) => exact hv.elim

/-- The first key of a place and what follows it. -/
theorem exists_splitPath (place : Bytes) : ∃ k t, splitPath place = k :: t :=
  List.exists_cons_of_ne_nil (List.splitOn_ne_nil _ place)

theorem old_ocsf : Old h ocsf := trivial

/-- One field copied: it is at its place, and what lies apart is as it was. -/
theorem copying_copyField {places : List (List Bytes)} {entry : Bytes × Bytes}
    (hc : Copying raw places h) (hmem : splitPath entry.2 ∈ places)
    (hapart : ∀ p ∈ places, p = splitPath entry.2 ∨ Apart p (splitPath entry.2)) :
    Copying raw places (copyField h entry) ∧
      (∀ v, getNestedField (start raw.payload) entry.1 = some v →
        lookup (copyField h entry) (.ref ocsf) (splitPath entry.2) = some v) ∧
      ∀ p ∈ places, Apart p (splitPath entry.2) →
        lookup (copyField h entry) (.ref ocsf) p = lookup h (.ref ocsf) p := by
  rw [copyField, getNestedField_eq hc.same]
  cases hv : getNestedField (start raw.payload) entry.1 with
  | none => exact ⟨hc, by rintro v ⟨⟩, fun _ _ _ => rfl⟩
  | some v =>
    obtain ⟨k, t, hsplit⟩ := exists_splitPath entry.2
    have hway := hc.ways _ hmem
    have hwrite := hc.wellFormed.setNested (t := splitPath entry.2) old_ocsf
      (ofPayload_getNestedField hv).old
    rw [hsplit] at hway hapart hwrite ⊢
    have hself := lookup_setNested (v := v) hc.wellFormed old_ocsf hway
    have hother : ∀ p ∈ places, Apart p (k :: t) →
        lookup (setNested h ocsf (k :: t) v) (.ref ocsf) p = lookup h (.ref ocsf) p ∧
          Private (setNested h ocsf (k :: t) v) ocsf p :=
      fun p hp => lookup_setNested_apart hc.wellFormed old_ocsf hway (hc.ways p hp)
    refine ⟨⟨hwrite, ?_, fun p hp => ?_⟩, ?_, fun p hp hpapart => (hother p hp hpapart).1⟩
    · exact (samePayload_of_changed
        (changedUnder_setNested hc.wellFormed old_ocsf hway)).trans hc.same
    · rcases hapart p hp with rfl | hpapart
      · exact hself.2
      · exact (hother p hp hpapart).2
    · rintro u hu
      rw [← Option.some.inj hu]
      exact hself.1

/-- After all fields are copied each is at its place. -/
theorem copying_copyAll {places : List (List Bytes)} {entries : List (Bytes × Bytes)}
    (hc : Copying raw places h) (hmem : ∀ e ∈ entries, splitPath e.2 ∈ places)
    (hplaces : ∀ p ∈ places, ∀ q ∈ places, p = q ∨ Apart p q)
    (hpairwise : entries.Pairwise fun e e' => Apart (splitPath e.2) (splitPath e'.2)) :
    Copying raw places (entries.foldl copyField h) ∧
      ∀ e ∈ entries, ∀ v, getNestedField (start raw.payload) e.1 = some v →
        lookup (entries.foldl copyField h) (.ref ocsf) (splitPath e.2) = some v := by
  induction entries using List.reverseRecOn with
  | nil => exact ⟨hc, nofun⟩
  | append_singleton entries entry ih =>
    obtain ⟨hmem, hlast⟩ := List.forall_mem_append.mp hmem
    have hentry := hlast entry (List.mem_singleton_self entry)
    obtain ⟨hpairwise, -, hapart⟩ := List.pairwise_append.mp hpairwise
    obtain ⟨hcopying, hthere⟩ := ih hmem hpairwise
    obtain ⟨hstep, hself, hother⟩ := copying_copyField hcopying hentry fun p hp =>
      hplaces p hp _ hentry
    rw [List.foldl_concat]
    refine ⟨hstep, List.forall_mem_append.mpr ⟨fun e he v hv => ?_, fun e he => ?_⟩⟩
    · rw [hother _ (hmem e he) (hapart e he entry (List.mem_singleton_self entry))]
      exact hthere e he v hv
    · rw [List.mem_singleton.mp he]
      exact hself

def placesOf (raw : RawEvent A) : List (List Bytes) :=
  (profileOf raw).fieldMap.map fun e => splitPath e.2

theorem copied_spec (env : Env A T) (raw : RawEvent A) :
    Copying raw (placesOf raw) (copied env (profileOf raw) raw) ∧
      ∀ e ∈ (profileOf raw).fieldMap, ∀ v, getNestedField (start raw.payload) e.1 = some v →
        lookup (copied env (profileOf raw) raw) (.ref ocsf) (splitPath e.2) = some v := by
  have hperm := env.order_perm (profileOf raw).fieldMap
  have hpairwise := (separate_profileOf raw).pairwise
  have hplaces : ∀ p ∈ placesOf raw, ∀ q ∈ placesOf raw, p = q ∨ Apart p q := by
    intro p hp q hq
    by_cases hpq : p = q
    · exact .inl hpq
    · have hsymm : Std.Symm (@Apart Bytes) := ⟨fun _ _ => Apart.symm⟩
      exact .inr ((List.pairwise_map.mpr hpairwise).forall hp hq hpq)
  obtain ⟨hcopying, hthere⟩ := copying_copyAll
    (copying_base env (profileOf raw) raw (placesOf raw))
    (fun e he => List.mem_map_of_mem (hperm.mem_iff.mp he)) hplaces
    (hperm.symm.pairwise hpairwise fun h => h.symm)
  exact ⟨hcopying, fun e he => hthere e (hperm.mem_iff.mpr he)⟩

/-! ## What is written after the copies -/

theorem changedUnder_assign (h : Maps A) (key : String) (x : Leaf A) :
    ChangedUnder ocsf [bytes key] h (assign h key x) :=
  changedUnder_put

theorem changedUnder_enrich (h : Maps A) (key : String) (found : Option A) :
    ChangedUnder ocsf [bytes key] h (enrich key found h) := by
  cases found with
  | none => exact fun _ _ => rfl
  | some a => exact changedUnder_assign h key _

theorem changedUnder_enriched (env : Env A T) (h : Maps A) :
    ChangedUnder ocsf enrichedKeys h (enriched env h) :=
  (changedUnder_enrich h "mitre_attck" _).trans
    ((changedUnder_enrich _ "shodan" _).trans (changedUnder_enrich _ "vulnerability_matches" _))

theorem changedUnder_assignMetadata (env : Env A T) (profile : ConnectorProfile)
    (raw : RawEvent A) (h : Maps A) :
    ChangedUnder ocsf [bytes "metadata"] h (assignMetadata env profile raw h) := by
  rw [assignMetadata]
  refine ChangedUnder.again ?_ changedUnder_put_made
  refine ChangedUnder.again ?_ changedUnder_put_made
  refine ChangedUnder.again ?_ changedUnder_put_made
  exact changedUnder_make.again changedUnder_put_made

theorem changedUnder_assignSeverity (profile : ConnectorProfile) (h : Maps A) :
    ChangedUnder ocsf severityKeys h (assignSeverity profile h).1 := by
  have hboth : ∀ x y : Leaf A,
      ChangedUnder ocsf severityKeys h (assign (assign h "severity_id" x) "severity" y) :=
    fun x y => (changedUnder_assign h "severity_id" x).trans (changedUnder_assign _ "severity" y)
  rw [assignSeverity]
  split
  · split
    · exact hboth _ _
    · exact hboth _ _
  · exact hboth _ _

/-- The severity is that of the field of the payload. -/
theorem severity_assigned (profile : ConnectorProfile) (h : Maps A) :
    ((assignSeverity profile h).1 (ocsf, bytes "severity_id")).value =
        some (.leaf (.int (severityOf profile (payloadString h severity)).1)) ∧
      ((assignSeverity profile h).1 (ocsf, severity)).value =
        some (.leaf (.str (severityOf profile (payloadString h severity)).2)) := by
  have hboth : ∀ (id : ℤ) (word : Bytes),
      ((assign (assign h "severity_id" (.int id)) "severity" (.str word))
          (ocsf, bytes "severity_id")).value = some (.leaf (.int id)) ∧
        ((assign (assign h "severity_id" (.int id)) "severity" (.str word))
          (ocsf, severity)).value = some (.leaf (.str word)) := by
    intro id word
    constructor
    · rw [assign, put, modify_other (by decide), assign, put, modify_same]
    · rw [assign, put, severity, modify_same]
  rw [assignSeverity, severityOf, ← severity]
  cases payloadString h severity with
  | none => exact hboth 0 _
  | some word =>
    dsimp only [Option.bind_some]
    cases profile.severityMap.lookup word with
    | none => exact hboth 0 _
    | some id => exact hboth id word

/-- The event before the text of the payload is written. -/
theorem publish_stages (env : Env A T) (hash : Bytes → Bytes) (profile : ConnectorProfile)
    (raw : RawEvent A) : ∃ h, ChangedUnder ocsf contextKeys
        (assignSeverity profile (copied env profile raw)).1 h ∧
      (publish env hash profile raw).ocsfEvent = enriched env (assignRaw env h) :=
  ⟨_, (changedUnder_assignMetadata env profile raw _).trans
    ((changedUnder_assign _ "tenant_uid" _).trans
      ((changedUnder_assign _ "source_connector_id" _).trans
        (changedUnder_assign _ "event_id" _))), rfl⟩

theorem changedUnder_assignRaw (env : Env A T) (h : Maps A) :
    ChangedUnder ocsf [rawData] h (assignRaw env h) := by
  rw [assignRaw]
  cases env.marshal h with
  | none => exact fun _ _ => rfl
  | some text => exact changedUnder_assign h "raw_data" _

theorem payloadString_eq (hsame : SamePayload h (start raw.payload)) :
    payloadString h k = payloadString (start raw.payload) k := by
  rw [payloadString, payloadMap, hsame, payloadString, payloadMap]

theorem published_severity (env : Env A T) (hash : Bytes → Bytes) (raw : RawEvent A) :
    ((publish env hash (profileOf raw) raw).ocsfEvent (ocsf, bytes "severity_id")).value =
        some (.leaf (.int (severityOf (profileOf raw)
          (payloadString (start raw.payload) severity)).1)) ∧
      ((publish env hash (profileOf raw) raw).ocsfEvent (ocsf, severity)).value =
        some (.leaf (.str (severityOf (profileOf raw)
          (payloadString (start raw.payload) severity)).2)) := by
  obtain ⟨h, hcontext, heq⟩ := publish_stages env hash (profileOf raw) raw
  have hlater := hcontext.trans ((changedUnder_assignRaw env h).trans
    (changedUnder_enriched env (assignRaw env h)))
  have hassigned := severity_assigned (profileOf raw) (copied env (profileOf raw) raw)
  rw [payloadString_eq (copied_spec env raw).1.same] at hassigned
  rw [heq, hlater.cell_eq (by decide), hlater.cell_eq (by decide)]
  exact hassigned

variable {hash : Bytes → Bytes}

/-- All but what is written later is as it was copied. -/
theorem changedUnder_published (env : Env A T) (hash : Bytes → Bytes) (raw : RawEvent A) :
    ChangedUnder ocsf laterKeys (copied env (profileOf raw) raw)
      (publish env hash (profileOf raw) raw).ocsfEvent := by
  obtain ⟨h, hcontext, heq⟩ := publish_stages env hash (profileOf raw) raw
  rw [heq]
  exact (changedUnder_assignSeverity _ _).trans (hcontext.trans
    ((changedUnder_assignRaw env h).trans (changedUnder_enriched env _)))

/-- A place that begins with no later key has what was copied to it. -/
theorem published_copied {place : Bytes} (hc : lookup (copied env (profileOf raw) raw) (.ref ocsf)
    (splitPath place) = some v) (hmem : splitPath place ∈ placesOf raw)
    (hkeys : ∀ k ∈ (splitPath place).take 1, k ∉ laterKeys) :
    lookup (publish env hash (profileOf raw) raw).ocsfEvent (.ref ocsf) (splitPath place) =
      some v := by
  have hway := (copied_spec env raw).1.ways _ hmem
  obtain ⟨k, t, hsplit⟩ := exists_splitPath place
  rw [hsplit] at hc hway hkeys ⊢
  rw [((changedUnder_published env hash raw).lookup_eq (hkeys k List.mem_cons_self) hway).1, hc]

theorem samePayload_published (env : Env A T) (hash : Bytes → Bytes) (raw : RawEvent A) :
    SamePayload (publish env hash (profileOf raw) raw).ocsfEvent (start raw.payload) :=
  (samePayload_of_changed (changedUnder_published env hash raw)).trans (copied_spec env raw).1.same

theorem lookup_singleton (a : Addr Root Bytes) : lookup h (.ref a) [k] = (h (a, k)).value := by
  rw [lookup]
  cases (h (a, k)).value with
  | none => rfl
  | some u => cases u <;> rfl

/-- At the place of the payload's text is that text, or what was copied if there is none. -/
theorem published_rawData (hmarshal : MarshalsPayload env)
    (hc : lookup (copied env (profileOf raw) raw) (.ref ocsf) (splitPath rawData) = some v) :
    lookup (publish env hash (profileOf raw) raw).ocsfEvent (.ref ocsf) (splitPath rawData) =
      some (((env.marshal (start raw.payload)).map fun text => .leaf (.str text)).getD v) := by
  obtain ⟨h, hcontext, heq⟩ := publish_stages env hash (profileOf raw) raw
  have hsplit : splitPath rawData = [rawData] := by decide
  have hbefore := (changedUnder_assignSeverity (profileOf raw) _).trans hcontext
  have hsame : SamePayload h (start raw.payload) :=
    (samePayload_of_changed hbefore).trans (copied_spec env raw).1.same
  rw [hsplit, lookup_singleton] at hc ⊢
  rw [heq, (changedUnder_enriched env _).cell_eq (by decide), assignRaw, hmarshal h _ hsame]
  cases env.marshal (start raw.payload) with
  | none =>
    change (h (ocsf, rawData)).value = some v
    rw [hbefore.cell_eq (by decide), hc]
  | some text =>
    change (assign h "raw_data" (.str text) (ocsf, rawData)).value = some (.leaf (.str text))
    rw [assign, put, rawData, modify_same]

theorem normalize_eq_publish {event : NormalizedEvent A}
    (h : EventNormalizer.normalize env hash raw = .ok event) :
    event = publish env hash (profileOf raw) raw := by
  rw [EventNormalizer.normalize] at h
  by_cases htenant : raw.tenantID = []
  · rw [if_pos htenant] at h
    cases h
  rw [if_neg htenant] at h
  rw [profileOf]
  cases hprofile : connectorProfiles.lookup raw.connectorType with
  | some profile =>
    rw [hprofile] at h
    exact (Except.ok.inj h).symm
  | none =>
    rw [hprofile] at h
    dsimp only at h
    split_ifs at h
    exact (Except.ok.inj h).symm

/-- One field survives exactly if it is undisturbed. -/
theorem survives_iff (hmarshal : MarshalsPayload env) {entry : Bytes × Bytes}
    (hentry : entry ∈ (profileOf raw).fieldMap)
    (hv : getNestedField (start raw.payload) entry.1 = some v) :
    Survives env raw (publish env hash (profileOf raw) raw).ocsfEvent entry.2 v ↔
      Undisturbed env raw entry.2 v := by
  have hcopied := (copied_spec env raw).2 entry hentry v hv
  have hmem : splitPath entry.2 ∈ placesOf raw :=
    List.mem_map_of_mem (f := fun e => splitPath e.2) hentry
  rw [Survives, Undisturbed]
  by_cases hseverity : entry.2 = severity
  · rw [if_pos hseverity, if_pos hseverity]
    obtain ⟨hid, hword⟩ := published_severity env hash raw
    dsimp only
    rw [hid, hword, Prod.ext_iff]
    simp only [Option.some.injEq, Value.leaf.injEq, Leaf.int.injEq, Leaf.str.injEq, eq_comm]
  rw [if_neg hseverity, if_neg hseverity]
  by_cases htime : entry.2 = time
  · have hsplit : splitPath time = [time] := by decide
    have htimes : ((publish env hash (profileOf raw) raw).ocsfEvent (ocsf, time)).value =
        some v := by
      rw [htime, hsplit, lookup_singleton] at hcopied
      rw [(changedUnder_published env hash raw).cell_eq (by decide), hcopied]
    rw [if_pos htime, if_pos htime, htimes]
    simp only [Option.some.injEq]
  rw [if_neg htime, if_neg htime]
  have hpayload : ∀ path, lookup (publish env hash (profileOf raw) raw).ocsfEvent v path =
      lookup (start raw.payload) v path :=
    fun path => (lookup_payload (samePayload_published env hash raw)
      (ofPayload_getNestedField hv)).1
  by_cases hraw : entry.2 = rawData
  · rw [if_pos hraw, hraw]
    rw [hraw] at hcopied
    rw [published_rawData hmarshal hcopied]
    cases env.marshal (start raw.payload) with
    | none => exact iff_of_true ⟨rfl, hpayload⟩ nofun
    | some text =>
      simp only [Option.map_some, Option.getD_some, Option.some.injEq, forall_eq']
      exact ⟨fun h => h.1.symm, fun h => ⟨h.symm, hpayload⟩⟩
  · rw [if_neg hraw]
    have hkeys := ((separate_profileOf raw).keys entry hentry).resolve_left hseverity
    exact iff_of_true ⟨published_copied hcopied hmem (hkeys.resolve_left hraw), hpayload⟩ trivial

/-- The mapped fields survive exactly if each of them is undisturbed. -/
theorem mapped_survive_iff (env : Env A T) (hmarshal : MarshalsPayload env) (hash : Bytes → Bytes)
    (raw : RawEvent A) (event : NormalizedEvent A)
    (h : EventNormalizer.normalize env hash raw = .ok event) :
    MappedSurvive env raw event.ocsfEvent ↔ AllUndisturbed env raw := by
  rw [normalize_eq_publish h, MappedSurvive, AllUndisturbed]
  exact forall₂_congr fun entry hentry => forall₂_congr fun v hv =>
    survives_iff hmarshal hentry hv

end

/-- With the JSON text of a payload. -/
def jsonEnv (json : String) : Env Unit Unit :=
  { EventIdentity.fixedEnv with marshal := fun _ => some (bytes json) }

theorem marshalsPayload_jsonEnv (json : String) : MarshalsPayload (jsonEnv json) := fun _ _ _ => rfl

/-- An alert of Sentinel with one field. -/
def sentinelAlert (key value : String) : RawEvent Unit :=
  EventIdentity.oneField "c1" "microsoft_sentinel" "2026-05-08T12:30:01Z" key value

theorem sentinel_normalizes (json key value : String) :
    ∃ event, EventNormalizer.normalize (jsonEnv json) id (sentinelAlert key value) = .ok event := by
  refine EventIdentity.normalize_ok (jsonEnv json) id ?_ ?_
  · change bytes "t1" ≠ []
    decide
  · change (connectorProfiles.lookup (bytes "microsoft_sentinel")).isSome = true
    decide

theorem alert_name_survives : ∃ event,
    EventNormalizer.normalize (jsonEnv "\x7b\"AlertName\":\"Malware\"\x7d") id
      (sentinelAlert "AlertName" "Malware") = .ok event ∧
    MappedSurvive (jsonEnv "\x7b\"AlertName\":\"Malware\"\x7d")
      (sentinelAlert "AlertName" "Malware") event.ocsfEvent := by
  obtain ⟨event, hevent⟩ := sentinel_normalizes "\x7b\"AlertName\":\"Malware\"\x7d" "AlertName"
    "Malware"
  refine ⟨event, hevent,
    (mapped_survive_iff _ (marshalsPayload_jsonEnv _) id _ event hevent).mpr ?_⟩
  have hplaces : ∀ entry ∈ (profileOf (sentinelAlert "AlertName" "Malware")).fieldMap,
      entry.2 = bytes "message" ∨
        getNestedField (start (sentinelAlert "AlertName" "Malware").payload) entry.1 = none := by
    decide +kernel
  intro entry hentry v hv
  rcases hplaces entry hentry with hplace | hnone
  · rw [Undisturbed, hplace, if_neg (by decide), if_neg (by decide), if_neg (by decide)]
    trivial
  · rw [hnone] at hv
    cases hv

/-- The severity of an alert is unknown where the profile maps it. -/
theorem mapped_severity_lost : ∃ event,
    EventNormalizer.normalize (jsonEnv "\x7b\"Severity\":\"High\"\x7d") id
      (sentinelAlert "Severity" "High") = .ok event ∧
    ¬MappedSurvive (jsonEnv "\x7b\"Severity\":\"High\"\x7d")
      (sentinelAlert "Severity" "High") event.ocsfEvent := by
  obtain ⟨event, hevent⟩ := sentinel_normalizes "\x7b\"Severity\":\"High\"\x7d" "Severity" "High"
  refine ⟨event, hevent, fun hsurvive => ?_⟩
  have hentry : (bytes "Severity", severity) ∈
      (profileOf (sentinelAlert "Severity" "High")).fieldMap := by
    decide +kernel
  have hv : getNestedField (start (sentinelAlert "Severity" "High").payload) (bytes "Severity") =
      some (.leaf (.str (bytes "High"))) := by
    decide +kernel
  rw [normalize_eq_publish hevent] at hsurvive
  have hundisturbed := (survives_iff (marshalsPayload_jsonEnv _) hentry hv).mp
    (hsurvive _ hentry _ hv)
  rw [Undisturbed, if_pos rfl] at hundisturbed
  revert hundisturbed
  decide +kernel

end MappedFields
