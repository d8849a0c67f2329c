import AiSOC.FallibleRuns
import AiSOC.IntegerText
import AiSOC.UebaConsumer

/-! # When the consumer goes on

A message does not end the consumer exactly when it can be read and what it asks for can be
stored; a run goes on exactly when this holds of each message in the state that it meets. -/
namespace UebaGuard

open ByteText (Bytes bytes)
open CodeText (Text text cp)
open EntityBaseline (FeatureStats)
open FallibleRuns
open JsonText (Json member)
open UebaConsumer

variable (rt : Runtime)

/-! ## What a message must be -/

/-- The value is a text that the database takes. -/
def Sent (value : Json Text) (t : Text) : Prop := value = .str t ∧ rt.takesText t = true

/-- Not too long for a column of so many characters, but for spaces at its end. -/
def Short (n : ℕ) (t : Text) : Prop := t.length ≤ n ∨ ∀ c ∈ t.drop n, c = cp ' '

def Fits (n : ℕ) (value : Json Text) : Prop := ∃ t, Sent rt value t ∧ Short n t

def FitsOrNull (n : ℕ) (value : Json Text) : Prop := value = .null ∨ Fits rt n value

def isText (value : Json Text) (t : Text) : Bool :=
  match value with
  | .str s => s = t
  | _ => false

/-- The rows of the entity. -/
def baselinesOf (db : Db) (e : Event) : List BaselineRow :=
  db.baselines.filter fun row =>
    row.tenantId = e.tenantId ∧ isText e.entityType row.entityType ∧ isText e.entityId row.entityId

def baselineStats (db : Db) (e : Event) : Stats :=
  match baselinesOf db e with
  | [row] => row.featureStats
  | _ => OrderedDict.empty

/-- The group of the event, if it is a group of the tenant. -/
def ownGroup (db : Db) (e : Event) : Option GroupRow :=
  match e.peerGroupId with
  | .str id => selectGroup db e.tenantId id
  | _ => none

def groupStats (db : Db) (e : Event) : Stats :=
  ((ownGroup db e).map GroupRow.featureStats).getD OrderedDict.empty

def memberCount (db : Db) (e : Event) : ℕ := ((ownGroup db e).map GroupRow.memberCount).getD 0

/-- The statistics can be brought up to date, and the column takes them if there is a new name. -/
def Updatable (loaded : Stats) (features : Features) : Prop :=
  ∃ stats, updateStats loaded features = .ok stats ∧
    ((∃ f ∈ features, loaded.get f.1 = none) → (rt.keeps stats).isSome)

/-- The statistics of the group of the event, with the event. -/
def peerStats (db : Db) (e : Event) : Outcome (Option Stats) :=
  if isTruthy rt e.peerGroupId then (updateStats (groupStats db e) e.features).map some
  else .ok none

/-- The composite score, and the deviation from the group. -/
def verdictOf (stats : Stats) (features : Features) (peer : Option Stats) :
    Outcome (Float × Option Float) := do
  let composite ← compositeScore rt (scoreFeatures stats features)
  let deviation ← peerDeviation rt peer features
  return (blend composite deviation, deviation)

def verdict (db : Db) (e : Event) : Outcome (Float × Option Float) := do
  let peer ← peerStats rt db e
  verdictOf rt (baselineStats db e) e.features peer

/-- The group is one of the tenant, or there is none of this id yet, of any tenant. -/
structure GroupStorable (db : Db) (e : Event) : Prop where
  id : ∃ id, Sent rt e.peerGroupId id
  new : ownGroup db e = none → Fits rt 32 e.entityType ∧
    ∀ id, e.peerGroupId = .str id → db.groups.get id = none ∧ id.length ≤ 64
  stats : Updatable rt (groupStats db e) e.features
  count : ∀ stats, updateStats (groupStats db e) e.features = .ok stats →
    ∀ n, firstCount stats = some n → n ≠ memberCount db e → n ≤ maxInteger

structure AnomalyStorable (db : Db) (e : Event) : Prop where
  entityType : Fits rt 32 e.entityType
  entityId : Fits rt 256 e.entityId
  sourceEventId : FitsOrNull rt 128 e.sourceEventId
  eventType : Fits rt 128 e.eventType
  peerGroupId : FitsOrNull rt 64 e.peerGroupId
  scores : rt.takesScores (scoreFeatures (baselineStats db e) e.features) = true

structure Storable (db : Db) (e : Event) : Prop where
  entityType : ∃ t, Sent rt e.entityType t
  entityId : ∃ t, Sent rt e.entityId t
  single : (baselinesOf db e).length ≤ 1
  new : baselinesOf db e = [] → Fits rt 32 e.entityType ∧ Fits rt 256 e.entityId
  stats : Updatable rt (baselineStats db e) e.features
  group : isTruthy rt e.peerGroupId = true → GroupStorable rt db e
  scored : Returns (verdict rt db e)
  anomaly : ∀ composite deviation, verdict rt db e = .ok (composite, deviation) →
    ¬ composite < rt.anomalyThreshold → AnomalyStorable rt db e

/-- The number that `float` makes of the value, if it makes one. -/
@[grind =]
def number : Json Text → Option Float
  | .bool b => some (if b then 1 else 0)
  | .int n => some (Float.ofInt n)
  | .float literal => rt.float literal
  | .str t => rt.float t
  | _ => none

def numbers (members : List (Text × Json Text)) : Features :=
  (items members).filterMap fun e => (number rt e.2).map fun x => (e.1, x)

/-- The message names a tenant and an entity. -/
def Named (msg : List (Text × Json Text)) : Prop :=
  isTruthy rt (field msg "tenant_id") = true ∧ isTruthy rt (field msg "entity_id") = true

def featuresOf (msg : List (Text × Json Text)) : Json Text :=
  (member msg (text "features")).getD (.obj [])

structure ReadableObject (msg : List (Text × Json Text)) : Prop where
  tenant : Named rt msg → ∃ raw, field msg "tenant_id" = .str raw
  features : Named rt msg → ∀ raw tenantId, field msg "tenant_id" = .str raw →
    rt.uuid raw = some tenantId → ∃ members, featuresOf msg = .obj members ∧
      ∀ k n, (k, .int n) ∈ items members → n.natAbs < floatBound

/-- Text that is no JSON, or an object whose values are those that are asked for. -/
def Readable (raw : Bytes) : Prop :=
  ∃ t, TextEncoding.decode raw = some t ∧
    (JsonParser.loads rt.depth t = .error .decode ∧ rt.isDecodeError t = true ∨
      ∃ msg, JsonParser.loads rt.depth t = .ok (.obj msg) ∧ ReadableObject rt msg)

def eventOf (msg : List (Text × Json Text)) (tenantId : Uuid)
    (members : List (Text × Json Text)) : Event where
  tenantId := tenantId
  entityType := (member msg (text "entity_type")).getD (.str (text "user"))
  entityId := (member msg (text "entity_id")).getD (.str [])
  eventType := (member msg (text "event_type")).getD (.str (text "unknown"))
  peerGroupId := field msg "peer_group_id"
  sourceEventId := field msg "event_id"
  features := numbers rt members

/-- The event of a message that is not skipped. -/
inductive Asks (raw : Bytes) : Event → Prop where
  | intro {t rawTenant : Text} {msg members : List (Text × Json Text)} {tenantId : Uuid}
      (hdecode : TextEncoding.decode raw = some t)
      (hloads : JsonParser.loads rt.depth t = .ok (.obj msg)) (hnamed : Named rt msg)
      (htenant : field msg "tenant_id" = .str rawTenant)
      (huuid : rt.uuid rawTenant = some tenantId)
      (hfeatures : featuresOf msg = .obj members) (hsome : numbers rt members ≠ []) :
      Asks raw (eventOf rt msg tenantId members)

/-- The message can be read, and its event can be stored. -/
def Processable (db : Db) (raw : Bytes) : Prop :=
  Readable rt raw ∧ ∀ e, Asks rt raw e → Storable rt db e

variable {rt} {db db' : Db} {e : Event} {raw : Bytes} {value : Json Text} {n : ℕ} {t : Text}
  {stats loaded : Stats} {features : Features}

/-! ## Reading -/

theorem toFloat_eq_ok {x : Option Float} : toFloat rt value = .ok x ↔
    (∀ n, value = .int n → n.natAbs < floatBound) ∧ x = number rt value := by
  cases value with
  | int n =>
    rw [toFloat]
    split_ifs with hn
    · simp only [Except.ok.injEq, Json.int.injEq, forall_eq', hn, true_and, number, eq_comm]
    · refine iff_of_false (by rintro ⟨⟩) fun h => hn (h.1 n rfl)
  | bool b => simp [toFloat, number, eq_comm]
  | float literal => simp [toFloat, number, eq_comm]
  | str t => simp [toFloat, number, eq_comm]
  | null => simp [toFloat, number, eq_comm]
  | arr xs => simp [toFloat, number, eq_comm]
  | obj ms => simp [toFloat, number, eq_comm]

theorem readFeatures_eq_ok {members : List (Text × Json Text)} :
    readFeatures rt members = .ok features ↔
      (∀ k n, (k, .int n) ∈ members → n.natAbs < floatBound) ∧
        features = members.filterMap fun e => (number rt e.2).map fun x => (e.1, x) := by
  induction members generalizing features with
  | nil =>
    rw [readFeatures]
    simp [eq_comm]
  | cons m members ih =>
    obtain ⟨k, v⟩ := m
    rw [readFeatures, bind_eq_ok]
    constructor
    · rintro ⟨x, hx, h⟩
      obtain ⟨rest, hrest, h⟩ := bind_eq_ok.mp h
      obtain rfl := Except.ok.inj h
      rw [toFloat_eq_ok] at hx
      obtain ⟨hint, rfl⟩ := hx
      obtain ⟨hints, rfl⟩ := ih.mp hrest
      refine ⟨?_, ?_⟩
      · rintro k' n (_ | ⟨_, hmem⟩)
        · exact hint n rfl
        · exact hints k' n hmem
      · rw [List.filterMap_cons]
        cases number rt v <;> rfl
    · rintro ⟨hints, rfl⟩
      have hx : toFloat rt v = .ok (number rt v) := by
        rw [toFloat_eq_ok]
        exact ⟨fun n hv => hints k n (hv ▸ List.mem_cons_self), rfl⟩
      have hrest := ih.mpr ⟨fun k' n hmem => hints k' n (List.mem_cons_of_mem _ hmem), rfl⟩
      refine ⟨_, hx, bind_eq_ok.mpr ⟨_, hrest, ?_⟩⟩
      rw [List.filterMap_cons]
      cases number rt v <;> rfl

theorem readTenant_eq_ok {msg : List (Text × Json Text)} {tenantId : Uuid} {r : Option Event} :
    readTenant rt msg tenantId = .ok r ↔ ∃ members, featuresOf msg = .obj members ∧
      (∀ k n, (k, .int n) ∈ items members → n.natAbs < floatBound) ∧
      r = if numbers rt members = [] then none else some (eventOf rt msg tenantId members) := by
  unfold readTenant
  rw [← featuresOf]
  split
  · rename_i members hmembers
    have hreturn : (if (numbers rt members).isEmpty then return none
        else return some (eventOf rt msg tenantId members) : Outcome (Option Event)) =
        .ok (if numbers rt members = [] then none
          else some (eventOf rt msg tenantId members)) := by
      by_cases hnil : numbers rt members = []
      · rw [if_pos hnil, hnil]
        rfl
      · rw [if_neg hnil, if_neg (mt List.isEmpty_iff.mp hnil)]
        rfl
    rw [bind_eq_ok, hmembers]
    constructor
    · rintro ⟨features, hfeatures, h⟩
      rw [readFeatures_eq_ok] at hfeatures
      obtain ⟨hints, rfl⟩ := hfeatures
      exact ⟨members, rfl, hints, Except.ok.inj (h.symm.trans hreturn)⟩
    · rintro ⟨members', hmem, hints, rfl⟩
      obtain rfl := Json.obj.inj hmem
      refine ⟨_, ?_, hreturn⟩
      rw [readFeatures_eq_ok]
      exact ⟨hints, rfl⟩
  · rename_i hother
    exact iff_of_false nofun fun ⟨members, hmembers, _⟩ => hother members hmembers

theorem readObject_unnamed {msg : List (Text × Json Text)} (h : ¬ Named rt msg) :
    readObject rt msg = .ok none := by
  rw [readObject]
  apply if_pos
  rw [Named, not_and_or, Bool.not_eq_true, Bool.not_eq_true] at h
  rcases h with h | h
  · rw [h]
    rfl
  · rw [h]
    exact Bool.or_true _

theorem readObject_named {msg : List (Text × Json Text)} (h : Named rt msg) :
    readObject rt msg = match field msg "tenant_id" with
      | .str raw =>
        match rt.uuid raw with
        | none => .ok none
        | some tenantId => readTenant rt msg tenantId
      | _ => .error .attribute := by
  rw [readObject, h.1, h.2]
  rfl

theorem readObject_uuid {msg : List (Text × Json Text)} {rawTenant : Text} {tenantId : Uuid}
    (h : Named rt msg) (htenant : field msg "tenant_id" = .str rawTenant)
    (huuid : rt.uuid rawTenant = some tenantId) :
    readObject rt msg = readTenant rt msg tenantId := by
  rw [readObject_named h, htenant]
  simp only [huuid]

theorem readObject_returns {msg : List (Text × Json Text)} :
    Returns (readObject rt msg) ↔ ReadableObject rt msg := by
  by_cases hnamed : Named rt msg
  · cases htenant : field msg "tenant_id" with
    | str rawTenant =>
      cases huuid : rt.uuid rawTenant with
      | none =>
        have hskipped : readObject rt msg = .ok none := by
          rw [readObject_named hnamed, htenant]
          simp only [huuid]
        rw [hskipped]
        refine iff_of_true (returns_pure _) ⟨fun _ => ⟨_, htenant⟩, fun _ raw id hraw hid => ?_⟩
        obtain rfl := Json.str.inj (htenant.symm.trans hraw)
        cases huuid.symm.trans hid
      | some tenantId =>
        rw [readObject_uuid hnamed htenant huuid]
        constructor
        · rintro ⟨r, hr⟩
          rw [readTenant_eq_ok] at hr
          obtain ⟨members, hmembers, hints, -⟩ := hr
          exact ⟨fun _ => ⟨_, htenant⟩, fun _ _ _ _ _ => ⟨members, hmembers, hints⟩⟩
        · intro h
          obtain ⟨members, hmembers, hints⟩ := h.features hnamed _ _ htenant huuid
          simp only [Returns, readTenant_eq_ok]
          exact ⟨_, members, hmembers, hints, rfl⟩
    | _ =>
      rw [readObject_named hnamed, htenant]
      refine iff_of_false nofun fun h => ?_
      obtain ⟨raw, hraw⟩ := h.tenant hnamed
      cases htenant.symm.trans hraw
  · rw [readObject_unnamed hnamed]
    exact iff_of_true (returns_pure _)
      ⟨fun h => absurd h hnamed, fun h => absurd h hnamed⟩

theorem readMessage_returns : Returns (readMessage rt raw) ↔ Readable rt raw := by
  rw [readMessage, Readable]
  cases hdecode : TextEncoding.decode raw with
  | none => simp [Returns]
  | some t =>
    simp only [Option.some.injEq, exists_eq_left']
    cases hloads : JsonParser.loads rt.depth t with
    | ok x =>
      cases x with
      | obj msg =>
        simp only [readObject_returns, Except.ok.injEq, Json.obj.injEq, exists_eq_left',
          reduceCtorEq, false_and, false_or]
      | _ => simp [Returns]
    | error err =>
      cases err with
      | recursion => simp [Returns]
      | decode =>
        by_cases hdecodeError : rt.isDecodeError t = true
        · simp [hdecodeError, Returns]
        · simp [hdecodeError, Returns]

theorem readMessage_some (h : readMessage rt raw = .ok (some e)) : Asks rt raw e := by
  unfold readMessage at h
  split at h
  · cases h
  · rename_i t hdecode
    split at h
    · rename_i msg hloads
      by_cases hnamed : Named rt msg
      · rw [readObject_named hnamed] at h
        split at h
        · rename_i rawTenant htenant
          split at h
          · cases h
          · rename_i tenantId huuid
            rw [readTenant_eq_ok] at h
            obtain ⟨members, hmembers, -, he⟩ := h
            split_ifs at he with hnil
            obtain rfl := Option.some.inj he
            exact .intro hdecode hloads hnamed htenant huuid hmembers hnil
        · cases h
      · rw [readObject_unnamed hnamed] at h
        cases h
    · cases h
    · cases h
    · split_ifs at h
      cases h

theorem readMessage_eq_some : readMessage rt raw = .ok (some e) ↔
    Readable rt raw ∧ Asks rt raw e := by
  constructor
  · intro h
    rw [← readMessage_returns]
    exact ⟨⟨_, h⟩, readMessage_some h⟩
  · rintro ⟨hreadable, hasks⟩
    rw [← readMessage_returns] at hreadable
    obtain ⟨r, hr⟩ := hreadable
    obtain @⟨t, rawTenant, msg, members, tenantId, hdecode, hloads, hnamed, htenant, huuid,
      hmembers, hsome⟩ := hasks
    have hread : readMessage rt raw = readTenant rt msg tenantId := by
      rw [readMessage, hdecode]
      simp only [hloads]
      exact readObject_uuid hnamed htenant huuid
    have htenant := hread.symm.trans hr
    rw [readTenant_eq_ok] at htenant
    obtain ⟨members', hmembers', -, rfl⟩ := htenant
    obtain rfl := Json.obj.inj (hmembers.symm.trans hmembers')
    rw [if_neg hsome] at hr
    exact hr

/-! ## Columns -/

theorem bindText_str (h : Sent rt value t) : bindText rt value = .ok (some t) := by
  rw [h.1, bindText, if_pos h.2]

theorem bindText_some (h : bindText rt value = .ok (some t)) : Sent rt value t := by
  unfold bindText at h
  split at h
  · cases h
  · split_ifs at h with htakes
    cases h
    exact ⟨rfl, htakes⟩
  · cases h

theorem bindText_none (h : bindText rt value = .ok none) : value = .null := by
  unfold bindText at h
  split at h
  · rfl
  · split_ifs at h
    cases h
  · cases h

theorem varchar_returns : Returns (varchar n t) ↔ Short n t := by
  rw [varchar, Short]
  split_ifs with hlength hspaces
  · exact iff_of_true ⟨_, rfl⟩ (.inl hlength)
  · refine iff_of_true ⟨_, rfl⟩ (.inr fun c hc => ?_)
    exact of_decide_eq_true (List.all_eq_true.mp hspaces c hc)
  · refine iff_of_false nofun fun h => h.elim hlength fun hall => hspaces ?_
    exact List.all_eq_true.mpr fun c hc => decide_eq_true (hall c hc)

theorem notNull_sent (h : Sent rt value t) : notNull rt n value = varchar n t := by
  rw [notNull, bindText_str h]
  rfl

theorem notNull_returns : Returns (notNull rt n value) ↔ Fits rt n value := by
  rw [notNull, returns_bind]
  constructor
  · rintro ⟨bound, hbound, h⟩
    cases bound with
    | none => exact absurd h (not_returns_error _)
    | some t => exact ⟨t, bindText_some hbound, varchar_returns.mp h⟩
  · rintro ⟨t, hsent, hshort⟩
    exact ⟨some t, bindText_str hsent, varchar_returns.mpr hshort⟩

theorem nullable_returns : Returns (nullable rt n value) ↔ FitsOrNull rt n value := by
  rw [nullable, returns_bind]
  constructor
  · rintro ⟨bound, hbound, h⟩
    cases bound with
    | none => exact .inl (bindText_none hbound)
    | some t => exact .inr ⟨t, bindText_some hbound, varchar_returns.mp (returns_map.mp h)⟩
  · rintro (rfl | ⟨t, hsent, hshort⟩)
    · exact ⟨none, rfl, none, rfl⟩
    · exact ⟨some t, bindText_str hsent, returns_map.mpr (varchar_returns.mpr hshort)⟩

theorem writeStats_returns : Returns (writeStats rt loaded features stats) ↔
    ((∃ f ∈ features, loaded.get f.1 = none) → (rt.keeps stats).isSome) := by
  have hnew : (features.any fun e => (loaded.get e.1).isNone) = true ↔
      ∃ f ∈ features, loaded.get f.1 = none := by
    simp only [List.any_eq_true, Option.isNone_iff_eq_none]
  rw [writeStats]
  split_ifs with h
  · cases hkeeps : rt.keeps stats with
    | none =>
      exact iff_of_false (not_returns_error _) fun himp => Bool.noConfusion (himp (hnew.mp h))
    | some kept => exact iff_of_true (returns_pure _) fun _ => rfl
  · exact iff_of_true (returns_pure _) fun hex => absurd (hnew.mpr hex) h

/-- The object is brought up to date and written. -/
theorem update_returns {α : Type} {rest : Stats → Stats → Outcome α}
    (hrest : ∀ stats written, Returns (rest stats written)) :
    Returns (updateStats loaded features >>= fun stats =>
      writeStats rt loaded features stats >>= fun written => rest stats written) ↔
      Updatable rt loaded features := by
  rw [returns_bind, Updatable]
  refine exists_congr fun stats => and_congr_right fun _ => ?_
  rw [returns_bind_and (Q := True) fun written _ => iff_true_intro (hrest stats written),
    and_true, writeStats_returns]

/-! ## Baselines -/

theorem selectBaselines_map {type id : Text} (htype : e.entityType = .str type)
    (hid : e.entityId = .str id) :
    (selectBaselines db e.tenantId (some type) (some id)).map Prod.fst = baselinesOf db e := by
  rw [selectBaselines, baselinesOf, htype, hid]
  conv_rhs => rw [← List.zipIdx_map_fst 0 db.baselines, List.filter_map]
  congr 1
  apply List.filter_congr
  intro x hx
  simp [isText, eq_comm]

/-- The row that the code makes if the entity has none. -/
def insertBaseline (rt : Runtime) (db : Db) (e : Event) : Outcome (Db × ℕ × Stats) := do
  let entityType ← notNull rt 32 e.entityType
  let entityId ← notNull rt 256 e.entityId
  let row : BaselineRow := ⟨e.tenantId, entityType, entityId, OrderedDict.empty⟩
  .ok ({ db with baselines := db.baselines ++ [row] }, db.baselines.length, OrderedDict.empty)

theorem getOrCreateBaseline_sent {type id : Text} (htype : Sent rt e.entityType type)
    (hid : Sent rt e.entityId id) :
    getOrCreateBaseline rt db e.tenantId e.entityType e.entityId =
      match selectBaselines db e.tenantId (some type) (some id) with
      | [(row, i)] => .ok (db, i, row.featureStats)
      | [] => insertBaseline rt db e
      | _ => .error .multipleResults := by
  rw [getOrCreateBaseline, bindText_str htype, bindText_str hid]
  rfl

theorem insertBaseline_returns : Returns (insertBaseline rt db e) ↔
    Fits rt 32 e.entityType ∧ Fits rt 256 e.entityId := by
  rw [insertBaseline, returns_bind_and (Q := Fits rt 256 e.entityId), notNull_returns]
  intro entityType _
  rw [returns_bind_and (Q := True) fun _ _ => iff_true_intro (returns_pure _), and_true,
    notNull_returns]

theorem insertBaseline_eq_ok {i : ℕ} (h : insertBaseline rt db e = .ok (db', i, stats)) :
    stats = OrderedDict.empty ∧ i = db.baselines.length ∧
      ∃ row, row.featureStats = OrderedDict.empty ∧
        db' = { db with baselines := db.baselines ++ [row] } := by
  obtain ⟨type, -, h⟩ := bind_eq_ok.mp h
  obtain ⟨id, -, h⟩ := bind_eq_ok.mp h
  cases h
  exact ⟨rfl, rfl, _, rfl, rfl⟩

theorem selectBaselines_append {tenantId : Uuid} {type id : Option Text} {row : BaselineRow}
    (h : selectBaselines db tenantId type id = []) :
    selectBaselines { db with baselines := db.baselines ++ [row] } tenantId type id = [] ∨
      selectBaselines { db with baselines := db.baselines ++ [row] } tenantId type id =
        [(row, db.baselines.length)] := by
  rw [selectBaselines] at h
  rw [selectBaselines, List.zipIdx_append, List.filter_append, h, List.nil_append, Nat.zero_add]
  change List.filter _ [(row, db.baselines.length)] = [] ∨
    List.filter _ [(row, db.baselines.length)] = _
  rw [List.filter_cons, List.filter_nil]
  split_ifs
  · exact .inr rfl
  · exact .inl rfl

theorem selectBaselines_null {tenantId : Uuid} {type id : Option Text}
    (h : type = none ∨ id = none) : selectBaselines db tenantId type id = [] := by
  rw [selectBaselines, List.filter_eq_nil_iff]
  rintro x -
  rcases h with rfl | rfl <;> simp

/-- What is not a text is not looked up, or not inserted. -/
theorem sent_of_getOrCreateBaseline
    (h : Returns (getOrCreateBaseline rt db e.tenantId e.entityType e.entityId)) :
    (∃ t, Sent rt e.entityType t) ∧ ∃ t, Sent rt e.entityId t := by
  rw [getOrCreateBaseline, returns_bind] at h
  obtain ⟨type, htype, h⟩ := h
  obtain ⟨id, hid, h⟩ := returns_bind.mp h
  have hinsert (hnone : type = none ∨ id = none) : Returns (insertBaseline rt db e) := by
    rw [selectBaselines_null hnone] at h
    exact h
  cases type with
  | none =>
    obtain ⟨t, hsent, -⟩ := (insertBaseline_returns.mp (hinsert (.inl rfl))).1
    rw [bindText_str hsent] at htype
    cases htype
  | some type =>
    cases id with
    | none =>
      obtain ⟨t, hsent, -⟩ := (insertBaseline_returns.mp (hinsert (.inr rfl))).2
      rw [bindText_str hsent] at hid
      cases hid
    | some id => exact ⟨⟨type, bindText_some htype⟩, id, bindText_some hid⟩

theorem getOrCreateBaseline_returns :
    Returns (getOrCreateBaseline rt db e.tenantId e.entityType e.entityId) ↔
      (∃ t, Sent rt e.entityType t) ∧ (∃ t, Sent rt e.entityId t) ∧
        (baselinesOf db e).length ≤ 1 ∧
        (baselinesOf db e = [] → Fits rt 32 e.entityType ∧ Fits rt 256 e.entityId) := by
  suffices hsent : ∀ {type id : Text}, Sent rt e.entityType type → Sent rt e.entityId id →
      (Returns (getOrCreateBaseline rt db e.tenantId e.entityType e.entityId) ↔
        (baselinesOf db e).length ≤ 1 ∧
        (baselinesOf db e = [] → Fits rt 32 e.entityType ∧ Fits rt 256 e.entityId)) by
    constructor
    · intro h
      obtain ⟨⟨type, htype⟩, id, hid⟩ := sent_of_getOrCreateBaseline h
      exact ⟨⟨type, htype⟩, ⟨id, hid⟩, (hsent htype hid).mp h⟩
    · rintro ⟨⟨type, htype⟩, ⟨id, hid⟩, h⟩
      exact (hsent htype hid).mpr h
  intro type id htype hid
  rw [getOrCreateBaseline_sent htype hid, ← selectBaselines_map htype.1 hid.1, List.length_map,
    List.map_eq_nil_iff]
  match selectBaselines db e.tenantId (some type) (some id) with
  | [] => simp [insertBaseline_returns]
  | [(row, i)] => exact iff_of_true (returns_pure _) ⟨le_refl 1, nofun⟩
  | _ :: _ :: _ => exact iff_of_false (not_returns_error _) fun h => by simp at h

/-- A second look of the session finds the same statistics. -/
theorem getOrCreateBaseline_spec {i : ℕ}
    (h : getOrCreateBaseline rt db e.tenantId e.entityType e.entityId = .ok (db', i, stats)) :
    stats = baselineStats db e ∧ ∃ again j,
      getOrCreateBaseline rt db' e.tenantId e.entityType e.entityId = .ok (again, j, stats) := by
  obtain ⟨⟨type, htype⟩, id, hid⟩ := sent_of_getOrCreateBaseline ⟨_, h⟩
  have hmap := @selectBaselines_map db e type id htype.1 hid.1
  have hfound := h
  rw [getOrCreateBaseline_sent htype hid] at hfound
  rw [baselineStats, ← hmap]
  match hselect : selectBaselines db e.tenantId (some type) (some id) with
  | [] =>
    rw [hselect] at hfound
    obtain ⟨rfl, -, row, hempty, rfl⟩ := insertBaseline_eq_ok hfound
    refine ⟨rfl, ?_⟩
    rw [getOrCreateBaseline_sent htype hid]
    rcases @selectBaselines_append db e.tenantId (some type) (some id) row hselect with hnil | hnew
    · -- the row was shortened, so that another one is made
      rw [hnil]
      obtain ⟨⟨again, j, stats⟩, hagain⟩ : Returns (insertBaseline rt
          { db with baselines := db.baselines ++ [row] } e) :=
        insertBaseline_returns.mpr (insertBaseline_returns.mp ⟨_, hfound⟩)
      obtain ⟨rfl, -, -⟩ := insertBaseline_eq_ok hagain
      exact ⟨again, j, hagain⟩
    · rw [hnew, ← hempty]
      exact ⟨_, _, rfl⟩
  | [(row, j)] =>
    rw [hselect] at hfound
    cases hfound
    exact ⟨rfl, _, _, h⟩
  | _ :: _ :: _ =>
    rw [hselect] at hfound
    cases hfound

/-- After a look at the baseline, the update depends on the statistics alone. -/
theorem updateBaseline_returns {i : ℕ} {again : Db}
    (h : getOrCreateBaseline rt db e.tenantId e.entityType e.entityId = .ok (again, i, stats)) :
    Returns (updateBaseline rt db e.tenantId e.entityType e.entityId features) ↔
      Updatable rt stats features := by
  rw [updateBaseline, returns_bind_and (Q := Updatable rt stats features),
    and_iff_right ⟨_, h⟩]
  intro found hfound
  obtain rfl := Except.ok.inj (h.symm.trans hfound)
  exact update_returns fun _ _ => returns_pure _

/-! ## Groups -/

theorem insertGroup_returns {id : Text} : Returns (insertGroup rt db e.tenantId id e.entityType) ↔
    Fits rt 32 e.entityType ∧ id.length ≤ 64 ∧ db.groups.get id = none := by
  rw [insertGroup, returns_bind_and (Q := id.length ≤ 64 ∧ db.groups.get id = none),
    notNull_returns]
  intro type _
  rw [returns_bind]
  constructor
  · rintro ⟨label, -, h⟩
    split_ifs at h with hlength hgroup
    · exact absurd h (not_returns_error _)
    · exact absurd h (not_returns_error _)
    · exact ⟨Nat.le_of_not_lt hlength, Option.not_isSome_iff_eq_none.mp hgroup⟩
  · rintro ⟨hlength, hgroup⟩
    have hlabel : varchar 128 id = .ok id := if_pos (by omega)
    refine ⟨id, hlabel, ?_⟩
    rw [if_neg (Nat.not_lt.mpr hlength), hgroup]
    exact returns_pure _

theorem insertGroup_eq_ok {id : Text} {group : GroupRow}
    (h : insertGroup rt db e.tenantId id e.entityType = .ok (db', group)) :
    db'.baselines = db.baselines ∧ group.featureStats = OrderedDict.empty ∧
      group.memberCount = 0 := by
  obtain ⟨type, -, h⟩ := bind_eq_ok.mp h
  obtain ⟨label, -, h⟩ := bind_eq_ok.mp h
  split_ifs at h
  cases h
  exact ⟨rfl, rfl, rfl⟩

theorem getOrCreateGroup_sent {id : Text} (h : Sent rt e.peerGroupId id) :
    getOrCreateGroup rt db e.tenantId e.peerGroupId e.entityType =
      match ownGroup db e with
      | some row => .ok (db, id, row)
      | none => (insertGroup rt db e.tenantId id e.entityType).map
          fun (db, row) => (db, id, row) := by
  rw [getOrCreateGroup, bindText_str h, ownGroup, h.1]
  rfl

theorem sent_of_getOrCreateGroup
    (h : Returns (getOrCreateGroup rt db e.tenantId e.peerGroupId e.entityType)) :
    ∃ id, Sent rt e.peerGroupId id := by
  obtain ⟨id, hid, h⟩ := returns_bind.mp h
  cases id with
  | none => exact absurd h (not_returns_error _)
  | some id => exact ⟨id, bindText_some hid⟩

theorem getOrCreateGroup_returns :
    Returns (getOrCreateGroup rt db e.tenantId e.peerGroupId e.entityType) ↔
      (∃ id, Sent rt e.peerGroupId id) ∧
        (ownGroup db e = none → Fits rt 32 e.entityType ∧
          ∀ id, e.peerGroupId = .str id → db.groups.get id = none ∧ id.length ≤ 64) := by
  suffices hsent : ∀ {id : Text}, Sent rt e.peerGroupId id →
      (Returns (getOrCreateGroup rt db e.tenantId e.peerGroupId e.entityType) ↔
        (ownGroup db e = none → Fits rt 32 e.entityType ∧
          ∀ id, e.peerGroupId = .str id → db.groups.get id = none ∧ id.length ≤ 64)) by
    constructor
    · intro h
      obtain ⟨id, hid⟩ := sent_of_getOrCreateGroup h
      exact ⟨⟨id, hid⟩, (hsent hid).mp h⟩
    · rintro ⟨⟨id, hid⟩, h⟩
      exact (hsent hid).mpr h
  intro id hid
  rw [getOrCreateGroup_sent hid]
  cases hgroup : ownGroup db e with
  | some row => exact iff_of_true (returns_pure _) nofun
  | none =>
    simp only [returns_map, insertGroup_returns, forall_const, hid.1, Json.str.injEq,
      forall_eq', and_comm]

theorem getOrCreateGroup_eq_ok {id : Text} {group : GroupRow}
    (h : getOrCreateGroup rt db e.tenantId e.peerGroupId e.entityType = .ok (db', id, group)) :
    db'.baselines = db.baselines ∧ group.featureStats = groupStats db e ∧
      group.memberCount = memberCount db e := by
  obtain ⟨id', hid⟩ := sent_of_getOrCreateGroup ⟨_, h⟩
  rw [getOrCreateGroup_sent hid] at h
  rw [groupStats, memberCount]
  cases hgroup : ownGroup db e with
  | some row =>
    rw [hgroup] at h
    cases h
    exact ⟨rfl, rfl, rfl⟩
  | none =>
    rw [hgroup] at h
    cases hinsert : insertGroup rt db e.tenantId id' e.entityType with
    | error err =>
      rw [hinsert] at h
      cases h
    | ok made =>
      rw [hinsert] at h
      cases h
      exact insertGroup_eq_ok hinsert

theorem writeInteger_returns {m : ℕ} :
    Returns (writeInteger n m) ↔ (m ≠ n → m ≤ maxInteger) := by
  rw [writeInteger]
  split_ifs with h
  · exact iff_of_false (not_returns_error _) fun hle => absurd (hle h.1) (Nat.not_le.mpr h.2)
  · exact iff_of_true (returns_pure _) fun hne => Nat.le_of_not_lt fun hlt => h ⟨hne, hlt⟩

theorem updateGroup_returns :
    Returns (updateGroup rt db e.tenantId e.peerGroupId e.entityType e.features) ↔
      GroupStorable rt db e := by
  rw [updateGroup, returns_bind]
  constructor
  · rintro ⟨⟨db', id, group⟩, hgroup, h⟩
    obtain ⟨hid, hnew⟩ := getOrCreateGroup_returns.mp ⟨_, hgroup⟩
    obtain ⟨-, hstats, hcount⟩ := getOrCreateGroup_eq_ok hgroup
    obtain ⟨stats, hupdate, h⟩ := returns_bind.mp h
    obtain ⟨written, hwritten, h⟩ := returns_bind.mp h
    obtain ⟨count, hinteger, -⟩ := returns_bind.mp h
    rw [hstats] at hupdate hwritten
    rw [hcount] at hinteger
    refine ⟨hid, hnew, ⟨stats, hupdate, writeStats_returns.mp ⟨_, hwritten⟩⟩, ?_⟩
    intro stats' hstats' n hn
    obtain rfl := Except.ok.inj (hupdate.symm.trans hstats')
    rw [hn] at hinteger
    exact writeInteger_returns.mp ⟨_, hinteger⟩
  · rintro ⟨hid, hnew, ⟨stats, hupdate, hkeeps⟩, hinteger⟩
    obtain ⟨⟨db', id, group⟩, hgroup⟩ := getOrCreateGroup_returns.mpr ⟨hid, hnew⟩
    obtain ⟨-, hstats, hcount⟩ := getOrCreateGroup_eq_ok hgroup
    obtain ⟨written, hwritten⟩ := writeStats_returns.mpr hkeeps
    refine ⟨_, hgroup, returns_bind.mpr ⟨stats, hstats ▸ hupdate, ?_⟩⟩
    refine returns_bind.mpr ⟨written, hstats ▸ hwritten, ?_⟩
    have hwrite : Returns (writeInteger group.memberCount
        ((firstCount stats).getD group.memberCount)) := by
      rw [hcount, writeInteger_returns]
      cases hfirst : firstCount stats with
      | none => exact fun hne => absurd rfl hne
      | some n => exact hinteger stats hupdate n hfirst
    obtain ⟨count, hwrite⟩ := hwrite
    exact returns_bind.mpr ⟨count, hwrite, returns_pure _⟩

theorem updateGroup_eq_ok
    (h : updateGroup rt db e.tenantId e.peerGroupId e.entityType e.features = .ok (db', stats)) :
    db'.baselines = db.baselines ∧ updateStats (groupStats db e) e.features = .ok stats := by
  obtain ⟨⟨db'', id, group⟩, hgroup, h⟩ := bind_eq_ok.mp h
  obtain ⟨hbaselines, hstats, -⟩ := getOrCreateGroup_eq_ok hgroup
  obtain ⟨stats', hupdate, h⟩ := bind_eq_ok.mp h
  obtain ⟨written, -, h⟩ := bind_eq_ok.mp h
  obtain ⟨count, -, h⟩ := bind_eq_ok.mp h
  cases h
  exact ⟨hbaselines, hstats ▸ hupdate⟩

/-! ## Events -/

theorem insertAnomaly_returns {composite : Float} {deviation : Option Float} :
    Returns (insertAnomaly rt db' e (scoreFeatures (baselineStats db e) e.features) composite
      deviation) ↔ AnomalyStorable rt db e := by
  rw [insertAnomaly, returns_bind_and (Q := Fits rt 256 e.entityId ∧
    FitsOrNull rt 128 e.sourceEventId ∧ Fits rt 128 e.eventType ∧
    FitsOrNull rt 64 e.peerGroupId ∧
    rt.takesScores (scoreFeatures (baselineStats db e) e.features) = true), notNull_returns]
  · exact ⟨fun ⟨h₁, h₂, h₃, h₄, h₅, h₆⟩ => ⟨h₁, h₂, h₃, h₄, h₅, h₆⟩,
      fun ⟨h₁, h₂, h₃, h₄, h₅, h₆⟩ => ⟨h₁, h₂, h₃, h₄, h₅, h₆⟩⟩
  intro type _
  rw [returns_bind_and (Q := FitsOrNull rt 128 e.sourceEventId ∧ Fits rt 128 e.eventType ∧
    FitsOrNull rt 64 e.peerGroupId ∧
    rt.takesScores (scoreFeatures (baselineStats db e) e.features) = true), notNull_returns]
  intro id _
  rw [returns_bind_and (Q := Fits rt 128 e.eventType ∧ FitsOrNull rt 64 e.peerGroupId ∧
    rt.takesScores (scoreFeatures (baselineStats db e) e.features) = true), nullable_returns]
  intro source _
  rw [returns_bind_and (Q := FitsOrNull rt 64 e.peerGroupId ∧
    rt.takesScores (scoreFeatures (baselineStats db e) e.features) = true), notNull_returns]
  intro eventType _
  rw [returns_bind_and (Q :=
    rt.takesScores (scoreFeatures (baselineStats db e) e.features) = true), nullable_returns]
  intro group _
  split_ifs with htakes
  · exact iff_of_true (returns_pure _) htakes
  · exact iff_of_false (not_returns_error _) htakes

/-- What the event asks for apart from the group. -/
structure Scorable (rt : Runtime) (db : Db) (e : Event) (peer : Option Stats) : Prop where
  entityType : ∃ t, Sent rt e.entityType t
  entityId : ∃ t, Sent rt e.entityId t
  single : (baselinesOf db e).length ≤ 1
  new : baselinesOf db e = [] → Fits rt 32 e.entityType ∧ Fits rt 256 e.entityId
  stats : Updatable rt (baselineStats db e) e.features
  scored : Returns (verdictOf rt (baselineStats db e) e.features peer)
  anomaly : ∀ composite deviation,
    verdictOf rt (baselineStats db e) e.features peer = .ok (composite, deviation) →
    ¬ composite < rt.anomalyThreshold → AnomalyStorable rt db e

theorem scoreEvent_returns {peer : Option Stats} :
    Returns (scoreEvent rt db e peer) ↔ Scorable rt db e peer := by
  rw [scoreEvent, returns_bind]
  constructor
  · rintro ⟨⟨db₁, i, stats⟩, hbaseline, h⟩
    obtain ⟨htype, hid, hsingle, hnew⟩ := getOrCreateBaseline_returns.mp ⟨_, hbaseline⟩
    obtain ⟨rfl, again, j, hagain⟩ := getOrCreateBaseline_spec hbaseline
    obtain ⟨composite, hcomposite, h⟩ := returns_bind.mp h
    obtain ⟨db₂, hupdate, h⟩ := returns_bind.mp h
    obtain ⟨deviation, hdeviation, h⟩ := returns_bind.mp h
    have hverdict : verdictOf rt (baselineStats db e) e.features peer =
        .ok (blend composite deviation, deviation) :=
      bind_eq_ok.mpr ⟨composite, hcomposite, bind_eq_ok.mpr ⟨deviation, hdeviation, rfl⟩⟩
    refine ⟨htype, hid, hsingle, hnew, (updateBaseline_returns hagain).mp ⟨_, hupdate⟩,
      ⟨_, hverdict⟩, ?_⟩
    intro composite' deviation' hverdict' hanomalous
    obtain ⟨rfl, rfl⟩ := Prod.mk.inj (Except.ok.inj (hverdict.symm.trans hverdict'))
    simp only [if_neg hanomalous, returns_map] at h
    exact insertAnomaly_returns.mp h
  · intro h
    obtain ⟨⟨db₁, i, stats⟩, hbaseline⟩ :=
      getOrCreateBaseline_returns.mpr ⟨h.entityType, h.entityId, h.single, h.new⟩
    obtain ⟨rfl, again, j, hagain⟩ := getOrCreateBaseline_spec hbaseline
    obtain ⟨⟨composite', deviation'⟩, hverdict⟩ := h.scored
    have hsteps := hverdict
    obtain ⟨composite, hcomposite, hsteps⟩ := bind_eq_ok.mp hsteps
    obtain ⟨deviation, hdeviation, hsteps⟩ := bind_eq_ok.mp hsteps
    obtain ⟨rfl, rfl⟩ := Prod.mk.inj (Except.ok.inj hsteps)
    obtain ⟨db₂, hupdate⟩ := (updateBaseline_returns hagain).mpr h.stats
    refine ⟨_, hbaseline, returns_bind.mpr ⟨composite, hcomposite, ?_⟩⟩
    refine returns_bind.mpr ⟨db₂, hupdate, returns_bind.mpr ⟨deviation, hdeviation, ?_⟩⟩
    by_cases hlow : blend composite deviation < rt.anomalyThreshold
    · simp only [if_pos hlow]
      exact returns_pure _
    · simp only [if_neg hlow, returns_map]
      exact insertAnomaly_returns.mpr (h.anomaly _ _ hverdict hlow)

theorem baselinesOf_congr (h : db'.baselines = db.baselines) :
    baselinesOf db' e = baselinesOf db e :=
  congrArg _ h

/-- Only the baselines of the state are read. -/
theorem scorable_congr {peer : Option Stats} (h : db'.baselines = db.baselines) :
    Scorable rt db' e peer ↔ Scorable rt db e peer := by
  have hsame : ∀ {db db' : Db}, db'.baselines = db.baselines → Scorable rt db e peer →
      Scorable rt db' e peer := by
    intro db db' h hs
    have hrows := @baselinesOf_congr db db' e h
    have hstats : baselineStats db' e = baselineStats db e := by
      rw [baselineStats, baselineStats, hrows]
    refine ⟨hs.entityType, hs.entityId, hrows ▸ hs.single, hrows ▸ hs.new, hstats ▸ hs.stats,
      hstats ▸ hs.scored, fun composite deviation hverdict hlow => ?_⟩
    obtain ⟨h₁, h₂, h₃, h₄, h₅, h₆⟩ := hs.anomaly composite deviation (hstats ▸ hverdict) hlow
    exact ⟨h₁, h₂, h₃, h₄, h₅, hstats ▸ h₆⟩
  exact ⟨hsame h.symm, hsame h⟩

/-- The group first, and then the event with its statistics. -/
theorem storable_iff {peer : Option Stats} (hpeer : peerStats rt db e = .ok peer) :
    Storable rt db e ↔
      (isTruthy rt e.peerGroupId = true → GroupStorable rt db e) ∧ Scorable rt db e peer := by
  have hverdict : verdict rt db e = verdictOf rt (baselineStats db e) e.features peer := by
    rw [verdict, hpeer]
    rfl
  constructor
  · intro h
    exact ⟨h.group, h.entityType, h.entityId, h.single, h.new, h.stats, hverdict ▸ h.scored,
      hverdict ▸ h.anomaly⟩
  · rintro ⟨hgroup, h⟩
    exact ⟨h.entityType, h.entityId, h.single, h.new, h.stats, hgroup, hverdict ▸ h.scored,
      hverdict ▸ h.anomaly⟩

theorem storeEvent_returns : Returns (storeEvent rt db e) ↔ Storable rt db e := by
  rw [storeEvent]
  split_ifs with hpeer
  · rw [returns_bind]
    constructor
    · rintro ⟨⟨db', stats⟩, hgroup, h⟩
      obtain ⟨hbaselines, hupdate⟩ := updateGroup_eq_ok hgroup
      have hstats : peerStats rt db e = .ok (some stats) := by
        rw [peerStats, if_pos hpeer, hupdate]
        rfl
      exact (storable_iff hstats).mpr ⟨fun _ => updateGroup_returns.mp ⟨_, hgroup⟩,
        (scorable_congr hbaselines).mp (scoreEvent_returns.mp h)⟩
    · intro h
      obtain ⟨⟨db', stats⟩, hgroup⟩ := updateGroup_returns.mpr (h.group hpeer)
      obtain ⟨hbaselines, hupdate⟩ := updateGroup_eq_ok hgroup
      have hstats : peerStats rt db e = .ok (some stats) := by
        rw [peerStats, if_pos hpeer, hupdate]
        rfl
      exact ⟨_, hgroup, scoreEvent_returns.mpr ((scorable_congr hbaselines).mpr
        ((storable_iff hstats).mp h).2)⟩
  · have hnone : peerStats rt db e = .ok none := if_neg hpeer
    rw [storable_iff hnone, scoreEvent_returns]
    exact ⟨fun h => ⟨fun htrue => absurd htrue hpeer, h⟩, fun h => h.2⟩

/-! ## Messages -/

theorem processMessage_returns : Returns (processMessage rt db raw) ↔ Processable rt db raw := by
  rw [processMessage, returns_bind, Processable]
  constructor
  · rintro ⟨r, hr, h⟩
    refine ⟨readMessage_returns.mp ⟨r, hr⟩, fun e he => ?_⟩
    obtain rfl := Except.ok.inj (hr.symm.trans
      (readMessage_eq_some.mpr ⟨readMessage_returns.mp ⟨r, hr⟩, he⟩))
    exact storeEvent_returns.mp h
  · rintro ⟨hreadable, h⟩
    obtain ⟨r, hr⟩ := readMessage_returns.mpr hreadable
    cases r with
    | none => exact ⟨none, hr, returns_pure _⟩
    | some e => exact ⟨some e, hr, storeEvent_returns.mpr (h e (readMessage_some hr))⟩

/-! ## Tenants -/

/-- The rows of one tenant. -/
def ofTenant (db : Db) (tenantId : Uuid) : Db where
  groups := ⟨db.groups.entries.filter fun entry => entry.2.tenantId = tenantId,
    (List.filter_sublist.map Prod.fst).nodup db.groups.nodup⟩
  baselines := db.baselines.filter fun row => row.tenantId = tenantId
  anomalies := db.anomalies.filter fun row => row.tenantId = tenantId

/-- A group of another tenant has the id. -/
def Taken (rt : Runtime) (db : Db) (e : Event) : Prop :=
  isTruthy rt e.peerGroupId = true ∧ ∃ id row, e.peerGroupId = .str id ∧
    db.groups.get id = some row ∧ row.tenantId ≠ e.tenantId

theorem get_ofTenant {tenantId : Uuid} {id : Text} :
    (ofTenant db tenantId).groups.get id = selectGroup db tenantId id := by
  ext row
  rw [selectGroup, OrderedDict.get_eq_some, Option.filter_eq_some_iff, OrderedDict.get_eq_some]
  exact List.mem_filter

theorem selectGroup_ofTenant {tenantId : Uuid} {id : Text} :
    selectGroup (ofTenant db tenantId) tenantId id = selectGroup db tenantId id := by
  rw [selectGroup, get_ofTenant, selectGroup, Option.filter_filter]
  simp

theorem ownGroup_ofTenant : ownGroup (ofTenant db e.tenantId) e = ownGroup db e := by
  cases hpeer : e.peerGroupId with
  | str id =>
    simp only [ownGroup, hpeer]
    exact selectGroup_ofTenant
  | _ => simp only [ownGroup, hpeer]

theorem baselinesOf_ofTenant : baselinesOf (ofTenant db e.tenantId) e = baselinesOf db e := by
  rw [baselinesOf, ofTenant, List.filter_filter, baselinesOf]
  apply List.filter_congr
  intro row _
  by_cases htenant : row.tenantId = e.tenantId <;> simp [htenant]

theorem groupStorable_ofTenant (hpeer : isTruthy rt e.peerGroupId = true) :
    GroupStorable rt db e ↔ GroupStorable rt (ofTenant db e.tenantId) e ∧ ¬ Taken rt db e := by
  have hown : ownGroup (ofTenant db e.tenantId) e = ownGroup db e := ownGroup_ofTenant
  have hstats : groupStats (ofTenant db e.tenantId) e = groupStats db e := by
    rw [groupStats, groupStats, hown]
  have hcount : memberCount (ofTenant db e.tenantId) e = memberCount db e := by
    rw [memberCount, memberCount, hown]
  have hselect : ∀ id, e.peerGroupId = .str id →
      ownGroup db e = selectGroup db e.tenantId id := by
    intro id hid
    rw [ownGroup, hid]
  constructor
  · intro h
    refine ⟨⟨h.id, fun hnone => ?_, hstats ▸ h.stats, hstats ▸ hcount ▸ h.count⟩, ?_⟩
    · rw [hown] at hnone
      obtain ⟨hfits, hnew⟩ := h.new hnone
      refine ⟨hfits, fun id hid => ⟨?_, (hnew id hid).2⟩⟩
      rw [get_ofTenant, ← hselect id hid, hnone]
    · rintro ⟨-, id, row, hid, hrow, hother⟩
      have hnone : ownGroup db e = none := by
        rw [hselect id hid, selectGroup, hrow]
        exact Option.filter_some_neg (by simpa using hother)
      rw [((h.new hnone).2 id hid).1] at hrow
      cases hrow
  · rintro ⟨h, hfree⟩
    refine ⟨h.id, fun hnone => ?_, hstats ▸ h.stats, hcount ▸ hstats ▸ h.count⟩
    obtain ⟨hfits, hnew⟩ := h.new (hown.trans hnone)
    refine ⟨hfits, fun id hid => ⟨?_, (hnew id hid).2⟩⟩
    by_contra hsome
    obtain ⟨row, hrow⟩ := Option.ne_none_iff_exists'.mp hsome
    refine hfree ⟨hpeer, id, row, hid, hrow, fun htenant => ?_⟩
    rw [hselect id hid, selectGroup, hrow] at hnone
    simp [htenant] at hnone

/-- Other tenants matter to an event only by a group that has the id of its own. -/
theorem storable_ofTenant :
    Storable rt db e ↔ Storable rt (ofTenant db e.tenantId) e ∧ ¬ Taken rt db e := by
  have hrows : baselinesOf (ofTenant db e.tenantId) e = baselinesOf db e := baselinesOf_ofTenant
  have hstats : baselineStats (ofTenant db e.tenantId) e = baselineStats db e := by
    rw [baselineStats, baselineStats, hrows]
  have hpeerStats : peerStats rt (ofTenant db e.tenantId) e = peerStats rt db e := by
    rw [peerStats, peerStats, groupStats, groupStats, ownGroup_ofTenant]
  have hverdict : verdict rt (ofTenant db e.tenantId) e = verdict rt db e := by
    rw [verdict, verdict, hpeerStats, hstats]
  have hanomaly : AnomalyStorable rt (ofTenant db e.tenantId) e ↔ AnomalyStorable rt db e :=
    ⟨fun ⟨h₁, h₂, h₃, h₄, h₅, h₆⟩ => ⟨h₁, h₂, h₃, h₄, h₅, hstats ▸ h₆⟩,
      fun ⟨h₁, h₂, h₃, h₄, h₅, h₆⟩ => ⟨h₁, h₂, h₃, h₄, h₅, hstats ▸ h₆⟩⟩
  constructor
  · intro h
    refine ⟨⟨h.entityType, h.entityId, hrows ▸ h.single, hrows ▸ h.new, hstats ▸ h.stats,
      fun hpeer => ((groupStorable_ofTenant hpeer).mp (h.group hpeer)).1, hverdict ▸ h.scored,
      fun c d hcd hlow => hanomaly.mpr (h.anomaly c d (hverdict ▸ hcd) hlow)⟩, ?_⟩
    exact fun htaken => ((groupStorable_ofTenant htaken.1).mp (h.group htaken.1)).2 htaken
  · rintro ⟨h, hfree⟩
    exact ⟨h.entityType, h.entityId, hrows ▸ h.single, hrows ▸ h.new, hstats ▸ h.stats,
      fun hpeer => (groupStorable_ofTenant hpeer).mpr ⟨h.group hpeer, hfree⟩,
      hverdict ▸ h.scored, fun c d hcd hlow =>
        hanomaly.mp (h.anomaly c d (hverdict.trans hcd) hlow)⟩

/-- A message is processed exactly when it can be read and what it asks for can be stored, where
the rows of other tenants matter only by a group of the same id; and a run of messages exactly
when this holds of each of them in the state that it meets. -/
theorem consumer_goes_on_iff (rt : Runtime) :
    (∀ db raw, Returns (processMessage rt db raw) ↔ Processable rt db raw) ∧
      (∀ db e, Storable rt db e ↔ Storable rt (ofTenant db e.tenantId) e ∧ ¬ Taken rt db e) ∧
      ∀ db messages, Returns (run rt db messages) ↔
        ∀ before raw after db', messages = before ++ raw :: after →
          run rt db before = .ok db' → Processable rt db' raw := by
  refine ⟨fun db raw => processMessage_returns, fun db e => storable_ofTenant, ?_⟩
  intro db messages
  apply returns_foldlM
  intro db raw
  rw [returns_map, processMessage_returns]

/-! ## Two tenants with a group of one id -/

def plainText (t : Text) : Bool := t.all fun c => c.val ≠ 0 && !TextEncoding.isSurrogate c

/-- The interpreter and the database on ASCII texts and small numbers. -/
def python : Runtime where
  depth := 900
  isDecodeError _ := true
  uuid t :=
    let digits := t.filter (· ≠ cp '-')
    if digits.length = 32 then (IntegerText.int (fun _ => none) 16 digits).map Int.toNat else none
  float _ := none
  square z := if z.isFinite && (z * z).isInf then none else some (z * z)
  sum xs := xs.foldl (· + ·) 0
  anomalyThreshold := 3
  peerGroupMinSize := 3
  takesText := plainText
  keeps stats :=
    if stats.entries.all fun e => plainText e.1 && e.2.mean.isFinite && e.2.M2.isFinite &&
      (e.2.std.getD 0).isFinite then some stats else none
  takesScores scored := scored.all fun e => plainText e.1 && e.2.value.isFinite &&
    e.2.mean.isFinite && e.2.std.isFinite && e.2.zScore.isFinite

/-- An event of an engineer of the tenant. -/
def login (tenantId : String) : Bytes :=
  bytes "\x7b\"tenant_id\": \"" ++ bytes tenantId ++ bytes "\", " ++
    bytes "\"entity_id\": \"alice\", " ++ bytes "\"peer_group_id\": \"dept:eng\", " ++
    bytes "\"features\": \x7b\"logins\": 1\x7d\x7d"

def acme : Bytes := login "00000000-0000-0000-0000-00000000000a"
def globex : Bytes := login "00000000-0000-0000-0000-00000000000b"

def emptyDb : Db := ⟨OrderedDict.empty, [], []⟩

def crashOf {α : Type} : Outcome α → Option Crash
  | .ok _ => none
  | .error c => some c

theorem crashOf_eq_none {α : Type} {x : Outcome α} : crashOf x = none ↔ Returns x := by
  cases x with
  | ok a => exact iff_of_true rfl ⟨a, rfl⟩
  | error c => exact iff_of_false nofun nofun

theorem crashOf_eq_some {α : Type} {x : Outcome α} {c : Crash} :
    crashOf x = some c ↔ x = .error c := by
  cases x with
  | ok a => exact iff_of_false nofun nofun
  | error c' => simp [crashOf]

/-- Each tenant alone is served; after the first, the second ends the consumer. -/
theorem group_of_another_tenant :
    Returns (run python emptyDb [acme]) ∧ Returns (run python emptyDb [globex]) ∧
      run python emptyDb [acme, globex] = .error .integrity := by
  simp only [← crashOf_eq_none, ← crashOf_eq_some]
  decide +kernel

end UebaGuard
