import AiSOC.EntityBaseline
import AiSOC.FloatOrder
import AiSOC.JsonParser
import AiSOC.TextEncoding

/-! # The consumer of security events

Each message is decoded and scored against the statistics of its entity and of its peer group, in
one transaction. What raises an error that nothing catches ends the consumer. -/
namespace UebaConsumer

open ByteText (Bytes)
open CodeText (Text text cp)
open EntityBaseline (FeatureStats)
open FloatOrder (minFirst)
open JsonText (Json truthy member)

abbrev Uuid := ℕ

/-- What ends the consumer; `dataError` is a value that the database does not take. -/
inductive Crash where
  | unicodeDecode | digits | recursion | attribute | overflow | domain | dataError | integrity
  | multipleResults
  deriving DecidableEq

abbrev Outcome := Except Crash

/-! ## Statistics -/

abbrev Stats := OrderedDict Text (FeatureStats Float)
abbrev Features := List (Text × Float)

structure FeatureScore where
  value : Float
  mean : Float
  std : Float
  zScore : Float

abbrev Scored := List (Text × FeatureScore)

/-- What the code takes from the interpreter, from its settings and from the database. -/
structure Runtime where
  /-- How deep containers may nest. -/
  depth : ℕ
  /-- A text that is not read is no JSON, rather than one with an integer of too many digits. -/
  isDecodeError : Text → Bool
  /-- `none` is a `ValueError`. -/
  uuid : Text → Option Uuid
  float : Text → Option Float
  /-- The power with the exponent two; `none` is an `OverflowError`. -/
  square : Float → Option Float
  sum : List Float → Float
  anomalyThreshold : Float
  peerGroupMinSize : ℤ
  takesText : Text → Bool
  /-- What a column of objects keeps of statistics, in its own order of their names. -/
  keeps : Stats → Option Stats
  takesScores : Scored → Bool

def mathSqrt (x : Float) : Outcome Float := if x < 0 then .error .domain else .ok x.sqrt

def welfordUpdate (stats : Stats) (feature : Text) (value : Float) : Outcome Stats := do
  let s := (stats.get feature).getD ⟨0, 0, 0, none⟩
  let n := s.count + 1
  let delta := value - s.mean
  let mean := s.mean + delta / n.toFloat
  let delta2 := value - mean
  let M2 := s.M2 + delta * delta2
  let std ← mathSqrt (if 1 < n then M2 / (n - 1).toFloat else 0)
  return stats.set feature ⟨mean, M2, n, some std⟩

def updateStats (stats : Stats) (features : Features) : Outcome Stats :=
  features.foldlM (fun stats e => welfordUpdate stats e.1 e.2) stats

def computeZScore (stats : Stats) (feature : Text) (value : Float) : Float :=
  match stats.get feature with
  | none => 0
  | some s =>
    let std := s.std.getD 0
    if std < 1e-9 then 0 else (value - s.mean).abs / std

variable (rt : Runtime)

def square (z : Float) : Outcome Float :=
  match rt.square z with
  | none => .error .overflow
  | some squared => .ok squared

def rootSumSquares (zScores : List Float) : Outcome Float := do
  let squares ← zScores.mapM (square rt)
  let rss ← mathSqrt (rt.sum squares)
  return minFirst rss 10

def scoreFeatures (stats : Stats) (features : Features) : Scored :=
  features.map fun e =>
    let entry := stats.get e.1
    (e.1, { value := e.2, mean := (entry.map FeatureStats.mean).getD 0,
            std := (entry.bind FeatureStats.std).getD 0,
            zScore := computeZScore stats e.1 e.2 })

def compositeScore (scored : Scored) : Outcome Float :=
  if scored.isEmpty then .ok 0 else rootSumSquares rt (scored.map fun e => e.2.zScore)

inductive RiskLevel where
  | low | medium | high | critical
  deriving DecidableEq

def riskLevel (score : Float) : RiskLevel :=
  if 6 ≤ score then .critical
  else if 4 ≤ score then .high
  else if rt.anomalyThreshold ≤ score then .medium
  else .low

/-! ## Tables -/

structure GroupRow where
  tenantId : Uuid
  entityType : Text
  label : Text
  memberCount : ℕ
  featureStats : Stats

structure BaselineRow where
  tenantId : Uuid
  entityType : Text
  entityId : Text
  featureStats : Stats

structure AnomalyRow where
  tenantId : Uuid
  entityType : Text
  entityId : Text
  sourceEventId : Option Text
  eventType : Text
  anomalyScore : Float
  riskLevel : RiskLevel
  features : Scored
  peerGroupId : Option Text
  peerDeviationScore : Option Float

/-- The groups have their id as the primary key, whatever their tenant. The place of a baseline
stands for its primary key. -/
structure Db where
  groups : OrderedDict Text GroupRow
  baselines : List BaselineRow
  anomalies : List AnomalyRow

/-- A value as the parameter of a text. -/
def bindText : Json Text → Outcome (Option Text)
  | .null => .ok none
  | .str t => if rt.takesText t then .ok (some t) else .error .dataError
  | _ => .error .dataError

/-- Spaces at the end that are too many are cut off. -/
def varchar (n : ℕ) (t : Text) : Outcome Text :=
  if t.length ≤ n then .ok t
  else if (t.drop n).all (· = cp ' ') then .ok (t.take n)
  else .error .dataError

def nullable (n : ℕ) (value : Json Text) : Outcome (Option Text) := do
  match ← bindText rt value with
  | none => .ok none
  | some t => (varchar n t).map some

def notNull (n : ℕ) (value : Json Text) : Outcome Text := do
  match ← bindText rt value with
  | none => .error .integrity
  | some t => varchar n t

/-- An assigned object shares its members with the one that was loaded: it differs from it, and is
written, only if it has a new name. -/
def writeStats (loaded : Stats) (features : Features) (assigned : Stats) : Outcome Stats :=
  if features.any fun e => (loaded.get e.1).isNone then
    match rt.keeps assigned with
    | none => .error .dataError
    | some kept => .ok kept
  else .ok loaded

def maxInteger : ℕ := 2 ^ 31 - 1

def writeInteger (loaded assigned : ℕ) : Outcome ℕ :=
  if assigned ≠ loaded ∧ maxInteger < assigned then .error .dataError else .ok assigned

/-! ## Peer groups -/

/-- The count of the first feature. -/
def firstCount (stats : Stats) : Option ℕ := stats.entries.head?.map fun e => e.2.count

def selectGroup (db : Db) (tenantId : Uuid) (id : Text) : Option GroupRow :=
  (db.groups.get id).filter fun row => row.tenantId = tenantId

/-- A row has the id that it was asked for: if spaces were cut off, the update that follows would
not find it. -/
def insertGroup (db : Db) (tenantId : Uuid) (id : Text) (entityType : Json Text) :
    Outcome (Db × GroupRow) := do
  let entityType ← notNull rt 32 entityType
  let label ← varchar 128 id
  if 64 < id.length then .error .dataError
  else if (db.groups.get id).isSome then .error .integrity
  else
    let row : GroupRow := ⟨tenantId, entityType, label, 0, OrderedDict.empty⟩
    .ok ({ db with groups := db.groups.set id row }, row)

def getOrCreateGroup (db : Db) (tenantId : Uuid) (peerGroupId entityType : Json Text) :
    Outcome (Db × Text × GroupRow) := do
  match ← bindText rt peerGroupId with
  | none => .error .integrity
  | some id =>
    match selectGroup db tenantId id with
    | some row => .ok (db, id, row)
    | none => (insertGroup rt db tenantId id entityType).map fun (db, row) => (db, id, row)

/-- With the statistics that the object of the session has afterwards. -/
def updateGroup (db : Db) (tenantId : Uuid) (peerGroupId entityType : Json Text)
    (features : Features) : Outcome (Db × Stats) := do
  let (db, id, group) ← getOrCreateGroup rt db tenantId peerGroupId entityType
  let stats ← updateStats group.featureStats features
  let written ← writeStats rt group.featureStats features stats
  let count ← writeInteger group.memberCount ((firstCount stats).getD group.memberCount)
  let row := { group with memberCount := count, featureStats := written }
  return ({ db with groups := db.groups.set id row }, stats)

def deviationScore (stats : Stats) (features : Features) : Outcome (Option Float) :=
  if ((firstCount stats).getD 0 : ℤ) < rt.peerGroupMinSize then .ok none
  else
    let known := features.filter fun e => (stats.get e.1).isSome
    if known.isEmpty then .ok none
    else (rootSumSquares rt (known.map fun e => computeZScore stats e.1 e.2)).map some

/-- `peer` are the statistics of the group, which is in the session. -/
def peerDeviation (peer : Option Stats) (features : Features) : Outcome (Option Float) :=
  match peer with
  | none => .ok none
  | some stats => deviationScore rt stats features

/-! ## Baselines -/

/-- The rows of the entity, with their places. -/
def selectBaselines (db : Db) (tenantId : Uuid) (entityType entityId : Option Text) :
    List (BaselineRow × ℕ) :=
  db.baselines.zipIdx.filter fun e => e.1.tenantId = tenantId ∧
    some e.1.entityType = entityType ∧ some e.1.entityId = entityId

def getOrCreateBaseline (db : Db) (tenantId : Uuid) (entityType entityId : Json Text) :
    Outcome (Db × ℕ × Stats) := do
  let typeParameter ← bindText rt entityType
  let idParameter ← bindText rt entityId
  match selectBaselines db tenantId typeParameter idParameter with
  | [(row, i)] => .ok (db, i, row.featureStats)
  | [] => do
    let entityType ← notNull rt 32 entityType
    let entityId ← notNull rt 256 entityId
    let row : BaselineRow := ⟨tenantId, entityType, entityId, OrderedDict.empty⟩
    .ok ({ db with baselines := db.baselines ++ [row] }, db.baselines.length, OrderedDict.empty)
  | _ => .error .multipleResults

def updateBaseline (db : Db) (tenantId : Uuid) (entityType entityId : Json Text)
    (features : Features) : Outcome Db := do
  let (db, i, stats) ← getOrCreateBaseline rt db tenantId entityType entityId
  let assigned ← updateStats stats features
  let written ← writeStats rt stats features assigned
  return { db with baselines := db.baselines.modify i fun row => { row with
    featureStats := written } }

/-! ## Messages -/

structure Event where
  tenantId : Uuid
  entityType : Json Text
  entityId : Json Text
  eventType : Json Text
  peerGroupId : Json Text
  sourceEventId : Json Text
  features : Features

def blend (composite : Float) : Option Float → Float
  | none => composite
  | some deviation => (composite + deviation) / 2

def insertAnomaly (db : Db) (e : Event) (scored : Scored) (composite : Float)
    (deviation : Option Float) : Outcome (Db × AnomalyRow) := do
  let entityType ← notNull rt 32 e.entityType
  let entityId ← notNull rt 256 e.entityId
  let sourceEventId ← nullable rt 128 e.sourceEventId
  let eventType ← notNull rt 128 e.eventType
  let peerGroupId ← nullable rt 64 e.peerGroupId
  if rt.takesScores scored then
    let row : AnomalyRow := {
      tenantId := e.tenantId, entityType, entityId, sourceEventId, eventType,
      anomalyScore := composite, riskLevel := riskLevel rt composite, features := scored,
      peerGroupId, peerDeviationScore := deviation }
    .ok ({ db with anomalies := db.anomalies ++ [row] }, row)
  else .error .dataError

def scoreEvent (db : Db) (e : Event) (peer : Option Stats) :
    Outcome (Db × Option AnomalyRow) := do
  let (db, _, stats) ← getOrCreateBaseline rt db e.tenantId e.entityType e.entityId
  let scored := scoreFeatures stats e.features
  let composite ← compositeScore rt scored
  let db ← updateBaseline rt db e.tenantId e.entityType e.entityId e.features
  let deviation ← peerDeviation rt peer e.features
  let composite := blend composite deviation
  if composite < rt.anomalyThreshold then .ok (db, none)
  else (insertAnomaly rt db e scored composite deviation).map fun (db, row) => (db, some row)

def nonzero (literal : Text) : Bool :=
  match rt.float literal with
  | none => true
  | some x => x != 0

def isTruthy (value : Json Text) : Bool := truthy (nonzero rt) value

def storeEvent (db : Db) (e : Event) : Outcome (Db × Option AnomalyRow) :=
  if isTruthy rt e.peerGroupId then do
    let (db, stats) ← updateGroup rt db e.tenantId e.peerGroupId e.entityType e.features
    scoreEvent rt db e (some stats)
  else scoreEvent rt db e none

/-- From here on, an integer rounds to a number that is too large. -/
def floatBound : ℕ := 2 ^ 1024 - 2 ^ 970

/-- `none` where the value is skipped. -/
def toFloat : Json Text → Outcome (Option Float)
  | .bool b => .ok (some (if b then 1 else 0))
  | .int n => if n.natAbs < floatBound then .ok (some (Float.ofInt n)) else .error .overflow
  | .float literal => .ok (rt.float literal)
  | .str t => .ok (rt.float t)
  | _ => .ok none

def readFeatures : List (Text × Json Text) → Outcome Features
  | [] => .ok []
  | (k, v) :: rest => do
    let x ← toFloat rt v
    let features ← readFeatures rest
    return (x.map fun x => (k, x)).toList ++ features

def field (msg : List (Text × Json Text)) (key : String) : Json Text :=
  (member msg (text key)).getD .null

/-- The members of an object, each name once. -/
def items (members : List (Text × Json Text)) : List (Text × Json Text) :=
  (OrderedDict.ofList members).entries

def readTenant (msg : List (Text × Json Text)) (tenantId : Uuid) : Outcome (Option Event) :=
  match (member msg (text "features")).getD (.obj []) with
  | .obj members => do
    let features ← readFeatures rt (items members)
    if features.isEmpty then return none
    else return some {
      tenantId := tenantId
      entityType := (member msg (text "entity_type")).getD (.str (text "user"))
      entityId := (member msg (text "entity_id")).getD (.str [])
      eventType := (member msg (text "event_type")).getD (.str (text "unknown"))
      peerGroupId := field msg "peer_group_id"
      sourceEventId := field msg "event_id"
      features := features }
  | _ => .error .attribute

/-- `none` where the message is skipped. -/
def readObject (msg : List (Text × Json Text)) : Outcome (Option Event) :=
  if !isTruthy rt (field msg "tenant_id") || !isTruthy rt (field msg "entity_id") then .ok none
  else
    match field msg "tenant_id" with
    | .str raw =>
      match rt.uuid raw with
      | none => .ok none
      | some tenantId => readTenant rt msg tenantId
    | _ => .error .attribute

def readMessage (raw : Bytes) : Outcome (Option Event) :=
  match TextEncoding.decode raw with
  | none => .error .unicodeDecode
  | some t =>
    match JsonParser.loads rt.depth t with
    | .ok (.obj msg) => readObject rt msg
    | .ok _ => .error .attribute
    | .error .recursion => .error .recursion
    | .error .decode => if rt.isDecodeError t then .ok none else .error .digits

/-- With the anomaly that is published. -/
def processMessage (db : Db) (raw : Bytes) : Outcome (Db × Option AnomalyRow) := do
  match ← readMessage rt raw with
  | none => .ok (db, none)
  | some e => storeEvent rt db e

/-- Nothing catches an error of a message. -/
def run (db : Db) (messages : List Bytes) : Outcome Db :=
  messages.foldlM (fun db raw => (processMessage rt db raw).map Prod.fst) db

end UebaConsumer
