import Mathlib.Data.String.Basic
import AiSOC.ExpiringKeys
import AiSOC.FloatRound
import AiSOC.FusionEngine
import AiSOC.OrderedDict
import AiSOC.RankedSet
import AiSOC.UuidText

/-! # Risk of entities

Alerts add points to the entities they touch, and the points of an entity decay. Redis holds a
hash for each entity, and for each tenant a sorted set of the scores as they were last written.
Instants are in microseconds, the server's own in milliseconds; the texts of a hash are kept as the
values they print. -/
namespace EntityRisk

open ExpiringKeys (Keyspace alter expire sweep read)
open FloatOrder (Rank rank maxFirst minFirst ofNat trueDiv)
open FusionEngine (AlertSeverity)
open RankedSet (Ranking)
open UuidText (uuidText)

structure RawAlert extends FusionEngine.RawAlert where
  riskScore : Float
  eventTime : Option ℕ

def entityTypes : List String := ["user", "host", "src_ip", "domain"]

structure EntitySignal where
  entityType : String
  entityValue : String
  points : Float
  alertId : String
  severity : AlertSeverity
  detection : String
  occurredAt : ℕ

structure Contributor where
  alertId : String
  severity : AlertSeverity
  detection : String
  points : Float
  occurredAt : ℕ

/-- The fields of the hash of an entity. -/
structure Payload where
  score : Float
  alertCount : ℕ
  lastSeen : ℤ
  contributingAlerts : List String
  severities : OrderedDict AlertSeverity ℕ
  promotedAt : Option ℤ
  contributors : List Contributor

structure EntityRiskRecord extends Payload where
  tenantId : String
  entityType : String
  entityValue : String

structure Settings where
  rbaEnabled : Bool
  rbaPromotionThreshold : Float
  rbaWindowSeconds : ℤ
  rbaDecayHalfLifeSeconds : ℤ
  rbaSeverityWeights : AlertSeverity → Float
  rbaMaxTopEntities : ℤ

/-- `pow` is the power function of the mathematical library. -/
structure EntityRiskEngine where
  enabled : Bool
  threshold : Float
  window : ℤ
  halfLife : ℤ
  maxTop : ℕ
  weights : AlertSeverity → Float
  pow : Float → Float → Float

def newEngine (pow : Float → Float → Float) (settings : Settings) : EntityRiskEngine where
  enabled := settings.rbaEnabled
  threshold := settings.rbaPromotionThreshold
  window := settings.rbaWindowSeconds
  halfLife := max 60 settings.rbaDecayHalfLifeSeconds
  maxTop := (max 10 settings.rbaMaxTopEntities).toNat
  weights := settings.rbaSeverityWeights
  pow := pow

/-! ## The store -/

def scoreRank : Float → WithBot Rank := rank

abbrev Scores := Ranking String scoreRank

structure Redis where
  hashes : Keyspace String Payload
  zsets : Keyspace String Scores

def entityKey (tenantId entityType entityValue : String) : String :=
  "aisoc:fusion:rba:entity:" ++ tenantId ++ ":" ++ entityType ++ ":" ++ entityValue

def topnKey (tenantId : String) : String := "aisoc:fusion:rba:topn:" ++ tenantId

def promotedKey (tenantId : String) : String := "aisoc:fusion:rba:promoted:" ++ tenantId

def member (entityType entityValue : String) : String := entityType ++ "::" ++ entityValue

namespace Redis

variable (redis : Redis) (t : ℤ) (key : String)


def hgetall : Option Payload × Redis :=
  (read redis.hashes t key, { redis with hashes := sweep redis.hashes t key })

def hset (payload : Payload) : Redis :=
  { redis with hashes := alter redis.hashes t key fun _ => some payload }

def expireHash (seconds : ℤ) : Redis :=
  { redis with hashes := expire redis.hashes t key (1000 * seconds) }

/-- A score that is not a number is refused. -/
def zadd (name : String) (score : Float) : Bool × Redis :=
  if rank score = none then (false, redis)
  else
    (true, { redis with
      zsets := alter redis.zsets t key fun scores =>
        some ((scores.getD (Ranking.empty scoreRank)).add name score) })

def zremrangebyrank (start stop : ℤ) : Redis :=
  { redis with
    zsets := alter redis.zsets t key fun scores =>
      scores.map (·.removeRangeByRank start stop) }

def expireZset (seconds : ℤ) : Redis :=
  { redis with zsets := expire redis.zsets t key (1000 * seconds) }

def zrevrange (start stop : ℤ) : List (String × Float) :=
  ((read redis.zsets t key).map (·.revRange start stop)).getD []

end Redis

/-! ## Observations -/

/-- The clocks during one signal: the server's at each command, then those of the service. -/
structure Readings where
  server : ℕ → ℤ
  now : ℤ
  promotedNow : ℤ
  wall : ℕ

/-- An empty text is no value. -/
def candidate (entityType : String) (value : Option String) : Option (String × String) :=
  (value.filter (· ≠ "")).map (entityType, ·)

def candidates (alert : RawAlert) : List (String × String) :=
  [candidate "user" alert.username, candidate "host" alert.hostname,
    candidate "src_ip" alert.srcIp, candidate "domain" alert.domain].reduceOption

namespace EntityRiskEngine

variable (eng : EntityRiskEngine)

def points (alert : RawAlert) : Float :=
  FloatRound.roundTo 2
    (eng.weights alert.severity * (1 + minFirst (maxFirst alert.riskScore 0) 1))

def buildSignals (alert : RawAlert) : List EntitySignal :=
  (candidates alert).map fun (entityType, value) =>
    { entityType := entityType
      entityValue := value
      points := eng.points alert
      alertId := uuidText alert.id
      severity := alert.severity
      detection := if alert.title = "" then alert.source else alert.title
      occurredAt := alert.eventTime.getD alert.createdAt }

/-- What is left of a score is dropped when it is too small. -/
def decay (prior : Float) (priorSeen now : ℤ) : Float :=
  if prior ≤ 0 then 0
  else
    let elapsed := maxFirst 0 (trueDiv (now - priorSeen) 1000000)
    if elapsed ≤ 0 then prior
    else
      let decayed := prior * eng.pow 0.5 (elapsed / trueDiv eng.halfLife 1)
      if 0.05 < decayed then decayed else 0

def load (redis : Redis) (t : ℤ) (tenantId entityType entityValue : String) :
    Option EntityRiskRecord × Redis :=
  let (payload, redis) := redis.hgetall t (entityKey tenantId entityType entityValue)
  (payload.map (⟨·, tenantId, entityType, entityValue⟩), redis)

/-- The last elements of a list. -/
def lastOf {α : Type} (n : ℕ) (l : List α) : List α := l.drop (l.length - n)

def newPayload (now : ℤ) : Payload := ⟨0, 0, now, [], OrderedDict.empty, none, []⟩

/-- The record after a signal. -/
def observed (record : Payload) (sig : EntitySignal) (now : ℤ) : Payload :=
  { record with
    score := eng.decay record.score record.lastSeen now + sig.points
    alertCount := record.alertCount + 1
    lastSeen := now
    contributingAlerts :=
      if sig.alertId ∈ record.contributingAlerts then record.contributingAlerts
      else lastOf 50 (record.contributingAlerts ++ [sig.alertId])
    severities :=
      record.severities.set sig.severity ((record.severities.get sig.severity).getD 0 + 1)
    contributors := lastOf 25 (record.contributors ++
      [⟨sig.alertId, sig.severity, sig.detection, sig.points, sig.occurredAt⟩]) }

/-- The command that refuses the score comes after the hash was written. -/
def save (record : EntityRiskRecord) (server : ℕ → ℤ) (redis : Redis) : Bool × Redis :=
  let key := entityKey record.tenantId record.entityType record.entityValue
  let topn := topnKey record.tenantId
  let redis := redis.hset (server 0) key record.toPayload
  let redis := redis.expireHash (server 1) key eng.window
  match redis.zadd (server 2) topn (member record.entityType record.entityValue) record.score with
  | (false, redis) => (false, redis)
  | (true, redis) =>
    let redis := redis.zremrangebyrank (server 3) topn 0 (-(eng.maxTop + 1 : ℕ))
    (true, redis.expireZset (server 4) topn eng.window)

/-- Nothing when a command raises. -/
def applySignal (tenantId : String) (sig : EntitySignal) (r : Readings) (redis : Redis) :
    Option EntityRiskRecord × Redis :=
  let (found, redis) := load redis (r.server 0) tenantId sig.entityType sig.entityValue
  let prior := (found.map (·.toPayload)).getD (newPayload r.now)
  let record : EntityRiskRecord :=
    ⟨eng.observed prior sig r.now, tenantId, sig.entityType, sig.entityValue⟩
  match eng.save record (fun i => r.server (i + 1)) redis with
  | (false, redis) => (none, redis)
  | (true, redis) => (some record, redis)

def promote (record : EntityRiskRecord) (r : Readings) (redis : Redis) :
    Option EntityRiskRecord × Redis :=
  let record := { record with promotedAt := some r.promotedNow }
  let key := promotedKey record.tenantId
  match eng.save record (fun i => r.server (i + 6)) redis with
  | (false, redis) => (none, redis)
  | (true, redis) =>
    match redis.zadd (r.server 11) key (member record.entityType record.entityValue)
        (ofNat r.wall / 1000000) with
    | (false, redis) => (none, redis)
    | (true, redis) => (some record, redis.expireZset (r.server 12) key eng.window)

end EntityRiskEngine

inductive Outcome where
  | raised
  | kept
  | promoted (record : EntityRiskRecord)

def Outcome.isPromoted : Outcome → Bool
  | .promoted _ => true
  | _ => false

structure Observation where
  now : ℤ
  points : Float
  promoted : Bool

/-- `lives` logs what was observed of a record since it was last missing. -/
structure World where
  redis : Redis
  lives : String → List Observation

/-- An alert, and the clocks while its signals are applied. -/
structure Call where
  alert : RawAlert
  readings : ℕ → Readings

def start : World := ⟨⟨fun _ => none, fun _ => none⟩, fun _ => []⟩

namespace EntityRiskEngine

variable (eng : EntityRiskEngine)

/-- The body of the loop of `observe`. -/
def observeSignal (tenantId : String) (sig : EntitySignal) (r : Readings) (redis : Redis) :
    Outcome × Redis :=
  match eng.applySignal tenantId sig r redis with
  | (none, redis) => (.raised, redis)
  | (some record, redis) =>
    if eng.threshold ≤ record.score ∧ record.promotedAt = none then
      match eng.promote record r redis with
      | (none, redis) => (.raised, redis)
      | (some record, redis) => (.promoted record, redis)
    else (.kept, redis)

def step (tenantId : String) (sig : EntitySignal) (r : Readings) (w : World) : Outcome × World :=
  let key := entityKey tenantId sig.entityType sig.entityValue
  let found := (w.redis.hgetall (r.server 0) key).1
  let (outcome, redis) := eng.observeSignal tenantId sig r w.redis
  let life := if found.isSome then w.lives key else []
  (outcome, ⟨redis,
    Function.update w.lives key (life ++ [⟨r.now, sig.points, outcome.isPromoted⟩])⟩)

/-- The promoted records; nothing when a signal raises. -/
def observeSignals (tenantId : String) : List EntitySignal → (ℕ → Readings) → World →
    Option (List EntityRiskRecord) × World
  | [], _, w => (some [], w)
  | sig :: sigs, rs, w =>
    match eng.step tenantId sig (rs 0) w with
    | (.raised, w) => (none, w)
    | (.kept, w) => observeSignals tenantId sigs (fun i => rs (i + 1)) w
    | (.promoted record, w) =>
      let (records, w) := observeSignals tenantId sigs (fun i => rs (i + 1)) w
      (records.map (record :: ·), w)

def observe (call : Call) (w : World) : Option (List EntityRiskRecord) × World :=
  if eng.enabled then
    eng.observeSignals (uuidText call.alert.tenantId) (eng.buildSignals call.alert) call.readings w
  else (some [], w)

/-- A history of calls, one after the other. -/
def run (calls : List Call) : World := calls.foldl (fun w call => (eng.observe call w).2) start

end EntityRiskEngine

/-- The parts before and after the first separator. -/
def partition (sep : List Char) : List Char → List Char × List Char
  | [] => ([], [])
  | c :: cs =>
    if sep.isPrefixOf (c :: cs) then ([], (c :: cs).drop sep.length)
    else ((c :: (partition sep cs).1), (partition sep cs).2)

def entityOf (name : String) : String × String :=
  let (entityType, entityValue) := partition "::".toList name.toList
  (String.ofList entityType, String.ofList entityValue)

/-- No clock is read: the ranking is one of stored scores. -/
def topEntities (redis : Redis) (t : ℤ) (tenantId : String) (limit : ℤ) (promotedOnly : Bool) :
    List EntityRiskRecord :=
  let raw := redis.zrevrange t (topnKey tenantId) 0 (max 0 (limit - 1))
  raw.filterMap fun (name, _) =>
    let (entityType, entityValue) := entityOf name
    let record := (EntityRiskEngine.load redis t tenantId entityType entityValue).1
    record.filter fun rec => !(promotedOnly && rec.promotedAt.isNone)

end EntityRisk
