import Mathlib.Data.Finset.Sort
import Mathlib.Data.Prod.Lex
import Mathlib.Data.String.Basic
import AiSOC.BreadthFirst
import AiSOC.FloatOrder
import AiSOC.OrderedDict

/-! # Attack chains

From a seed alert along shared entities to the alerts of a window, ranked by distance, time and
risk. Times and windows are in microseconds; the alerts of a tenant are behind a loader. -/
namespace AttackChainRanker

open FloatOrder

abbrev AlertId := String
abbrev TenantId := String

/-- Kind and value. -/
abbrev Entity := String ×ₗ String

-- What the sorting of entities asks of their order.
instance : IsTrans Entity (· ≤ ·) := inferInstance
instance : Std.Antisymm (α := Entity) (· ≤ ·) := inferInstance
instance : Std.Total (α := Entity) (· ≤ ·) := inferInstance

def entity (kind value : String) : Entity := toLex (kind, value)

structure CandidateAlert where
  id : AlertId
  tenantId : TenantId
  title : String
  severity : String
  eventTime : ℤ
  mitreTechniques : List String
  affectedUsers : List String
  affectedHosts : List String
  affectedIps : List String
  affectedAssets : List String
  connectorType : Option String
  sourceEventIds : List String
  deriving DecidableEq

def CandidateAlert.entities (alert : CandidateAlert) : Finset Entity :=
  (((alert.affectedUsers.filter (· ≠ "")).map (entity "Identity")) ++
    ((alert.affectedHosts.filter (· ≠ "")).map (entity "Endpoint")) ++
    ((alert.affectedIps.filter (· ≠ "")).map (entity "Endpoint")) ++
    ((alert.affectedAssets.filter (· ≠ "")).map (entity "Resource"))).toFinset

def wDistance : Float := 0.55
def wTemporal : Float := 0.30
def wRisk : Float := 0.15

def totalSeconds (microseconds : ℤ) : Float := trueDiv microseconds 1000000

/-- The score, and the time between the alerts. -/
def temporalScore (seedTime candidateTime window : ℤ) : Float × Float :=
  let dt := (totalSeconds (candidateTime - seedTime)).abs
  let winS := totalSeconds window
  if winS ≤ 0 then (0, dt) else (maxFirst 0 (1.0 - dt / winS), dt)

def distanceScore (distance : ℕ) : Float :=
  if distance = 0 then 0 else 1.0 / ofNat distance

def lower (s : String) : String := String.ofList (s.toList.map Char.toLower)

def severityRank (severity : String) : ℕ :=
  match lower (if severity = "" then "info" else severity) with
  | "low" => 2
  | "medium" => 3
  | "high" => 4
  | "critical" => 5
  | _ => 1

def riskOverlap (seed cand : CandidateAlert) : Float :=
  let a := seed.mitreTechniques.toFinset
  let b := cand.mitreTechniques.toFinset
  let jaccard := if a ≠ ∅ ∨ b ≠ ∅ then trueDiv (a ∩ b).card (max 1 (a ∪ b).card) else 0
  let sevTerm := ofNat (min (severityRank seed.severity) (severityRank cand.severity)) / 5.0
  (jaccard + sevTerm) / 2.0

def scoreCandidate (seed cand : CandidateAlert) (distance : ℕ) (window : ℤ) : Float × Float :=
  let (temporal, dt) := temporalScore seed.eventTime cand.eventTime window
  let score := wDistance * distanceScore distance + wTemporal * temporal +
    wRisk * riskOverlap seed cand
  (score, dt)

structure ChainLink where
  alertId : AlertId
  title : String
  severity : String
  eventTime : ℤ
  score : Float
  distance : ℕ
  dtSeconds : Float
  sharedEntities : List Entity
  mitreTechniques : List String
  connectorType : Option String
  sourceEventIds : List String

def sharedEntities (seedEntities candEntities : Finset Entity) : List Entity :=
  (seedEntities ∩ candEntities).sort (· ≤ ·)

def chainLink (seed cand : CandidateAlert) (distance : ℕ) (window : ℤ) : ChainLink where
  alertId := cand.id
  title := cand.title
  severity := cand.severity
  eventTime := cand.eventTime
  score := (scoreCandidate seed cand distance window).1
  distance := distance
  dtSeconds := (scoreCandidate seed cand distance window).2
  sharedEntities := sharedEntities seed.entities cand.entities
  mitreTechniques := cand.mitreTechniques
  connectorType := cand.connectorType
  sourceEventIds := cand.sourceEventIds

/-- `hash` is the digest of a text, cut to its first characters. -/
def chainSignature (hash : String → String) (seedId : AlertId) (chain : List ChainLink) : String :=
  hash ("|".intercalate (seedId :: chain.map ChainLink.alertId))

/-- An alert node also carries the severity and the time of its alert. -/
structure GraphNode where
  id : String
  kind : String
  label : String
  alert : Option (String × ℤ)
  deriving DecidableEq

structure GraphEdge where
  source : String
  target : String
  kind : String
  deriving DecidableEq

structure EntityGraph where
  nodes : List GraphNode
  edges : List GraphEdge
  deriving DecidableEq

/-- The nodes under their ids, and the edges. -/
structure GraphState where
  nodes : OrderedDict String GraphNode
  edges : List GraphEdge

def alertNodeId (id : AlertId) : String := "alert:" ++ id

def entityNodeId (e : Entity) : String := lower (ofLex e).1 ++ ":" ++ (ofLex e).2

def addNode (nodes : OrderedDict String GraphNode) (node : GraphNode) :
    OrderedDict String GraphNode :=
  if node.id ∈ nodes.keys then nodes else nodes.set node.id node

def addAlertNode (nodes : OrderedDict String GraphNode) (alert : CandidateAlert) :
    OrderedDict String GraphNode :=
  addNode nodes ⟨alertNodeId alert.id, "Alert", alert.title, some (alert.severity, alert.eventTime)⟩

def touch (alertId : AlertId) (state : GraphState) (e : Entity) : GraphState where
  nodes := addNode state.nodes ⟨entityNodeId e, (ofLex e).1, (ofLex e).2, none⟩
  edges := state.edges ++ [⟨alertNodeId alertId, entityNodeId e, "TOUCHES"⟩]

/-- An alert with the entities it touches. -/
def addAlert (state : GraphState) (alert : CandidateAlert) (entities : List Entity) :
    GraphState :=
  entities.foldl (touch alert.id) { state with nodes := addAlertNode state.nodes alert }

def entityGraphPayload (seed : CandidateAlert) (chain : List ChainLink)
    (candidateIndex : AlertId → Option CandidateAlert) : EntityGraph :=
  let start := addAlert ⟨.empty, []⟩ seed (seed.entities.sort (· ≤ ·))
  let state := chain.foldl (fun state link =>
    match candidateIndex link.alertId with
    | none => state
    | some cand => addAlert state cand link.sharedEntities) start
  ⟨state.nodes.values, state.edges⟩

structure Loader where
  loadSeed : AlertId → TenantId → Option CandidateAlert
  loadCandidatesForEntities :
    TenantId → Finset Entity → ℤ → ℤ → Finset AlertId → List CandidateAlert

/-- The alerts that were found, with their distances, in the order they were found in. -/
abbrev Known := OrderedDict AlertId (CandidateAlert × ℕ)

def addRow (depth : ℕ) (state : Known × Finset Entity) (row : CandidateAlert) :
    Known × Finset Entity :=
  if row.id ∈ state.1.keys then state
  else (state.1.set row.id (row, depth), state.2 ∪ row.entities)

/-- One depth: what is known after it, and the entities of the alerts it added. -/
def nextLayer (loader : Loader) (tenantId : TenantId) (start stop : ℤ) (depth : ℕ)
    (frontier : Finset Entity) (known : Known) : Known × Finset Entity :=
  (loader.loadCandidatesForEntities tenantId frontier start stop known.keys.toFinset).foldl
    (addRow depth) (known, ∅)

/-- The depths from one on. -/
def explore (loader : Loader) (tenantId : TenantId) (start stop : ℤ) :
    ℕ → ℕ → Finset Entity → Known → Known
  | 0, _, _, known => known
  | remaining + 1, depth, frontier, known =>
    if frontier = ∅ then known
    else
      let (known, nextFrontier) := nextLayer loader tenantId start stop depth frontier known
      explore loader tenantId start stop remaining (depth + 1) (nextFrontier \ frontier) known

/-- Highest score first, then the earlier alert. -/
def keyLt (a b : ChainLink) : Bool :=
  if -a.score == -b.score then a.eventTime < b.eventTime else -a.score < -b.score

def sortChain (chain : List ChainLink) : List ChainLink :=
  chain.mergeSort fun a b => !keyLt b a

structure AttackChain where
  seedAlertId : AlertId
  tenantId : TenantId
  window : String
  chain : List ChainLink
  entityGraph : EntityGraph
  chainSignature : String
  confidence : Float

def anchor (seed : CandidateAlert) (now : Option ℤ) : ℤ := now.getD seed.eventTime

def knownAlerts (loader : Loader) (tenantId : TenantId) (seed : CandidateAlert) (window : ℤ)
    (maxDepth : ℕ) (now : Option ℤ) : Known :=
  explore loader tenantId (anchor seed now - window) (anchor seed now + window) maxDepth 1
    seed.entities (OrderedDict.empty.set seed.id (seed, 0))

def chainLinks (seed : CandidateAlert) (window : ℤ) (known : Known) : List ChainLink :=
  (known.entries.filter fun e => e.1 ≠ seed.id).map fun e => chainLink seed e.2.1 e.2.2 window

/-- The chain before it is cut to its length. -/
def rankedChain (loader : Loader) (tenantId : TenantId) (seed : CandidateAlert) (window : ℤ)
    (maxDepth : ℕ) (now : Option ℤ) : List ChainLink :=
  sortChain (chainLinks seed window (knownAlerts loader tenantId seed window maxDepth now))

def computeAttackChain (hash : String → String) (seedAlertId : AlertId) (tenantId : TenantId)
    (loader : Loader) (window : ℤ) (windowLabel : String) (maxDepth maxLength : ℕ)
    (now : Option ℤ) : Option AttackChain := do
  let seed ← loader.loadSeed seedAlertId tenantId
  let known := knownAlerts loader tenantId seed window maxDepth now
  let chain := (rankedChain loader tenantId seed window maxDepth now).take maxLength
  return { seedAlertId := seed.id
           tenantId := tenantId
           window := windowLabel
           chain := chain
           entityGraph := entityGraphPayload seed chain fun id => (known.get id).map Prod.fst
           chainSignature := chainSignature hash seed.id chain
           confidence := match chain.head? with
             | none => 0
             | some link => link.score }

end AttackChainRanker
