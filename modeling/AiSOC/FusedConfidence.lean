import Mathlib.Data.List.Sort
import AiSOC.FloatRound
import AiSOC.FusionEngine
import AiSOC.PythonValue

/-! # Confidence of fused alerts

Seven factors are weighed into a score, a label and a rationale, and a vulnerability that is
exploited adds one more factor. The enrichments are a dictionary of any values, so both can fail. -/
namespace FusedConfidence

open CodeText (Text text)
open FloatOrder (maxFirst minFirst ofNat)
open FloatRound (fixedText roundTo)
open FusionEngine (AlertSeverity)
open PythonValue (Dict Objects Outcome Value richValue toItemsOrEmpty truthy)

structure RawAlert extends FusionEngine.RawAlert where
  url : Option String
  riskScore : Float

inductive ConfidenceLabel where
  | high | medium | low
  deriving DecidableEq, Repr

structure ConfidenceFactor where
  factor : String
  label : String
  value : Text
  contribution : Float
  weight : Float

structure FusedAlert (Ω : Type) where
  alert : RawAlert
  enrichments : Dict Ω
  anomalyScore : Float
  priorityScore : Float
  exploitInWild : Bool
  confidenceLabel : ConfidenceLabel
  confidenceScore : Float
  confidenceRationale : List ConfidenceFactor

variable {Ω : Type} (objects : Objects Ω)

/-- A fused alert with the defaults of the other fields. -/
def newFused (alert : RawAlert) (enrichments : Dict Ω) : FusedAlert Ω where
  alert := alert
  enrichments := enrichments
  anomalyScore := 0.0
  priorityScore := 0.0
  exploitInWild := false
  confidenceLabel := .medium
  confidenceScore := 0.5
  confidenceRationale := []

/-! ## Contributions -/

def severityContribution : AlertSeverity → Float
  | .critical => 1.0
  | .high => 0.6
  | .medium => 0.0
  | .low => -0.5
  | .info => -1.0

def severityValue : AlertSeverity → String
  | .critical => "critical"
  | .high => "high"
  | .medium => "medium"
  | .low => "low"
  | .info => "info"

def band (score : Float) : ConfidenceLabel :=
  if 0.70 ≤ score then .high else if score < 0.40 then .low else .medium

def mlContribution (value : Float) : Float := maxFirst (-1.0) (minFirst 1.0 ((value - 0.5) * 2.0))

def mitreContribution : ℕ → Float
  | 0 => -0.4
  | 1 => 0.0
  | 2 => 0.4
  | numTechniques => minFirst 1.0 (0.4 + ofNat (numTechniques - 2) * 0.2)

/-- A missing key has the value `None`. -/
def truthyGet (d : Dict Ω) (key : String) : Outcome Bool :=
  match d.get (text key) with
  | none => .ok false
  | some v => truthy objects v

def matched (enrichments : Dict Ω) (source : String) : Outcome Bool :=
  match enrichments.get (text source) with
  | some (.dict found) => do
    if ← truthyGet objects found "hit" then .ok true else truthyGet objects found "matches"
  | some (.list items) => .ok !items.isEmpty
  | _ => .ok false

def tiSources : List (String × String) :=
  [("misp", "MISP"), ("otx", "OTX"), ("taxii", "TAXII"), ("kev", "KEV"),
    ("virustotal", "VIRUSTOTAL")]

def tiContribution (enrichments : Dict Ω) : Outcome (Float × String) := do
  if enrichments.isEmpty then return (-0.3, "no TI match")
  let hits ← tiSources.filterM fun source => matched objects enrichments source.1
  return match hits.map Prod.snd with
  | [] => (-0.3, "no TI match")
  | [source] => (0.6, source)
  | sources => (1.0, " + ".intercalate sources)

def iocFields (alert : RawAlert) : List (Option String) :=
  [alert.srcIp, alert.dstIp, alert.hostname, alert.username, alert.fileHash, alert.domain,
    alert.url]

def iocDensityContribution (alert : RawAlert) : Float × ℕ :=
  let populated := (iocFields alert).countP fun field => field.any (· ≠ "")
  let contribution : Float :=
    if populated = 0 then -0.6
    else if populated ≤ 2 then 0.0
    else if populated ≤ 4 then 0.5
    else 1.0
  (contribution, populated)

/-! ## Scoring -/

/-- A risk score of zero is no risk score. -/
def upstreamRisk (alert : RawAlert) : Float :=
  maxFirst 0.0 (minFirst 1.0 (if alert.riskScore == 0.0 then 0.0 else alert.riskScore))

/-- The rationale in the order in which the score adds it up. -/
def factors (fused : FusedAlert Ω) : Outcome (List ConfidenceFactor) := do
  let alert := fused.alert
  let techniques := alert.mitreTechniques.length
  let (tiWeighed, tiValue) ← tiContribution objects fused.enrichments
  let (iocWeighed, populated) := iocDensityContribution alert
  return [
    { factor := "severity", label := "Alert severity", value := text (severityValue alert.severity)
      contribution := severityContribution alert.severity, weight := 0.20 },
    { factor := "ml_anomaly", label := "ML anomaly score"
      value := text (fixedText 2 fused.anomalyScore)
      contribution := mlContribution fused.anomalyScore, weight := 0.18 },
    { factor := "ml_priority", label := "ML priority rank"
      value := text (fixedText 2 fused.priorityScore)
      contribution := mlContribution fused.priorityScore, weight := 0.18 },
    { factor := "mitre_coverage", label := "MITRE technique coverage"
      value := text (if techniques ≠ 1 then s!"{techniques} techniques" else "1 technique")
      contribution := mitreContribution techniques, weight := 0.14 },
    { factor := "threat_intel", label := "Threat-intel match", value := text tiValue
      contribution := tiWeighed, weight := 0.16 },
    { factor := "upstream_risk", label := "Upstream vendor risk score"
      value := text (fixedText 2 (upstreamRisk alert))
      contribution := mlContribution (upstreamRisk alert), weight := 0.08 },
    { factor := "ioc_density", label := "IOC density"
      value := text s!"{populated} populated fields"
      contribution := iocWeighed, weight := 0.06 }]

def ConfidenceFactor.weighted (f : ConfidenceFactor) : Float := f.contribution * f.weight

/-- Added from left to right, from zero. -/
def total (rationale : List ConfidenceFactor) : Float :=
  (rationale.map ConfidenceFactor.weighted).foldl (· + ·) 0.0

def raw (rationale : List ConfidenceFactor) : Float := 0.5 + total rationale

def clamped (rationale : List ConfidenceFactor) : Float :=
  maxFirst 0.0 (minFirst 1.0 (raw rationale))

/-- The largest weighted contribution first; equal ones keep their order. -/
def byImpact (rationale : List ConfidenceFactor) : List ConfidenceFactor :=
  rationale.insertionSort fun f g => g.weighted.abs ≤ f.weighted.abs

structure ConfidenceScorer where
  enabled : Bool

def ConfidenceScorer.score (scorer : ConfidenceScorer) (fused : FusedAlert Ω) :
    Outcome (FusedAlert Ω) := do
  if !scorer.enabled then return fused
  let rationale ← factors objects fused
  let score := clamped rationale
  return { fused with
    confidenceScore := roundTo 4 score
    confidenceLabel := band score
    confidenceRationale := byImpact rationale }

/-! ## The boost -/

/-- The dictionaries among the vulnerabilities that say that they are exploited. -/
def exploited (enrichments : Dict Ω) : Outcome (List (Dict Ω)) := do
  let vulns ← toItemsOrEmpty objects (enrichments.get (text "vulnerabilities"))
  let hits ← vulns.mapM fun v => match v with
    | .dict d => do return if ← truthyGet objects d "is_exploited" then some d else none
    | _ => .ok none
  return hits.reduceOption

def cvssScore (vuln : Dict Ω) : Value Ω := (vuln.get (text "cvss_score")).getD (.float 0.0)

/-- The first with the highest CVSS score. -/
def topVuln (vuln : Dict Ω) (vulns : List (Dict Ω)) : Outcome (Dict Ω) :=
  vulns.foldlM (fun top v => do
    return if ← richValue objects .gt (cvssScore v) (cvssScore top) then v else top) vuln

def boostFactor (vuln : Dict Ω) (vulns : List (Dict Ω)) : Outcome ConfidenceFactor := do
  let top ← topVuln objects vuln vulns
  let cve ← objects.str ((top.get (text "cve_id")).getD (.str (text "unknown")))
  let cvss ← objects.str ((top.get (text "cvss_score")).getD (.str (text "?")))
  return {
    factor := "exploit_in_wild", label := "Exploit in the wild"
    value := cve ++ text " (CVSS " ++ cvss ++ text ")"
    contribution := 0.25, weight := 0.15 }

/-- The alert is changed in place, so what was done before a failure stays. -/
def applyVulnBoost (fused : FusedAlert Ω) : FusedAlert Ω × Outcome Unit :=
  match exploited objects fused.enrichments with
  | .error e => (fused, .error e)
  | .ok [] => (fused, .ok ())
  | .ok (vuln :: vulns) =>
    let fused := { fused with exploitInWild := true }
    match boostFactor objects vuln vulns with
    | .error e => (fused, .error e)
    | .ok factor =>
      ({ fused with
        confidenceRationale := fused.confidenceRationale ++ [factor]
        confidenceScore := minFirst 1.0 (fused.confidenceScore + 0.15) }, .ok ())

end FusedConfidence
