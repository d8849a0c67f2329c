import AiSOC.FirstMaximum
import AiSOC.FloatOrder
import Mathlib.Data.List.Nodup
import Mathlib.Tactic.Push
import Mathlib.Tactic.Tauto

/-! # Merging what the enrichment providers say

Every provider is asked at once, and the answers are merged in the order they come in. -/
namespace EnrichmentMerge

open FirstMaximum (IsTop TopsAgree CarriesTop carry carryStep firstMax)
open FloatOrder (Rank rank)

inductive IOCType where
  | ip | domain | url | hash | email
  deriving DecidableEq, Repr

/-- An instant and the offset it is shown in. -/
structure Time where
  instant : ℤ
  offset : ℤ
  deriving DecidableEq, Repr

structure ThreatClassification where
  mitreTactics : List String := []
  mitreTechniques : List String := []
  threatActors : List String := []
  campaigns : List String := []
  malware : List String := []

structure GeoLocation where
  country : String
  countryCode : String
  city : String
  region : String
  latitude : Float
  longitude : Float
  asn : ℤ
  asOrg : String
  isp : String

structure PortInfo where
  port : ℤ
  protocol : String
  service : String
  banner : String
  vulns : List String

structure EnrichmentSource where
  name : String
  tier : String
  timestamp : Time
  cached : Bool

structure DarkWebContext where
  mentions : ℤ
  sources : List String
  firstSeen : Option Time
  lastSeen : Option Time
  categories : List String
  excerpt : String

def DarkWebContext.moreMentions (d e : DarkWebContext) : Bool := decide (e.mentions < d.mentions)

structure VulnerabilityRef where
  cve : String
  cvss : Float
  epss : Float
  exploited : Bool
  kev : Bool
  description : String

structure BrandRisk where
  score : ℤ
  lookalikeOf : String
  phishing : Bool
  defacement : Bool
  indicators : List String

def BrandRisk.scoresHigher (b c : BrandRisk) : Bool := decide (c.score < b.score)

theorem nil_keys_lt : ([] : List (String × String)).Pairwise (fun a b => a.1 < b.1) := .nil

/-- A map, as its entries in the order of the keys. -/
@[ext]
structure Whois where
  entries : List (String × String) := []
  keys_lt : entries.Pairwise (fun a b => a.1 < b.1) := by exact nil_keys_lt

structure EnrichmentResult where
  iocType : IOCType
  value : String
  riskScore : Float := 0
  confidence : Float := 0
  maliciousVotes : ℤ := 0
  harmlessVotes : ℤ := 0
  totalEngines : ℤ := 0
  tags : List String := []
  reputation : ℤ := 0
  threatCategory : String := ""
  classification : ThreatClassification := {}
  geoLocation : Option GeoLocation := none
  openPorts : List PortInfo := []
  whois : Whois := {}
  dnsRecords : List String := []
  communityScore : Option ℤ := none
  isBot : Bool := false
  isTOR : Bool := false
  isVPN : Bool := false
  isDatacenter : Bool := false
  lastSeen : Option Time := none
  firstSeen : Option Time := none
  darkWeb : Option DarkWebContext := none
  vulnerabilities : List VulnerabilityRef := []
  brandRisk : Option BrandRisk := none
  sources : List EnrichmentSource := []
  enrichmentErrors : List String := []
  enrichedAt : Time

/-! ## The fan-out -/

/-- A provider and what the call of it comes to. -/
structure FanOutTask where
  name : String
  outcome : Except String (Option EnrichmentResult)

def FanOutTask.result (t : FanOutTask) : Option EnrichmentResult :=
  match t.outcome with
  | .error _ => none
  | .ok r => r

/-- The tasks in the order of their completion. -/
def runFanOut (completed : List FanOutTask) : List EnrichmentResult :=
  completed.filterMap FanOutTask.result

/-! ## The merge -/

/-- The fields that are collected in sets. -/
inductive SetField where
  | tags | tactics | techniques | actors | malware | campaigns
  deriving DecidableEq

def SetField.of (r : EnrichmentResult) : SetField → List String
  | .tags => r.tags
  | .tactics => r.classification.mitreTactics
  | .techniques => r.classification.mitreTechniques
  | .actors => r.classification.threatActors
  | .malware => r.classification.malware
  | .campaigns => r.classification.campaigns

/-- The order in which the keys of each set are met. -/
structure Iteration where
  keys : SetField → List String → List String
  perm : ∀ field set, (keys field set).Perm set

structure Merging where
  merged : EnrichmentResult
  maxRisk : Float := 0
  sets : SetField → List String := fun _ => []
  cveSet : List String := []

def Merging.start (iocType : IOCType) (value : String) (now : Time) : Merging :=
  { merged := { iocType := iocType, value := value, enrichedAt := now } }

def addKeys (set keys : List String) : List String := keys.foldl (fun s k => s.insert k) set

def addVulnerability (s : List String × List VulnerabilityRef) (v : VulnerabilityRef) :
    List String × List VulnerabilityRef :=
  if v.cve ∈ s.1 then s else (s.1.insert v.cve, s.2 ++ [v])

def Time.after (t u : Time) : Bool := decide (u.instant < t.instant)
def Time.before (t u : Time) : Bool := decide (t.instant < u.instant)

/-- The new one if there is none yet or it beats the one that is kept. -/
def preferred {α : Type} (beats : α → α → Bool) (kept new : Option α) : Option α :=
  match new, kept with
  | none, _ => kept
  | some a, none => some a
  | some a, some b => if beats a b then some a else some b

def mergeOne (s : Merging) (r : EnrichmentResult) : Merging :=
  let m := s.merged
  let (cveSet, vulnerabilities) := r.vulnerabilities.foldl addVulnerability
    (s.cveSet, m.vulnerabilities)
  { maxRisk := if s.maxRisk < r.riskScore then r.riskScore else s.maxRisk
    sets := fun field => addKeys (s.sets field) (field.of r)
    cveSet := cveSet
    merged := { m with
      geoLocation :=
        if s.maxRisk < r.riskScore then r.geoLocation.or m.geoLocation else m.geoLocation
      whois :=
        if s.maxRisk < r.riskScore ∧ r.whois.entries ≠ [] then r.whois else m.whois
      maliciousVotes :=
        if m.maliciousVotes < r.maliciousVotes then r.maliciousVotes else m.maliciousVotes
      harmlessVotes :=
        if m.maliciousVotes < r.maliciousVotes then r.harmlessVotes else m.harmlessVotes
      totalEngines :=
        if m.maliciousVotes < r.maliciousVotes then r.totalEngines else m.totalEngines
      threatCategory :=
        if r.threatCategory ≠ "" ∧ m.threatCategory = "" then r.threatCategory
        else m.threatCategory
      isBot := m.isBot || r.isBot
      isTOR := m.isTOR || r.isTOR
      isVPN := m.isVPN || r.isVPN
      isDatacenter := m.isDatacenter || r.isDatacenter
      communityScore := m.communityScore.or r.communityScore
      lastSeen := preferred Time.after m.lastSeen r.lastSeen
      firstSeen := preferred Time.before m.firstSeen r.firstSeen
      darkWeb := preferred DarkWebContext.moreMentions m.darkWeb r.darkWeb
      brandRisk := preferred BrandRisk.scoresHigher m.brandRisk r.brandRisk
      vulnerabilities := vulnerabilities
      openPorts := m.openPorts ++ r.openPorts
      sources := m.sources ++ r.sources
      enrichmentErrors := m.enrichmentErrors ++ r.enrichmentErrors } }

/-- The confidence grows with every source that answers, up to 100. -/
def confidenceOf (count : ℕ) : Float :=
  let confidence := Float.ofNat count * 12.5
  if 100 < confidence then 100 else confidence

def finish (it : Iteration) (s : Merging) (count : ℕ) : EnrichmentResult :=
  let set := fun field => it.keys field (s.sets field)
  { s.merged with
    riskScore := s.maxRisk
    tags := set .tags
    classification := {
      mitreTactics := set .tactics
      mitreTechniques := set .techniques
      threatActors := set .actors
      malware := set .malware
      campaigns := set .campaigns }
    confidence := confidenceOf count }

def mergeResults (it : Iteration) (iocType : IOCType) (value : String) (now : Time) :
    List EnrichmentResult → EnrichmentResult
  | [] => { iocType := iocType, value := value, enrichedAt := now }
  | [r] => r
  | results =>
    finish it (results.foldl mergeOne (Merging.start iocType value now)) results.length

/-! ## What the merge keeps of the results -/

variable {l l' : List EnrichmentResult} {it : Iteration} {iocType : IOCType} {value : String}
  {now : Time}

/-- Only a positive risk counts. -/
def riskKey (r : EnrichmentResult) : WithBot Rank :=
  if 0 < r.riskScore then (rank r.riskScore).elim ⊥ (fun x => (x : WithBot Rank)) else ⊥

def votes (r : EnrichmentResult) : ℤ × ℤ × ℤ :=
  (r.maliciousVotes, r.harmlessVotes, r.totalEngines)

def votesKey (r : EnrichmentResult) : WithBot ℤ :=
  if 0 < r.maliciousVotes then (r.maliciousVotes : WithBot ℤ) else ⊥

/-- The number of a part that a result may have. -/
def partKey {α L : Type} [LinearOrder L] (get : EnrichmentResult → Option α) (number : α → L)
    (r : EnrichmentResult) : WithBot L :=
  (get r).elim ⊥ (fun a => (number a : WithBot L))

def whoisOf (r : EnrichmentResult) : Option Whois :=
  if r.whois.entries ≠ [] then some r.whois else none

def categoryOf (r : EnrichmentResult) : Option String :=
  if r.threatCategory ≠ "" then some r.threatCategory else none

def firstVulnerability (cve : String) (r : EnrichmentResult) : Option VulnerabilityRef :=
  r.vulnerabilities.find? (fun v => v.cve == cve)

theorem riskKey_eq {r : EnrichmentResult} (h : 0 < r.riskScore) :
    ∃ x ∈ rank r.riskScore, riskKey r = x := by
  obtain ⟨-, -, x, hx, -⟩ := FloatOrder.lt_iff.mp h
  refine ⟨x, hx, ?_⟩
  rw [riskKey, if_pos h, Option.mem_def.mp hx, Option.elim_some]

theorem riskKey_pos {r : EnrichmentResult} : ⊥ < riskKey r ↔ 0 < r.riskScore := by
  constructor
  · intro h
    by_contra hneg
    rw [riskKey, if_neg hneg] at h
    exact lt_irrefl _ h
  · intro h
    obtain ⟨x, -, hx⟩ := riskKey_eq h
    rw [hx]
    exact WithBot.bot_lt_coe x

theorem riskKey_lt {r b : EnrichmentResult} (hb : 0 < b.riskScore) :
    riskKey b < riskKey r ↔ b.riskScore < r.riskScore := by
  obtain ⟨x, hx, hkey⟩ := riskKey_eq hb
  constructor
  · intro h
    obtain ⟨y, hy, hkey'⟩ := riskKey_eq (riskKey_pos.mp (bot_le.trans_lt h))
    rw [hkey, hkey'] at h
    exact FloatOrder.lt_iff.mpr ⟨x, hx, y, hy, WithBot.coe_lt_coe.mp h⟩
  · intro h
    have hr : 0 < r.riskScore := FloatOrder.lt_trans hb h
    obtain ⟨y, hy, hkey'⟩ := riskKey_eq hr
    obtain ⟨x', hx', y', hy', hlt⟩ := FloatOrder.lt_iff.mp h
    obtain rfl := Option.some.inj (hx.symm.trans hx')
    obtain rfl := Option.some.inj (hy.symm.trans hy')
    rw [hkey, hkey']
    exact WithBot.coe_lt_coe.mpr hlt

/-- The comparison with the running maximum is that of the keys. -/
theorem maxRisk_lt {best : Option EnrichmentResult} (hbest : ∀ b ∈ best, ⊥ < riskKey b)
    (r : EnrichmentResult) :
    best.elim 0 EnrichmentResult.riskScore < r.riskScore ↔
      best.elim ⊥ riskKey < riskKey r := by
  rcases best with - | b
  · exact riskKey_pos.symm
  · exact (riskKey_lt (riskKey_pos.mp (hbest b rfl))).symm

/-! ### The folds of the single fields -/

/-- What the riskiest result so far has, and what was there before it. -/
theorem foldl_riskiest {β : Type} (f : EnrichmentResult → Option β) (l : List EnrichmentResult) :
    l.foldl (fun (s : Float × Option β) r =>
        (if s.1 < r.riskScore then r.riskScore else s.1,
          if s.1 < r.riskScore then (f r).or s.2 else s.2)) (0, none) =
      (((carry riskKey f l).1.elim 0 EnrichmentResult.riskScore), (carry riskKey f l).2) := by
  refine FirstMaximum.foldl_eq_carry
    (fun s => (s.1.elim 0 EnrichmentResult.riskScore, s.2)) ?_ l
  intro s r hs
  have hlt := maxRisk_lt hs r
  rw [carryStep]
  by_cases h : s.1.elim ⊥ riskKey < riskKey r
  · rw [if_pos h, if_pos (hlt.mpr h), if_pos (hlt.mpr h)]
    rfl
  · rw [if_neg h, if_neg (mt hlt.mp h), if_neg (mt hlt.mp h)]

theorem votesKey_lt {b r : EnrichmentResult} (hb : ⊥ < votesKey b) :
    votesKey b < votesKey r ↔ b.maliciousVotes < r.maliciousVotes := by
  rw [votesKey] at hb
  split_ifs at hb with hpos
  · rw [votesKey, votesKey, if_pos hpos]
    by_cases hr : 0 < r.maliciousVotes
    · rw [if_pos hr]
      exact WithBot.coe_lt_coe
    · rw [if_neg hr]
      exact iff_of_false not_lt_bot (by omega)
  · exact absurd hb (lt_irrefl ⊥)

theorem foldl_outvoted (l : List EnrichmentResult) :
    l.foldl (fun (s : ℤ × ℤ × ℤ) r =>
        if s.1 < r.maliciousVotes then votes r else s) (0, 0, 0) =
      (firstMax votesKey l).elim (0, 0, 0) votes := by
  refine FirstMaximum.foldl_eq_view
    (fun best => best.elim (0, 0, 0) votes) ?_ l
  intro best r hbest
  have hlt : (best.elim 0 EnrichmentResult.maliciousVotes < r.maliciousVotes) ↔
      best.elim ⊥ votesKey < votesKey r := by
    rcases best with - | b
    · rw [Option.elim_none, Option.elim_none, votesKey]
      split_ifs with h
      · exact iff_of_true h (WithBot.bot_lt_coe _)
      · exact iff_of_false h (lt_irrefl ⊥)
    · exact (votesKey_lt (hbest b rfl)).symm
  rw [FirstMaximum.step]
  by_cases h : best.elim ⊥ votesKey < votesKey r
  · rw [if_pos h]
    rcases best with - | b
    · exact if_pos (hlt.mpr h)
    · exact if_pos (hlt.mpr h)
  · rw [if_neg h]
    rcases best with - | b
    · exact if_neg (mt hlt.mp h)
    · exact if_neg (mt hlt.mp h)

theorem foldl_preferred {α L : Type} [LinearOrder L] {beats : α → α → Bool} {number : α → L}
    (hbeats : ∀ a b, beats a b = true ↔ number b < number a)
    (f : EnrichmentResult → Option α) (l : List EnrichmentResult) :
    l.foldl (fun s r => preferred beats s (f r)) none =
      (firstMax (partKey f number) l).bind f := by
  refine FirstMaximum.foldl_eq_view (fun best => best.bind f) ?_ l
  intro best r hbest
  rw [FirstMaximum.step, partKey]
  rcases hr : f r with - | a
  · -- a result without the part has no key
    rw [Option.elim_none, if_neg not_lt_bot]
    rfl
  · rw [Option.elim_some]
    rcases best with - | b
    · rw [Option.elim_none, if_pos (WithBot.bot_lt_coe _)]
      exact hr.symm
    · have hb := hbest b rfl
      rw [partKey] at hb
      rcases hfb : f b with - | c
      · rw [hfb] at hb
        exact absurd hb (lt_irrefl ⊥)
      · rw [Option.elim_some, partKey, hfb, Option.elim_some, Option.bind_some, hfb]
        by_cases h : number c < number a
        · rw [if_pos (WithBot.coe_lt_coe.mpr h), Option.bind_some, hr]
          exact if_pos ((hbeats a c).mpr h)
        · rw [if_neg (mt WithBot.coe_lt_coe.mp h), Option.bind_some, hfb]
          exact if_neg (mt (hbeats a c).mp h)

theorem foldl_or {β : Type} (f : EnrichmentResult → Option β) (s : Option β)
    (l : List EnrichmentResult) : l.foldl (fun s r => s.or (f r)) s = s.or (l.findSome? f) := by
  induction l generalizing s with
  | nil => exact (Option.or_none).symm
  | cons r l ih =>
    rw [List.foldl_cons, ih, List.findSome?_cons, Option.or_assoc]
    cases f r <;> rfl

theorem foldl_category (l : List EnrichmentResult) :
    l.foldl (fun s r => if r.threatCategory ≠ "" ∧ s = "" then r.threatCategory else s) "" =
      (l.findSome? categoryOf).getD "" := by
  have hkept : ∀ (l : List EnrichmentResult) (s : String), s ≠ "" →
      l.foldl (fun s r => if r.threatCategory ≠ "" ∧ s = "" then r.threatCategory else s) s =
        s := by
    intro l s hs
    induction l with
    | nil => rfl
    | cons r l ih => rw [List.foldl_cons, if_neg (fun h => hs h.2), ih]
  induction l with
  | nil => rfl
  | cons r l ih =>
    rw [List.foldl_cons, List.findSome?_cons, categoryOf]
    by_cases h : r.threatCategory ≠ ""
    · rw [if_pos h, if_pos ⟨h, rfl⟩, hkept l _ h]
      rfl
    · rw [if_neg h, if_neg (fun hc => h hc.1), ih]

/-! ### The sets -/

theorem mem_addKeys {k : String} {set keys : List String} :
    k ∈ addKeys set keys ↔ k ∈ set ∨ k ∈ keys := by
  rw [addKeys]
  induction keys generalizing set with
  | nil => simp
  | cons key keys ih =>
    rw [List.foldl_cons, ih, List.mem_insert_iff, List.mem_cons]
    tauto

theorem nodup_addKeys {set keys : List String} (h : set.Nodup) : (addKeys set keys).Nodup := by
  rw [addKeys]
  induction keys generalizing set with
  | nil => exact h
  | cons key keys ih => exact ih (List.Nodup.insert h)

theorem foldl_sets (field : SetField) (s : Merging) (hs : (s.sets field).Nodup)
    (l : List EnrichmentResult) :
    ((l.foldl mergeOne s).sets field).Nodup ∧
      ∀ k, k ∈ (l.foldl mergeOne s).sets field ↔
        k ∈ s.sets field ∨ ∃ r ∈ l, k ∈ field.of r := by
  induction l generalizing s with
  | nil => exact ⟨hs, fun k => by simp⟩
  | cons r l ih =>
    have hr : ((mergeOne s r).sets field).Nodup := nodup_addKeys hs
    obtain ⟨hnodup, hmem⟩ := ih (mergeOne s r) hr
    refine ⟨hnodup, ?_⟩
    intro k
    have hk : k ∈ (mergeOne s r).sets field ↔ k ∈ s.sets field ∨ k ∈ field.of r := mem_addKeys
    rw [List.foldl_cons, hmem k, hk, List.exists_mem_cons_iff, or_assoc]

/-! ### The vulnerabilities -/

/-- The set holds the identifiers of the list, and each of them is there once. -/
structure Deduplicated (s : List String × List VulnerabilityRef) : Prop where
  mem : ∀ cve, cve ∈ s.1 ↔ cve ∈ s.2.map VulnerabilityRef.cve
  nodup : (s.2.map VulnerabilityRef.cve).Nodup

theorem find?_eq_none_iff {vs : List VulnerabilityRef} {cve : String} :
    vs.find? (fun v => v.cve == cve) = none ↔ cve ∉ vs.map VulnerabilityRef.cve := by
  rw [List.find?_eq_none, List.mem_map]
  push Not
  exact forall₂_congr fun v _ => not_congr beq_iff_eq

theorem cve_of_find? {vs : List VulnerabilityRef} {cve : String} {v : VulnerabilityRef}
    (h : vs.find? (fun w => w.cve == cve) = some v) : v.cve = cve := by
  have hbeq : (v.cve == cve) = true :=
    List.find?_some (p := fun w : VulnerabilityRef => w.cve == cve) h
  exact beq_iff_eq.mp hbeq

theorem Deduplicated.add {s : List String × List VulnerabilityRef} (h : Deduplicated s)
    (v : VulnerabilityRef) : Deduplicated (addVulnerability s v) ∧
      ∀ cve, (addVulnerability s v).2.find? (fun w => w.cve == cve) =
        (s.2 ++ [v]).find? (fun w => w.cve == cve) := by
  rw [addVulnerability]
  by_cases hv : v.cve ∈ s.1
  · rw [if_pos hv]
    refine ⟨h, ?_⟩
    intro cve
    rw [List.find?_append, List.find?_singleton]
    split_ifs with hcve
    · rw [beq_iff_eq] at hcve
      obtain ⟨w, hw⟩ : ∃ w, s.2.find? (fun w => w.cve == cve) = some w := by
        rw [← Option.ne_none_iff_exists', Ne, find?_eq_none_iff, not_not, ← h.mem, ← hcve]
        exact hv
      rw [hw, Option.some_or]
    · rw [Option.or_none]
  · rw [if_neg hv]
    refine ⟨⟨?_, ?_⟩, fun _ => rfl⟩
    · intro cve
      rw [List.mem_insert_iff, List.map_append, List.mem_append, h.mem, List.map_singleton,
        List.mem_singleton, or_comm]
    · rw [List.map_append, List.map_singleton]
      exact List.Nodup.append h.nodup (List.nodup_singleton _)
        (List.disjoint_singleton.mpr fun hmem => hv ((h.mem _).mpr hmem))

theorem Deduplicated.foldl {s : List String × List VulnerabilityRef} (h : Deduplicated s)
    (vs : List VulnerabilityRef) : Deduplicated (vs.foldl addVulnerability s) ∧
      ∀ cve, (vs.foldl addVulnerability s).2.find? (fun w => w.cve == cve) =
        (s.2 ++ vs).find? (fun w => w.cve == cve) := by
  induction vs generalizing s with
  | nil => exact ⟨h, fun cve => by rw [List.foldl_nil, List.append_nil]⟩
  | cons v vs ih =>
    obtain ⟨hadd, hfind⟩ := h.add v
    obtain ⟨hrest, hall⟩ := ih hadd
    refine ⟨hrest, ?_⟩
    intro cve
    rw [List.foldl_cons, hall, List.find?_append, hfind, ← List.find?_append, List.append_assoc,
      List.singleton_append]

theorem foldl_vulnerabilities (s : Merging) (l : List EnrichmentResult) :
    ((l.foldl mergeOne s).cveSet, (l.foldl mergeOne s).merged.vulnerabilities) =
      (l.flatMap EnrichmentResult.vulnerabilities).foldl addVulnerability
        (s.cveSet, s.merged.vulnerabilities) := by
  induction l generalizing s with
  | nil => rfl
  | cons r l ih =>
    rw [List.foldl_cons, ih, List.flatMap_cons, List.foldl_append]
    rfl

/-- Two such lists have the same entries if they answer the same to every identifier. -/
theorem perm_iff_find? {vs ws : List VulnerabilityRef}
    (hv : (vs.map VulnerabilityRef.cve).Nodup) (hw : (ws.map VulnerabilityRef.cve).Nodup) :
    vs.Perm ws ↔ ∀ cve, vs.find? (fun v => v.cve == cve) = ws.find? (fun v => v.cve == cve) := by
  have hmem : ∀ {us : List VulnerabilityRef}, (us.map VulnerabilityRef.cve).Nodup →
      ∀ u, u ∈ us ↔ us.find? (fun v => v.cve == u.cve) = some u := by
    intro us hus u
    constructor
    · intro hu
      obtain ⟨w, hfind⟩ : ∃ w, us.find? (fun v => v.cve == u.cve) = some w := by
        rw [← Option.ne_none_iff_exists', Ne, find?_eq_none_iff, not_not]
        exact List.mem_map_of_mem hu
      have hcve : w.cve = u.cve := cve_of_find? hfind
      rw [hfind, List.inj_on_of_nodup_map hus (List.mem_of_find?_eq_some hfind) hu hcve]
    · exact List.mem_of_find?_eq_some
  constructor
  · intro hperm cve
    rcases hfind : vs.find? (fun v => v.cve == cve) with - | v
    · rw [hfind]
      symm
      rw [find?_eq_none_iff] at hfind
      exact (find?_eq_none_iff.mpr fun h => hfind ((hperm.map _).mem_iff.mpr h))
    · have hcve : v.cve = cve := cve_of_find? hfind
      have hin := (hmem hw v).mp (hperm.mem_iff.mp (List.mem_of_find?_eq_some hfind))
      rw [hcve] at hin
      rw [hfind, hin]
  · intro h
    rw [List.perm_ext_iff_of_nodup (List.Nodup.of_map _ hv) (List.Nodup.of_map _ hw)]
    intro u
    rw [hmem hv, hmem hw, h]

/-! ### The merged result -/

variable (iocType value now) in
/-- What the fold comes to. -/
def mergeAll (l : List EnrichmentResult) : Merging :=
  l.foldl mergeOne (Merging.start iocType value now)

theorem mergeResults_of_two_le (h : 2 ≤ l.length) :
    mergeResults it iocType value now l = finish it (mergeAll iocType value now l) l.length := by
  match l, h with
  | _ :: _ :: _, _ => rfl

/-- The fold of a part of the state that only depends on itself. -/
theorem mergeAll_part {γ : Type} {p : Merging → γ} {g : γ → EnrichmentResult → γ}
    (h : ∀ s r, g (p s) r = p (mergeOne s r)) (l : List EnrichmentResult) :
    p (mergeAll iocType value now l) = l.foldl g (p (Merging.start iocType value now)) :=
  (List.foldl_hom p h).symm

theorem mergeAll_riskiest (l : List EnrichmentResult) :
    ((mergeAll iocType value now l).maxRisk,
        (mergeAll iocType value now l).merged.geoLocation) =
      ((carry riskKey EnrichmentResult.geoLocation l).1.elim 0 EnrichmentResult.riskScore,
        (carry riskKey EnrichmentResult.geoLocation l).2) :=
  (mergeAll_part (p := fun s => (s.maxRisk, s.merged.geoLocation)) (fun _ _ => rfl) l).trans
    (foldl_riskiest EnrichmentResult.geoLocation l)

theorem mergeAll_geoLocation (l : List EnrichmentResult) :
    (mergeAll iocType value now l).merged.geoLocation =
      (carry riskKey EnrichmentResult.geoLocation l).2 :=
  congrArg Prod.snd (mergeAll_riskiest l)

theorem whoisOf_merge (s : Merging) (r : EnrichmentResult) :
    whoisOf (mergeOne s r).merged =
      if s.maxRisk < r.riskScore then (whoisOf r).or (whoisOf s.merged) else whoisOf s.merged := by
  by_cases h : s.maxRisk < r.riskScore ∧ r.whois.entries ≠ []
  · have hnew : (mergeOne s r).merged.whois = r.whois := if_pos h
    rw [whoisOf, hnew, if_pos h.1, ← whoisOf, whoisOf, if_pos h.2, Option.some_or]
  · have hkept : (mergeOne s r).merged.whois = s.merged.whois := if_neg h
    rw [whoisOf, hkept, ← whoisOf]
    split_ifs with hrisk
    · have hnone : whoisOf r = none := if_neg fun hentries => h ⟨hrisk, hentries⟩
      rw [hnone, Option.none_or]
    · rfl

theorem mergeAll_whois (l : List EnrichmentResult) :
    whoisOf (mergeAll iocType value now l).merged = (carry riskKey whoisOf l).2 := by
  have h : ((mergeAll iocType value now l).maxRisk,
      whoisOf (mergeAll iocType value now l).merged) =
        ((carry riskKey whoisOf l).1.elim 0 EnrichmentResult.riskScore,
          (carry riskKey whoisOf l).2) := by
    refine (mergeAll_part (p := fun s => (s.maxRisk, whoisOf s.merged)) ?_ l).trans
      (foldl_riskiest whoisOf l)
    intro s r
    rw [whoisOf_merge]
    rfl
  exact congrArg Prod.snd h

theorem mergeAll_votes (l : List EnrichmentResult) :
    votes (mergeAll iocType value now l).merged =
      (firstMax votesKey l).elim (0, 0, 0) votes := by
  refine (mergeAll_part (p := fun s => votes s.merged) ?_ l).trans (foldl_outvoted l)
  intro s r
  by_cases h : s.merged.maliciousVotes < r.maliciousVotes
  · simp only [mergeOne, votes, if_pos h]
    exact if_pos h
  · simp only [mergeOne, votes, if_neg h]
    exact if_neg h

theorem mergeAll_threatCategory (l : List EnrichmentResult) :
    (mergeAll iocType value now l).merged.threatCategory =
      (l.findSome? categoryOf).getD "" :=
  (mergeAll_part (p := fun s => s.merged.threatCategory) (fun _ _ => rfl) l).trans
    (foldl_category l)

theorem mergeAll_communityScore (l : List EnrichmentResult) :
    (mergeAll iocType value now l).merged.communityScore =
      l.findSome? EnrichmentResult.communityScore :=
  (mergeAll_part (p := fun s => s.merged.communityScore) (fun _ _ => rfl) l).trans
    ((foldl_or EnrichmentResult.communityScore none l).trans Option.none_or)

theorem mergeAll_preferred {α L : Type} [LinearOrder L] {beats : α → α → Bool} {number : α → L}
    (hbeats : ∀ a b, beats a b = true ↔ number b < number a)
    (get : EnrichmentResult → Option α)
    (hstart : get (Merging.start iocType value now).merged = none)
    (hget : ∀ s r, get (mergeOne s r).merged = preferred beats (get s.merged) (get r))
    (l : List EnrichmentResult) :
    get (mergeAll iocType value now l).merged = (firstMax (partKey get number) l).bind get := by
  refine (mergeAll_part (p := fun s => get s.merged)
    (g := fun s r => preferred beats s (get r)) (fun s r => (hget s r).symm) l).trans ?_
  rw [hstart]
  exact foldl_preferred hbeats get l

end EnrichmentMerge
