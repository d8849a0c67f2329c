import AiSOC.FloatOrder
import AiSOC.OrderedDict
import AiSOC.TransitionSystem

/-! # Autonomy guardrails

The confidence thresholds of the actions an agent may take: defaults, under them a policy file
of the site, under that the rows of a tenant. File and rows are kept once they were read. An
action that none of the three lists is to be left to an analyst. -/
namespace Guardrails

open FloatOrder (minFirst maxFirst)
open TransitionSystem (System Reachable anyStep)

inductive AutonomyDecision where
  | auto | review | escalate | reject
  deriving DecidableEq, Repr

/-- The order from REJECT up to AUTO. -/
def AutonomyDecision.level : AutonomyDecision → ℕ
  | .reject => 0
  | .escalate => 1
  | .review => 2
  | .auto => 3

structure ActionThresholds where
  auto : Float
  review : Float
  escalation : Float
  deriving DecidableEq

def ActionThresholds.decide (t : ActionThresholds) (confidence : Float) : AutonomyDecision :=
  if t.auto ≤ confidence then .auto
  else if t.review ≤ confidence then .review
  else if t.escalation ≤ confidence then .escalate
  else .reject

def makeThresholds (auto : Float) (review escalation : Option Float) : ActionThresholds :=
  let a := maxFirst 0.0 (minFirst 1.0 auto)
  let r := review.getD (maxFirst 0.0 (a - 0.1))
  let e := escalation.getD (maxFirst 0.0 (r - 0.2))
  let r := maxFirst 0.0 (minFirst a r)
  let e := maxFirst 0.0 (minFirst r e)
  ⟨a, r, e⟩

abbrev Thresholds := OrderedDict String ActionThresholds

def tiers (auto review escalation : Float) : ActionThresholds :=
  makeThresholds auto (some review) (some escalation)

def defaultEntries : List (String × ActionThresholds) :=
  [("lookup_ip", tiers 0.0 0.0 0.0),
   ("lookup_domain", tiers 0.0 0.0 0.0),
   ("search_logs", tiers 0.0 0.0 0.0),
   ("enrich_alert", tiers 0.0 0.0 0.0),
   ("mitre_lookup", tiers 0.0 0.0 0.0),
   ("get_alert_context", tiers 0.0 0.0 0.0),
   ("add_alert_tag", tiers 0.50 0.30 0.10),
   ("close_alert", tiers 0.60 0.40 0.20),
   ("create_case", tiers 0.50 0.30 0.10),
   ("add_case_comment", tiers 0.40 0.20 0.05),
   ("assign_case", tiers 0.60 0.40 0.20),
   ("quarantine_file", tiers 0.85 0.65 0.40),
   ("block_ip", tiers 0.90 0.70 0.40),
   ("isolate_host", tiers 0.92 0.72 0.45),
   ("disable_user_account", tiers 0.90 0.70 0.40),
   ("revoke_session", tiers 0.80 0.60 0.30),
   ("delete_object", tiers 0.95 0.80 0.50),
   ("firewall_rule_add", tiers 0.88 0.68 0.40),
   ("firewall_rule_remove", tiers 0.90 0.70 0.40)]

def defaultThresholds : Thresholds := .ofList defaultEntries

def rejectDefault : ActionThresholds := ⟨1.0, 1.0, 1.0⟩

/-- What the YAML loader makes of a document; `other` is a value of another class, with what
`float` makes of it. -/
inductive Yaml where
  | null
  | bool (b : Bool)
  | int (n : ℤ)
  | float (x : Float)
  | str (s : String)
  | seq (items : List Yaml)
  | mapping (entries : List (Yaml × Yaml))
  | other (number : Option Float)

def Yaml.isStr (key : String) : Yaml → Bool
  | .str s => s = key
  | _ => false

def Yaml.get (entries : List (Yaml × Yaml)) (key : String) : Option Yaml :=
  (entries.find? fun e => e.1.isStr key).map Prod.snd

/-- `value` stands for a `TypeError` or a `ValueError`, which the loader catches. -/
inductive FloatError where
  | value
  | overflow
  deriving DecidableEq, Repr

def floatOfInt (n : ℤ) : Except FloatError Float :=
  let x := Float.ofModel (Float.Model.ofInt n)
  if x.toModel.isFinite then .ok x else .error .overflow

/-- `floatOfStr` reads a string, if it is the text of a number. -/
def toFloat (floatOfStr : String → Option Float) : Yaml → Except FloatError Float
  | .bool b => .ok (if b then 1.0 else 0.0)
  | .int n => floatOfInt n
  | .float x => .ok x
  | .str s => ((floatOfStr s).map Except.ok).getD (.error .value)
  | .other (some x) => .ok x
  | _ => .error .value

/-- A tier that is missing or null. -/
def optionalFloat (floatOfStr : String → Option Float) :
    Option Yaml → Except FloatError (Option Float)
  | none | some .null => .ok none
  | some value => (toFloat floatOfStr value).map some

/-- The part of a call under `try`: `none` where the error is caught. -/
def caught {α : Type} : Except FloatError α → Except FloatError (Option α)
  | .ok x => .ok (some x)
  | .error .value => .ok none
  | .error .overflow => .error .overflow

def coerceThresholdValue (floatOfStr : String → Option Float) :
    Yaml → Except FloatError (Option ActionThresholds)
  | .mapping entries => caught do
    let auto ← toFloat floatOfStr
      ((Yaml.get entries "auto").getD ((Yaml.get entries "auto_threshold").getD (.float 1.0)))
    let review ← optionalFloat floatOfStr
      ((Yaml.get entries "review").or (Yaml.get entries "analyst_review_threshold"))
    let escalation ← optionalFloat floatOfStr
      ((Yaml.get entries "escalation").or (Yaml.get entries "escalation_threshold"))
    return makeThresholds auto review escalation
  | value@(.bool _) | value@(.int _) | value@(.float _) => caught do
    return makeThresholds (← toFloat floatOfStr value) none none
  | _ => .ok none

/-- The policy file as the process finds it; one that cannot be read or parsed is `unreadable`. -/
inductive PolicyFile where
  | absent
  | unreadable
  | document (doc : Yaml)

/-- The entries of the file that have a name and tiers. -/
def cleanedEntries (floatOfStr : String → Option Float) :
    List (Yaml × Yaml) → Except FloatError (List (String × ActionThresholds))
  | [] => .ok []
  | (.str action, value) :: rest => do
    let coerced ← coerceThresholdValue floatOfStr value
    let cleaned ← cleanedEntries floatOfStr rest
    return (coerced.map fun t => (action, t)).toList ++ cleaned
  | _ :: rest => cleanedEntries floatOfStr rest

/-- `none` is a `NULL`. -/
structure OverrideRow where
  actionName : String
  minConfidence : Option Float
  reviewConfidence : Option Float
  escalationConfidence : Option Float

/-- What the database answers for a tenant, the rows of the older schema without the two
columns it lacks. -/
inductive Fetch where
  | rows (rows : List OverrideRow)
  | legacyRows (rows : List (String × Option Float))
  | unavailable

structure Environment where
  floatOfStr : String → Option Float
  file : PolicyFile
  /-- Without a `DATABASE_URL` there is none. -/
  database : Option (String → Fetch)

structure Caches where
  yaml : Option Thresholds
  tenants : OrderedDict String Thresholds

def parsePolicy (env : Environment) : Except FloatError Thresholds :=
  match env.file with
  | .document (.mapping entries) =>
    match Yaml.get entries "thresholds" with
    | some (.mapping raw) => (cleanedEntries env.floatOfStr raw).map OrderedDict.ofList
    | _ => .ok .empty
  | _ => .ok .empty

def loadYamlOverrides (env : Environment) (caches : Caches) :
    Except FloatError (Thresholds × Caches) :=
  match caches.yaml with
  | some thresholds => .ok (thresholds, caches)
  | none => do
    let thresholds ← parsePolicy env
    return (thresholds, { caches with yaml := some thresholds })

def rowThresholds (row : OverrideRow) : Option (String × ActionThresholds) :=
  row.minConfidence.map fun auto =>
    (row.actionName, makeThresholds auto row.reviewConfidence row.escalationConfidence)

/-- A row without a confidence spoils the whole answer. -/
def fetched : Fetch → Thresholds
  | .rows rows => ((rows.mapM rowThresholds).map OrderedDict.ofList).getD .empty
  | .legacyRows rows =>
    ((rows.mapM fun row => rowThresholds ⟨row.1, row.2, none, none⟩).map
      OrderedDict.ofList).getD .empty
  | .unavailable => .empty

def loadOverrides (env : Environment) (tenantId : String) (caches : Caches) :
    Thresholds × Caches :=
  match caches.tenants.get tenantId with
  | some overrides => (overrides, caches)
  | none =>
    let overrides := (env.database.map fun fetch => fetched (fetch tenantId)).getD .empty
    (overrides, { caches with tenants := caches.tenants.set tenantId overrides })

structure GuardrailPolicy where
  tenantId : String
  thresholds : Thresholds

/-- Defaults, then the file, then the rows of the tenant. -/
def load (env : Environment) (tenantId : String) (caches : Caches) :
    Except FloatError (GuardrailPolicy × Caches) := do
  let (yaml, caches) ← loadYamlOverrides env caches
  let (overrides, caches) := loadOverrides env tenantId caches
  return (⟨tenantId, (defaultThresholds.update yaml).update overrides⟩, caches)

/-- Without the rows. -/
def loadSync (env : Environment) (tenantId : String) (caches : Caches) :
    Except FloatError (GuardrailPolicy × Caches) := do
  let (yaml, caches) ← loadYamlOverrides env caches
  return (⟨tenantId, defaultThresholds.update yaml⟩, caches)

/-- A number to two places, with ties to an even last digit. -/
def fixed2 (x : Float) : String :=
  let nearest (n : ℕ) (e : ℤ) : ℕ :=
    let d := 2 ^ (-e).toNat
    let n := n * 2 ^ e.toNat
    if 2 * (n % d) < d then n / d
    else if d < 2 * (n % d) then n / d + 1
    else n / d + n / d % 2
  let sign (s : Float.Model.UnpackedFloat.Sign) : String :=
    match s with
    | .negative => "-"
    | .positive => ""
  let pad (n : ℕ) : String := if n < 10 then "0" ++ toString n else toString n
  match x.toModel.unpack with
  | .notANumber => "nan"
  | .infinity s => sign s ++ "inf"
  | .zero s => sign s ++ "0.00"
  | .finite s m e _ => sign s ++ toString (nearest (100 * m) e / 100) ++ "." ++
      pad (nearest (100 * m) e % 100)

structure DecisionResult where
  decision : AutonomyDecision
  action : String
  confidence : Float
  thresholds : ActionThresholds
  reason : String

def GuardrailPolicy.getThresholds (policy : GuardrailPolicy) (action : String) :
    ActionThresholds :=
  (policy.thresholds.get action).getD rejectDefault

def GuardrailPolicy.getThreshold (policy : GuardrailPolicy) (action : String) : Float :=
  (policy.getThresholds action).auto

def decisionReason (t : ActionThresholds) (action : String) (confidence : Float) :
    AutonomyDecision → String
  | .auto => ""
  | .review => "Confidence " ++ fixed2 confidence ++ " below auto threshold " ++ fixed2 t.auto ++
      " for '" ++ action ++ "' — analyst review required."
  | .escalate => "Confidence " ++ fixed2 confidence ++ " below review threshold " ++
      fixed2 t.review ++ " for '" ++ action ++ "' — escalating to senior on-call."
  | .reject => "Confidence " ++ fixed2 confidence ++ " below escalation floor " ++
      fixed2 t.escalation ++ " for '" ++ action ++ "' — refusing to act."

def GuardrailPolicy.decide (policy : GuardrailPolicy) (action : String) (confidence : Float) :
    DecisionResult :=
  let thresholds := policy.getThresholds action
  let decision := thresholds.decide confidence
  ⟨decision, action, confidence, thresholds,
    decisionReason thresholds action confidence decision⟩

structure ActionResult where
  allowed : Bool
  action : String
  confidence : Float
  threshold : Float
  reason : String

def GuardrailPolicy.evaluate (policy : GuardrailPolicy) (action : String) (confidence : Float) :
    ActionResult :=
  let result := policy.decide action confidence
  ⟨result.decision = .auto, action, confidence, result.thresholds.auto, result.reason⟩

inductive Event where
  | load (env : Environment) (tenantId : String)
  | loadSync (env : Environment) (tenantId : String)
  | resetYamlCache
  | resetTenantCache (tenantId : Option String)

def Caches.fresh : Caches := ⟨none, .empty⟩

/-- A call that raises leaves the caches as they were. -/
def next (caches : Caches) : Event → Option Caches
  | .load env tenantId => ((load env tenantId caches).toOption.map Prod.snd).or (some caches)
  | .loadSync env tenantId =>
    ((loadSync env tenantId caches).toOption.map Prod.snd).or (some caches)
  | .resetYamlCache => some { caches with yaml := none }
  | .resetTenantCache none => some { caches with tenants := .empty }
  | .resetTenantCache (some tenantId) =>
    some { caches with tenants := caches.tenants.erase tenantId }

/-- Environments may be different at every call. -/
def process : System Caches Event where
  start caches := caches = .fresh
  next := next

/-- A policy that a call builds at some time in the life of a process. -/
def Built (policy : GuardrailPolicy) : Prop :=
  ∃ caches, Reachable process anyStep caches ∧ ∃ env tenantId after,
    load env tenantId caches = .ok (policy, after) ∨
      loadSync env tenantId caches = .ok (policy, after)

structure Ordered (t : ActionThresholds) : Prop where
  nonneg : 0 ≤ t.escalation
  escalation_le_review : t.escalation ≤ t.review
  review_le_auto : t.review ≤ t.auto
  auto_le_one : t.auto ≤ 1

/-- What a policy promises of an action at a confidence. -/
structure Safe (policy : GuardrailPolicy) (action : String) (confidence : Float) : Prop where
  ordered : Ordered (policy.getThresholds action)
  monotone : ∀ higher, confidence ≤ higher → (policy.decide action confidence).decision.level ≤
    (policy.decide action higher).decision.level
  fail_safe : action ∉ policy.thresholds.keys → (policy.decide action confidence).decision ≠ .auto

/-- Every entry of a dictionary of thresholds is in order. -/
def AllOrdered (thresholds : Thresholds) : Prop := ∀ e ∈ thresholds.entries, Ordered e.2

theorem makeThresholds_ordered (auto : Float) (review escalation : Option Float) :
    Ordered (makeThresholds auto review escalation) := by
  have hone : (0 : Float) ≤ 1.0 := by decide
  have hauto := FloatOrder.clamp_mem (a := auto) hone
  have hreview := FloatOrder.clamp_mem
    (a := review.getD (maxFirst 0.0 (maxFirst 0.0 (minFirst 1.0 auto) - 0.1))) hauto.1
  exact ⟨(FloatOrder.clamp_mem hreview.1).1, (FloatOrder.clamp_mem hreview.1).2, hreview.2, hauto.2⟩

theorem rejectDefault_ordered : Ordered rejectDefault :=
  ⟨by decide, by decide, by decide, by decide⟩

theorem allOrdered_setAll {thresholds : Thresholds} {entries : List (String × ActionThresholds)}
    (h : AllOrdered thresholds) (hentries : ∀ e ∈ entries, Ordered e.2) :
    AllOrdered (thresholds.setAll entries) :=
  OrderedDict.forall_setAll (P := fun _ t => Ordered t) h hentries

theorem allOrdered_empty : AllOrdered .empty := nofun

theorem defaultThresholds_ordered : AllOrdered defaultThresholds := by
  apply allOrdered_setAll allOrdered_empty
  simp [defaultEntries, tiers, makeThresholds_ordered]

theorem caught_ok {α : Type} {x : Except FloatError α} {y : α} (h : caught x = .ok (some y)) :
    x = .ok y := by
  rcases x with (_ | _) | x <;> cases h
  rfl

/-- What is made of a value that is read under `try`. -/
theorem caught_bind {α : Type} {x : Except FloatError α}
    {f : α → Except FloatError ActionThresholds} {t : ActionThresholds}
    (h : x >>= f = .ok t) : ∃ y, f y = .ok t := by
  rcases x with _ | y
  · cases h
  · exact ⟨y, h⟩

theorem coerceThresholdValue_ordered {floatOfStr : String → Option Float} {value : Yaml}
    {t : ActionThresholds} (h : coerceThresholdValue floatOfStr value = .ok (some t)) :
    Ordered t := by
  have hscalar {x : Except FloatError Float}
      (hx : caught (x >>= fun a => return makeThresholds a none none) = .ok (some t)) :
      Ordered t := by
    obtain ⟨a, ha⟩ := caught_bind (caught_ok hx)
    cases ha
    exact makeThresholds_ordered a none none
  cases value with
  | bool b => exact hscalar (x := toFloat floatOfStr (.bool b)) h
  | int n => exact hscalar h
  | float y => exact hscalar (x := toFloat floatOfStr (.float y)) h
  | mapping entries =>
    obtain ⟨auto, h⟩ := caught_bind (caught_ok h)
    obtain ⟨review, h⟩ := caught_bind h
    obtain ⟨escalation, h⟩ := caught_bind h
    cases h
    exact makeThresholds_ordered auto review escalation
  | _ => cases h

theorem cleanedEntries_ordered {floatOfStr : String → Option Float} {raw : List (Yaml × Yaml)}
    {cleaned : List (String × ActionThresholds)}
    (h : cleanedEntries floatOfStr raw = .ok cleaned) : ∀ e ∈ cleaned, Ordered e.2 := by
  induction raw generalizing cleaned with
  | nil =>
    cases h
    exact nofun
  | cons entry rest ih =>
    obtain ⟨key, value⟩ := entry
    cases key with
    | str action =>
      rw [cleanedEntries] at h
      rcases hcoerced : coerceThresholdValue floatOfStr value with error | coerced
      · rw [hcoerced] at h
        cases h
      rcases hrest : cleanedEntries floatOfStr rest with error | others
      · rw [hcoerced, hrest] at h
        cases h
      rw [hcoerced, hrest] at h
      cases h
      intro e he
      rcases List.mem_append.mp he with he | he
      · obtain ⟨t, ht, rfl⟩ := Option.map_eq_some_iff.mp (Option.mem_toList.mp he)
        exact coerceThresholdValue_ordered (hcoerced.trans (congrArg _ ht))
      · exact ih hrest e he
    | _ => exact ih h

theorem parsePolicy_ordered {env : Environment} {thresholds : Thresholds}
    (h : parsePolicy env = .ok thresholds) : AllOrdered thresholds := by
  unfold parsePolicy at h
  split at h
  · split at h
    · rename_i raw _
      rcases hcleaned : cleanedEntries env.floatOfStr raw with error | cleaned
      · rw [hcleaned] at h
        cases h
      · rw [hcleaned] at h
        cases h
        exact allOrdered_setAll allOrdered_empty (cleanedEntries_ordered hcleaned)
    · cases h
      exact allOrdered_empty
  · cases h
    exact allOrdered_empty

theorem rowThresholds_ordered {rows : List OverrideRow}
    {entries : List (String × ActionThresholds)} (h : rows.mapM rowThresholds = some entries) :
    ∀ e ∈ entries, Ordered e.2 := by
  induction rows generalizing entries with
  | nil =>
    cases h
    exact nofun
  | cons row rows ih =>
    rw [List.mapM_cons] at h
    obtain ⟨e, he, h⟩ := Option.bind_eq_some_iff.mp h
    obtain ⟨es, hes, h⟩ := Option.bind_eq_some_iff.mp h
    cases h
    obtain ⟨auto, -, rfl⟩ := Option.map_eq_some_iff.mp he
    exact List.forall_mem_cons.mpr ⟨makeThresholds_ordered auto _ _, ih hes⟩

theorem fetched_ordered (fetch : Fetch) : AllOrdered (fetched fetch) := by
  have hofList {rows : List OverrideRow} :
      AllOrdered (((rows.mapM rowThresholds).map OrderedDict.ofList).getD .empty) := by
    rcases hentries : rows.mapM rowThresholds with _ | entries
    · exact allOrdered_empty
    · exact allOrdered_setAll allOrdered_empty (rowThresholds_ordered hentries)
  cases fetch with
  | rows rows => exact hofList
  | legacyRows rows =>
    have h := @hofList (rows.map fun row => ⟨row.1, row.2, none, none⟩)
    rwa [List.mapM_map] at h
  | unavailable => exact allOrdered_empty

structure CachesOrdered (caches : Caches) : Prop where
  yaml : ∀ thresholds ∈ caches.yaml, AllOrdered thresholds
  tenants : ∀ e ∈ caches.tenants.entries, AllOrdered e.2

theorem loadYamlOverrides_ordered {env : Environment} {caches after : Caches}
    {thresholds : Thresholds} (hc : CachesOrdered caches)
    (h : loadYamlOverrides env caches = .ok (thresholds, after)) :
    AllOrdered thresholds ∧ CachesOrdered after := by
  unfold loadYamlOverrides at h
  split at h
  · rename_i cached hcached
    cases h
    exact ⟨hc.yaml _ hcached, hc⟩
  · rcases hparsed : parsePolicy env with error | parsed
    · rw [hparsed] at h
      cases h
    · rw [hparsed] at h
      cases h
      have hordered := parsePolicy_ordered hparsed
      exact ⟨hordered, fun t ht => Option.some.inj ht ▸ hordered, hc.tenants⟩

theorem loadOverrides_ordered (env : Environment) (tenantId : String) {caches : Caches}
    (hc : CachesOrdered caches) : AllOrdered (loadOverrides env tenantId caches).1 ∧
      CachesOrdered (loadOverrides env tenantId caches).2 := by
  unfold loadOverrides
  split
  · rename_i overrides hcached
    exact ⟨hc.tenants _ (OrderedDict.get_eq_some.mp hcached), hc⟩
  · have hordered : AllOrdered
        ((env.database.map fun fetch => fetched (fetch tenantId)).getD .empty) := by
      cases env.database with
      | none => exact allOrdered_empty
      | some fetch => exact fetched_ordered (fetch tenantId)
    exact ⟨hordered, hc.yaml,
      OrderedDict.forall_set (P := fun _ t => AllOrdered t) hc.tenants hordered⟩

/-- A call builds a policy in order and keeps the caches in order. -/
theorem load_ordered {env : Environment} {tenantId : String} {caches after : Caches}
    {policy : GuardrailPolicy} (hc : CachesOrdered caches)
    (h : load env tenantId caches = .ok (policy, after)) :
    AllOrdered policy.thresholds ∧ CachesOrdered after := by
  unfold load at h
  rcases hyaml : loadYamlOverrides env caches with error | ⟨yaml, middle⟩
  · rw [hyaml] at h
    cases h
  · rw [hyaml] at h
    cases h
    obtain ⟨hfile, hmiddle⟩ := loadYamlOverrides_ordered hc hyaml
    obtain ⟨hrows, hafter⟩ := loadOverrides_ordered env tenantId hmiddle
    exact ⟨allOrdered_setAll (allOrdered_setAll defaultThresholds_ordered hfile) hrows, hafter⟩

theorem loadSync_ordered {env : Environment} {tenantId : String} {caches after : Caches}
    {policy : GuardrailPolicy} (hc : CachesOrdered caches)
    (h : loadSync env tenantId caches = .ok (policy, after)) :
    AllOrdered policy.thresholds ∧ CachesOrdered after := by
  unfold loadSync at h
  rcases hyaml : loadYamlOverrides env caches with error | ⟨yaml, middle⟩
  · rw [hyaml] at h
    cases h
  · rw [hyaml] at h
    cases h
    obtain ⟨hfile, hmiddle⟩ := loadYamlOverrides_ordered hc hyaml
    exact ⟨allOrdered_setAll defaultThresholds_ordered hfile, hmiddle⟩

theorem fresh_ordered : CachesOrdered .fresh := ⟨nofun, nofun⟩

theorem next_ordered {caches after : Caches} {e : Event} (hc : CachesOrdered caches)
    (h : next caches e = some after) : CachesOrdered after := by
  cases e with
  | load env tenantId =>
    rcases hload : load env tenantId caches with error | ⟨policy, built⟩
    · rw [next, hload] at h
      exact Option.some.inj h ▸ hc
    · rw [next, hload] at h
      exact Option.some.inj h ▸ (load_ordered hc hload).2
  | loadSync env tenantId =>
    rcases hload : loadSync env tenantId caches with error | ⟨policy, built⟩
    · rw [next, hload] at h
      exact Option.some.inj h ▸ hc
    · rw [next, hload] at h
      exact Option.some.inj h ▸ (loadSync_ordered hc hload).2
  | resetYamlCache =>
    cases h
    exact ⟨nofun, hc.tenants⟩
  | resetTenantCache tenantId =>
    cases tenantId with
    | none =>
      cases h
      exact ⟨hc.yaml, nofun⟩
    | some tenantId =>
      cases h
      exact ⟨hc.yaml, fun e he => hc.tenants e (List.mem_filter.mp he).1⟩

theorem Built.ordered {policy : GuardrailPolicy} (h : Built policy) :
    AllOrdered policy.thresholds := by
  obtain ⟨caches, hreach, env, tenantId, after, hload⟩ := h
  have hcaches : CachesOrdered caches :=
    Reachable.invariant (P := CachesOrdered) (fun s hs => by cases hs; exact fresh_ordered)
      (fun _ _ _ hc _ hn => next_ordered hc hn) hreach
  rcases hload with hload | hload
  · exact (load_ordered hcaches hload).1
  · exact (loadSync_ordered hcaches hload).1

theorem Built.getThresholds_ordered {policy : GuardrailPolicy} (h : Built policy)
    (action : String) : Ordered (policy.getThresholds action) := by
  unfold GuardrailPolicy.getThresholds
  rcases ht : policy.thresholds.get action with _ | t
  · exact rejectDefault_ordered
  · exact h.ordered _ (OrderedDict.get_eq_some.mp ht)

/-- What reaches a threshold goes on to reach it. -/
theorem decide_monotone (t : ActionThresholds) {confidence higher : Float}
    (h : confidence ≤ higher) : (t.decide confidence).level ≤ (t.decide higher).level := by
  have hup {x : Float} (hx : x ≤ confidence) : x ≤ higher := FloatOrder.le_trans hx h
  unfold ActionThresholds.decide
  by_cases hauto : t.auto ≤ confidence
  · rw [if_pos hauto, if_pos (hup hauto)]
  rw [if_neg hauto]
  by_cases hreview : t.review ≤ confidence
  · rw [if_pos hreview, if_pos (hup hreview)]
    split_ifs <;> decide
  rw [if_neg hreview]
  by_cases hescalation : t.escalation ≤ confidence
  · rw [if_pos hescalation, if_pos (hup hescalation)]
    split_ifs <;> decide
  · rw [if_neg hescalation]
    exact Nat.zero_le _

theorem decide_auto {t : ActionThresholds} {confidence : Float} :
    t.decide confidence = .auto ↔ t.auto ≤ confidence := by
  unfold ActionThresholds.decide
  by_cases hauto : t.auto ≤ confidence
  · simp [hauto]
  · rw [if_neg hauto]
    split_ifs <;> simp [hauto]

/-- A policy fails at nothing but an action that it does not list, at full confidence. -/
theorem safe_iff_listed_or_unsure {policy : GuardrailPolicy} (h : Built policy) (action : String)
    {confidence : Float} (hhigh : confidence ≤ 1) :
    Safe policy action confidence ↔ action ∈ policy.thresholds.keys ∨ confidence < 1 := by
  have hone : (1.0 : Float) = 1 := by decide
  have hunlisted (hnotMem : action ∉ policy.thresholds.keys) :
      (policy.decide action confidence).decision = .auto ↔ 1 ≤ confidence := by
    change (policy.getThresholds action).decide confidence = .auto ↔ _
    rw [GuardrailPolicy.getThresholds, OrderedDict.get_eq_none.mpr hnotMem, decide_auto]
    change (1.0 : Float) ≤ confidence ↔ _
    rw [hone]
  constructor
  · intro hsafe
    by_cases hmem : action ∈ policy.thresholds.keys
    · exact Or.inl hmem
    · right
      have hnot : ¬ 1 ≤ confidence := fun hle =>
        hsafe.fail_safe hmem ((hunlisted hmem).mpr hle)
      exact ((FloatOrder.isNumber_left hhigh).lt_or_le
        (FloatOrder.isNumber_right hhigh)).resolve_right hnot
  · intro hcond
    refine ⟨h.getThresholds_ordered action, fun higher => decide_monotone _, ?_⟩
    intro hnotMem hauto
    rcases hcond with hmem | hlt
    · exact hnotMem hmem
    · exact FloatOrder.not_lt_of_le ((hunlisted hnotMem).mp hauto) hlt

/-- A process without a policy file and a database. -/
def shipped : Environment := ⟨fun _ => none, .absent, none⟩

def shippedPolicy : GuardrailPolicy := ⟨"t-test", defaultThresholds.update .empty⟩

theorem shippedPolicy_built : Built shippedPolicy :=
  ⟨.fresh, .start rfl, shipped, "t-test", ⟨some .empty, .empty⟩, Or.inr rfl⟩

theorem shippedPolicy_safe : Safe shippedPolicy "isolate_host" 1 ∧
    Safe shippedPolicy "does_not_exist" 0.99 := by
  constructor
  · exact (safe_iff_listed_or_unsure shippedPolicy_built "isolate_host"
      (by decide)).mpr (Or.inl (by decide))
  · exact (safe_iff_listed_or_unsure shippedPolicy_built "does_not_exist"
      (by decide)).mpr (Or.inr (by decide))

/-- At full confidence an action nobody listed is carried out. -/
theorem unlisted_action_auto : ¬ ∀ policy, Built policy → ∀ action (confidence : Float),
    0 ≤ confidence → confidence ≤ 1 → Safe policy action confidence := by
  intro h
  have hsafe := h shippedPolicy shippedPolicy_built "does_not_exist" 1 (by decide)
    (by decide)
  exact hsafe.fail_safe (by decide) (by decide)

end Guardrails
