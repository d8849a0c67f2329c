import Mathlib.Data.List.Lex
import Mathlib.Order.Fin.Basic
import AiSOC.OrderedDict
import AiSOC.Pagination
import AiSOC.PythonValue

/-! # Business-context rules

Rules of a tenant change severity, route and tags of an alert or suppress it. The engine keeps a
snapshot of the rules of each tenant; a preview compiles rules without keeping them. -/
namespace BusinessContext

open CodeText PythonValue

abbrev TenantId := String
abbrev RuleId := Text

inductive Op where
  | eq | ne | lt | lte | gt | gte | contains | startswith | endswith | in | not_in | exists
  | not_exists
  deriving DecidableEq

inductive RuleCondition (Ω : Type) where
  | leaf (field : Text) (op : Op) (value : Value Ω)
  | all (children : List (RuleCondition Ω))
  | any (children : List (RuleCondition Ω))
  | not (child : RuleCondition Ω)

structure RuleAction where
  setSeverity : Option Text
  routeTo : Option Text
  tag : Option Text
  suppress : Bool
  deriving DecidableEq

structure BusinessContextRule (Ω : Type) where
  id : RuleId
  description : Text
  when : RuleCondition Ω
  thenAction : RuleAction
  enabled : Bool
  priority : ℤ

variable {Ω : Type}

mutual

def RuleCondition.fieldsReferenced : RuleCondition Ω → List Text
  | .leaf field _ _ => [field]
  | .all children => fieldsReferencedIn children
  | .any children => fieldsReferencedIn children
  | .not child => child.fieldsReferenced

def RuleCondition.fieldsReferencedIn : List (RuleCondition Ω) → List Text
  | [] => []
  | c :: cs => c.fieldsReferenced ++ fieldsReferencedIn cs

end

/-- The parts between the dots. -/
def splitDots (path : Text) : List Text := path.splitOn (cp '.')

/-- Nothing is the sentinel of a missing field. -/
def resolveParts : Value Ω → List Text → Option (Value Ω)
  | cur, [] => some cur
  | .dict entries, part :: parts => do resolveParts (← Dict.get entries part) parts
  | _, _ :: _ => Option.none

def resolveField (alert : Dict Ω) (path : Text) : Option (Value Ω) :=
  resolveParts (.dict alert) (splitDots path)

/-- A comparison that does not apply is false. -/
def orFalse (outcome : Outcome Bool) : Outcome Bool :=
  match outcome with
  | .error .typeError => .ok false
  | outcome => outcome

variable (objects : Objects Ω)

def evalOp (op : Op) (lhs rhs : Value Ω) : Outcome Bool :=
  match op with
  | .eq => eqValue objects lhs rhs
  | .ne => (eqValue objects lhs rhs).map not
  | .lt => orFalse (richValue objects .lt lhs rhs)
  | .lte => orFalse (richValue objects .le lhs rhs)
  | .gt => orFalse (richValue objects .gt lhs rhs)
  | .gte => orFalse (richValue objects .ge lhs rhs)
  | .contains => orFalse (contains objects rhs lhs)
  | .startswith => match lhs, rhs with
    | .str s, .str t => .ok (t <+: s)
    | _, _ => .ok false
  | .endswith => match lhs, rhs with
    | .str s, .str t => .ok (t <:+ s)
    | _, _ => .ok false
  | .in => if isCollection rhs then contains objects lhs rhs else .ok false
  | .not_in => if isCollection rhs then (contains objects lhs rhs).map not else .ok false
  | .exists => .ok false
  | .not_exists => .ok false
where
  isCollection : Value Ω → Bool
    | .list _ => true
    | .tuple _ => true
    | .object o => objects.isSet o
    | _ => false

mutual

def evaluateCondition (alert : Dict Ω) : RuleCondition Ω → Outcome Bool
  | .leaf field op value =>
    match op, resolveField alert field with
    | .exists, val => .ok val.isSome
    | .not_exists, val => .ok val.isNone
    | _, Option.none => .ok false
    | op, some val => evalOp objects op val value
  | .all children => evaluateAll alert children
  | .any children => evaluateAny alert children
  | .not child => (evaluateCondition alert child).map not

def evaluateAll (alert : Dict Ω) : List (RuleCondition Ω) → Outcome Bool
  | [] => .ok true
  | c :: cs => do if ← evaluateCondition alert c then evaluateAll alert cs else .ok false

def evaluateAny (alert : Dict Ω) : List (RuleCondition Ω) → Outcome Bool
  | [] => .ok false
  | c :: cs => do if ← evaluateCondition alert c then .ok true else evaluateAny alert cs

end

def suppressedKey : Text := text "__suppressed__"

/-- The four fields that a preview shows. -/
structure Projection (Ω : Type) where
  severity : Value Ω
  routeTo : Value Ω
  tags : List (Value Ω)
  suppressed : Bool

def isSuppressed (alert : Dict Ω) : Outcome Bool :=
  match Dict.get alert suppressedKey with
  | Option.none => .ok false
  | some v => truthy objects v

def projection (alert : Dict Ω) : Outcome (Projection Ω) := do
  let tags ← toItemsOrEmpty objects (Dict.get alert (text "tags"))
  return { severity := (Dict.get alert (text "severity")).getD .none
           routeTo := (Dict.get alert (text "route_to")).getD .none
           tags := tags
           suppressed := ← isSuppressed objects alert }

structure AlertEvaluation (Ω : Type) where
  alertId : Text
  matchedRuleIds : List RuleId
  before : Projection Ω
  after : Projection Ω
  suppressed : Bool

structure EngineSnapshot (Ω : Type) where
  tenantId : TenantId
  version : ℤ
  rules : List (BusinessContextRule Ω)
  /-- The rules that refer to a field. -/
  fieldIndex : Text → List RuleId

def EngineSnapshot.enabledRules (snap : EngineSnapshot Ω) : List (BusinessContextRule Ω) :=
  snap.rules.filter BusinessContextRule.enabled

/-- By priority, then by id. -/
def ruleKey (rule : BusinessContextRule Ω) : ℤ ×ₗ RuleId := toLex (rule.priority, rule.id)

def compileSnapshot (tenantId : TenantId) (version : ℤ) (rules : List (BusinessContextRule Ω)) :
    EngineSnapshot Ω where
  tenantId := tenantId
  version := version
  rules := Pagination.sortRows ruleKey rules
  fieldIndex f := ((Pagination.sortRows ruleKey rules).filter fun r =>
    f ∈ r.when.fieldsReferenced).map BusinessContextRule.id

def setIfGiven (alert : Dict Ω) (key : Text) : Option Text → Dict Ω
  | Option.none => alert
  | some v => Dict.set alert key (.str v)

def applyAction (alert : Dict Ω) (action : RuleAction) : Outcome (Dict Ω) := do
  let out := setIfGiven alert (text "severity") action.setSeverity
  let out := setIfGiven out (text "route_to") action.routeTo
  let out ← match action.tag with
    | Option.none => .ok out
    | some tag => do
      let existing ← toItemsOrEmpty objects (Dict.get out (text "tags"))
      let known ← memItems objects existing (.str tag)
      .ok (Dict.set out (text "tags") (.list (if known then existing else existing ++ [.str tag])))
  return if action.suppress then Dict.set out suppressedKey (.bool true) else out

structure Engine (Ω : Type) where
  snapshots : OrderedDict TenantId (EngineSnapshot Ω)

def Engine.snapshotFor (engine : Engine Ω) (tenantId : TenantId) : Option (EngineSnapshot Ω) :=
  engine.snapshots.get tenantId

def Engine.newVersion (engine : Engine Ω) (tenantId : TenantId) (version : Option ℤ) : ℤ :=
  version.getD (match engine.snapshots.get tenantId with
    | Option.none => 1
    | some old => old.version + 1)

def Engine.replace (engine : Engine Ω) (tenantId : TenantId) (rules : List (BusinessContextRule Ω))
    (version : Option ℤ) : Engine Ω where
  snapshots := engine.snapshots.set tenantId
    (compileSnapshot tenantId (engine.newVersion tenantId version) rules)

def Engine.clear (engine : Engine Ω) : Option TenantId → Engine Ω
  | Option.none => ⟨.empty⟩
  | some tenantId => ⟨engine.snapshots.erase tenantId⟩

/-- The result before any rule was tried. -/
def startEvaluation (alert : Dict Ω) : Outcome (AlertEvaluation Ω) := do
  let before ← projection objects alert
  let id ← objects.str ((Dict.get alert (text "id")).getD (.str []))
  return { alertId := id, matchedRuleIds := [], before := before, after := before,
           suppressed := false }

/-- Returns at the first rule after which the alert is suppressed. -/
def evaluateRules : List (BusinessContextRule Ω) → AlertEvaluation Ω → Dict Ω →
    Outcome (AlertEvaluation Ω)
  | [], result, current => do return { result with after := ← projection objects current }
  | rule :: rules, result, current => do
    if ← evaluateCondition objects current rule.when then
      let current ← applyAction objects current rule.thenAction
      let result := { result with matchedRuleIds := result.matchedRuleIds ++ [rule.id] }
      if ← isSuppressed objects current then
        return { result with suppressed := true, after := ← projection objects current }
      else evaluateRules rules result current
    else evaluateRules rules result current

def Engine.evaluate (engine : Engine Ω) (tenantId : TenantId) (alert : Dict Ω) :
    Outcome (AlertEvaluation Ω) := do
  let result ← startEvaluation objects alert
  match engine.snapshotFor tenantId with
  | Option.none => return result
  | some snap => evaluateRules objects snap.enabledRules result alert

/-- The loop of the preview, which is left at that rule. -/
def previewRules : List (BusinessContextRule Ω) → AlertEvaluation Ω × Dict Ω →
    Outcome (AlertEvaluation Ω × Dict Ω)
  | [], state => .ok state
  | rule :: rules, (result, current) => do
    if !(← evaluateCondition objects current rule.when) then previewRules rules (result, current)
    else
      let current ← applyAction objects current rule.thenAction
      let result := { result with matchedRuleIds := result.matchedRuleIds ++ [rule.id] }
      if ← isSuppressed objects current then .ok ({ result with suppressed := true }, current)
      else previewRules rules (result, current)

def previewAlert (transient : EngineSnapshot Ω) (alert : Dict Ω) : Outcome (AlertEvaluation Ω) := do
  let result ← startEvaluation objects alert
  let (result, current) ← previewRules objects transient.enabledRules (result, alert)
  return { result with after := ← projection objects current }

/-- Without rules, what the engine has is tried. -/
def Engine.previewAgainst (engine : Engine Ω) (tenantId : TenantId) (alerts : List (Dict Ω))
    (rules : Option (List (BusinessContextRule Ω))) : Outcome (List (AlertEvaluation Ω)) :=
  match rules with
  | Option.none => alerts.mapM fun alert => engine.evaluate objects tenantId alert
  | some rules => alerts.mapM (previewAlert objects (compileSnapshot tenantId (-1) rules))

end BusinessContext
