import AiSOC.OrderedDict

/-! # Effective detection rules

The rules of a tenant and of the platform, those of the packs that its parent assigned to it, and
its overrides on top. A query returns the rows of its table in the order of the table, and the
join those of the pack rules, so the orders of the tables are the orders of the answers. -/
namespace RuleResolver

abbrev RuleId := String
abbrev PackId := String
abbrev TenantId := String

/-- Parameters are JSON objects, of which nothing but their keys matters. -/
abbrev Params (V : Type) := OrderedDict String V

structure DetectionRule where
  id : RuleId
  tenantId : Option TenantId
  name : String
  ruleLanguage : String
  ruleBody : String
  category : String
  status : String
  severity : String
  isBuiltin : Bool
  deriving DecidableEq

structure RulePackRule where
  packId : PackId
  ruleId : RuleId
  deriving DecidableEq

structure RulePackAssignment (V : Type) where
  packId : PackId
  childTenantId : TenantId
  enabled : Bool
  parameterOverrides : Params V

structure RuleOverride (V : Type) where
  childTenantId : TenantId
  ruleId : RuleId
  action : String
  severityOverride : Option String
  parameterOverrides : Params V
  note : Option String

/-- The tables with their primary keys and unique constraints. -/
structure Database (V : Type) where
  rules : List DetectionRule
  packRules : List RulePackRule
  assignments : List (RulePackAssignment V)
  overrides : List (RuleOverride V)
  rules_nodup : (rules.map DetectionRule.id).Nodup
  packRules_nodup : packRules.Nodup
  assignments_nodup : (assignments.map fun a => (a.packId, a.childTenantId)).Nodup
  overrides_nodup : (overrides.map fun o => (o.childTenantId, o.ruleId)).Nodup

structure ResolvedRule (V : Type) where
  id : RuleId
  name : String
  ruleLanguage : String
  ruleBody : String
  severity : String
  category : String
  status : String
  isBuiltin : Bool
  source : String
  packIds : List PackId
  parameterOverrides : Params V
  severityOverridden : Bool
  originalSeverity : Option String
  overrideNote : Option String

structure Options where
  includeBuiltin : Bool
  includePacks : Bool
  ruleIds : Option (List RuleId)
  ruleLanguage : Option String
  category : Option String
  onlyActive : Bool

def defaultOptions : Options := ⟨true, true, none, none, none, true⟩

/-- A filter for a text is left out if the text is empty. -/
def textFilter (wanted : Option String) (actual : String) : Bool :=
  match wanted with
  | none => true
  | some s => s = "" ∨ actual = s

def idFilter (wanted : Option (List RuleId)) (id : RuleId) : Bool :=
  match wanted with
  | none => true
  | some ids => ids = [] ∨ id ∈ ids

def Options.admits (options : Options) (rule : DetectionRule) : Bool :=
  (!options.onlyActive || decide (rule.status = "active")) && idFilter options.ruleIds rule.id &&
    textFilter options.ruleLanguage rule.ruleLanguage && textFilter options.category rule.category

abbrev Resolved (V : Type) := OrderedDict RuleId (ResolvedRule V)

variable {V : Type} (db : Database V) (tenantId : TenantId) (options : Options)

def isDirect (rule : DetectionRule) : Bool :=
  (rule.tenantId = some tenantId ∨
    if options.includeBuiltin then rule.tenantId = none ∧ rule.isBuiltin = true
    else rule.tenantId = some tenantId) ∧ options.admits rule

def directRows : List DetectionRule := db.rules.filter (isDirect tenantId options)

def directRule (r : DetectionRule) : ResolvedRule V where
  id := r.id
  name := r.name
  ruleLanguage := r.ruleLanguage
  ruleBody := r.ruleBody
  severity := r.severity
  category := r.category
  status := r.status
  isBuiltin := r.isBuiltin
  source := if r.tenantId = none ∧ r.isBuiltin then "builtin" else "tenant"
  packIds := []
  parameterOverrides := .empty
  severityOverridden := false
  originalSeverity := some r.severity
  overrideNote := none

def addDirect (resolved : Resolved V) (r : DetectionRule) : Resolved V :=
  resolved.set r.id (directRule r)

def assignmentRows : List (RulePackAssignment V) :=
  db.assignments.filter fun a => a.childTenantId = tenantId ∧ a.enabled

def packIdToOverrides : OrderedDict PackId (Params V) :=
  .ofList ((assignmentRows db tenantId).map fun a => (a.packId, a.parameterOverrides))

/-- A pack rule, joined with its rule. -/
def joinRule (pr : RulePackRule) : List (PackId × DetectionRule) :=
  (db.rules.filter fun r => r.id = pr.ruleId ∧ options.admits r).map (pr.packId, ·)

/-- The pack rules of the assigned packs with their rules. -/
def packRows : List (PackId × DetectionRule) :=
  (db.packRules.filter fun pr => pr.packId ∈ (packIdToOverrides db tenantId).keys).flatMap
    (joinRule db options)

def packRule (packId : PackId) (overrides : Params V) (rule : DetectionRule) : ResolvedRule V where
  id := rule.id
  name := rule.name
  ruleLanguage := rule.ruleLanguage
  ruleBody := rule.ruleBody
  severity := rule.severity
  category := rule.category
  status := rule.status
  isBuiltin := rule.isBuiltin
  source := "pack"
  packIds := [packId]
  parameterOverrides := overrides
  severityOverridden := false
  originalSeverity := some rule.severity
  overrideNote := none

/-- Overrides go on top if there are any. -/
def mergeParams (params overrides : Params V) : Params V :=
  if overrides.entries.isEmpty then params else params.update overrides

def coverBy (packId : PackId) (overrides : Params V) (rr : ResolvedRule V) : ResolvedRule V :=
  { rr with packIds := rr.packIds ++ [packId],
            parameterOverrides := mergeParams rr.parameterOverrides overrides }

/-- The slot of a rule after one more pack. -/
def coverSlot (overridesOf : PackId → Params V) (slot : Option (ResolvedRule V))
    (row : PackId × DetectionRule) : ResolvedRule V :=
  match slot with
  | some rr => coverBy row.1 (overridesOf row.1) rr
  | none => packRule row.1 (overridesOf row.1) row.2

def addPackRow (overridesOf : PackId → Params V) (resolved : Resolved V)
    (row : PackId × DetectionRule) : Resolved V :=
  resolved.set row.2.id (coverSlot overridesOf (resolved.get row.2.id) row)

def overridesOf (packId : PackId) : Params V :=
  ((packIdToOverrides db tenantId).get packId).getD .empty

def withDirect : Resolved V := (directRows db tenantId options).foldl addDirect .empty

def withPacks : Resolved V :=
  if options.includePacks ∧ assignmentRows db tenantId ≠ [] then
    (packRows db tenantId options).foldl (addPackRow (overridesOf db tenantId))
      (withDirect db tenantId options)
  else withDirect db tenantId options

def overrideRows (ruleIds : List RuleId) : List (RuleOverride V) :=
  db.overrides.filter fun o => o.childTenantId = tenantId ∧ o.ruleId ∈ ruleIds

/-- A text replaces another one if it is there and not empty. -/
def orKeep (text : Option String) : Option String := text.filter (· ≠ "")

def customize (ov : RuleOverride V) (rr : ResolvedRule V) : ResolvedRule V :=
  { rr with
    severityOverridden := rr.severityOverridden || (orKeep ov.severityOverride).isSome
    severity := (orKeep ov.severityOverride).getD rr.severity
    parameterOverrides := mergeParams rr.parameterOverrides ov.parameterOverrides
    overrideNote := (orKeep ov.note).or rr.overrideNote }

def applyOverride (resolved : Resolved V) (ov : RuleOverride V) : Resolved V :=
  match resolved.get ov.ruleId with
  | none => resolved
  | some rr =>
    if ov.action = "exclude" then resolved.erase ov.ruleId
    else resolved.set ov.ruleId (customize ov rr)

def resolveEffectiveRules : List (ResolvedRule V) :=
  let resolved := withPacks db tenantId options
  if resolved.entries.isEmpty then []
  else ((overrideRows db tenantId resolved.keys).foldl applyOverride resolved).values

end RuleResolver
