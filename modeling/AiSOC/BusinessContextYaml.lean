import AiSOC.BusinessContext

/-! # Business-context rules as YAML

The document of an analyst is parsed into rules, and the rules of a tenant are written as a
document again when one of them is put or deleted. The YAML library is a parameter. -/
namespace BusinessContextYaml

open CodeText PythonValue BusinessContext

/-- A rule that is not well-formed, or an error that the parser does not catch. -/
inductive Failure where
  | ruleParse (message : Text)
  | raised (error : PyError)
  deriving DecidableEq

abbrev Parse := Except Failure

inductive LoadError where
  | yaml (message : Text)
  | other (error : PyError)

/-- The YAML library, and what the interpreter makes of values. -/
structure Library (Ω : Type) extends Objects Ω where
  safeLoad : Text → Except LoadError (Value Ω)
  /-- In the order of the keys. -/
  safeDump : Value Ω → Outcome Text
  repr : Value Ω → Outcome Text
  sorted : List (Value Ω) → Outcome (List (Value Ω))
  typeName : Ω → Text
  isBytes : Ω → Bool
  /-- The object can be looked up in a set. -/
  hashable : Ω → Bool

/-- An integer, which a truth value is as well. -/
inductive Priority where
  | int (n : ℤ)
  | bool (b : Bool)
  deriving DecidableEq

structure SourcedRule (Ω : Type) where
  id : RuleId
  description : Text
  when : RuleCondition Ω
  thenAction : RuleAction
  enabled : Bool
  priority : Priority
  rawYaml : Text

variable {Ω : Type}

def Priority.toInt : Priority → ℤ
  | .int n => n
  | .bool b => if b then 1 else 0

def Priority.toValue : Priority → Value Ω
  | .int n => .int n
  | .bool b => .bool b

/-- The rule of the engine, which does not read the source. -/
def SourcedRule.rule (r : SourcedRule Ω) : BusinessContextRule Ω where
  id := r.id
  description := r.description
  when := r.when
  thenAction := r.thenAction
  enabled := r.enabled
  priority := r.priority.toInt

def SourcedRule.from (source : Text) (r : SourcedRule Ω) : SourcedRule Ω :=
  { r with rawYaml := source }

def opName : Op → Text
  | .eq => text "eq"
  | .ne => text "ne"
  | .lt => text "lt"
  | .lte => text "lte"
  | .gt => text "gt"
  | .gte => text "gte"
  | .contains => text "contains"
  | .startswith => text "startswith"
  | .endswith => text "endswith"
  | .in => text "in"
  | .not_in => text "not_in"
  | .exists => text "exists"
  | .not_exists => text "not_exists"

/-- By name. -/
def allowedOps : List Op :=
  [.contains, .endswith, .eq, .exists, .gt, .gte, .in, .lt, .lte, .ne, .not_exists, .not_in,
    .startswith]

def opOf (name : Text) : Option Op := allowedOps.find? fun op => opName op = name

def isUnary (op : Op) : Bool := op = .exists ∨ op = .not_exists
def isMembership (op : Op) : Bool := op = .in ∨ op = .not_in

def allowedSeverities : List Text :=
  [text "info", text "low", text "medium", text "high", text "critical"]

/-- By name. -/
def allowedRoutes : List Text :=
  [text "appsec", text "cloud", text "ic", text "identity", text "soc-emea", text "soc-night",
    text "tier1", text "tier2", text "tier3"]

def isAlnum (c : CodePoint) : Bool := between 'a' 'z' c || between '0' '9' c

/-- Between `^` and `$`, which a newline may follow: a letter or digit, and so many others. -/
def isSlug (others : CodePoint → Bool) (least : ℕ) (t : Text) : Bool :=
  match if t.getLast? = some (cp '\n') then t.dropLast else t with
  | [] => false
  | c :: cs => isAlnum c && cs.all others && decide (least ≤ cs.length ∧ cs.length ≤ 62)

def isRuleId : Text → Bool := isSlug (fun c => isAlnum c || c = cp '-') 2
def isTag : Text → Bool := isSlug (fun c => isAlnum c || c = cp '_' || c = cp '-') 0

/-- The entry of a key, or nothing. -/
def entry (d : Dict Ω) (key : Text) : Value Ω := (Dict.get d key).getD .none

def fail {α : Type} (message : Text) : Parse α := .error (.ruleParse message)

def raising {α : Type} (outcome : Outcome α) : Parse α := outcome.mapError .raised

variable (lib : Library Ω)

def typeName : Value Ω → Text
  | .none => text "NoneType"
  | .bool _ => text "bool"
  | .int _ => text "int"
  | .float _ => text "float"
  | .str _ => text "str"
  | .list _ => text "list"
  | .tuple _ => text "tuple"
  | .dict _ => text "dict"
  | .object o => lib.typeName o

mutual

def hashable : Value Ω → Bool
  | .list _ => false
  | .dict _ => false
  | .tuple items => allHashable items
  | .object o => lib.hashable o
  | _ => true

def allHashable : List (Value Ω) → Bool
  | [] => true
  | item :: items => hashable item && allHashable items

end

/-! ## Conditions -/

/-- A value without a hash cannot be looked up among the operators. -/
@[grind =]
def knownOp : Value Ω → Parse (Option Op)
  | .str name => .ok (opOf name)
  | op => if hashable lib op then .ok Option.none else .error (.raised .typeError)

def parseOp (path : Text) (op : Value Ω) : Parse Op := do
  match ← knownOp lib op with
  | some op => return op
  | Option.none =>
    let shown ← raising (lib.repr op)
    let allowed ← raising (lib.repr (.list (allowedOps.map fun op => .str (opName op))))
    fail (path ++ text ".op: " ++ shown ++ text " is not one of " ++ allowed)

/-- One text becomes a list. -/
def asSequence : Value Ω → Value Ω
  | .str s => .list [.str s]
  | .object o => if lib.isBytes o then .list [.object o] else .object o
  | value => value

@[grind =]
def parseOperand (path : Text) (op : Op) : Option (Value Ω) → Parse (Value Ω)
  | Option.none => do
    fail (path ++ text ".value: required for op=" ++ (← raising (lib.repr (.str (opName op)))))
  | some value =>
    if isMembership op then
      match asSequence lib value with
      | .list (item :: items) => .ok (.list (item :: items))
      | .tuple (item :: items) => .ok (.list (item :: items))
      | _ => do
        let shown ← raising (lib.repr (.str (opName op)))
        fail (path ++ text ".value: op=" ++ shown ++ text " requires a non-empty list")
    else .ok value

@[grind =]
def parseLeaf (path : Text) (entries : Dict Ω) : Parse (RuleCondition Ω) :=
  match entry entries (text "field"), entry entries (text "op") with
  | .none, _ => incomplete
  | _, .none => incomplete
  | .str (c :: field), op => do
    let op ← parseOp lib path op
    if isUnary op then return .leaf (c :: field) op .none
    else
      let value ← parseOperand lib path op (Dict.get entries (text "value"))
      return .leaf (c :: field) op value
  | _, _ => fail (path ++ text ".field: must be a non-empty string")
where
  incomplete : Parse (RuleCondition Ω) := do
    let keys ← raising (lib.sorted (entries.map Prod.fst))
    let shown ← raising (lib.repr (.list keys))
    fail (path ++ text ": leaf condition must include 'field' and 'op' (got " ++ shown ++ text ")")

inductive Logical where
  | all | any | not
  deriving DecidableEq

def Logical.key : Logical → Text
  | .all => text "all"
  | .any => text "any"
  | .not => text "not"

def Logical.below (path : Text) (logical : Logical) : Text := path ++ text "." ++ logical.key

def Logical.ofChildren (logical : Logical) (children : List (RuleCondition Ω)) :
    RuleCondition Ω :=
  if logical = .all then .all children else .any children

def isDict : Value Ω → Bool
  | .dict _ => true
  | _ => false

mutual

def parseCondition (path : Text) : Value Ω → Parse (RuleCondition Ω)
  | .dict entries =>
    (((parseUnder path .all entries).or (parseUnder path .any entries)).or
      (parseUnder path .not entries)).getD (parseLeaf lib path entries)
  | raw => fail (path ++ text ": expected a mapping, got " ++ typeName lib raw)

/-- What stands under the key, if it is there. -/
def parseUnder (path : Text) (logical : Logical) : Dict Ω → Option (Parse (RuleCondition Ω))
  | [] => Option.none
  | (k, raw) :: entries =>
    if isKey logical.key k then some <|
      if logical = .not then
        if isDict raw then (parseCondition (logical.below path) raw).map .not
        else fail (logical.below path ++ text ": expected a mapping for the negated condition")
      else
        match raw with
        | .list items =>
          if items.isEmpty then
            fail (logical.below path ++ text ": must be a non-empty list of conditions")
          else (parseChildren (logical.below path) 0 items).map logical.ofChildren
        | _ => fail (logical.below path ++ text ": must be a non-empty list of conditions")
    else parseUnder path logical entries

def parseChildren (path : Text) : ℕ → List (Value Ω) → Parse (List (RuleCondition Ω))
  | _, [] => .ok []
  | i, raw :: raws => do
    let child ← parseCondition (path ++ text "[" ++ digits i ++ text "]") raw
    let children ← parseChildren path (i + 1) raws
    return child :: children

end

attribute [grind =] parseCondition parseUnder parseChildren

/-! ## Rules -/

def failRule {α : Type} (id : RuleId) (message : Text) : Parse α := do
  let shown ← raising (lib.repr (.str id))
  fail (text "rule " ++ shown ++ text ": " ++ message)

def mustBeOneOf {α : Type} (id : RuleId) (key : String) (choices : Value Ω) : Parse α := do
  let shown ← raising (lib.repr choices)
  failRule lib id (text "'" ++ text key ++ text "' must be one of " ++ shown)

/-- A text that may be absent. -/
def parseText (accepted : Text → Bool) (complain : Value Ω → Parse (Option Text)) :
    Value Ω → Parse (Option Text)
  | .none => .ok Option.none
  | .str s => if accepted s then .ok (some s) else complain (.str s)
  | value => complain value

def parseFlag (default : Bool) (complain : Value Ω → Parse Bool) : Option (Value Ω) → Parse Bool
  | Option.none => .ok default
  | some (.bool b) => .ok b
  | some value => complain value

def parseSeverity (id : RuleId) (raw : Dict Ω) : Parse (Option Text) :=
  parseText (fun s => s ∈ allowedSeverities)
    (fun _ => mustBeOneOf lib id "set_severity" (.tuple (allowedSeverities.map .str)))
    (entry raw (text "set_severity"))

def parseRoute (id : RuleId) (raw : Dict Ω) : Parse (Option Text) :=
  parseText (fun s => s ∈ allowedRoutes)
    (fun _ => mustBeOneOf lib id "route_to" (.list (allowedRoutes.map .str)))
    (entry raw (text "route_to"))

def parseTag (id : RuleId) (raw : Dict Ω) : Parse (Option Text) :=
  parseText isTag
    (fun tag => do
      let shown ← raising (lib.repr tag)
      failRule lib id (text "'tag' must be a kebab-case slug (got " ++ shown ++ text ")"))
    (entry raw (text "tag"))

def parseSuppress (id : RuleId) (raw : Dict Ω) : Parse Bool :=
  parseFlag false
    (fun value => failRule lib id
      (text "'suppress' must be a boolean (got " ++ typeName lib value ++ text ")"))
    (Dict.get raw (text "suppress"))

@[grind =]
def parseAction (id : RuleId) : Value Ω → Parse RuleAction
  | .dict raw => do
    let setSeverity ← parseSeverity lib id raw
    let routeTo ← parseRoute lib id raw
    let tag ← parseTag lib id raw
    let suppress ← parseSuppress lib id raw
    return { setSeverity, routeTo, tag, suppress }
  | raw => failRule lib id
      (text "'then' must be a mapping (got " ++ typeName lib raw ++ text ")")

def isNoop (action : RuleAction) : Bool :=
  action.setSeverity.isNone && action.routeTo.isNone && action.tag.isNone && !action.suppress

def parseId (raw : Dict Ω) : Parse RuleId :=
  match entry raw (text "id") with
  | .str id => if isRuleId id then .ok id else refuse
  | _ => refuse
where
  refuse : Parse RuleId :=
    fail (text "rule.id must be a kebab-case slug 3-63 chars (e.g. 'prod-iam-critical')")

def parseDescription (id : RuleId) (raw : Dict Ω) : Parse Text := do
  let description := (Dict.get raw (text "description")).getD (.str [])
  if ← raising (truthy lib.toObjects description) then
    match description with
    | .str s => return s
    | _ => failRule lib id (text "'description' must be a string")
  else return []

@[grind =]
def parseWhen (id : RuleId) (raw : Dict Ω) : Parse (RuleCondition Ω) :=
  match entry raw (text "when") with
  | .none => failRule lib id (text "'when' clause is required")
  | clause => parseCondition lib (text "rule[" ++ id ++ text "].when") clause

def parseThenClause (id : RuleId) : Value Ω → Parse RuleAction
  | .none => failRule lib id (text "'then' clause is required")
  | clause => parseAction lib id clause

@[grind =]
def parseThen (id : RuleId) (raw : Dict Ω) : Parse RuleAction := do
  let action ← parseThenClause lib id (entry raw (text "then"))
  if isNoop action then
    failRule lib id (text "'then' clause must set at least one of " ++
      text "set_severity / route_to / tag / suppress")
  else return action

def parseEnabled (id : RuleId) (raw : Dict Ω) : Parse Bool :=
  parseFlag true (fun _ => failRule lib id (text "'enabled' must be a boolean"))
    (Dict.get raw (text "enabled"))

@[grind =]
def parsePriority (id : RuleId) (raw : Dict Ω) : Parse Priority :=
  match Dict.get raw (text "priority") with
  | Option.none => .ok (.int 100)
  | some (.int n) => if 0 ≤ n ∧ n ≤ 1000 then .ok (.int n) else refuse
  | some (.bool b) => .ok (.bool b)
  | some _ => refuse
where
  refuse : Parse Priority := failRule lib id (text "'priority' must be an int in [0, 1000]")

@[grind =]
def parseOneRule (source : Text) : Value Ω → Parse (SourcedRule Ω)
  | .dict raw => do
    let id ← parseId raw
    let description ← parseDescription lib id raw
    let condition ← parseWhen lib id raw
    let thenAction ← parseThen lib id raw
    let enabled ← parseEnabled lib id raw
    let priority ← parsePriority lib id raw
    return { id, description, when := condition, thenAction, enabled, priority,
             rawYaml := source }
  | raw => fail (text "top-level rule must be a mapping, got " ++ typeName lib raw)

/-- The rules after those whose ids have been seen. -/
@[grind =]
def parseRules (source : Text) (seenIds : List RuleId) : List (Value Ω) →
    Parse (List (SourcedRule Ω))
  | [] => .ok []
  | raw :: raws => do
    let rule ← parseOneRule lib source raw
    if rule.id ∈ seenIds then
      let shown ← raising (lib.repr (.str rule.id))
      fail (text "duplicate rule id " ++ shown ++ text " (rule ids must be unique)")
    else
      let rules ← parseRules source (rule.id :: seenIds) raws
      return rule :: rules

/-- A document without content has no rules. -/
def rawRules : Value Ω → Parse (List (Value Ω))
  | .none => .ok []
  | .dict data =>
    match Dict.get data (text "rules") with
    | some (.list raws) => .ok raws
    | some _ => fail (text "'rules' must be a list")
    | Option.none => .ok [.dict data]
  | .list raws => .ok raws
  | data => fail (text "top-level YAML must be a list or mapping, got " ++ typeName lib data)

def load (source : Text) : Parse (Value Ω) :=
  (lib.safeLoad source).mapError fun
    | .yaml message => .ruleParse (text "YAML parse error: " ++ message)
    | .other error => .raised error

def loadRulesFromYaml (source : Text) : Parse (List (SourcedRule Ω)) :=
  let source := strip source
  if source = [] then .ok []
  else do
    let data ← load lib source
    let raws ← rawRules lib data
    parseRules lib source [] raws

/-! ## Writing rules -/

mutual

def conditionToDict : RuleCondition Ω → Value Ω
  | .leaf field op value =>
    .dict ([(.str (text "field"), .str field), (.str (text "op"), .str (opName op))] ++
      if isUnary op then [] else [(.str (text "value"), value)])
  | .all children => .dict [(.str (text "all"), .list (conditionsToDicts children))]
  | .any children => .dict [(.str (text "any"), .list (conditionsToDicts children))]
  | .not child => .dict [(.str (text "not"), conditionToDict child)]

def conditionsToDicts : List (RuleCondition Ω) → List (Value Ω)
  | [] => []
  | c :: cs => conditionToDict c :: conditionsToDicts cs

end

attribute [grind =] conditionToDict conditionsToDicts

def textEntry (key : Text) : Option Text → Dict Ω
  | Option.none => []
  | some s => [(.str key, .str s)]

def actionToDict (action : RuleAction) : Value Ω :=
  .dict (textEntry (text "set_severity") action.setSeverity ++
    textEntry (text "route_to") action.routeTo ++ textEntry (text "tag") action.tag ++
    if action.suppress then [(.str (text "suppress"), .bool true)] else [])

def ruleToDict (r : SourcedRule Ω) : Value Ω :=
  .dict [(.str (text "id"), .str r.id), (.str (text "description"), .str r.description),
    (.str (text "enabled"), .bool r.enabled), (.str (text "priority"), r.priority.toValue),
    (.str (text "when"), conditionToDict r.when), (.str (text "then"), actionToDict r.thenAction)]

def document (rules : List (SourcedRule Ω)) : Value Ω :=
  .dict [(.str (text "rules"), .list (rules.map ruleToDict))]

def serialiseRules (rules : List (SourcedRule Ω)) : Outcome Text :=
  if rules.isEmpty then .ok [] else lib.safeDump (document rules)

/-! ## The rules of the tenants -/

structure StoreEntry where
  yaml : Text
  enabled : Bool
  updatedAt : ℕ

structure State (Ω : Type) where
  store : OrderedDict TenantId StoreEntry
  engine : Engine Ω

inductive Refusal where
  | unprocessable (detail : Text)
  | notFound (detail : Text)
  | raised (failure : Failure)

def loadFor (state : State Ω) (tenantId : TenantId) (now : ℕ) : StoreEntry :=
  (state.store.get tenantId).getD { yaml := [], enabled := true, updatedAt := now }

def storedRules (state : State Ω) (tenantId : TenantId) (now : ℕ) :
    Parse (List (SourcedRule Ω)) :=
  let yaml := (loadFor state tenantId now).yaml
  if yaml = [] then .ok [] else loadRulesFromYaml lib yaml

/-- An invalid body is the client's error. -/
def candidates (yaml : Text) : Except Refusal (List (SourcedRule Ω)) :=
  (loadRulesFromYaml lib yaml).mapError fun
    | .ruleParse message => .unprocessable message
    | .raised error => .raised (.raised error)

/-- The rules by id, the new one in the place of the old one or at the end. -/
def spliced (rules : List (SourcedRule Ω)) (newRule : SourcedRule Ω) : List (SourcedRule Ω) :=
  ((OrderedDict.ofList (rules.map fun r => (r.id, r))).set newRule.id newRule).values

def rulesAfterUpdate (state : State Ω) (tenantId : TenantId) (ruleId : RuleId) (yaml : Text)
    (now : ℕ) : Except Refusal (List (SourcedRule Ω)) := do
  match ← candidates lib yaml with
  | [newRule] =>
    if newRule.id ≠ ruleId then
      let shown ← (raising (lib.repr (.str ruleId))).mapError .raised
      let given ← (raising (lib.repr (.str newRule.id))).mapError .raised
      .error (.unprocessable (text "rule id in URL (" ++ shown ++
        text ") must match rule id in body (" ++ given ++ text ")"))
    else
      let existing ← (storedRules lib state tenantId now).mapError .raised
      return spliced existing newRule
  | _ => .error (.unprocessable (text "PUT body must contain exactly one rule"))

def rulesAfterDelete (state : State Ω) (tenantId : TenantId) (ruleId : RuleId) (now : ℕ) :
    Except Refusal (List (SourcedRule Ω)) := do
  let existing ← (storedRules lib state tenantId now).mapError .raised
  let remaining := existing.filter fun r => r.id ≠ ruleId
  if remaining.length = existing.length then
    let shown ← (raising (lib.repr (.str ruleId))).mapError .raised
    .error (.notFound (text "rule " ++ shown ++ text " not found"))
  else return remaining

/-- Keeps the rules as YAML and puts them into effect. -/
def keepRules (state : State Ω) (tenantId : TenantId) (now : ℕ) (rules : List (SourcedRule Ω)) :
    Except Refusal (State Ω) := do
  let yaml ← (raising (serialiseRules lib rules)).mapError .raised
  let kept : StoreEntry :=
    { yaml := yaml, enabled := (loadFor state tenantId now).enabled, updatedAt := now }
  return { store := state.store.set tenantId kept
           engine := state.engine.replace tenantId (rules.map SourcedRule.rule) Option.none }

def updateRule (state : State Ω) (tenantId : TenantId) (ruleId : RuleId) (yaml : Text)
    (now : ℕ) : Except Refusal (State Ω) := do
  let rules ← rulesAfterUpdate lib state tenantId ruleId yaml now
  keepRules lib state tenantId now rules

def deleteRule (state : State Ω) (tenantId : TenantId) (ruleId : RuleId) (now : ℕ) :
    Except Refusal (State Ω) := do
  let rules ← rulesAfterDelete lib state tenantId ruleId now
  keepRules lib state tenantId now rules

end BusinessContextYaml
