import AiSOC.CodeText

/-! # The playbook models

What the models of playbooks, steps and step conditions make of a JSON value, and the JSON value
that they are dumped to. What was validated once is validated to itself again. -/
namespace PlaybookModel

open CodeText

/-- The values that JSON is read to. Dictionaries are equal if they have the same values for the
same keys; `F` are the floating-point numbers. -/
inductive Value (F : Type) where
  | null
  | bool (b : Bool)
  | int (n : ℤ)
  | float (x : F)
  | str (s : Text)
  | list (items : List (Value F))
  | dict (members : Text → Option (Value F))

variable {F : Type}

abbrev Dict (F : Type) := Text → Option (Value F)

def dictOf (members : List (String × Value F)) : Dict F := fun k =>
  (members.find? fun m => text m.1 = k).map Prod.snd

theorem cp_inj {c d : Char} : cp c = cp d ↔ c = d := by
  rw [cp, cp, Fin.mk.injEq, Char.toNat_inj]

theorem text_inj {s t : String} : text s = text t ↔ s = t := by
  rw [text, text, List.map_inj_right fun _ _ => cp_inj.mp, String.toList_inj]

@[simp] theorem dictOf_nil (k : Text) : dictOf ([] : List (String × Value F)) k = none := rfl

@[simp] theorem dictOf_cons (s t : String) (v : Value F) (members : List (String × Value F)) :
    dictOf ((s, v) :: members) (text t) = if s = t then some v else dictOf members (text t) := by
  by_cases h : s = t
  · simp [dictOf, h]
  · simp [dictOf, text_inj, h]

/-- What the lax mode makes of a value that is not of the type asked for. -/
structure Coercions (F : Type) where
  bool : Value F → Option Bool
  int : Value F → Option ℤ

def asBool (lax : Coercions F) : Value F → Option Bool
  | .bool b => some b
  | v => lax.bool v

def asInt (lax : Coercions F) : Value F → Option ℤ
  | .int n => some n
  | v => lax.int v

def asText : Value F → Option Text
  | .str s => some s
  | _ => none

def asTextOrNone : Value F → Option (Option Text)
  | .null => some none
  | .str s => some (some s)
  | _ => none

def asDict : Value F → Option (Dict F)
  | .dict members => some members
  | _ => none

def ofTextOrNone : Option Text → Value F
  | none => .null
  | some s => .str s

/-- A field that may be left out. -/
def optionalField {α : Type} (members : Dict F) (name : String) (default : α)
    (read : Value F → Option α) : Option α :=
  match members (text name) with
  | none => some default
  | some v => read v

def requiredField {α : Type} (members : Dict F) (name : String) (read : Value F → Option α) :
    Option α := (members (text name)).bind read

/-! ## Enumerations and bounds -/

inductive StepType where
  | enrich | investigate | notify | blockIp | blockIoc | isolateHost | createTicket | closeCase
  | http | condition | osqueryLiveQuery | approval | disableUser | resetPassword | revokeSession
  | forceMfa | killProcess | quarantineFile | runAvScan | runScript | searchSiem
  | createNotableEvent

def StepType.value : StepType → String
  | .enrich => "enrich"
  | .investigate => "investigate"
  | .notify => "notify"
  | .blockIp => "block_ip"
  | .blockIoc => "block_ioc"
  | .isolateHost => "isolate_host"
  | .createTicket => "create_ticket"
  | .closeCase => "close_case"
  | .http => "http"
  | .condition => "condition"
  | .osqueryLiveQuery => "osquery_live_query"
  | .approval => "approval"
  | .disableUser => "disable_user"
  | .resetPassword => "reset_password"
  | .revokeSession => "revoke_session"
  | .forceMfa => "force_mfa"
  | .killProcess => "kill_process"
  | .quarantineFile => "quarantine_file"
  | .runAvScan => "run_av_scan"
  | .runScript => "run_script"
  | .searchSiem => "search_siem"
  | .createNotableEvent => "create_notable_event"

def StepType.all : List StepType :=
  [.enrich, .investigate, .notify, .blockIp, .blockIoc, .isolateHost, .createTicket, .closeCase,
    .http, .condition, .osqueryLiveQuery, .approval, .disableUser, .resetPassword, .revokeSession,
    .forceMfa, .killProcess, .quarantineFile, .runAvScan, .runScript, .searchSiem,
    .createNotableEvent]

inductive Operator where
  | eq | ne | gt | lt | contains | exists

def Operator.value : Operator → String
  | .eq => "eq"
  | .ne => "ne"
  | .gt => "gt"
  | .lt => "lt"
  | .contains => "contains"
  | .exists => "exists"

def Operator.all : List Operator := [.eq, .ne, .gt, .lt, .contains, .exists]

inductive OnFailure where
  | abort | continue | retry

def OnFailure.value : OnFailure → String
  | .abort => "abort"
  | .continue => "continue"
  | .retry => "retry"

def OnFailure.all : List OnFailure := [.abort, .continue, .retry]

/-- The member of an enumeration with a value. -/
def asMember {α : Type} (all : List α) (value : α → String) (v : Value F) : Option α :=
  (asText v).bind fun s => all.find? fun a => text (value a) = s

theorem asStepType_value (t : StepType) :
    asMember StepType.all StepType.value (.str (text t.value) : Value F) = some t := by
  cases t <;> rfl

theorem asOperator_value (o : Operator) :
    asMember Operator.all Operator.value (.str (text o.value) : Value F) = some o := by
  cases o <;> rfl

theorem asOnFailure_value (o : OnFailure) :
    asMember OnFailure.all OnFailure.value (.str (text o.value) : Value F) = some o := by
  cases o <;> rfl

def minTimeoutSeconds : ℤ := 1
def absoluteMaxTimeoutSeconds : ℤ := 3600
def absoluteMaxRetries : ℤ := 25

abbrev Bounded (low high : ℤ) := {n : ℤ // low ≤ n ∧ n ≤ high}

def asBounded (lax : Coercions F) (low high : ℤ) (v : Value F) : Option (Bounded low high) :=
  (asInt lax v).bind fun n => if h : low ≤ n ∧ n ≤ high then some ⟨n, h⟩ else none

theorem asBounded_int {lax : Coercions F} {low high : ℤ} (n : Bounded low high) :
    asBounded lax low high (.int n.1) = some n := by
  simp only [asBounded, asInt, Option.bind_some, dif_pos n.2]

@[simp] theorem asTextOrNone_ofTextOrNone (s : Option Text) :
    asTextOrNone (ofTextOrNone s : Value F) = some s := by
  cases s with
  | none => rfl
  | some s => rfl

/-! ## Steps -/

structure StepCondition (F : Type) where
  field : Text
  operator : Operator
  value : Value F
  expression : Option Text

def StepCondition.validate : Value F → Option (StepCondition F)
  | .dict members => do
    let fieldPath ← optionalField members "field" [] asText
    let operator ← optionalField members "operator" .eq (asMember Operator.all Operator.value)
    let value ← optionalField members "value" .null some
    let expression ← optionalField members "expression" none asTextOrNone
    return ⟨fieldPath, operator, value, expression⟩
  | _ => none

def StepCondition.members (c : StepCondition F) : Dict F :=
  dictOf [("field", .str c.field), ("operator", .str (text c.operator.value)),
    ("value", c.value), ("expression", ofTextOrNone c.expression)]

def StepCondition.dump (c : StepCondition F) : Value F := .dict c.members

/-- A text is short for a condition with that expression. -/
def coerceCondition : Value F → Value F
  | .str s => .dict (dictOf [("expression", .str s)])
  | v => v

def asCondition (v : Value F) : Option (Option (StepCondition F)) :=
  match coerceCondition v with
  | .null => some none
  | v => (StepCondition.validate v).map some

def dumpCondition : Option (StepCondition F) → Value F
  | none => .null
  | some c => c.dump

structure PlaybookStep (F : Type) where
  id : Text
  name : Text
  type : StepType
  params : Dict F
  condition : Option (StepCondition F)
  onFailure : OnFailure
  retryMax : Bounded 0 absoluteMaxRetries
  timeoutSeconds : Bounded minTimeoutSeconds absoluteMaxTimeoutSeconds
  nextTrue : Option Text
  nextFalse : Option Text

/-- `generated` is the id of a step that names none. -/
def PlaybookStep.validate (lax : Coercions F) (generated : Text) :
    Value F → Option (PlaybookStep F)
  | .dict members => do
    let id ← optionalField members "id" generated asText
    let name ← requiredField members "name" asText
    let type ← requiredField members "type" (asMember StepType.all StepType.value)
    let params ← optionalField members "params" (fun _ => none) asDict
    let condition ← optionalField members "condition" none asCondition
    let onFailure ← optionalField members "on_failure" .abort
      (asMember OnFailure.all OnFailure.value)
    let retryMax ← optionalField members "retry_max" ⟨0, by decide⟩ (asBounded lax _ _)
    let timeoutSeconds ← optionalField members "timeout_seconds" ⟨30, by decide⟩ (asBounded lax _ _)
    let nextTrue ← optionalField members "next_true" none asTextOrNone
    let nextFalse ← optionalField members "next_false" none asTextOrNone
    return ⟨id, name, type, params, condition, onFailure, retryMax, timeoutSeconds, nextTrue,
      nextFalse⟩
  | _ => none

def PlaybookStep.members (s : PlaybookStep F) : Dict F :=
  dictOf [("id", .str s.id), ("name", .str s.name), ("type", .str (text s.type.value)),
    ("params", .dict s.params), ("condition", dumpCondition s.condition),
    ("on_failure", .str (text s.onFailure.value)), ("retry_max", .int s.retryMax.1),
    ("timeout_seconds", .int s.timeoutSeconds.1), ("next_true", ofTextOrNone s.nextTrue),
    ("next_false", ofTextOrNone s.nextFalse)]

def PlaybookStep.dump (s : PlaybookStep F) : Value F := .dict s.members

def validateSteps (lax : Coercions F) (generated : ℕ → Text) :
    ℕ → List (Value F) → Option (List (PlaybookStep F))
  | _, [] => some []
  | i, item :: items => do
    let step ← PlaybookStep.validate lax (generated i) item
    let steps ← validateSteps lax generated (i + 1) items
    return step :: steps

theorem StepCondition.validate_dump (c : StepCondition F) :
    StepCondition.validate c.dump = some c := by
  simp only [StepCondition.dump, StepCondition.validate, optionalField, StepCondition.members,
    dictOf_cons, String.reduceEq, if_true, if_false, asText, asOperator_value,
    asTextOrNone_ofTextOrNone, Option.bind_eq_bind, Option.bind_some]
  rfl

theorem asCondition_dumpCondition (c : Option (StepCondition F)) :
    asCondition (dumpCondition c) = some c := by
  cases c with
  | none => rfl
  | some c => exact congrArg (Option.map some) c.validate_dump

/-- A dumped step is validated to itself, and no id is generated for it. -/
theorem PlaybookStep.validate_dump (lax : Coercions F) (generated : Text) (s : PlaybookStep F) :
    PlaybookStep.validate lax generated s.dump = some s := by
  simp only [PlaybookStep.dump, PlaybookStep.validate, optionalField, requiredField,
    PlaybookStep.members, dictOf_cons, String.reduceEq, if_true, if_false, asText, asDict,
    asStepType_value, asOnFailure_value, asCondition_dumpCondition, asBounded_int,
    asTextOrNone_ofTextOrNone, Option.bind_eq_bind, Option.bind_some]
  rfl

theorem validateSteps_dump (lax : Coercions F) (generated : ℕ → Text) (i : ℕ)
    (steps : List (PlaybookStep F)) :
    validateSteps lax generated i (steps.map PlaybookStep.dump) = some steps := by
  induction steps generalizing i with
  | nil => rfl
  | cons step steps ih =>
    rw [List.map_cons, validateSteps, PlaybookStep.validate_dump, ih]
    rfl

/-! ## Playbooks -/

inductive PlaybookField where
  | id | name | description | version | tags | trigger | steps | author | enabled | createdAt
  | updatedAt
  deriving DecidableEq

def PlaybookField.label : PlaybookField → String
  | .id => "id"
  | .name => "name"
  | .description => "description"
  | .version => "version"
  | .tags => "tags"
  | .trigger => "trigger"
  | .steps => "steps"
  | .author => "author"
  | .enabled => "enabled"
  | .createdAt => "created_at"
  | .updatedAt => "updated_at"

def PlaybookField.all : List PlaybookField :=
  [.id, .name, .description, .version, .tags, .trigger, .steps, .author, .enabled, .createdAt,
    .updatedAt]

def PlaybookField.ofName (k : Text) : Option PlaybookField :=
  PlaybookField.all.find? fun f => text f.label = k

/-- The ids that are drawn for a playbook and for steps that name none. -/
structure Generated where
  playbookId : Text
  stepId : ℕ → Text

/-- What a playbook has in its fields, as it is dumped. A copy with changed fields is made without
a check, so this may be anything. -/
abbrev Playbook (F : Type) := PlaybookField → Value F

def PlaybookField.default (generated : Generated) : PlaybookField → Option (Value F)
  | .id => some (.str generated.playbookId)
  | .name => none
  | .description => some (.str [])
  | .version => some (.str (text "1.0.0"))
  | .tags => some (.list [])
  | .trigger => some (.dict fun _ => none)
  | .steps => some (.list [])
  | .author => some (.str (text "AiSOC"))
  | .enabled => some (.bool true)
  | .createdAt => some (.str [])
  | .updatedAt => some (.str [])

/-- What the check of a field makes of a value. -/
def PlaybookField.check (lax : Coercions F) (generated : Generated) :
    PlaybookField → Value F → Option (Value F)
  | .tags, .list items => (items.mapM asText).map fun tags => .list (tags.map .str)
  | .tags, _ => none
  | .trigger, v => (asDict v).map .dict
  | .steps, .list items => (validateSteps lax generated.stepId 0 items).map fun steps =>
      .list (steps.map PlaybookStep.dump)
  | .steps, _ => none
  | .enabled, v => (asBool lax v).map .bool
  | _, v => (asText v).map .str

def PlaybookField.read (lax : Coercions F) (generated : Generated) (members : Dict F)
    (f : PlaybookField) : Option (Value F) :=
  match members (text f.label) with
  | none => f.default generated
  | some v => f.check lax generated v

def Playbook.validate (lax : Coercions F) (generated : Generated) :
    Value F → Option (Playbook F)
  | .dict members =>
    if PlaybookField.all.all fun f => (f.read lax generated members).isSome then
      some fun f => (f.read lax generated members).getD .null
    else none
  | _ => none

def Playbook.dump (pb : Playbook F) : Value F :=
  .dict fun k => (PlaybookField.ofName k).map pb

/-- The key of the store: for a validated playbook its id. -/
def Playbook.key (pb : Playbook F) : Text := (asText (pb .id)).getD []

/-- The value passes the check of the field, and as it is. -/
def Stable (lax : Coercions F) (f : PlaybookField) (v : Value F) : Prop :=
  ∀ generated, f.check lax generated v = some v

variable {lax : Coercions F} {generated : Generated} {members : Dict F} {f : PlaybookField}
  {v w : Value F} {pb : Playbook F}

theorem mapM_asText_str (tags : List Text) :
    (tags.map (Value.str (F := F))).mapM asText = some tags := by
  induction tags with
  | nil => rfl
  | cons tag tags ih =>
    rw [List.map_cons, List.mapM_cons, ih]
    rfl

/-- What a check returns passes it again. -/
theorem stable_of_check (h : f.check lax generated v = some w) : Stable lax f w := by
  cases f with
  | tags =>
    cases v with
    | list items =>
      obtain ⟨tags, -, rfl⟩ := Option.map_eq_some_iff.mp h
      intro generated'
      rw [PlaybookField.check, mapM_asText_str]
      rfl
    | _ => cases h
  | trigger =>
    obtain ⟨members, -, rfl⟩ := Option.map_eq_some_iff.mp h
    exact fun _ => rfl
  | steps =>
    cases v with
    | list items =>
      obtain ⟨steps, -, rfl⟩ := Option.map_eq_some_iff.mp h
      intro generated'
      rw [PlaybookField.check, validateSteps_dump]
      rfl
    | _ => cases h
  | _ =>
    obtain ⟨x, -, rfl⟩ := Option.map_eq_some_iff.mp h
    exact fun _ => rfl

/-- Every default passes the check of its field. -/
theorem stable_of_default (h : f.default generated = some v) : Stable lax f v := by
  cases f with
  | name => cases h
  | _ =>
    cases h
    exact fun _ => rfl

theorem stable_of_read (h : f.read lax generated members = some v) : Stable lax f v := by
  rw [PlaybookField.read] at h
  split at h
  · exact stable_of_default h
  · exact stable_of_check h

theorem PlaybookField.mem_all (f : PlaybookField) : f ∈ PlaybookField.all := by
  cases f <;> decide

theorem PlaybookField.ofName_label (f : PlaybookField) :
    PlaybookField.ofName (text f.label) = some f := by
  cases f <;> simp [PlaybookField.ofName, PlaybookField.all, PlaybookField.label, text_inj]

theorem validate_dict : Playbook.validate lax generated (.dict members) = some pb ↔
    ∀ f, f.read lax generated members = some (pb f) := by
  rw [Playbook.validate]
  constructor
  · intro h f
    split_ifs at h with hall
    obtain ⟨v, hv⟩ := Option.isSome_iff_exists.mp (List.all_eq_true.mp hall f f.mem_all)
    rw [← congrFun (Option.some.inj h) f, hv]
    rfl
  · intro h
    have hall : (PlaybookField.all.all fun f => (f.read lax generated members).isSome) = true := by
      rw [List.all_eq_true]
      intro f _
      rw [h f]
      rfl
    rw [if_pos hall]
    refine congrArg some (funext fun f => ?_)
    rw [h f]
    rfl

/-- A validated playbook has values that pass their checks as they are. -/
theorem stable_of_validate (h : Playbook.validate lax generated v = some pb) (f : PlaybookField) :
    Stable lax f (pb f) := by
  cases v with
  | dict members => exact stable_of_read (validate_dict.mp h f)
  | _ => cases h

/-- A dump is validated field by field. -/
theorem validate_dump {pb' : Playbook F} : Playbook.validate lax generated pb.dump = some pb' ↔
    ∀ f, f.check lax generated (pb f) = some (pb' f) := by
  have hread : ∀ f : PlaybookField, f.read lax generated
      (fun k => (PlaybookField.ofName k).map pb) = f.check lax generated (pb f) := by
    intro f
    rw [PlaybookField.read, PlaybookField.ofName_label]
    rfl
  rw [Playbook.dump, validate_dict]
  exact forall_congr' fun f => by rw [hread]

theorem validate_dump_of_stable (h : ∀ f, Stable lax f (pb f)) (generated : Generated) :
    Playbook.validate lax generated pb.dump = some pb := validate_dump.mpr fun f => h f generated

theorem exists_text_of_stable (h : Stable lax .id v) : ∃ s, v = .str s := by
  obtain ⟨s, -, hs⟩ := Option.map_eq_some_iff.mp (h ⟨[], fun _ => []⟩)
  exact ⟨s, hs.symm⟩

end PlaybookModel
