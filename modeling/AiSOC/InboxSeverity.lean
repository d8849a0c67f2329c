import AiSOC.InboxTemplate

/-! # The severity of an inbox event

A known word gives its number and the canonical name, a missing one the name of an unknown
severity. An unknown word is kept as it came, the field map may bring a number of its own, and
constants win over all of them. -/
namespace InboxSeverity

open ByteText NestedMaps InboxTemplate

def severityId : Bytes := bytes "severity_id"
def severity : Bytes := bytes "severity"

section
variable {A T : Type}

/-- What the event holds under a key. -/
def field (h : Maps A) (key : Bytes) : Option (Any A) := (h (ocsf, key)).value

/-- The number and its canonical name. -/
def Agrees (h : Maps A) (id : ℤ) : Prop :=
  field h severityId = some (.leaf (.int id)) ∧
    field h severity = some (.leaf (.str (canonicalSeverity id)))

variable {lib : Library T} {t : Template A} {request : Request A T} {order : Order t}
  {h : Maps A} {key : Bytes}

/-- After the field map, where the severity is read. -/
def copied (lib : Library T) (t : Template A) (request : Request A T) (order : Order t) : Maps A :=
  order.fieldMap.foldl copyField (seed lib t request)

/-- The raw severity: empty where there is no text. -/
def rawSeverity (lib : Library T) (t : Template A) (request : Request A T) (order : Order t) :
    Bytes :=
  getNestedString (copied lib t request order) (orDefault t.severityField "severity")

/-- What the template makes of a word, in any case and with white space around it. -/
def known (lib : Library T) (t : Template A) (raw : Bytes) : Option ℤ :=
  t.severityMap.get (lib.toLower (trimSpace raw))

/-- Nothing holds the event itself. -/
abbrev Outermost (h : Maps A) : Prop := Unreferenced h ocsf

theorem anyOf_ne_ocsf {root : List Bytes → Root} {path : List Bytes} (hroot : root path ≠ .output)
    (y : InboxTemplate.Tree A) : anyOf root path y ≠ .ref ocsf := by
  intro heq
  cases y with
  | leaf z => cases heq
  | map members => exact hroot (Addr.base.inj (Value.ref.inj heq))

theorem outermost_start (t : Template A) (payload : List (Bytes × InboxTemplate.Tree A)) :
    Outermost (start t payload) := by
  rintro ⟨a, k⟩ ha
  match a with
  | .made _ _ _ => cases ha
  | .base .output => cases ha
  | .base (.event path) =>
    obtain ⟨y, -, hy⟩ := Option.map_eq_some_iff.mp ha
    exact anyOf_ne_ocsf Root.noConfusion y hy
  | .base (.constant key path) =>
    obtain ⟨y, -, hy⟩ := Option.map_eq_some_iff.mp ha
    exact anyOf_ne_ocsf Root.noConfusion y hy

theorem outermost_leaf (hu : Outermost h) (a : Addr Root Bytes) (k : Bytes) (x : Leaf A) :
    Outermost (put h a k (.leaf x)) := by
  apply Unreferenced.put hu
  rintro ⟨⟩

theorem outermost_assign (hu : Outermost h) (key : String) (x : Leaf A) :
    Outermost (assign h key x) :=
  outermost_leaf hu ocsf (bytes key) x

theorem outermost_seed (lib : Library T) (t : Template A) (request : Request A T) :
    Outermost (seed lib t request) := by
  have hclass : Outermost (assignClass t (start t request.payload)) := by
    rw [assignClass]
    apply outermost_assign
    by_cases hpos : 0 < t.classUID
    · rw [if_pos hpos]
      exact outermost_assign (outermost_assign (outermost_assign (outermost_start _ _) _ _) _ _) _ _
    · rw [if_neg hpos]
      exact outermost_assign (outermost_assign (outermost_start _ _) _ _) _ _
  have htime : Outermost (assignTime lib t request (assignClass t (start t request.payload))) :=
    outermost_assign (outermost_assign hclass _ _) _ _
  rw [seed, assignMetadata]
  apply outermost_leaf
  apply outermost_leaf
  apply Unreferenced.make
  apply outermost_leaf
  apply outermost_leaf
  apply outermost_leaf
  exact htime.make

theorem outermost_copyField (hu : Outermost h) (entry : Bytes × Bytes) :
    Outermost (copyField h entry) := by
  rw [copyField]
  cases hv : getNested h entry.1 with
  | none => exact hu
  | some v =>
    apply Unreferenced.setNested hu
    rintro rfl
    have hlookup : lookup h (.ref event) (splitPath entry.1) ≠ some (.ref ocsf) :=
      lookup_unreferenced hu (Or.inr (List.splitOn_ne_nil (byte '.') entry.1))
    rw [getNested] at hv
    split_ifs at hv
    split at hv
    · cases hv
    · exact hlookup hv

theorem outermost_copied (lib : Library T) (t : Template A) (request : Request A T)
    (order : Order t) : Outermost (copied lib t request order) := by
  rw [copied]
  apply foldl_invariant _ (outermost_seed lib t request)
  exact fun h hu entry _ => outermost_copyField hu entry

theorem outermost_stampConstant (hu : Outermost h) (constant : Bytes × InboxTemplate.Tree A) :
    Outermost (stampConstant h constant) :=
  hu.setNested (anyOf_ne_ocsf Root.noConfusion constant.2)

/-! ## The fields of the event -/

theorem field_assign (h : Maps A) (name : String) (x : Leaf A) (key : Bytes) :
    field (assign h name x) key = if key = bytes name then some (.leaf x) else field h key := by
  rw [field, assign, put]
  split_ifs with heq
  · rw [heq, modify_same]
  · rw [modify_other fun hpair => heq (Prod.mk.inj hpair).2, field]

/-- A constant is stamped on the fields that its path begins with. -/
theorem field_stampConstant (hu : Outermost h) {constant : Bytes × InboxTemplate.Tree A}
    (hkey : (splitPath constant.1).head? ≠ some key) :
    field (stampConstant h constant) key = field h key :=
  congrArg Cell.value (setNested_unreferenced hu (Or.inr hkey))

theorem field_constants {constants : List (Bytes × InboxTemplate.Tree A)} (hu : Outermost h)
    (hkey : ∀ c ∈ constants, (splitPath c.1).head? ≠ some key) :
    field (constants.foldl stampConstant h) key = field h key := by
  induction constants generalizing h with
  | nil => rfl
  | cons c cs ih =>
    obtain ⟨hc, hcs⟩ := List.forall_mem_cons.mp hkey
    rw [List.foldl_cons, ih (outermost_stampConstant hu c) hcs, field_stampConstant hu hc]

theorem outermost_assignSeverity (hu : Outermost h) : Outermost (assignSeverity lib t h) := by
  rw [assignSeverity]
  split_ifs
  · split
    · exact outermost_assign (outermost_assign hu _ _) _ _
    · exact outermost_assign (outermost_assign hu _ _) _ _
  · exact outermost_assign (outermost_assign hu _ _) _ _
  · exact hu

/-- Nothing after the severity touches a field other than the message, the two stamps at the end
and what the constants begin with. -/
theorem field_apply (hkey : ∀ c ∈ t.constants.entries, (splitPath c.1).head? ≠ some key)
    (hmessage : key ≠ bytes "message") (htenant : key ≠ bytes "tenant_uid")
    (hconnector : key ≠ bytes "source_connector_id") :
    field (apply lib t request order) key =
      field (assignSeverity lib t (copied lib t request order)) key := by
  have hseverity := @outermost_assignSeverity A T lib t _ (outermost_copied lib t request order)
  have hrest : Outermost (assignRest lib t (copied lib t request order)) := by
    rw [assignRest, assignMessage]
    split_ifs
    · exact outermost_assign hseverity _ _
    · exact hseverity
  have hall : ∀ c ∈ order.constants, (splitPath c.1).head? ≠ some key :=
    fun c hc => hkey c (order.constants_perm.mem_iff.mp hc)
  rw [apply, field_assign, if_neg hconnector, field_assign, if_neg htenant]
  change field (order.constants.foldl stampConstant (assignRest lib t _)) key = _
  rw [← copied, field_constants hrest hall, assignRest, assignMessage]
  split_ifs
  · rw [field_assign, if_neg hmessage]
  · rfl

theorem field_pair (h : Maps A) (id : ℤ) (name : Bytes) :
    let h' := assign (assign h "severity_id" (.int id)) "severity" (.str name)
    field h' severityId = some (.leaf (.int id)) ∧
      field h' severity = some (.leaf (.str name)) := by
  have hne : severityId ≠ bytes "severity" := by decide
  have hid : severityId = bytes "severity_id" := rfl
  have htext : severity = bytes "severity" := rfl
  constructor
  · rw [field_assign, if_neg hne, field_assign, if_pos hid]
  · rw [field_assign, if_pos htext]

/-- A word in the severity map, in any case, ends in an agreeing pair, and so do a number and a
missing severity where the field map brought no number of its own; an unknown word is kept. -/
theorem severity_pair (lib : Library T) (t : Template A) (request : Request A T) (order : Order t)
    (hconstants : ∀ c ∈ t.constants.entries, (splitPath c.1).head? ≠ some severity ∧
      (splitPath c.1).head? ≠ some severityId) :
    let raw := rawSeverity lib t request order
    let out := apply lib t request order
    (∀ id, raw ≠ [] → known lib t raw = some id → Agrees out id) ∧
    (raw = [] → field (copied lib t request order) severityId = none → Agrees out 0) ∧
    (raw ≠ [] → known lib t raw = none → field out severityId = some (.leaf (.int 0)) ∧
      field out severity = some (.leaf (.str raw))) := by
  dsimp only
  have hid : field (apply lib t request order) severityId =
      field (assignSeverity lib t (copied lib t request order)) severityId :=
    field_apply (fun c hc => (hconstants c hc).2) (by decide) (by decide) (by decide)
  have htext : field (apply lib t request order) severity =
      field (assignSeverity lib t (copied lib t request order)) severity :=
    field_apply (fun c hc => (hconstants c hc).1) (by decide) (by decide) (by decide)
  simp only [Agrees, hid, htext]
  rw [assignSeverity, ← rawSeverity, ← known]
  refine ⟨fun id hraw hknown => ?_, fun hraw hnone => ?_, fun hraw hunknown => ?_⟩
  · rw [if_pos hraw, hknown]
    exact field_pair _ id _
  · have hisNone : (copied lib t request order (ocsf, bytes "severity_id")).value.isNone = true :=
      Option.isNone_iff_eq_none.mpr hnone
    rw [if_neg (not_not.mpr hraw), if_pos hisNone]
    exact field_pair _ 0 _
  · rw [if_pos hraw, hunknown]
    exact field_pair _ 0 _

end

theorem not_agrees {A : Type} {h : Maps A} {i : ℤ}
    (hid : field h severityId = some (.leaf (.int i)))
    (hname : field h severity ≠ some (.leaf (.str (canonicalSeverity i)))) :
    ∀ id, ¬Agrees h id := by
  rintro id ⟨hid', hname'⟩
  rw [hid] at hid'
  cases hid'
  exact hname hname'

def alert (members : List (Bytes × InboxTemplate.Tree Unit)) : Request Unit Unit where
  payload := members
  tenantID := bytes "t-1"
  connectorRef := bytes "inbox:abc"
  receivedAt := bytes "2026-05-08T12:30:01Z"
  now := ()
  nowMetadata := ()

def lowerOnly : Library Unit where
  toLower s := s.map fun c => if byte 'A' ≤ c ∧ c ≤ byte 'Z' then c + 32 else c
  parse _ _ := none
  formatUTC _ _ := bytes "2026-05-08T12:30:01Z"

/-- A template with some fields to copy and some constants. -/
def template (fieldMap : OrderedDict Bytes Bytes)
    (constants : OrderedDict Bytes (InboxTemplate.Tree Unit)) : Template Unit where
  vendorName := bytes "Acme"
  productName := bytes "Acme Alerts"
  classUID := 2001
  className := bytes "Security Finding"
  activityID := 1
  fieldMap := fieldMap
  severityMap := ⟨[(bytes "high", 4), (bytes "low", 2)], by decide⟩
  severityField := []
  timeField := []
  messageField := []
  constants := constants

def plain : Template Unit :=
  template OrderedDict.empty ⟨[(bytes "source", .leaf (.str (bytes "acme")))], by decide⟩

def plainOrder : Order plain := ⟨_, _, .refl _, .refl _⟩

theorem high_agrees : Agrees (apply lowerOnly plain
    (alert [(bytes "severity", .leaf (.str (bytes " HIGH ")))]) plainOrder) 4 := by
  have hconstants : ∀ c ∈ plain.constants.entries, (splitPath c.1).head? ≠ some severity ∧
      (splitPath c.1).head? ≠ some severityId := by
    intro c hc
    obtain rfl := List.mem_singleton.mp hc
    decide +kernel
  exact (severity_pair lowerOnly plain _ plainOrder hconstants).1 4 (by decide +kernel)
    (by decide +kernel)

def mapped : Template Unit :=
  template ⟨[(bytes "level", severityId)], by decide⟩ OrderedDict.empty

def stamped : Template Unit :=
  template OrderedDict.empty ⟨[(bytes "severity", .leaf (.str (bytes "Low")))], by decide⟩

/-- An unknown word stands beside the number 0, a mapped number without any name, and a stamped
name beside the number of the word. -/
theorem severity_disagrees :
    (∀ id, ¬Agrees (apply lowerOnly plain
      (alert [(bytes "severity", .leaf (.str (bytes "moderate")))]) plainOrder) id) ∧
    (∀ id, ¬Agrees (apply lowerOnly mapped (alert [(bytes "level", .leaf (.int 4))])
      ⟨_, _, .refl _, .refl _⟩) id) ∧
    ∀ id, ¬Agrees (apply lowerOnly stamped
      (alert [(bytes "severity", .leaf (.str (bytes "high")))]) ⟨_, _, .refl _, .refl _⟩) id := by
  refine ⟨not_agrees (i := 0) ?_ ?_, not_agrees (i := 4) ?_ ?_, not_agrees (i := 4) ?_ ?_⟩
  all_goals decide +kernel

end InboxSeverity
