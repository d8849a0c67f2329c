import Mathlib.Data.Prod.Lex
import AiSOC.CodeText
import AiSOC.OrderedDict
import AiSOC.Pagination

/-! # The investigation queue

The alerts an analyst should work on, in pages: those assigned to the analyst before the
unassigned ones, by the time at which they are due, by severity. Times are in microseconds. -/
namespace AlertQueue

open CodeText Pagination

abbrev AlertId := ℕ
abbrev TenantId := ℕ
abbrev UserId := ℕ

/-- What a recommendation comes to: a text, a record with its priority if there is one (and the
integer it stands for, if any), or neither. -/
inductive Recommendation where
  | text (s : Text)
  | record (action : Text) (priority : Option (Option ℤ)) (risk : Text)
  | other

/-- An entry of the entity columns that is no string is `none`. -/
structure Alert where
  id : AlertId
  tenantId : TenantId
  title : String
  severity : String
  status : String
  priority : ℤ
  category : Option String
  connectorType : Option String
  assignedTo : Option UserId
  caseId : Option ℕ
  firstSeen : ℤ
  snoozedUntil : Option ℤ
  affectedHosts : List (Option Text)
  affectedUsers : List (Option Text)
  affectedAssets : List (Option Text)
  affectedIps : List (Option Text)
  aiRecommendations : List Recommendation

structure TenantSlaConfig where
  tenantId : TenantId
  severity : String
  mttdTarget : ℤ

structure Database where
  alerts : List Alert
  slaConfigs : List TenantSlaConfig
  ids_nodup : (alerts.map Alert.id).Nodup

def queueUnassignedSeverities : List String := ["critical", "high"]

def queueClosedStatuses : List String := ["resolved", "closed", "false_positive", "fp"]

def queueMaxPageSize : ℤ := 200

inductive Owner where
  | me | unassigned | all
  deriving DecidableEq, Repr

inductive Period where
  | hours24 | days7 | days30 | all
  deriving DecidableEq, Repr

def minutes (n : ℤ) : ℤ := n * 60 * 1000000

def Period.toTimedelta : Period → Option ℤ
  | .hours24 => some (minutes (24 * 60))
  | .days7 => some (minutes (7 * 24 * 60))
  | .days30 => some (minutes (30 * 24 * 60))
  | .all => none

/-- Minutes until an alert should have been acknowledged. -/
def defaultSlaTargets : OrderedDict String ℤ :=
  .ofList [("critical", 15), ("high", 30), ("medium", 60), ("low", 120), ("info", 480)]

def loadSlaTargets (db : Database) (tenantId : TenantId) : OrderedDict String ℤ :=
  (db.slaConfigs.filter fun cfg => cfg.tenantId = tenantId).foldl
    (fun targets cfg =>
      if cfg.severity ∈ targets.keys then targets.set cfg.severity cfg.mttdTarget else targets)
    defaultSlaTargets

/-- An unknown severity is due as late as the lowest. -/
def slaDueAt (targets : OrderedDict String ℤ) (alert : Alert) : ℤ :=
  alert.firstSeen + minutes ((targets.get alert.severity).getD 480)

structure QueueAsset where
  kind : String
  value : Text
  deriving DecidableEq

def nonBlank (entries : List (Option Text)) : List Text :=
  (entries.filterMap id).filter fun s => strip s ≠ []

def assetOf (kind : String) (entries : List (Option Text)) : Option QueueAsset :=
  (nonBlank entries).head?.map fun s => ⟨kind, strip s⟩

def firstAsset (alert : Alert) : Option QueueAsset :=
  assetOf "host" alert.affectedHosts <|> assetOf "user" alert.affectedUsers <|>
    assetOf "asset" alert.affectedAssets <|> assetOf "ip" alert.affectedIps

structure QueueAction where
  priority : ℤ
  action : Text
  risk : Text
  deriving DecidableEq

def lower (s : Text) : Text := s.map fun c => if between 'A' 'Z' c then c + 0x20 else c

def riskOf (risk : Text) : Text :=
  if lower risk ∈ [text "low", text "medium", text "high"] then lower risk else text "low"

/-- A recommendation without an action is none; `idx` counts from zero. -/
def candidate (idx : ℕ) : Recommendation → Option QueueAction
  | .text s => if strip s = [] then none else some ⟨idx + 1, strip s, text "low"⟩
  | .record action priority risk =>
    if strip action = [] then none
    else some ⟨match priority with
        | none => max 1 (idx + 1)
        | some (some n) => max 1 n
        | some none => idx + 1,
      strip action, riskOf (if risk = [] then text "low" else risk)⟩
  | .other => none

/-- The candidate of the lowest priority, the first one of several. -/
def firstAction (alert : Alert) : Option QueueAction :=
  ((alert.aiRecommendations.zipIdx.filterMap fun r => candidate r.2 r.1).mergeSort
    fun a b => a.priority ≤ b.priority).head?

section

variable (db : Database) (tenantId : TenantId) (userId : UserId) (period : Period) (now : ℤ)

def baseFilters (alert : Alert) : Bool :=
  alert.tenantId = tenantId && !queueClosedStatuses.contains alert.status &&
    (match alert.snoozedUntil with
      | none => true
      | some snoozedUntil => snoozedUntil ≤ now) &&
    match period.toTimedelta with
      | none => true
      | some delta => now - delta ≤ alert.firstSeen

def mineFilter (alert : Alert) : Bool :=
  baseFilters tenantId period now alert && alert.assignedTo = some userId

def unassignedFilter (alert : Alert) : Bool :=
  baseFilters tenantId period now alert && alert.assignedTo = none &&
    queueUnassignedSeverities.contains alert.severity

def whereClause (owner : Owner) (alert : Alert) : Bool :=
  match owner with
  | .me => mineFilter tenantId userId period now alert
  | .unassigned => unassignedFilter tenantId period now alert
  | .all => mineFilter tenantId userId period now alert ||
      unassignedFilter tenantId period now alert

/-- The alerts of the queue, on all its pages. -/
def matching (owner : Owner) : List Alert :=
  db.alerts.filter (whereClause tenantId userId period now owner)

def bucket (alert : Alert) : ℕ := if alert.assignedTo = some userId then 0 else 1

def severityRank (alert : Alert) : ℕ :=
  if alert.severity = "critical" then 0
  else if alert.severity = "high" then 1
  else if alert.severity = "medium" then 2
  else if alert.severity = "low" then 3
  else 4

/-- What the query orders by. -/
def orderKey (alert : Alert) : ℕ ×ₗ ℤ ×ₗ ℕ :=
  toLex (bucket userId alert, toLex (slaDueAt (loadSlaTargets db tenantId) alert,
    severityRank alert))

end

structure QueueItem where
  id : AlertId
  tenantId : TenantId
  title : String
  severity : String
  status : String
  priority : ℤ
  category : Option String
  connectorType : Option String
  assignedTo : Option UserId
  caseId : Option ℕ
  firstSeen : ℤ
  slaDueAt : ℤ
  slaRemainingSeconds : ℤ
  slaBreached : Bool
  ageSeconds : ℤ
  asset : Option QueueAsset
  suggestedAction : Option QueueAction
  bucket : String

structure Counts where
  mine : ℕ
  unassigned : ℕ
  all : ℕ
  deriving DecidableEq

structure QueueResponse where
  items : List QueueItem
  total : ℕ
  counts : Counts
  period : Period
  owner : Owner
  page : ℤ
  pageSize : ℤ
  pages : ℕ
  generatedAt : ℤ

/-- Seconds, towards zero. -/
def totalSeconds (microseconds : ℤ) : ℤ := microseconds.tdiv 1000000

def queueItem (targets : OrderedDict String ℤ) (userId : UserId) (now : ℤ) (alert : Alert) :
    QueueItem :=
  let due := slaDueAt targets alert
  let remaining := totalSeconds (due - now)
  { id := alert.id
    tenantId := alert.tenantId
    title := alert.title
    severity := alert.severity
    status := alert.status
    priority := alert.priority
    category := alert.category
    connectorType := alert.connectorType
    assignedTo := alert.assignedTo
    caseId := alert.caseId
    firstSeen := alert.firstSeen
    slaDueAt := due
    slaRemainingSeconds := remaining
    slaBreached := remaining < 0
    ageSeconds := max 0 (totalSeconds (now - alert.firstSeen))
    asset := firstAsset alert
    suggestedAction := firstAction alert
    bucket := if bucket userId alert = 0 then "mine" else "unassigned" }

def clampPageSize (pageSize : ℤ) : ℤ := max 1 (min pageSize queueMaxPageSize)

/-- One page. `answer` is the order in which the database goes through the rows that match. -/
def buildQueue (db : Database) (tenantId : TenantId) (userId : UserId) (owner : Owner)
    (period : Period) (page pageSize now : ℤ) (answer : List Alert) : QueueResponse :=
  let pageSize := clampPageSize pageSize
  let page := max 1 page
  let targets := loadSlaTargets db tenantId
  let mineCount := db.alerts.countP (mineFilter tenantId userId period now)
  let unassignedCount := db.alerts.countP (unassignedFilter tenantId period now)
  let total := match owner with
    | .me => mineCount
    | .unassigned => unassignedCount
    | .all => mineCount + unassignedCount
  let offset := (page - 1) * pageSize
  let rows := (answer.drop offset.toNat).take pageSize.toNat
  { items := rows.map (queueItem targets userId now)
    total := total
    counts := ⟨mineCount, unassignedCount, mineCount + unassignedCount⟩
    period := period
    owner := owner
    page := page
    pageSize := pageSize
    pages := if total = 0 then 0 else (total + pageSize.toNat - 1) / pageSize.toNat
    generatedAt := now }

variable (db : Database) (tenantId : TenantId) (userId : UserId) (owner : Owner) (period : Period)
  (pageSize now : ℤ)

def pageCount : ℕ := (buildQueue db tenantId userId owner period 1 pageSize now []).pages

/-- What all pages list, each out of the answer to its own query. -/
def listedIds (answers : ℕ → List Alert) : List AlertId :=
  (List.range' 1 (pageCount db tenantId userId owner period pageSize now)).flatMap
    fun (p : ℕ) =>
      (buildQueue db tenantId userId owner period p pageSize now (answers p)).items.map QueueItem.id

def rowsPerPage : ℕ := (clampPageSize pageSize).toNat

theorem rowsPerPage_pos : 0 < rowsPerPage pageSize := by
  unfold rowsPerPage clampPageSize
  omega

/-- An alert is not both assigned to the user and unassigned. -/
theorem countP_or {α : Type*} {p q : α → Bool} (h : ∀ a, p a = true → q a = false) (xs : List α) :
    xs.countP (fun a => p a || q a) = xs.countP p + xs.countP q := by
  induction xs with
  | nil => rfl
  | cons x xs ih =>
    rw [List.countP_cons, List.countP_cons, List.countP_cons, ih]
    rcases hp : p x with _ | _
    · simp only [Bool.false_or, Bool.false_eq_true, if_false]
      omega
    · simp only [Bool.true_or, h x hp, if_true, Bool.false_eq_true, if_false]
      omega

theorem total_eq (page : ℤ) (answer : List Alert) :
    (buildQueue db tenantId userId owner period page pageSize now answer).total =
      (matching db tenantId userId period now owner).length := by
  unfold matching
  rw [← List.countP_eq_length_filter]
  cases owner with
  | me => rfl
  | unassigned => rfl
  | all =>
    refine (countP_or ?_ db.alerts).symm
    intro alert hmine
    simp only [mineFilter, Bool.and_eq_true, decide_eq_true_eq] at hmine
    simp [unassignedFilter, hmine.2]

theorem matching_le_pages : (matching db tenantId userId period now owner).length ≤
    pageCount db tenantId userId owner period pageSize now * rowsPerPage pageSize := by
  have hpages : pageCount db tenantId userId owner period pageSize now =
      if (matching db tenantId userId period now owner).length = 0 then 0 else
        ((matching db tenantId userId period now owner).length + rowsPerPage pageSize - 1) /
          rowsPerPage pageSize := by
    rw [← total_eq db tenantId userId owner period pageSize now 1 []]
    rfl
  have hpos := rowsPerPage_pos pageSize
  rw [hpages]
  split_ifs with hempty
  · omega
  · have hdiv := Nat.div_add_mod
      ((matching db tenantId userId period now owner).length + rowsPerPage pageSize - 1)
      (rowsPerPage pageSize)
    have hmod := Nat.mod_lt
      ((matching db tenantId userId period now owner).length + rowsPerPage pageSize - 1) hpos
    rw [Nat.mul_comm]
    omega

theorem buildQueue_ids {p : ℕ} (hp : 1 ≤ p) (answer : List Alert) :
    (buildQueue db tenantId userId owner period p pageSize now answer).items.map QueueItem.id =
      (page (rowsPerPage pageSize) p answer).map Alert.id := by
  have hoffset : ((max 1 (p : ℤ) - 1) * clampPageSize pageSize).toNat =
      (p - 1) * rowsPerPage pageSize := by
    have hsize : clampPageSize pageSize = rowsPerPage pageSize := by
      unfold rowsPerPage clampPageSize
      omega
    have hpage : max 1 (p : ℤ) - 1 = (p - 1 : ℕ) := by omega
    rw [hpage, hsize, ← Int.natCast_mul, Int.toNat_natCast]
  simp only [buildQueue, hoffset, List.map_map]
  rfl

theorem listedIds_eq (answers : ℕ → List Alert) :
    listedIds db tenantId userId owner period pageSize now answers =
      (firstPages (rowsPerPage pageSize)
        (pageCount db tenantId userId owner period pageSize now) answers).map Alert.id := by
  unfold listedIds firstPages
  rw [List.map_flatMap]
  apply List.flatMap_congr
  intro p hp
  exact buildQueue_ids db tenantId userId owner period pageSize now (List.mem_range'_1.mp hp).1 _

/-- Alerts of the database are the same if their ids are. -/
theorem perm_of_ids {xs ys : List Alert} (hxs : xs ⊆ db.alerts) (hys : ys ⊆ db.alerts)
    (h : (xs.map Alert.id).Perm (ys.map Alert.id)) : xs.Perm ys := by
  have hfind (zs : List Alert) (hzs : zs ⊆ db.alerts) :
      (zs.map Alert.id).filterMap (fun i => db.alerts.find? fun a => a.id = i) = zs := by
    rw [List.filterMap_map]
    refine (List.filterMap_congr ?_).trans List.filterMap_some
    intro x hx
    exact (OrderedDict.find?_key db.ids_nodup).mpr ⟨hzs hx, rfl⟩
  have hperm := h.filterMap fun i => db.alerts.find? fun a => a.id = i
  rwa [hfind xs hxs, hfind ys hys] at hperm

/-- The pages list every matching alert once, whatever order the database gives tied rows in, if
and only if no page ends inside a tie. -/
theorem pages_exact_iff :
    (∀ answers : ℕ → List Alert,
      (∀ p, Answer (orderKey db tenantId userId)
        (matching db tenantId userId period now owner) (answers p)) →
      (listedIds db tenantId userId owner period pageSize now answers).Perm
        ((matching db tenantId userId period now owner).map Alert.id)) ↔
    ∀ alert ∈ matching db tenantId userId period now owner, ∀ q,
      ¬ Straddles (orderKey db tenantId userId) (matching db tenantId userId period now owner)
        (q * rowsPerPage pageSize) alert := by
  have hnodup : (matching db tenantId userId period now owner).Nodup :=
    (List.Nodup.of_map _ db.ids_nodup).filter _
  have hmatching : matching db tenantId userId period now owner ⊆ db.alerts :=
    List.filter_subset_self _
  rw [← exact_iff hnodup (rowsPerPage_pos pageSize)
    (matching_le_pages db tenantId userId owner period pageSize now)]
  apply forall_congr'
  intro answers
  apply forall_congr'
  intro hanswers
  rw [listedIds_eq]
  constructor
  · intro hids
    refine perm_of_ids db ?_ hmatching hids
    intro alert halert
    obtain ⟨p, -, hpage⟩ := List.mem_flatMap.mp halert
    exact hmatching ((hanswers p).perm.subset
      (List.drop_subset _ _ (List.take_subset _ _ hpage)))
  · exact List.Perm.map Alert.id

/-- An unassigned alert, seen first at the same time as all others. -/
def criticalAlert (id : AlertId) : Alert where
  id := id
  tenantId := 1
  title := "Ransomware"
  severity := "critical"
  status := "new"
  priority := 50
  category := none
  connectorType := none
  assignedTo := none
  caseId := none
  firstSeen := 0
  snoozedUntil := none
  affectedHosts := []
  affectedUsers := []
  affectedAssets := []
  affectedIps := []
  aiRecommendations := []

def threeAlerts : Database where
  alerts := [criticalAlert 1, criticalAlert 2, criticalAlert 3]
  slaConfigs := []
  ids_nodup := by decide

/-- The second page begins with the alert that the first one ends with. -/
def twoOrders (p : ℕ) : List Alert :=
  if p = 1 then [criticalAlert 1, criticalAlert 2, criticalAlert 3]
  else [criticalAlert 1, criticalAlert 3, criticalAlert 2]

theorem twoOrders_answer (p : ℕ) : Answer (orderKey threeAlerts 1 7)
    (matching threeAlerts 1 7 .all 0 .all) (twoOrders p) := by
  have hmatching : matching threeAlerts 1 7 .all 0 .all = threeAlerts.alerts := rfl
  have htied (xs : List Alert) (h : ∀ a ∈ xs, ∃ i, a = criticalAlert i) :
      xs.Pairwise fun a b => orderKey threeAlerts 1 7 a ≤ orderKey threeAlerts 1 7 b := by
    refine List.pairwise_of_forall_mem_list ?_
    intro a ha b hb
    obtain ⟨i, rfl⟩ := h a ha
    obtain ⟨j, rfl⟩ := h b hb
    exact le_rfl
  rw [hmatching]
  unfold twoOrders
  split_ifs
  · exact ⟨.refl _, htied _ (by simp)⟩
  · exact ⟨.cons _ (.swap _ _ _), htied _ (by simp)⟩

/-- One alert is listed twice, another one is not listed. -/
theorem second_alert_twice : ¬ ∀ answers : ℕ → List Alert,
    (∀ p, Answer (orderKey threeAlerts 1 7) (matching threeAlerts 1 7 .all 0 .all)
      (answers p)) →
    (listedIds threeAlerts 1 7 .all .all 2 0 answers).Perm
      ((matching threeAlerts 1 7 .all 0 .all).map Alert.id) := by
  intro hall
  have hperm := hall twoOrders twoOrders_answer
  have hlisted : listedIds threeAlerts 1 7 .all .all 2 0 twoOrders = [1, 2, 2] := rfl
  have hids : (matching threeAlerts 1 7 .all 0 .all).map Alert.id = [1, 2, 3] := rfl
  rw [hlisted, hids] at hperm
  revert hperm
  decide

end AlertQueue
