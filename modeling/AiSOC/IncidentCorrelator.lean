import Mathlib.Data.List.Dedup
import Mathlib.Tactic.SplitIfs
import AiSOC.CodeText
import AiSOC.FusionEngine
import AiSOC.UuidText

/-! # Correlation of alerts into incidents

The calls come one after the other. Redis holds the id of the open incident under a correlation
key, and the incident under its id; both expire. A command may fail, and a `SET` that raises may
have been applied all the same. -/
namespace IncidentCorrelator

open ExpiringStore (Store)
open FusionEngine (UUID RawAlert AlertSeverity)
open UuidText (uuidText)

/-- Without value, as an empty text is. -/
def truthy (field : Option String) : Option String := field.filter (· ≠ "")

def entity (a : RawAlert) : String :=
  ((((truthy a.srcIp).or (truthy a.hostname)).or (truthy a.username)).or (truthy a.domain)).getD
    "unknown"

def tactic (a : RawAlert) : String := a.mitreTactics.head?.getD "unknown"

def correlationKey (a : RawAlert) : String :=
  uuidText a.tenantId ++ ":" ++ entity a ++ ":" ++ tactic a

def severityOrder : AlertSeverity → ℕ
  | .critical => 5
  | .high => 4
  | .medium => 3
  | .low => 2
  | .info => 1

def maxSeverity (a b : AlertSeverity) : AlertSeverity :=
  if severityOrder b ≤ severityOrder a then a else b

structure IncidentSummary where
  id : UUID
  tenantId : UUID
  title : String
  severity : AlertSeverity
  alertCount : ℕ
  alertIds : List String
  srcIps : List String
  hostnames : List String
  usernames : List String
  mitreTactics : List String
  mitreTechniques : List String
  correlationKeys : List String
  firstSeen : ℕ
  lastSeen : ℕ
  deriving DecidableEq

/-- The settings, the ids that `uuid4` draws one after the other, and the order in which the sets
of the n-th incident are read. -/
structure Correlator where
  window : ℕ
  maxAlerts : ℤ
  newId : ℕ → UUID
  newId_injective : Function.Injective newId
  setOrder : ℕ → List String → List String
  setOrder_perm : ∀ n xs, (setOrder n xs).Perm xs.dedup

def indexKey (key : String) : String := "aisoc:fusion:correlation:" ++ key

/-- `drawn` counts the ids, and `members` logs the alerts that were saved under the id of their
incident. -/
structure World where
  index : Store String UUID
  incidents : Store UUID IncidentSummary
  now : ℕ
  drawn : ℕ
  members : List (UUID × RawAlert)

/-- How the commands of a call end: a `SET` that raises may be applied. -/
structure Outcomes where
  getIndexRaises : Bool
  loadRaises : Bool
  save : Option Bool
  setIndex : Option Bool

def createIncident (c : Correlator) (w : World) (a : RawAlert) : IncidentSummary where
  id := c.newId w.drawn
  tenantId := a.tenantId
  title := "Incident: " ++ a.title
  severity := a.severity
  alertCount := 1
  alertIds := [uuidText a.id]
  srcIps := (truthy a.srcIp).toList
  hostnames := (truthy a.hostname).toList
  usernames := (truthy a.username).toList
  mitreTactics := c.setOrder w.drawn a.mitreTactics
  mitreTechniques := c.setOrder w.drawn a.mitreTechniques
  correlationKeys := [correlationKey a]
  firstSeen := a.createdAt
  lastSeen := a.createdAt

def addNew (xs : List String) (x : String) : List String := if x ∈ xs then xs else xs ++ [x]

def addField (xs : List String) (field : Option String) : List String :=
  match truthy field with
  | some x => addNew xs x
  | none => xs

def mergeAlert (now : ℕ) (inc : IncidentSummary) (a : RawAlert) : IncidentSummary where
  id := inc.id
  tenantId := inc.tenantId
  title := inc.title
  severity := maxSeverity inc.severity a.severity
  alertCount := inc.alertCount + 1
  alertIds := inc.alertIds ++ [uuidText a.id]
  srcIps := addField inc.srcIps a.srcIp
  hostnames := addField inc.hostnames a.hostname
  usernames := addField inc.usernames a.username
  mitreTactics := a.mitreTactics.foldl addNew inc.mitreTactics
  mitreTechniques := a.mitreTechniques.foldl addNew inc.mitreTechniques
  correlationKeys := addNew inc.correlationKeys (correlationKey a)
  firstSeen := inc.firstSeen
  lastSeen := now

/-- The server rejects an expiry of zero. -/
def takesEffect (window : ℕ) : Option Bool → Bool
  | none => window ≠ 0
  | some applied => applied ∧ window ≠ 0

def raises (window : ℕ) : Option Bool → Bool
  | none => window = 0
  | some _ => true

/-- The alert becomes a member when the incident is written. -/
def saveIncident (c : Correlator) (w : World) (inc : IncidentSummary) (a : RawAlert)
    (o : Option Bool) : World :=
  if takesEffect c.window o then
    { w with
      incidents := ExpiringStore.setEx w.incidents w.now c.window inc.id inc
      members := w.members ++ [(inc.id, a)] }
  else w

def mapKey (c : Correlator) (w : World) (key : String) (id : UUID) (o : Option Bool) : World :=
  if takesEffect c.window o then
    { w with index := ExpiringStore.setEx w.index w.now c.window (indexKey key) id }
  else w

def openIncident (c : Correlator) (w : World) (a : RawAlert) (o : Outcomes) :
    World × Option (Bool × IncidentSummary) :=
  let inc := createIncident c w a
  let saved := saveIncident c { w with drawn := w.drawn + 1 } inc a o.save
  if raises c.window o.save then (saved, none)
  else (mapKey c saved (correlationKey a) inc.id o.setIndex,
    if raises c.window o.setIndex then none else some (false, inc))

/-- Nothing is returned by a call that raises. -/
def correlate (c : Correlator) (w : World) (a : RawAlert) (o : Outcomes) :
    World × Option (Bool × IncidentSummary) :=
  if o.getIndexRaises then (w, none)
  else
    match ExpiringStore.get w.index w.now (indexKey (correlationKey a)) with
    | none => openIncident c w a o
    | some id =>
      if o.loadRaises then (w, none)
      else
        match ExpiringStore.get w.incidents w.now id with
        | none => openIncident c w a o
        | some inc =>
          if (inc.alertCount : ℤ) < c.maxAlerts then
            let merged := mergeAlert w.now inc a
            (saveIncident c w merged a o.save,
              if raises c.window o.save then none else some (true, merged))
          else openIncident c w a o

inductive Event where
  | correlate (a : RawAlert) (o : Outcomes)
  | advance (d : ℕ)

def next (c : Correlator) (w : World) : Event → World
  | .correlate a o => (correlate c w a o).1
  | .advance d => { w with now := w.now + d }

def empty : World := ⟨fun _ => none, fun _ => none, 0, 0, []⟩

def run (c : Correlator) (es : List Event) : World := es.foldl (next c) empty

def membersOf (w : World) (id : UUID) : List RawAlert :=
  (w.members.filter fun m => m.1 = id).map Prod.snd

/-! ## What holds of an incident and its members -/

/-- No number of alerts lies below one, whatever the setting. -/
structure Sound (maxAlerts : ℤ) (members : List RawAlert) (inc : IncidentSummary) : Prop where
  count : inc.alertCount = inc.alertIds.length
  ids : inc.alertIds = members.map fun a => uuidText a.id
  bound : (inc.alertCount : ℤ) ≤ max 1 maxAlerts
  srcIps : inc.srcIps.Nodup
  hostnames : inc.hostnames.Nodup
  usernames : inc.usernames.Nodup
  mitreTactics : inc.mitreTactics.Nodup
  mitreTechniques : inc.mitreTechniques.Nodup
  severity : ∃ a ∈ members, a.severity = inc.severity
  severity_max : ∀ a ∈ members, severityOrder a.severity ≤ severityOrder inc.severity
  tenant : ∀ a ∈ members, a.tenantId = inc.tenantId
  key : ∀ a ∈ members, inc.correlationKeys = [correlationKey a]

variable {c : Correlator} {w : World} {a b : RawAlert} {o : Outcomes} {inc : IncidentSummary}
  {xs ys : List String} {maxAlerts : ℤ} {members : List RawAlert}

theorem addNew_nodup (h : xs.Nodup) (x : String) : (addNew xs x).Nodup := by
  rw [addNew]
  by_cases hx : x ∈ xs
  · rwa [if_pos hx]
  · rw [if_neg hx, List.nodup_append_comm, List.singleton_append]
    exact h.cons hx

theorem addField_nodup (h : xs.Nodup) (field : Option String) : (addField xs field).Nodup := by
  rw [addField]
  cases truthy field with
  | none => exact h
  | some x => exact addNew_nodup h x

theorem foldl_addNew_nodup (h : xs.Nodup) : (ys.foldl addNew xs).Nodup := by
  induction ys generalizing xs with
  | nil => exact h
  | cons y ys ih => exact ih (addNew_nodup h y)

theorem toList_nodup (field : Option String) : field.toList.Nodup := by
  cases field with
  | none => exact List.nodup_nil
  | some x => exact List.nodup_singleton x

theorem setOrder_nodup (c : Correlator) (n : ℕ) (xs : List String) : (c.setOrder n xs).Nodup :=
  (c.setOrder_perm n xs).nodup_iff.mpr (List.nodup_dedup xs)

/-- The text before the first colon is the tenant. -/
theorem tenantId_of_correlationKey (h : correlationKey a = correlationKey b) :
    a.tenantId = b.tenantId := by
  have hlist := congrArg String.toList h
  have hcolon : ":".toList = [':'] := by decide
  simp only [correlationKey, String.toList_append, hcolon, List.append_assoc,
    List.cons_append] at hlist
  have ha := UuidText.colon_notMem_uuidText a.tenantId
  have hb := UuidText.colon_notMem_uuidText b.tenantId
  have htext := (CodeText.append_cons_inj ha hb hlist).1
  exact UuidText.uuidText_injective (String.toList_inj.mp htext)

theorem indexKey_injective : Function.Injective indexKey := by
  intro k k' h
  exact (String.append_right_inj _).mp h

theorem sound_create : Sound maxAlerts [a] (createIncident c w a) where
  count := rfl
  ids := rfl
  bound := le_max_left 1 maxAlerts
  srcIps := toList_nodup _
  hostnames := toList_nodup _
  usernames := toList_nodup _
  mitreTactics := setOrder_nodup c _ _
  mitreTechniques := setOrder_nodup c _ _
  severity := ⟨a, List.mem_singleton_self a, rfl⟩
  severity_max := by
    intro b hb
    rw [List.mem_singleton.mp hb]
    rfl
  tenant := by
    intro b hb
    rw [List.mem_singleton.mp hb]
    rfl
  key := by
    intro b hb
    rw [List.mem_singleton.mp hb]
    rfl

theorem maxSeverity_spec (x y : AlertSeverity) :
    (maxSeverity x y = x ∨ maxSeverity x y = y) ∧
      severityOrder x ≤ severityOrder (maxSeverity x y) ∧
        severityOrder y ≤ severityOrder (maxSeverity x y) := by
  rw [maxSeverity]
  split_ifs with h
  · exact ⟨Or.inl rfl, Nat.le_refl _, h⟩
  · exact ⟨Or.inr rfl, by omega, Nat.le_refl _⟩

/-- An alert of the same key may be merged while there are fewer than the maximum. -/
theorem Sound.merge (h : Sound maxAlerts members inc) (hcount : (inc.alertCount : ℤ) < maxAlerts)
    (hkey : inc.correlationKeys = [correlationKey a]) (now : ℕ) :
    Sound maxAlerts (members ++ [a]) (mergeAlert now inc a) := by
  obtain ⟨hchoice, hleft, hright⟩ := maxSeverity_spec inc.severity a.severity
  obtain ⟨first, hfirst, hseverity⟩ := h.severity
  have hsame : correlationKey first = correlationKey a := by
    have hkeys := (h.key first hfirst).symm.trans hkey
    exact (List.cons.inj hkeys).1
  have hkeys : (mergeAlert now inc a).correlationKeys = [correlationKey a] := by
    change addNew inc.correlationKeys (correlationKey a) = _
    rw [hkey, addNew, if_pos (List.mem_singleton_self _)]
  constructor
  case count =>
    simp only [mergeAlert, List.length_append, List.length_singleton, h.count]
  case ids => simp only [mergeAlert, h.ids, List.map_append, List.map_singleton]
  case bound =>
    simp only [mergeAlert, Nat.cast_add, Nat.cast_one]
    omega
  case srcIps => exact addField_nodup h.srcIps _
  case hostnames => exact addField_nodup h.hostnames _
  case usernames => exact addField_nodup h.usernames _
  case mitreTactics => exact foldl_addNew_nodup h.mitreTactics
  case mitreTechniques => exact foldl_addNew_nodup h.mitreTechniques
  case severity =>
    rcases hchoice with heq | heq
    · exact ⟨first, List.mem_append_left _ hfirst, hseverity.trans heq.symm⟩
    · exact ⟨a, List.mem_append_right _ (List.mem_singleton_self a), heq.symm⟩
  case severity_max =>
    intro b hb
    rcases List.mem_append.mp hb with hb | hb
    · exact (h.severity_max b hb).trans hleft
    · rw [List.mem_singleton.mp hb]
      exact hright
  case tenant =>
    intro b hb
    rcases List.mem_append.mp hb with hb | hb
    · exact h.tenant b hb
    · rw [List.mem_singleton.mp hb, ← tenantId_of_correlationKey hsame]
      exact h.tenant first hfirst
  case key =>
    intro b hb
    rw [hkeys]
    rcases List.mem_append.mp hb with hb | hb
    · have hmember := (h.key b hb).symm.trans hkey
      rw [(List.cons.inj hmember).1]
    · rw [List.mem_singleton.mp hb]

/-! ## Every run -/

/-- An id that was drawn before. -/
def Drawn (c : Correlator) (w : World) (id : UUID) : Prop := ∃ n < w.drawn, id = c.newId n

structure Invariant (c : Correlator) (w : World) : Prop where
  id : ∀ id e, w.incidents id = some e → e.value.id = id
  sound : ∀ id e, w.incidents id = some e → Sound c.maxAlerts (membersOf w id) e.value
  mapped : ∀ key m e, w.index key = some m → w.incidents m.value = some e →
    ∃ k, key = indexKey k ∧ e.value.correlationKeys = [k]
  drawn_incident : ∀ id e, w.incidents id = some e → Drawn c w id
  drawn_mapped : ∀ key m, w.index key = some m → Drawn c w m.value
  drawn_member : ∀ m ∈ w.members, Drawn c w m.1

variable {e : Event} {id : UUID}

theorem not_drawn (c : Correlator) (w : World) : ¬Drawn c w (c.newId w.drawn) := by
  rintro ⟨n, hn, heq⟩
  have := c.newId_injective heq
  omega

theorem membersOf_of_not_drawn (h : Invariant c w) (hid : ¬Drawn c w id) : membersOf w id = [] := by
  rw [membersOf, List.map_eq_nil_iff, List.filter_eq_nil_iff]
  intro m hm heq
  exact hid (of_decide_eq_true heq ▸ h.drawn_member m hm)

/-- The fields of a world that was saved to, or the world as it was. -/
theorem saveIncident_cases (c : Correlator) (w : World) (inc : IncidentSummary) (a : RawAlert)
    (o : Option Bool) : saveIncident c w inc a o = w ∨
      saveIncident c w inc a o =
        { w with
          incidents := ExpiringStore.setEx w.incidents w.now c.window inc.id inc
          members := w.members ++ [(inc.id, a)] } := by
  rw [saveIncident]
  split_ifs
  · exact Or.inr rfl
  · exact Or.inl rfl

theorem membersOf_append {v : World} (h : v.members = w.members ++ [(inc.id, a)]) (id : UUID) :
    membersOf v id = if inc.id = id then membersOf w id ++ [a] else membersOf w id := by
  simp only [membersOf, h, List.filter_append, List.map_append]
  by_cases hid : inc.id = id
  · simp [hid]
  · simp [hid]

/-- A saved incident that is sound with its members keeps the invariant. -/
theorem Invariant.save (h : Invariant c w) (hdrawn : Drawn c w inc.id)
    (hsound : Sound c.maxAlerts (membersOf w inc.id ++ [a]) inc)
    (hmapped : ∀ key m, w.index key = some m → m.value = inc.id →
      ∃ k, key = indexKey k ∧ inc.correlationKeys = [k]) (o : Option Bool) :
    Invariant c (saveIncident c w inc a o) := by
  rcases saveIncident_cases c w inc a o with heq | heq
  · rwa [heq]
  · rw [heq]
    have hself : ∀ e, ExpiringStore.setEx w.incidents w.now c.window inc.id inc inc.id = some e →
        e.value = inc := by
      intro e he
      rw [ExpiringStore.setEx, Function.update_self, Option.some.injEq] at he
      rw [← he]
    have hother : ∀ id, id ≠ inc.id →
        ExpiringStore.setEx w.incidents w.now c.window inc.id inc id = w.incidents id :=
      fun id hid => ExpiringStore.setEx_of_ne hid
    constructor
    case id =>
      intro id e he
      by_cases hid : id = inc.id
      · rw [hid] at he
        rw [hself e he, hid]
      · exact h.id id e ((hother id hid).symm.trans he)
    case sound =>
      intro id e he
      rw [membersOf_append rfl]
      by_cases hid : id = inc.id
      · rw [hid] at he
        rw [hself e he, hid, if_pos rfl]
        exact hsound
      · rw [if_neg (Ne.symm hid)]
        exact h.sound id e ((hother id hid).symm.trans he)
    case mapped =>
      intro key m e hm he
      by_cases hid : m.value = inc.id
      · rw [hid] at he
        rw [hself e he]
        exact hmapped key m hm hid
      · exact h.mapped key m e hm ((hother _ hid).symm.trans he)
    case drawn_incident =>
      intro id e he
      by_cases hid : id = inc.id
      · rw [hid]
        exact hdrawn
      · exact h.drawn_incident id e ((hother id hid).symm.trans he)
    case drawn_mapped => exact h.drawn_mapped
    case drawn_member =>
      intro m hm
      rcases List.mem_append.mp hm with hm | hm
      · exact h.drawn_member m hm
      · rw [List.mem_singleton.mp hm]
        exact hdrawn

/-- A key may be mapped to an incident of that key. -/
theorem Invariant.map (h : Invariant c w) {key : String} (hdrawn : Drawn c w id)
    (hkey : ∀ e, w.incidents id = some e → e.value.correlationKeys = [key]) (o : Option Bool) :
    Invariant c (mapKey c w key id o) := by
  rw [mapKey]
  split_ifs
  · refine ⟨h.id, h.sound, ?_, h.drawn_incident, ?_, h.drawn_member⟩
    · intro k m e hm he
      by_cases hk : k = indexKey key
      · rw [hk] at hm
        simp only [ExpiringStore.setEx, Function.update_self, Option.some.injEq] at hm
        rw [← hm] at he
        exact ⟨key, hk, hkey e he⟩
      · exact h.mapped k m e ((ExpiringStore.setEx_of_ne hk).symm.trans hm) he
    · intro k m hm
      by_cases hk : k = indexKey key
      · rw [hk] at hm
        simp only [ExpiringStore.setEx, Function.update_self, Option.some.injEq] at hm
        rw [← hm]
        exact hdrawn
      · exact h.drawn_mapped k m ((ExpiringStore.setEx_of_ne hk).symm.trans hm)
  · exact h

theorem Invariant.draw (h : Invariant c w) : Invariant c { w with drawn := w.drawn + 1 } := by
  have hmono : ∀ {id}, Drawn c w id → Drawn c { w with drawn := w.drawn + 1 } id := by
    rintro id ⟨n, hn, heq⟩
    exact ⟨n, Nat.lt_succ_of_lt hn, heq⟩
  exact ⟨h.id, h.sound, h.mapped, fun id e he => hmono (h.drawn_incident id e he),
    fun key m hm => hmono (h.drawn_mapped key m hm), fun m hm => hmono (h.drawn_member m hm)⟩

/-- The incident that was made is the one under its new id, if there is one. -/
theorem created_entry (h : Invariant c w) {e : ExpiringStore.Entry IncidentSummary}
    (he : (saveIncident c { w with drawn := w.drawn + 1 } (createIncident c w a) a o.save).incidents
      (createIncident c w a).id = some e) : e.value = createIncident c w a := by
  rcases saveIncident_cases c { w with drawn := w.drawn + 1 } (createIncident c w a) a o.save
    with heq | heq
  · rw [heq] at he
    exact absurd (h.drawn_incident _ e he) (not_drawn c w)
  · rw [heq] at he
    simp only [ExpiringStore.setEx, Function.update_self, Option.some.injEq] at he
    rw [← he]

theorem Invariant.openIncident (h : Invariant c w) (a : RawAlert) (o : Outcomes) :
    Invariant c (openIncident c w a o).1 := by
  have hnew : ¬Drawn c w (createIncident c w a).id := not_drawn c w
  have hnone : membersOf w (createIncident c w a).id = [] := membersOf_of_not_drawn h hnew
  have hdrawn : Drawn c { w with drawn := w.drawn + 1 } (createIncident c w a).id :=
    ⟨w.drawn, Nat.lt_succ_self _, rfl⟩
  have hsaved : Invariant c (saveIncident c { w with drawn := w.drawn + 1 }
      (createIncident c w a) a o.save) := by
    apply h.draw.save hdrawn
    · change Sound c.maxAlerts (membersOf w (createIncident c w a).id ++ [a]) _
      rw [hnone]
      exact sound_create
    · intro key m hm heq
      have hmapped := h.drawn_mapped key m hm
      rw [heq] at hmapped
      exact absurd hmapped hnew
  have hmapped : Invariant c (mapKey c (saveIncident c { w with drawn := w.drawn + 1 }
      (createIncident c w a) a o.save) (correlationKey a) (createIncident c w a).id
      o.setIndex) := by
    apply hsaved.map
    · rcases saveIncident_cases c { w with drawn := w.drawn + 1 } (createIncident c w a) a o.save
        with heq | heq
      · rwa [heq]
      · rwa [heq]
    · intro e he
      rw [created_entry h he]
      rfl
  rw [IncidentCorrelator.openIncident]
  by_cases hraises : raises c.window o.save = true
  · simp only [if_pos hraises]
    exact hsaved
  · simp only [if_neg hraises]
    exact hmapped

/-- A call keeps the invariant, wherever it fails. -/
theorem Invariant.correlate (h : Invariant c w) (a : RawAlert) (o : Outcomes) :
    Invariant c (correlate c w a o).1 := by
  rw [IncidentCorrelator.correlate]
  split
  · exact h
  split
  · exact h.openIncident a o
  rename_i id hindex
  split
  · exact h
  split
  · exact h.openIncident a o
  rename_i inc hload
  split
  · rename_i hcount
    obtain ⟨t, hm, -⟩ := ExpiringStore.get_eq_some_iff.mp hindex
    obtain ⟨t', he, -⟩ := ExpiringStore.get_eq_some_iff.mp hload
    have hid : inc.id = id := h.id id _ he
    obtain ⟨k, hk, hkeys⟩ := h.mapped _ _ _ hm he
    rw [← indexKey_injective hk] at hkeys
    have hsound := h.sound id _ he
    rw [← hid] at hm he hsound
    have hmapped : ∀ key m, w.index key = some m → m.value = (mergeAlert w.now inc a).id →
        ∃ k, key = indexKey k ∧ (mergeAlert w.now inc a).correlationKeys = [k] := by
      intro key m hm' heq
      obtain ⟨k', hk', hkeys'⟩ := h.mapped key m _ hm' (heq ▸ he)
      refine ⟨k', hk', ?_⟩
      change addNew inc.correlationKeys (correlationKey a) = [k']
      rw [hkeys] at hkeys' ⊢
      rw [addNew, if_pos (List.mem_singleton_self _)]
      exact hkeys'
    have hmerged := hsound.merge hcount hkeys w.now
    have hsaved : Invariant c (saveIncident c w (mergeAlert w.now inc a) a o.save) := by
      apply h.save
      · exact h.drawn_incident _ _ he
      · exact hmerged
      · exact hmapped
    exact hsaved
  · exact h.openIncident a o

theorem Invariant.next (h : Invariant c w) (e : Event) : Invariant c (next c w e) := by
  cases e with
  | correlate a o => exact h.correlate a o
  | advance d =>
    exact ⟨h.id, h.sound, h.mapped, h.drawn_incident, h.drawn_mapped, h.drawn_member⟩

theorem invariant_run (c : Correlator) (es : List Event) : Invariant c (run c es) := by
  have hstart : Invariant c empty := by
    constructor
    case drawn_member => exact fun m hm => absurd hm List.not_mem_nil
    all_goals exact nofun
  have hfold : ∀ w, Invariant c w → Invariant c (es.foldl (IncidentCorrelator.next c) w) := by
    induction es with
    | nil => exact fun w h => h
    | cons e es ih => exact fun w h => ih _ (h.next e)
  exact hfold empty hstart

/-- Every incident that is stored after a run agrees with the alerts that were saved to it. -/
def AllSound (c : Correlator) (w : World) : Prop :=
  ∀ id inc, ExpiringStore.get w.incidents w.now id = some inc →
    Sound c.maxAlerts (membersOf w id) inc

theorem run_allSound (c : Correlator) (es : List Event) : AllSound c (run c es) := by
  intro id inc hget
  obtain ⟨t, he, -⟩ := ExpiringStore.get_eq_some_iff.mp hget
  exact (invariant_run c es).sound id _ he

/-- No incident may have an alert, but the first alert makes one. -/
def noneAllowed : Correlator where
  window := 3600
  maxAlerts := 0
  newId n := n
  newId_injective := fun _ _ h => h
  setOrder _ xs := xs.dedup
  setOrder_perm _ _ := List.Perm.refl _

def firstAlert : RawAlert :=
  ⟨7, 1, "edr", "Beacon", .high, some "10.0.0.5", none, none, none, none, none, [], [], 0⟩

theorem maximum_exceeded : ∃ inc,
    ExpiringStore.get (run noneAllowed [.correlate firstAlert ⟨false, false, none, none⟩]).incidents
        0 0 = some inc ∧ noneAllowed.maxAlerts < inc.alertCount :=
  ⟨createIncident noneAllowed empty firstAlert, rfl, by decide⟩

end IncidentCorrelator
