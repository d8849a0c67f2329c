import Mathlib.Data.Finset.Sort
import Mathlib.Data.List.Induction
import AiSOC.OrderedDict

/-! # Drift of external assets

A scan compares every asset that it discovers with the row of the asset, then merges the ports
into the row. The row has the ports of all earlier discoveries, not those of the last one. -/
namespace EasmDrift

inductive ExternalAssetType where
  | domain
  | subdomain
  | ip
  | cert
  | webService
  | apiEndpoint
  deriving DecidableEq

/-- The ports, if there are any, and the other entries. -/
structure Metadata (V : Type*) where
  ports : Option (List ℤ)
  others : OrderedDict String V

structure DiscoveredAsset (V : Type*) where
  assetType : ExternalAssetType
  value : String
  metadata : Metadata V

structure AssetKey where
  tenantId : ℕ
  assetType : ExternalAssetType
  value : String
  deriving DecidableEq

/-- A row; its id is the number of rows there were before it. -/
structure ExternalAsset (V : Type*) where
  id : ℕ
  key : AssetKey
  firstSeen : ℕ
  lastSeen : ℕ
  metadataJson : Metadata V

inductive DriftType where
  | newAsset
  | newPort
  | gonePort
  deriving DecidableEq

inductive Details (V : Type*) where
  | asset (assetType : ExternalAssetType) (value : String) (metadata : Metadata V)
  | ports (ports : List ℤ)

structure ExternalAssetDrift (V : Type*) where
  tenantId : ℕ
  externalAssetId : ℕ
  driftType : DriftType
  details : Details V
  detectedAt : ℕ

variable {V : Type*}

def portSet (m : Metadata V) : Finset ℤ := (m.ports.getD []).toFinset

def mergeMetadata (old new : Metadata V) : Metadata V :=
  let oldPorts := portSet old
  let newPorts := portSet new
  { ports :=
      if oldPorts.Nonempty ∨ newPorts.Nonempty then
        some ((oldPorts ∪ newPorts).sort (· ≤ ·))
      else new.ports.or old.ports
    others := old.others.update new.others }

def detectPortDrift (oldMeta newMeta : Metadata V) : List (DriftType × Details V) :=
  let oldPorts := portSet oldMeta
  let newPorts := portSet newMeta
  let added := newPorts \ oldPorts
  let removed := oldPorts \ newPorts
  (if added.Nonempty then [(.newPort, .ports (added.sort (· ≤ ·)))] else []) ++
    if removed.Nonempty then [(.gonePort, .ports (removed.sort (· ≤ ·)))] else []

/-- More than one row raises. -/
def selectAsset (rows : List (ExternalAsset V)) (key : AssetKey) :
    Option (Option (ExternalAsset V)) :=
  match rows.filter fun row => row.key = key with
  | [] => some none
  | [row] => some (some row)
  | _ => none

def assetKey (tenantId : ℕ) (asset : DiscoveredAsset V) : AssetKey :=
  ⟨tenantId, asset.assetType, asset.value⟩

/-- The row and whether it is new. -/
def upsertAsset (rows : List (ExternalAsset V)) (tenantId now : ℕ) (asset : DiscoveredAsset V) :
    Option (List (ExternalAsset V) × ExternalAsset V × Bool) :=
  (selectAsset rows (assetKey tenantId asset)).map fun
    | none =>
      let row := ⟨rows.length, assetKey tenantId asset, now, now, asset.metadata⟩
      (rows ++ [row], row, true)
    | some existing =>
      let row := { existing with
        lastSeen := now
        metadataJson := mergeMetadata existing.metadataJson asset.metadata }
      (rows.map fun r => if r.id = existing.id then row else r, row, false)

/-- One pass of the loop. -/
def detectAsset (rows : List (ExternalAsset V)) (tenantId now : ℕ) (asset : DiscoveredAsset V) :
    Option (List (ExternalAsset V) × List (ExternalAssetDrift V)) := do
  let existing ← selectAsset rows (assetKey tenantId asset)
  let oldMeta := (existing.map ExternalAsset.metadataJson).getD ⟨none, OrderedDict.empty⟩
  let (rows, row, isNew) ← upsertAsset rows tenantId now asset
  if isNew then
    some (rows, [⟨tenantId, row.id, .newAsset,
      .asset asset.assetType asset.value asset.metadata, now⟩])
  else
    some (rows, (detectPortDrift oldMeta asset.metadata).map fun pd =>
      ⟨tenantId, row.id, pd.1, pd.2, now⟩)

def detectDrift (tenantId now : ℕ) (rows : List (ExternalAsset V)) :
    List (DiscoveredAsset V) → Option (List (ExternalAsset V) × List (ExternalAssetDrift V))
  | [] => some (rows, [])
  | asset :: discovered => do
    let (rows, records) ← detectAsset rows tenantId now asset
    let (rows, more) ← detectDrift tenantId now rows discovered
    some (rows, records ++ more)

structure Scan (V : Type*) where
  tenantId : ℕ
  now : ℕ
  discovered : List (DiscoveredAsset V)

/-- The table after scans that start from an empty one. -/
def run (scans : List (Scan V)) : Option (List (ExternalAsset V)) :=
  scans.foldlM (fun rows s => (detectDrift s.tenantId s.now rows s.discovered).map Prod.fst) []

/-! ## What the records should say -/

/-- The assets with their ports, in the order in which they are discovered. -/
def discoveries (scan : Scan V) : List (AssetKey × Finset ℤ) :=
  scan.discovered.map fun asset => (assetKey scan.tenantId asset, portSet asset.metadata)

/-- The port sets with which the asset was discovered. -/
def seen (history : List (AssetKey × Finset ℤ)) (key : AssetKey) : List (Finset ℤ) :=
  (history.filter fun e => e.1 = key).map Prod.snd

def lastPorts (earlier : List (Finset ℤ)) : Finset ℤ := earlier.getLast?.getD ∅

def allPorts (earlier : List (Finset ℤ)) : Finset ℤ := earlier.foldr (· ∪ ·) ∅

def portDifference (old new : Finset ℤ) : List (DriftType × Details V) :=
  (if (new \ old).Nonempty then [(.newPort, .ports ((new \ old).sort (· ≤ ·)))] else []) ++
    if (old \ new).Nonempty then [(.gonePort, .ports ((old \ new).sort (· ≤ ·)))] else []

/-- Every discovery but the first is compared with what `against` makes of the earlier ones. -/
def portDrifts (against : List (Finset ℤ) → Finset ℤ) :
    List (Finset ℤ) → List (Finset ℤ) → List (DriftType × Details V)
  | _, [] => []
  | earlier, ports :: later =>
    (if earlier.isEmpty then [] else portDifference (against earlier) ports) ++
      portDrifts against (earlier ++ [ports]) later

/-- The records about the ports of an asset, which is found by the id of its row. -/
def portRecords (rows : List (ExternalAsset V)) (key : AssetKey)
    (records : List (ExternalAssetDrift V)) : List (DriftType × Details V) :=
  (records.filter fun d => d.driftType ≠ .newAsset ∧
    rows.any fun row => row.id = d.externalAssetId ∧ row.key = key).map
      fun d => (d.driftType, d.details)

/-- After any scans, a scan completes with these records about the ports of every asset. -/
def PortsAgainst (against : List (Finset ℤ) → Finset ℤ) (scans : List (Scan V))
    (scan : Scan V) : Prop :=
  ∃ rows rows' records, run scans = some rows ∧
    detectDrift scan.tenantId scan.now rows scan.discovered = some (rows', records) ∧
    ∀ key, portRecords rows' key records =
      portDrifts against (seen (scans.flatMap discoveries) key) (seen (discoveries scan) key)

variable {against : List (Finset ℤ) → Finset ℤ} {history more : List (AssetKey × Finset ℤ)}
  {key other : AssetKey} {rows : List (ExternalAsset V)}
  {old new : Metadata V} {earlier : List (Finset ℤ)} {p q : Finset ℤ}

/-! ## Metadata -/

theorem portSet_mergeMetadata : portSet (mergeMetadata old new) = portSet old ∪ portSet new := by
  rw [mergeMetadata]
  by_cases h : (portSet old).Nonempty ∨ (portSet new).Nonempty
  · rw [portSet, if_pos h, Option.getD_some, Finset.sort_toFinset]
  · rw [not_or, Finset.not_nonempty_iff_eq_empty, Finset.not_nonempty_iff_eq_empty] at h
    rw [portSet, if_neg (by simp [h]), h.1, h.2, Finset.union_empty]
    cases hports : new.ports with
    | none => exact h.1
    | some ps =>
      have hnew := h.2
      rw [portSet, hports] at hnew
      exact hnew

theorem detectPortDrift_eq :
    detectPortDrift old new = portDifference (portSet old) (portSet new) := rfl

theorem allPorts_append_singleton : allPorts (earlier ++ [p]) = allPorts earlier ∪ p := by
  induction earlier with
  | nil => simp [allPorts]
  | cons q earlier ih =>
    simp only [allPorts, List.cons_append, List.foldr_cons] at ih ⊢
    rw [ih, Finset.union_assoc]

theorem seen_append : seen (history ++ more) key = seen history key ++ seen more key := by
  rw [seen, List.filter_append, List.map_append]
  rfl

theorem seen_singleton : seen [(other, p)] key = if other = key then [p] else [] := by
  rw [seen, List.filter_singleton]
  by_cases h : other = key
  · simp [h]
  · simp [h]

/-! ## One pass of the loop -/

def identities (rows : List (ExternalAsset V)) : List (ℕ × AssetKey) :=
  rows.map fun row => (row.id, row.key)

/-- The table after a history of discoveries: a row for every asset, with all its ports. -/
structure Snapshot (history : List (AssetKey × Finset ℤ)) (rows : List (ExternalAsset V)) :
    Prop where
  keys : (rows.map ExternalAsset.key).Nodup
  ids : rows.map ExternalAsset.id = List.range rows.length
  known : ∀ key, key ∈ rows.map ExternalAsset.key ↔ seen history key ≠ []
  ports : ∀ row ∈ rows, portSet row.metadataJson = allPorts (seen history row.key)

theorem snapshot_nil : Snapshot [] ([] : List (ExternalAsset V)) :=
  ⟨List.nodup_nil, rfl, fun _ => iff_of_false List.not_mem_nil fun h => h rfl,
    fun _ h => absurd h List.not_mem_nil⟩

theorem Snapshot.ids_nodup (h : Snapshot history rows) :
    (rows.map ExternalAsset.id).Nodup := by
  rw [h.ids]
  exact List.nodup_range

theorem Snapshot.select_unseen (h : Snapshot history rows) (hkey : seen history key = []) :
    selectAsset rows key = some none := by
  have hnone : (rows.filter fun row => row.key = key) = [] := by
    rw [List.filter_eq_nil_iff]
    intro row hrow heq
    rw [decide_eq_true_eq] at heq
    exact (h.known key).mp (heq ▸ List.mem_map_of_mem hrow) hkey
  rw [selectAsset, hnone]

theorem Snapshot.select_seen (h : Snapshot history rows) (hkey : seen history key ≠ []) :
    ∃ row ∈ rows, row.key = key ∧ selectAsset rows key = some (some row) := by
  obtain ⟨row, hrow, heq⟩ := List.mem_map.mp ((h.known key).mpr hkey)
  refine ⟨row, hrow, heq, ?_⟩
  have hfind := (OrderedDict.find?_key h.keys).mpr ⟨hrow, heq⟩
  rw [selectAsset, OrderedDict.filter_key h.keys, hfind]
  rfl

/-- A new asset gets a row. -/
theorem Snapshot.insert (h : Snapshot history rows) (row : ExternalAsset V)
    (hkey : seen history row.key = []) (hid : row.id = rows.length) :
    Snapshot (history ++ [(row.key, portSet row.metadataJson)]) (rows ++ [row]) := by
  have hnot : row.key ∉ rows.map ExternalAsset.key := fun hmem => (h.known _).mp hmem hkey
  constructor
  · rw [List.map_append, List.map_singleton, ← List.concat_eq_append]
    exact h.keys.concat hnot
  · rw [List.map_append, List.map_singleton, List.length_append, List.length_singleton,
      List.range_succ, h.ids, hid]
  · intro key
    rw [List.map_append, List.mem_append, h.known, List.map_singleton, List.mem_singleton,
      seen_append, seen_singleton]
    by_cases heq : row.key = key
    · simp [heq]
    · simp [heq, Ne.symm heq]
  · intro r hr
    rw [seen_append, seen_singleton]
    rcases List.mem_append.mp hr with hold | hnew
    · have hne : row.key ≠ r.key := fun heq => hnot (heq ▸ List.mem_map_of_mem hold)
      rw [if_neg hne, List.append_nil]
      exact h.ports r hold
    · rw [List.mem_singleton.mp hnew, if_pos rfl, hkey]
      exact (Finset.union_empty _).symm

theorem Snapshot.eq_of_id (h : Snapshot history rows) {r s : ExternalAsset V} (hr : r ∈ rows)
    (hs : s ∈ rows) (heq : r.id = s.id) : r = s :=
  List.inj_on_of_nodup_map h.ids_nodup hr hs heq

/-- The row of a known asset is written in its place. -/
theorem Snapshot.update (h : Snapshot history rows) {existing : ExternalAsset V}
    (hexisting : existing ∈ rows) (row : ExternalAsset V) (hid : row.id = existing.id)
    (hkey : row.key = existing.key)
    (hports : portSet row.metadataJson = portSet existing.metadataJson ∪ p) :
    Snapshot (history ++ [(row.key, p)])
        (rows.map fun r => if r.id = existing.id then row else r) ∧
      identities (rows.map fun r => if r.id = existing.id then row else r) = identities rows := by
  have hidentities :
      identities (rows.map fun r => if r.id = existing.id then row else r) = identities rows := by
    rw [identities, List.map_map]
    apply List.map_congr_left
    intro r hr
    rw [Function.comp_apply]
    split_ifs with heq
    · rw [h.eq_of_id hr hexisting heq, hid, hkey]
    · rfl
  have hkeys := congrArg (List.map Prod.snd) hidentities
  have hids := congrArg (List.map Prod.fst) hidentities
  simp only [identities, List.map_map] at hkeys hids
  refine ⟨?_, hidentities⟩
  constructor
  · rw [List.map_map]
    exact hkeys ▸ h.keys
  · rw [List.map_map, List.length_map]
    exact hids.trans h.ids
  · intro key
    rw [List.map_map, seen_append, seen_singleton]
    refine (iff_of_eq (congrArg (key ∈ ·) hkeys)).trans ((h.known key).trans ?_)
    by_cases heq : row.key = key
    · have hseen := (h.known key).mp (heq ▸ hkey ▸ List.mem_map_of_mem hexisting)
      simp [heq, hseen]
    · simp [heq]
  · intro r hr
    obtain ⟨s, hs, rfl⟩ := List.mem_map.mp hr
    rw [seen_append, seen_singleton]
    split_ifs with heq hsame hsame
    · rw [allPorts_append_singleton, hports, h.ports existing hexisting, hkey]
    · exact absurd rfl hsame
    · have hexists := List.inj_on_of_nodup_map h.keys hs hexisting (hsame.symm.trans hkey)
      exact absurd (congrArg ExternalAsset.id hexists) heq
    · rw [List.append_nil]
      exact h.ports s hs

/-- The records of one pass are those of the asset. -/
structure Pass (earlier : List (Finset ℤ)) (p : Finset ℤ) (key : AssetKey)
    (rows : List (ExternalAsset V)) (records : List (ExternalAssetDrift V)) : Prop where
  about : ∃ id, (id, key) ∈ identities rows ∧ ∀ d ∈ records, d.externalAssetId = id
  ports : (records.filter fun d => d.driftType ≠ .newAsset).map
      (fun d => (d.driftType, d.details)) =
    if earlier.isEmpty then [] else portDifference (allPorts earlier) p

theorem portDifference_ne_newAsset {pd : DriftType × Details V}
    (h : pd ∈ portDifference p q) : pd.1 ≠ .newAsset := by
  rw [portDifference, List.mem_append] at h
  rcases h with h | h
  · split_ifs at h
    · simp [List.mem_singleton.mp h]
    · exact absurd h List.not_mem_nil
  · split_ifs at h
    · simp [List.mem_singleton.mp h]
    · exact absurd h List.not_mem_nil

theorem Snapshot.detectAsset (h : Snapshot history rows) (tenantId now : ℕ)
    (asset : DiscoveredAsset V) :
    ∃ rows' records, detectAsset rows tenantId now asset = some (rows', records) ∧
      Snapshot (history ++ [(assetKey tenantId asset, portSet asset.metadata)]) rows' ∧
      identities rows <+: identities rows' ∧
      Pass (seen history (assetKey tenantId asset)) (portSet asset.metadata)
        (assetKey tenantId asset) rows' records := by
  by_cases hkey : seen history (assetKey tenantId asset) = []
  · have hselect := h.select_unseen hkey
    refine ⟨_, _, by rw [EasmDrift.detectAsset, upsertAsset, hselect]; rfl, ?_, ?_, ?_⟩
    · exact h.insert ⟨rows.length, assetKey tenantId asset, now, now, asset.metadata⟩ hkey rfl
    · rw [identities, identities, List.map_append]
      exact List.prefix_append _ _
    · constructor
      · refine ⟨rows.length, ?_, ?_⟩
        · simp [identities]
        · simp
      · simp [hkey]
  · obtain ⟨existing, hexisting, hexistingKey, hselect⟩ := h.select_seen hkey
    obtain ⟨hsnapshot, hidentities⟩ := h.update hexisting
      { existing with
        lastSeen := now
        metadataJson := mergeMetadata existing.metadataJson asset.metadata }
      rfl rfl portSet_mergeMetadata
    refine ⟨_, _, by rw [EasmDrift.detectAsset, upsertAsset, hselect]; rfl, ?_, ?_, ?_⟩
    · rw [← hexistingKey]
      exact hsnapshot
    · rw [hidentities]
    · constructor
      · refine ⟨existing.id, ?_, ?_⟩
        · rw [hidentities, ← hexistingKey]
          exact List.mem_map_of_mem hexisting
        · intro d hd
          obtain ⟨pd, -, rfl⟩ := List.mem_map.mp hd
          rfl
      · have hports : detectPortDrift existing.metadataJson asset.metadata =
            portDifference (V := V) (allPorts (seen history (assetKey tenantId asset)))
              (portSet asset.metadata) := by
          rw [detectPortDrift_eq, h.ports existing hexisting, hexistingKey]
        rw [if_neg (by simpa using hkey), List.filter_eq_self.mpr, List.map_map]
        · exact (List.map_id'' (fun _ => rfl) _).trans hports
        · intro d hd
          obtain ⟨pd, hpd, rfl⟩ := List.mem_map.mp hd
          exact decide_eq_true (portDifference_ne_newAsset hpd)

/-! ## Every sequence of scans -/

theorem Pass.portRecords_of_eq {records : List (ExternalAssetDrift V)}
    {rows' : List (ExternalAsset V)}
    (h : Pass earlier p key rows records) (hrows : Snapshot history rows')
    (hextends : identities rows <+: identities rows') (other : AssetKey) :
    portRecords rows' other records = if key = other then
      (if earlier.isEmpty then [] else portDifference (allPorts earlier) p) else [] := by
  obtain ⟨id, hid, hrecords⟩ := h.about
  have habout : ∀ d ∈ records,
      ((rows'.any fun row => row.id = d.externalAssetId ∧ row.key = other) = true ↔
        key = other) := by
    intro d hd
    obtain ⟨row, hrow, hrowId⟩ := List.mem_map.mp (hextends.subset hid)
    obtain ⟨rfl, rfl⟩ := Prod.mk.inj hrowId
    rw [hrecords d hd, List.any_eq_true]
    constructor
    · rintro ⟨r, hr, hboth⟩
      obtain ⟨heq, hother⟩ := of_decide_eq_true hboth
      rw [← hrows.eq_of_id hr hrow heq, hother]
    · intro heq
      exact ⟨row, hrow, decide_eq_true ⟨rfl, heq⟩⟩
  rw [portRecords]
  by_cases hkey : key = other
  · rw [if_pos hkey, ← h.ports]
    refine congrArg (List.map _) (List.filter_congr fun d hd => ?_)
    rw [decide_eq_decide, habout d hd]
    exact and_iff_left hkey
  · rw [if_neg hkey, List.map_eq_nil_iff, List.filter_eq_nil_iff]
    intro d hd
    rw [decide_eq_true_eq, habout d hd]
    exact fun hboth => hkey hboth.2

theorem Snapshot.detectDrift (h : Snapshot history rows) (tenantId now : ℕ)
    (discovered : List (DiscoveredAsset V)) :
    ∃ rows' records, detectDrift tenantId now rows discovered = some (rows', records) ∧
      Snapshot (history ++ discoveries ⟨tenantId, now, discovered⟩) rows' ∧
      identities rows <+: identities rows' ∧
      ∀ key {final : List (ExternalAsset V)} {all : List (AssetKey × Finset ℤ)},
        Snapshot all final → identities rows' <+: identities final →
        portRecords final key records = portDrifts allPorts (seen history key)
          (seen (discoveries ⟨tenantId, now, discovered⟩) key) := by
  induction discovered generalizing history rows with
  | nil =>
    refine ⟨rows, [], rfl, ?_, List.prefix_refl _, fun _ _ _ _ _ => rfl⟩
    rw [discoveries, List.map_nil, List.append_nil]
    exact h
  | cons asset discovered ih =>
    obtain ⟨middle, records, hstep, hmiddle, hextends, hpass⟩ :=
      h.detectAsset tenantId now asset
    obtain ⟨rows', more, hrest, hrows', hextends', hmore⟩ := ih hmiddle
    refine ⟨rows', records ++ more, ?_, ?_, hextends.trans hextends', ?_⟩
    · simp only [EasmDrift.detectDrift, hstep, hrest, Option.bind_eq_bind, Option.bind_some]
    · rw [discoveries, List.map_cons, List.append_cons]
      exact hrows'
    · intro key final all hfinal hlast
      have hfirst := hpass.portRecords_of_eq hfinal (hextends'.trans hlast) key
      have hothers := hmore key hfinal hlast
      rw [portRecords] at hfirst hothers
      rw [portRecords, List.filter_append, List.map_append, hfirst, hothers]
      have hseen : seen (discoveries ⟨tenantId, now, asset :: discovered⟩) key =
          (if assetKey tenantId asset = key then [portSet asset.metadata] else []) ++
            seen (discoveries ⟨tenantId, now, discovered⟩) key := by
        rw [← seen_singleton, ← seen_append]
        rfl
      rw [hseen, seen_append, seen_singleton]
      split_ifs with hkey hempty
      · rw [List.singleton_append, portDrifts, ← hkey, if_pos hempty]
      · rw [List.singleton_append, portDrifts, ← hkey, if_neg hempty]
      · rw [List.append_nil]
        rfl

theorem run_append_singleton {before : List (Scan V)} {scan : Scan V} :
    run (before ++ [scan]) = (run before).bind fun rows =>
      (detectDrift scan.tenantId scan.now rows scan.discovered).map Prod.fst := by
  rw [run, List.foldlM_append]
  simp only [List.foldlM_cons, List.foldlM_nil, bind_pure]
  rfl

theorem snapshot_run (scans : List (Scan V)) :
    ∃ rows, run scans = some rows ∧ Snapshot (scans.flatMap discoveries) rows := by
  induction scans using List.reverseRecOn with
  | nil => exact ⟨[], rfl, snapshot_nil⟩
  | append_singleton before scan ih =>
    obtain ⟨rows, hrun, hsnapshot⟩ := ih
    obtain ⟨rows', records, hdetect, hrows', -⟩ :=
      hsnapshot.detectDrift scan.tenantId scan.now scan.discovered
    refine ⟨rows', ?_, ?_⟩
    · rw [run_append_singleton, hrun, Option.bind_some, hdetect, Option.map_some]
    · rw [List.flatMap_append, List.flatMap_singleton]
      exact hrows'

/-- A scan reports the ports that no earlier discovery of the asset had, and the ports of earlier
discoveries that are not there. -/
theorem portsAgainst_allPorts (scans : List (Scan V)) (scan : Scan V) :
    PortsAgainst allPorts scans scan := by
  obtain ⟨rows, hrun, hsnapshot⟩ := snapshot_run scans
  obtain ⟨rows', records, hdetect, hrows', -, hports⟩ :=
    hsnapshot.detectDrift scan.tenantId scan.now scan.discovered
  exact ⟨rows, rows', records, hrun, hdetect, fun key => hports key hrows' (List.prefix_refl _)⟩

def sampleScan (ports : List ℤ) : Scan String :=
  ⟨1, 0, [⟨.ip, "203.0.113.7", ⟨some ports, OrderedDict.empty⟩⟩]⟩

/-- A port that the last scan did not find is reported as gone again. -/
theorem gone_port_again :
    ¬PortsAgainst lastPorts [sampleScan [22, 443], sampleScan [443]] (sampleScan [443]) := by
  rintro ⟨rows, rows', records, hrun, hdetect, hports⟩
  obtain ⟨table, htable, hsnapshot⟩ := snapshot_run [sampleScan [22, 443], sampleScan [443]]
  obtain ⟨final, reported, hfinal, hrows', -, hreported⟩ :=
    hsnapshot.detectDrift 1 0 (sampleScan [443]).discovered
  obtain rfl : table = rows := Option.some.inj (htable.symm.trans hrun)
  obtain ⟨rfl, rfl⟩ := Prod.mk.inj (Option.some.inj (hfinal.symm.trans hdetect))
  have hall := hreported ⟨1, .ip, "203.0.113.7"⟩ hrows' (List.prefix_refl _)
  have heq := hall.symm.trans (hports _)
  exact absurd (congrArg List.length heq) (by decide)

end EasmDrift
