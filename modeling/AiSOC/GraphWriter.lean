import Mathlib.Data.List.Dedup
import Mathlib.Data.List.Sort
import AiSOC.PropertyGraph
import AiSOC.GraphExtractor

/-! # Batched graph writer

`flushBatch` turns a batch of projected events into one write transaction: an upsert for
each node label, then one for each relationship type and pair of endpoint labels. The
statements are the generated Cypher over a property graph whose nodes are merged on their
label and natural key. -/
namespace GraphWriter

open PropertyGraph (GraphNode Graph Patch HasNode Props setPlus upsertNodes upsertRels)
open GraphExtractor (Runtime Value Object NodeLabel RelType Node Edge Event extractFromOCSF)

def schemaVersion : String := "v1.0"

structure NodeRow where
  naturalKey : String
  props : Object
  propsHash : String

structure EdgeRow where
  fromKey : String
  toKey : String
  fromLabel : NodeLabel
  toLabel : NodeLabel
  props : Object

def nonEmpty (a b : String) : String := if a ≠ "" then a else b

/-- The JSON encoder and the hash of the digest. -/
structure Digest where
  marshal : Value → String
  sha256Hex : String → String

def hashProperties (d : Digest) (props : Object) : String :=
  let keys := (props.map Prod.fst).dedup.insertionSort (· ≤ ·)
  let text := keys.foldl (fun h k =>
    h ++ k ++ "\x00" ++ d.marshal ((props.lookup k).getD .null) ++ "\x00") ""
  String.ofList ((d.sha256Hex text).toList.take 16)

def snapshotProps (ev : Event) : Object :=
  if ev.snapshotID ≠ "" then [("snapshot_id", .str ev.snapshotID)] else []

/-- Later entries override earlier ones, as assignments to one map do. -/
def buildNodeRow (rt : Runtime) (d : Digest) (n : Node) (ev : Event) : NodeRow where
  naturalKey := n.naturalKey
  props := n.properties ++
    [("tenant_id", .str (nonEmpty n.tenantID ev.tenantID)),
      ("schema_version", .str schemaVersion),
      ("last_seen_ts", .str (rt.formatRFC3339Nano ev.ts)),
      ("last_event_id", .str ev.eventID)] ++ snapshotProps ev
  propsHash := hashProperties d n.properties

def buildEdgeRow (rt : Runtime) (e : Edge) (ev : Event) : EdgeRow where
  fromKey := e.fromKey
  toKey := e.toKey
  fromLabel := e.fromLabel
  toLabel := e.toLabel
  props := e.properties ++
    [("ts", .str (rt.formatRFC3339Nano ev.ts)), ("source_event_id", .str ev.eventID),
      ("schema_version", .str schemaVersion)] ++ snapshotProps ev

/-- A statement of the transaction: the query shape and its rows. -/
inductive Statement where
  | nodeUpsert (label : NodeLabel) (rows : List NodeRow)
  | edgeUpsert (rel : RelType) (fromLabel toLabel : NodeLabel) (rows : List EdgeRow)

def nodesByLabel (rt : Runtime) (d : Digest) (batch : List Event) (label : NodeLabel) :
    List NodeRow :=
  batch.flatMap fun ev =>
    (ev.nodes.filter fun n => n.label = label).map fun n => buildNodeRow rt d n ev

def edgesByType (rt : Runtime) (batch : List Event) (rel : RelType) : List EdgeRow :=
  batch.flatMap fun ev =>
    (ev.edges.filter fun e => e.type = rel).map fun e => buildEdgeRow rt e ev

def sortedNodeLabels (batch : List Event) : List NodeLabel :=
  (batch.flatMap fun ev => ev.nodes.map Node.label).dedup.insertionSort
    fun a b => a.text ≤ b.text

def sortedRelTypes (batch : List Event) : List RelType :=
  (batch.flatMap fun ev => ev.edges.map Edge.type).dedup.insertionSort
    fun a b => a.text ≤ b.text

def groupEdgesByEndpointLabels (rows : List EdgeRow) :
    List (NodeLabel × NodeLabel × List EdgeRow) :=
  let keys := (rows.map fun r => (r.fromLabel, r.toLabel)).dedup.insertionSort
    fun a b => a.1.text ++ "->" ++ a.2.text ≤ b.1.text ++ "->" ++ b.2.text
  keys.map fun k => (k.1, k.2, rows.filter fun r => r.fromLabel = k.1 ∧ r.toLabel = k.2)

def statements (rt : Runtime) (d : Digest) (batch : List Event) : List Statement :=
  ((sortedNodeLabels batch).map fun label =>
    .nodeUpsert label (nodesByLabel rt d batch label)) ++
  (sortedRelTypes batch).flatMap fun rel =>
    (groupEdgesByEndpointLabels (edgesByType rt batch rel)).map fun g =>
      .edgeUpsert rel g.1 g.2.1 g.2.2

abbrev EntityGraph := Graph NodeLabel RelType Value

/-- A null removes the property. -/
def toPatch (props : Object) : Patch Value :=
  props.map fun kv => (kv.1, match kv.2 with | .null => none | v => some v)

def NodeRow.patch (row : NodeRow) : Patch Value :=
  toPatch row.props ++ [("props_hash", some (.str row.propsHash))]

/-- The pattern `(:label {natural_key: key})`. -/
def hasKey (label : NodeLabel) (key : String) (n : GraphNode NodeLabel Value) : Bool :=
  n.label = label && match n.props "natural_key" with
    | some (.str k) => k = key
    | _ => false

def freshNode (label : NodeLabel) (key : String) : GraphNode NodeLabel Value :=
  ⟨label, setPlus (fun _ => none) [("natural_key", some (.str key))]⟩

def runStatement (g : EntityGraph) : Statement → EntityGraph
  | .nodeUpsert label rows =>
    upsertNodes (fun row : NodeRow => hasKey label row.naturalKey)
      (fun row => freshNode label row.naturalKey) NodeRow.patch g rows
  | .edgeUpsert rel fromLabel toLabel rows =>
    upsertRels rel (fun row : EdgeRow => hasKey fromLabel row.fromKey)
      (fun row => hasKey toLabel row.toKey) (fun row => freshNode fromLabel row.fromKey)
      (fun row => freshNode toLabel row.toKey) (fun row => toPatch row.props) g rows

/-- The graph after the transaction and whether it was committed: a statement that reports
an error rolls everything back. -/
def flushBatch (rt : Runtime) (d : Digest) (fails : Statement → Bool) (g : EntityGraph)
    (batch : List Event) : EntityGraph × Bool :=
  if (statements rt d batch).any fails then (g, false)
  else ((statements rt d batch).foldl runStatement g, true)

/-- Every node of the event is stamped with the tenant. -/
def OfTenant (tenant : String) (ev : Event) : Prop :=
  ∀ n ∈ ev.nodes, nonEmpty n.tenantID ev.tenantID = tenant

/-- The node belongs to a tenant other than `tenant`. -/
def Foreign (tenant : String) (n : GraphNode NodeLabel Value) : Prop :=
  ∃ other, n.props "tenant_id" = some (.str other) ∧ other ≠ tenant

def ForeignNodesKept (tenant : String) (g g' : EntityGraph) : Prop :=
  ∀ i n, HasNode g i n → Foreign tenant n → HasNode g' i n

/-- No node of the batch is merged into a node of another tenant. -/
def NoForeignKey (tenant : String) (g : EntityGraph) (batch : List Event) : Prop :=
  ∀ i n, HasNode g i n → Foreign tenant n →
    ∀ ev ∈ batch, ∀ m ∈ ev.nodes, hasKey m.label m.naturalKey n = false

/-- The statement writes to the node. -/
def Statement.Touches (n : GraphNode NodeLabel Value) : Statement → Prop
  | .nodeUpsert label rows => ∃ row ∈ rows, hasKey label row.naturalKey n = true
  | .edgeUpsert .. => False

def stampedWith (tenant : String) (n : GraphNode NodeLabel Value) : Prop :=
  n.props "tenant_id" = some (.str tenant)

/-- The statement stamps the tenant on everything it writes to. -/
def Statement.Stamps (tenant : String) : Statement → Prop
  | .nodeUpsert _ rows => ∀ row ∈ rows, ∀ m : GraphNode NodeLabel Value,
      stampedWith tenant (m.set row.patch)
  | .edgeUpsert .. => True

theorem buildNodeRow_stamps (rt : Runtime) (d : Digest) (n : Node) (ev : Event)
    (m : GraphNode NodeLabel Value) :
    stampedWith (nonEmpty n.tenantID ev.tenantID) (m.set (buildNodeRow rt d n ev).patch) := by
  have hsnap : "tenant_id" ∉ (toPatch (snapshotProps ev)).map Prod.fst := by
    unfold snapshotProps
    split <;> simp [toPatch]
  simp only [stampedWith, GraphNode.set, NodeRow.patch, buildNodeRow, toPatch, List.map_append,
    PropertyGraph.setPlus_append] at hsnap ⊢
  rw [PropertyGraph.setPlus_of_not_mem (by simp), PropertyGraph.setPlus_of_not_mem hsnap]
  simp

theorem statements_stamp {rt : Runtime} {d : Digest} {tenant : String} {batch : List Event}
    (hb : ∀ ev ∈ batch, OfTenant tenant ev) {s : Statement} (hs : s ∈ statements rt d batch) :
    s.Stamps tenant := by
  simp only [statements, List.mem_append, List.mem_map, List.mem_flatMap] at hs
  rcases hs with ⟨label, -, rfl⟩ | ⟨rel, -, group, -, rfl⟩
  · intro row hrow m
    simp only [nodesByLabel, List.mem_flatMap, List.mem_map, List.mem_filter] at hrow
    obtain ⟨ev, hev, n, ⟨hn, -⟩, rfl⟩ := hrow
    exact hb ev hev n hn ▸ buildNodeRow_stamps rt d n ev m
  · trivial

/-- The nodes written to are those merged with a node of the batch. -/
theorem statements_touch_iff (rt : Runtime) (d : Digest) {batch : List Event}
    {n : GraphNode NodeLabel Value} :
    (∃ s ∈ statements rt d batch, s.Touches n) ↔
      ∃ ev ∈ batch, ∃ m ∈ ev.nodes, hasKey m.label m.naturalKey n = true := by
  constructor
  · rintro ⟨s, hs, ht⟩
    simp only [statements, List.mem_append, List.mem_map, List.mem_flatMap] at hs
    rcases hs with ⟨label, -, rfl⟩ | ⟨rel, -, group, -, rfl⟩
    · obtain ⟨row, hrow, hk⟩ := ht
      simp only [nodesByLabel, List.mem_flatMap, List.mem_map, List.mem_filter,
        decide_eq_true_eq] at hrow
      obtain ⟨ev, hev, m, ⟨hm, rfl⟩, rfl⟩ := hrow
      exact ⟨ev, hev, m, hm, hk⟩
    · exact ht.elim
  · rintro ⟨ev, hev, m, hm, hk⟩
    have hlabel : m.label ∈ sortedNodeLabels batch := by
      simp only [sortedNodeLabels, List.mem_insertionSort, List.mem_dedup, List.mem_flatMap,
        List.mem_map]
      exact ⟨ev, hev, m, hm, rfl⟩
    refine ⟨.nodeUpsert m.label (nodesByLabel rt d batch m.label),
      List.mem_append_left _ (List.mem_map_of_mem hlabel), buildNodeRow rt d m ev, ?_, hk⟩
    simp only [nodesByLabel, List.mem_flatMap, List.mem_map, List.mem_filter, decide_eq_true_eq]
    exact ⟨ev, hev, m, ⟨hm, rfl⟩, rfl⟩

theorem runStatement_untouched {g : EntityGraph} {i : Nat} {n : GraphNode NodeLabel Value}
    (h : HasNode g i n) {s : Statement} (ht : ¬ s.Touches n) : HasNode (runStatement g s) i n := by
  cases s with
  | nodeUpsert label rows =>
    have hkeep := PropertyGraph.upsertNodes_hasNode h
      (fun row : NodeRow => hasKey label row.naturalKey)
      (fun row => freshNode label row.naturalKey) NodeRow.patch rows
    rwa [PropertyGraph.applyRows_eq_self fun row hrow => by
      simpa using fun hk => ht ⟨row, hrow, hk⟩] at hkeep
  | edgeUpsert rel fromLabel toLabel rows => exact PropertyGraph.upsertRels_hasNode h ..

theorem runStatement_stamped {tenant : String} {g : EntityGraph} {i : Nat}
    {n : GraphNode NodeLabel Value} (h : HasNode g i n) {s : Statement} (hs : s.Stamps tenant)
    (hn : stampedWith tenant n ∨ s.Touches n) :
    ∃ m, HasNode (runStatement g s) i m ∧ stampedWith tenant m := by
  cases s with
  | nodeUpsert label rows =>
    exact ⟨_, PropertyGraph.upsertNodes_hasNode h _ _ _ rows,
      PropertyGraph.applyRows_establishes hs hn⟩
  | edgeUpsert rel fromLabel toLabel rows =>
    exact ⟨n, PropertyGraph.upsertRels_hasNode h .., hn.resolve_right id⟩

theorem run_untouched {stmts : List Statement} {g : EntityGraph} {i : Nat}
    {n : GraphNode NodeLabel Value} (h : HasNode g i n) (ht : ∀ s ∈ stmts, ¬ s.Touches n) :
    HasNode (stmts.foldl runStatement g) i n := by
  induction stmts generalizing g with
  | nil => exact h
  | cons s stmts ih =>
    exact ih (runStatement_untouched h (ht s List.mem_cons_self))
      fun t hmem => ht t (List.mem_cons_of_mem s hmem)

/-- A node that some statement writes to ends up with the tenant of the batch. -/
theorem run_stamped {tenant : String} {stmts : List Statement} {g : EntityGraph} {i : Nat}
    {n : GraphNode NodeLabel Value} (h : HasNode g i n) (hs : ∀ s ∈ stmts, s.Stamps tenant)
    (hn : stampedWith tenant n ∨ ∃ s ∈ stmts, s.Touches n) :
    ∃ m, HasNode (stmts.foldl runStatement g) i m ∧ stampedWith tenant m := by
  induction stmts generalizing g n with
  | nil =>
    rcases hn with hn | ⟨s, hmem, -⟩
    · exact ⟨n, h, hn⟩
    · cases hmem
  | cons s stmts ih =>
    have hs' := fun t hmem => hs t (List.mem_cons_of_mem s hmem)
    by_cases hnow : stampedWith tenant n ∨ s.Touches n
    · obtain ⟨m, hm, hst⟩ := runStatement_stamped h (hs s List.mem_cons_self) hnow
      exact ih hm hs' (Or.inl hst)
    · simp only [not_or] at hnow
      refine ih (runStatement_untouched h hnow.2) hs' (Or.inr ?_)
      rcases hn with hn | ⟨t, hmem, ht⟩
      · exact (hnow.1 hn).elim
      · rcases List.mem_cons.mp hmem with rfl | hmem
        · exact (hnow.2 ht).elim
        · exact ⟨t, hmem, ht⟩

/-- A flush keeps the nodes of the other tenants exactly when it is rolled back or merges
none of its nodes into one of them. -/
theorem flush_keeps_foreign_nodes_iff (rt : Runtime) (d : Digest) (fails : Statement → Bool)
    (g : EntityGraph) {tenant : String} {batch : List Event}
    (hb : ∀ ev ∈ batch, OfTenant tenant ev) :
    ForeignNodesKept tenant g (flushBatch rt d fails g batch).1 ↔
      ((statements rt d batch).any fails = true ∨ NoForeignKey tenant g batch) := by
  unfold flushBatch
  by_cases hf : (statements rt d batch).any fails = true
  · simp only [hf, if_true, true_or, iff_true]
    exact fun i n h _ => h
  simp only [hf, if_false, false_or, Bool.false_eq_true]
  constructor
  · intro hkept i n h hforeign ev hev m hm
    by_contra hk
    have htouch := (statements_touch_iff rt d).mpr ⟨ev, hev, m, hm, by simpa using hk⟩
    obtain ⟨k, hk, hstamp⟩ := run_stamped h (fun s hs => statements_stamp hb hs) (Or.inr htouch)
    obtain ⟨other, hother, hne⟩ := hforeign
    have hsame : k = n := Option.some.inj (hk.symm.trans (hkept i n h ⟨other, hother, hne⟩))
    rw [stampedWith, hsame, hother] at hstamp
    exact hne (by simpa using hstamp)
  · intro hno i n h hforeign
    refine run_untouched h fun s hs ht => ?_
    obtain ⟨ev, hev, m, hm, hk⟩ := (statements_touch_iff rt d).mp ⟨s, hs, ht⟩
    rw [hno i n h hforeign ev hev m hm] at hk
    cases hk

/-- A runtime without case mapping whose formats and digests are trivial. -/
def plainRuntime : Runtime := ⟨id, fun _ => none, fun _ => ""⟩

def plainDigest : Digest := ⟨fun _ => "", id⟩

/-- An event that carries one technique and nothing else. -/
def techniqueEvent (tenant : String) : List Event :=
  (extractFromOCSF plainRuntime 1 "evt" tenant "splunk_enterprise"
    (some [("mitre_attck", .list [.map [("technique_id", .str "T1059")]])])).toList

def techniqueGraph : EntityGraph :=
  (flushBatch plainRuntime plainDigest (fun _ => false) ⟨[], []⟩ (techniqueEvent "tenant-b")).1

theorem techniqueEvent_ofTenant (tenant : String) (h : tenant ≠ "") :
    ∀ ev ∈ techniqueEvent tenant, OfTenant tenant ev := by
  intro ev hev n hn
  have hscoped := GraphExtractor.extractFromOCSF_scoped (Option.mem_toList.mp hev)
  rw [(hscoped.nodes n hn).1, nonEmpty, if_pos h]

/-- Two tenants that see one technique share its node: the second flush takes it over. -/
theorem shared_technique_changes_tenant :
    (∀ ev ∈ techniqueEvent "tenant-a", OfTenant "tenant-a" ev) ∧
      ¬ ForeignNodesKept "tenant-a" techniqueGraph
        (flushBatch plainRuntime plainDigest (fun _ => false) techniqueGraph
          (techniqueEvent "tenant-a")).1 := by
  refine ⟨techniqueEvent_ofTenant "tenant-a" (by decide), fun hkept => ?_⟩
  have before : (techniqueGraph.nodes[0]?).map (fun n => n.props "tenant_id") =
      some (some (.str "tenant-b")) := by rfl
  have after : ((flushBatch plainRuntime plainDigest (fun _ => false) techniqueGraph
      (techniqueEvent "tenant-a")).1.nodes[0]?).map (fun n => n.props "tenant_id") =
      some (some (.str "tenant-a")) := by rfl
  obtain ⟨n, hn, htenant⟩ := Option.map_eq_some_iff.mp before
  rw [hkept 0 n hn ⟨"tenant-b", htenant, by decide⟩, Option.map_some, htenant] at after
  simp at after

/-- A technique of one tenant on an empty graph. -/
theorem flush_keeps_foreign_nodes_technique :
    ForeignNodesKept "tenant-b" ⟨[], []⟩
        (flushBatch plainRuntime plainDigest (fun _ => false) ⟨[], []⟩
          (techniqueEvent "tenant-b")).1 ↔
      ((statements plainRuntime plainDigest (techniqueEvent "tenant-b")).any (fun _ => false) =
        true ∨ NoForeignKey "tenant-b" ⟨[], []⟩ (techniqueEvent "tenant-b")) :=
  flush_keeps_foreign_nodes_iff plainRuntime plainDigest (fun _ => false) ⟨[], []⟩
    (techniqueEvent_ofTenant "tenant-b" (by decide))

end GraphWriter
