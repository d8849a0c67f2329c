import AiSOC.GraphProjection
import AiSOC.GraphWriter
import AiSOC.KeyedUpsert

/-! # Batching of graph writes

What a flush writes does not depend on how its rows are grouped into statements: it is, key
by key, what the events of the batch write in order. So a sequence of events may be split
into batches anywhere, and a batch may be applied again. -/
namespace GraphBatching

open PropertyGraph (GraphNode Graph Patch)
open GraphExtractor (Runtime Value Object NodeLabel RelType Node Edge Event extractFromOCSF)
open GraphWriter
open KeyedGraph
open KeyedUpsert

abbrev EntityKey := NodeLabel × String

abbrev EntityWrites := Writes EntityKey RelType Value

/-- Nodes are merged on their label and natural key. -/
def entityKeying : Keying EntityKey NodeLabel Value where
  key n := match n.props "natural_key" with
    | some (.str k) => some (n.label, k)
    | _ => none
  fresh k := freshNode k.1 k.2
  key_fresh k := by simp [freshNode]

/-- What one statement writes. -/
def Statement.writes : Statement → EntityWrites
  | .nodeUpsert label rows => nodeWrites (fun row => (label, row.naturalKey)) NodeRow.patch rows
  | .edgeUpsert rel fromLabel toLabel rows =>
    relWrites rel (fun row => (fromLabel, row.fromKey)) (fun row => (toLabel, row.toKey))
      (fun row => toPatch row.props) rows

def statementsWrites (stmts : List Statement) : EntityWrites where
  nodes k := stmts.flatMap fun s => (Statement.writes s).nodes k
  rels t a b := stmts.flatMap fun s => (Statement.writes s).rels t a b

/-- What the events of a batch write, in order. -/
def batchWrites (rt : Runtime) (d : Digest) (batch : List Event) : EntityWrites where
  nodes k := batch.flatMap fun ev =>
    (ev.nodes.filter fun n => (n.label, n.naturalKey) = k).map fun n =>
      (buildNodeRow rt d n ev).patch
  rels t a b := batch.flatMap fun ev =>
    (ev.edges.filter fun e => e.type = t ∧ (e.fromLabel, e.fromKey) = a ∧
      (e.toLabel, e.toKey) = b).map fun e => toPatch (buildEdgeRow rt e ev).props

/-- A flush whose statements all succeed. -/
def applyBatch (rt : Runtime) (d : Digest) (g : EntityGraph) (batch : List Event) : EntityGraph :=
  (flushBatch rt d (fun _ => false) g batch).1

/-- The event comes out of the extraction. -/
def Extracted (rt : Runtime) (ev : Event) : Prop :=
  ∃ now eventID tenantID connectorType ocsf,
    extractFromOCSF rt now eventID tenantID connectorType ocsf = some ev

variable {rt : Runtime} {d : Digest} {g h : EntityGraph}

theorem entityKey_eq_some_iff {n : GraphNode NodeLabel Value} {label : NodeLabel} {key : String} :
    entityKeying.key n = some (label, key) ↔
      n.label = label ∧ n.props "natural_key" = some (.str key) := by
  unfold entityKeying
  dsimp only
  split
  · rename_i k hkey
    simp [hkey]
  · rename_i hkey
    simp only [reduceCtorEq, false_iff, not_and]
    exact fun _ hk => hkey key hk

theorem hasKey_eq_sel (label : NodeLabel) (key : String) :
    hasKey label key = sel entityKeying (label, key) := by
  funext n
  have hsel : sel entityKeying (label, key) n = true ↔
      n.label = label ∧ n.props "natural_key" = some (.str key) := by
    rw [sel, decide_eq_true_eq, entityKey_eq_some_iff]
  rw [Bool.eq_iff_iff, hsel]
  unfold hasKey
  split
  · rename_i k hkey
    simp [hkey]
  · rename_i hkey
    simp only [Bool.and_false, Bool.false_eq_true, false_iff, not_and]
    exact fun _ hk => hkey key hk

theorem runStatement_flushed (g : EntityGraph) (s : Statement) :
    Flushed entityKeying (Statement.writes s) g (runStatement g s) := by
  cases s with
  | nodeUpsert label rows =>
    simp only [runStatement, hasKey_eq_sel]
    exact upsertNodes_flushed entityKeying g (fun row : NodeRow => (label, row.naturalKey))
      NodeRow.patch rows
  | edgeUpsert rel fromLabel toLabel rows =>
    simp only [runStatement, hasKey_eq_sel]
    exact upsertRels_flushed entityKeying g rel
      (fun row : EdgeRow => (fromLabel, row.fromKey)) (fun row => (toLabel, row.toKey))
      (fun row => toPatch row.props) rows

theorem set_keepsKey {patch : Patch Value} (h : "natural_key" ∉ patch.map Prod.fst)
    (n : GraphNode NodeLabel Value) :
    entityKeying.key (n.set patch) = entityKeying.key n := by
  unfold entityKeying GraphNode.set
  dsimp only
  rw [PropertyGraph.setPlus_of_not_mem h]

theorem buildNodeRow_keepsKey {n : Node} (hn : GraphProjection.Keyless n.properties)
    (ev : Event) : "natural_key" ∉ (buildNodeRow rt d n ev).patch.map Prod.fst := by
  have hsnap : "natural_key" ∉ (snapshotProps ev).map Prod.fst := by
    unfold snapshotProps
    split <;> simp
  simp only [GraphProjection.Keyless] at hn
  simp only [NodeRow.patch, buildNodeRow, toPatch, List.map_append, List.map_map]
  simp_all [Function.comp_def]

theorem batchWrites_keepKeys {batch : List Event}
    (hb : ∀ ev ∈ batch, GraphProjection.Plain ev) :
    (batchWrites rt d batch).KeepKeys entityKeying := by
  intro k patch hpatch n
  obtain ⟨ev, hev, hpatch⟩ := List.mem_flatMap.mp hpatch
  obtain ⟨m, hm, rfl⟩ := List.mem_map.mp hpatch
  exact set_keepsKey (buildNodeRow_keepsKey (hb ev hev m (List.mem_filter.mp hm).1) ev) n

theorem batchWrites_append (b c : List Event) :
    batchWrites rt d (b ++ c) = (batchWrites rt d b).append (batchWrites rt d c) := by
  simp [batchWrites, Writes.append]

/-- Only one member of the list contributes. -/
theorem flatMap_of_nodup {α β : Type*} [DecidableEq α] {xs : List α} (hnodup : xs.Nodup)
    {f : α → List β} {x : α} (hother : ∀ y ∈ xs, y ≠ x → f y = []) :
    xs.flatMap f = if x ∈ xs then f x else [] := by
  induction xs with
  | nil => rfl
  | cons y xs ih =>
    obtain ⟨hy, hrest⟩ := List.nodup_cons.mp hnodup
    rw [List.flatMap_cons, ih hrest fun z hz => hother z (List.mem_cons_of_mem y hz)]
    by_cases hyx : y = x
    · subst hyx
      simp [hy]
    · rw [hother y List.mem_cons_self hyx]
      simp [Ne.symm hyx]

theorem nodesByLabel_eq_nil {batch : List Event} {label : NodeLabel}
    (h : label ∉ sortedNodeLabels batch) : nodesByLabel rt d batch label = [] := by
  simp only [sortedNodeLabels, List.mem_insertionSort, List.mem_dedup, List.mem_flatMap,
    List.mem_map, not_exists, not_and] at h
  refine List.flatMap_eq_nil_iff.mpr fun ev hev => ?_
  rw [List.map_eq_nil_iff, List.filter_eq_nil_iff]
  exact fun n hn hlabel => h ev hev n hn (of_decide_eq_true hlabel)

theorem edgesByType_eq_nil {batch : List Event} {rel : RelType}
    (h : rel ∉ sortedRelTypes batch) : edgesByType rt batch rel = [] := by
  simp only [sortedRelTypes, List.mem_insertionSort, List.mem_dedup, List.mem_flatMap,
    List.mem_map, not_exists, not_and] at h
  refine List.flatMap_eq_nil_iff.mpr fun ev hev => ?_
  rw [List.map_eq_nil_iff, List.filter_eq_nil_iff]
  exact fun e he htype => h ev hev e he (of_decide_eq_true htype)

theorem statements_flatMap {β : Type*} (rt : Runtime) (d : Digest) (batch : List Event)
    (f : Statement → List β) :
    (statements rt d batch).flatMap f =
      ((sortedNodeLabels batch).flatMap fun label =>
        f (.nodeUpsert label (nodesByLabel rt d batch label))) ++
      (sortedRelTypes batch).flatMap fun rel =>
        (groupEdgesByEndpointLabels (edgesByType rt batch rel)).flatMap fun grp =>
          f (.edgeUpsert rel grp.1 grp.2.1 grp.2.2) := by
  rw [statements, List.flatMap_append, List.flatMap_map, List.flatMap_assoc]
  simp only [List.flatMap_map]

/-- The statement of a label has the rows of its keys, in order. -/
theorem statements_nodes (rt : Runtime) (d : Digest) (batch : List Event) (k : EntityKey) :
    (statementsWrites (statements rt d batch)).nodes k = (batchWrites rt d batch).nodes k := by
  obtain ⟨label, key⟩ := k
  have hrows : (Statement.writes (.nodeUpsert label (nodesByLabel rt d batch label))).nodes
      (label, key) = (batchWrites rt d batch).nodes (label, key) := by
    simp only [Statement.writes, nodeWrites, nodePatches, nodesByLabel, batchWrites, List.filter_flatMap, List.map_flatMap,
      List.filter_map, List.map_map, List.filter_filter]
    refine List.flatMap_congr fun ev _ => ?_
    congr 1
    refine List.filter_congr fun n _ => ?_
    simp [buildNodeRow, Bool.and_comm]
  have hother : ∀ l ∈ sortedNodeLabels batch, l ≠ label →
      (Statement.writes (.nodeUpsert l (nodesByLabel rt d batch l))).nodes (label, key) = [] := by
    intro l _ hne
    simp [Statement.writes, nodeWrites, nodePatches, hne]
  have hnodup : (sortedNodeLabels batch).Nodup :=
    (List.perm_insertionSort _ _).nodup_iff.mpr (List.nodup_dedup _)
  have hedges : ((sortedRelTypes batch).flatMap fun rel =>
      (groupEdgesByEndpointLabels (edgesByType rt batch rel)).flatMap fun grp =>
        (Statement.writes (.edgeUpsert rel grp.1 grp.2.1 grp.2.2)).nodes (label, key)) = [] :=
    List.flatMap_eq_nil_iff.mpr fun _ _ => List.flatMap_eq_nil_iff.mpr fun _ _ => rfl
  unfold statementsWrites
  dsimp only
  rw [statements_flatMap, hedges, List.append_nil, flatMap_of_nodup hnodup hother]
  split
  · exact hrows
  · rename_i habsent
    rw [← hrows, nodesByLabel_eq_nil habsent]
    rfl

/-- The patches of the rows that lead from one key to the other. -/
def patchesBetween (a b : EntityKey) (rows : List EdgeRow) : List (Patch Value) :=
  (rows.filter fun row => (row.fromLabel, row.fromKey) = a ∧ (row.toLabel, row.toKey) = b).map
    fun row => toPatch row.props

/-- Grouping by the end labels keeps the order of the rows between two keys. -/
theorem groups_patches (a b : EntityKey) (rows : List EdgeRow) :
    ((groupEdgesByEndpointLabels rows).flatMap fun grp =>
      (grp.2.2.filter fun row => (grp.1, row.fromKey) = a ∧ (grp.2.1, row.toKey) = b).map
        fun row => toPatch row.props) = patchesBetween a b rows := by
  have hnodup : ((rows.map fun r => (r.fromLabel, r.toLabel)).dedup.insertionSort
      fun a b => a.1.text ++ "->" ++ a.2.text ≤ b.1.text ++ "->" ++ b.2.text).Nodup :=
    (List.perm_insertionSort _ _).nodup_iff.mpr (List.nodup_dedup _)
  rw [groupEdgesByEndpointLabels, List.flatMap_map]
  rw [flatMap_of_nodup (x := (a.1, b.1)) hnodup]
  · split
    · rw [patchesBetween, List.filter_filter]
      congr 1
      refine List.filter_congr fun row _ => ?_
      obtain ⟨al, ak⟩ := a
      obtain ⟨bl, bk⟩ := b
      simp only [Prod.mk.injEq, Bool.decide_and, decide_true, Bool.true_and]
      by_cases hfrom : row.fromLabel = al <;> by_cases hto : row.toLabel = bl <;>
        simp [hfrom, hto]
    · rename_i habsent
      simp only [List.mem_insertionSort, List.mem_dedup, List.mem_map, not_exists, not_and] at habsent
      symm
      rw [patchesBetween, List.map_eq_nil_iff, List.filter_eq_nil_iff]
      intro row hrow hends
      obtain ⟨rfl, rfl⟩ := of_decide_eq_true hends
      exact habsent row hrow rfl
  · rintro ⟨c, e⟩ - hne
    rw [List.map_eq_nil_iff, List.filter_eq_nil_iff]
    intro row _ hends
    obtain ⟨rfl, rfl⟩ := of_decide_eq_true hends
    exact hne rfl

/-- The statements of a type have the rows between two keys, in order. -/
theorem statements_rels (rt : Runtime) (d : Digest) (batch : List Event) (t : RelType)
    (a b : EntityKey) :
    (statementsWrites (statements rt d batch)).rels t a b =
      (batchWrites rt d batch).rels t a b := by
  have hrows : patchesBetween a b (edgesByType rt batch t) =
      (batchWrites rt d batch).rels t a b := by
    simp only [patchesBetween, edgesByType, batchWrites, List.filter_flatMap, List.map_flatMap,
      List.filter_map, List.map_map, List.filter_filter]
    refine List.flatMap_congr fun ev _ => ?_
    congr 1
    refine List.filter_congr fun e _ => ?_
    simp only [Function.comp_apply, buildEdgeRow]
    by_cases htype : e.type = t <;> simp [htype]
  have hnodes : ((sortedNodeLabels batch).flatMap fun label =>
      (Statement.writes (.nodeUpsert label (nodesByLabel rt d batch label))).rels t a b) = [] :=
    List.flatMap_eq_nil_iff.mpr fun _ _ => rfl
  have hnodup : (sortedRelTypes batch).Nodup :=
    (List.perm_insertionSort _ _).nodup_iff.mpr (List.nodup_dedup _)
  have hother : ∀ rel ∈ sortedRelTypes batch, rel ≠ t →
      ((groupEdgesByEndpointLabels (edgesByType rt batch rel)).flatMap fun grp =>
        (Statement.writes (.edgeUpsert rel grp.1 grp.2.1 grp.2.2)).rels t a b) = [] :=
    fun rel _ hne => List.flatMap_eq_nil_iff.mpr fun _ _ => if_neg (Ne.symm hne)
  unfold statementsWrites
  dsimp only
  rw [statements_flatMap, hnodes, List.nil_append, flatMap_of_nodup hnodup hother]
  split
  · rw [← hrows, ← groups_patches]
    exact List.flatMap_congr fun grp _ => if_pos rfl
  · rename_i habsent
    rw [← hrows, edgesByType_eq_nil habsent]
    rfl

theorem statementsWrites_eq (rt : Runtime) (d : Digest) (batch : List Event) :
    statementsWrites (statements rt d batch) = batchWrites rt d batch :=
  Writes.ext (funext (statements_nodes rt d batch))
    (funext fun t => funext fun a => funext (statements_rels rt d batch t a))

/-- Statements one after the other. -/
theorem run_flushed {stmts : List Statement} (hg : WellFormed g)
    (hkeep : (statementsWrites stmts).KeepKeys entityKeying) :
    WellFormed (stmts.foldl runStatement g) ∧
      Flushed entityKeying (statementsWrites stmts) g (stmts.foldl runStatement g) := by
  induction stmts generalizing g with
  | nil => exact ⟨hg, flushed_nothing g (fun _ => rfl) fun _ _ _ => rfl⟩
  | cons s stmts ih =>
    have hfirst : (Statement.writes s).KeepKeys entityKeying :=
      fun k patch hp => hkeep k patch (List.mem_append_left _ hp)
    have hrest : (statementsWrites stmts).KeepKeys entityKeying :=
      fun k patch hp => hkeep k patch (List.mem_append_right _ hp)
    obtain ⟨news, links, hf⟩ := runStatement_flushed g s
    obtain ⟨hwf, news', links', hf'⟩ := ih (hf.wellFormed hg) hrest
    exact ⟨hwf, _, _, hf.append hf' hfirst hrest hg⟩

theorem applyBatch_eq (rt : Runtime) (d : Digest) (g : EntityGraph) (batch : List Event) :
    applyBatch rt d g batch = (statements rt d batch).foldl runStatement g := by
  simp [applyBatch, flushBatch]

/-- A flush makes the writes of its events. -/
theorem applyBatch_flushed (rt : Runtime) (d : Digest) {batch : List Event} (hg : WellFormed g)
    (hb : ∀ ev ∈ batch, GraphProjection.Plain ev) :
    WellFormed (applyBatch rt d g batch) ∧
      Flushed entityKeying (batchWrites rt d batch) g (applyBatch rt d g batch) := by
  rw [applyBatch_eq, ← statementsWrites_eq]
  refine run_flushed hg ?_
  rw [statementsWrites_eq]
  exact batchWrites_keepKeys hb

/-- And so do flushes one after the other, however the events are split. -/
theorem applyBatches_flushed (rt : Runtime) (d : Digest) {batches : List (List Event)} (hg : WellFormed g)
    (hb : ∀ batch ∈ batches, ∀ ev ∈ batch, GraphProjection.Plain ev) :
    WellFormed (batches.foldl (applyBatch rt d) g) ∧
      Flushed entityKeying (batchWrites rt d batches.flatten) g
        (batches.foldl (applyBatch rt d) g) := by
  induction batches generalizing g with
  | nil => exact ⟨hg, flushed_nothing g (fun _ => rfl) fun _ _ _ => rfl⟩
  | cons batch batches ih =>
    have hfirst := hb batch List.mem_cons_self
    have hrest : ∀ b ∈ batches, ∀ ev ∈ b, GraphProjection.Plain ev :=
      fun b hmem => hb b (List.mem_cons_of_mem batch hmem)
    obtain ⟨hwf₁, news, links, hf⟩ := applyBatch_flushed rt d hg hfirst
    obtain ⟨hwf, news', links', hf'⟩ := ih hwf₁ hrest
    have hflat : ∀ ev ∈ batches.flatten, GraphProjection.Plain ev := by
      intro ev hev
      obtain ⟨b, hmem, hev⟩ := List.mem_flatten.mp hev
      exact hrest b hmem ev hev
    rw [List.flatten_cons, batchWrites_append]
    exact ⟨hwf, _, _, hf.append hf' (batchWrites_keepKeys hfirst) (batchWrites_keepKeys hflat) hg⟩

/-- Wherever a batch of the run has been applied, applying it again changes nothing. -/
def Reapplicable (rt : Runtime) (d : Digest) (g : EntityGraph) (batches : List (List Event)) :
    Prop :=
  ∀ before batch after, batches = before ++ batch :: after →
    applyBatch rt d ((before ++ [batch]).foldl (applyBatch rt d) g) batch =
      (before ++ [batch]).foldl (applyBatch rt d) g

theorem reapply_eq {batch : List Event} (hg : WellFormed g)
    (hb : ∀ ev ∈ batch, GraphProjection.Plain ev) :
    applyBatch rt d (applyBatch rt d g batch) batch = applyBatch rt d g batch := by
  obtain ⟨hwf, news, links, hf⟩ := applyBatch_flushed rt d hg hb
  obtain ⟨-, news', links', hf'⟩ := applyBatch_flushed rt d hwf hb
  exact hf.eq_of_again hf' (batchWrites_keepKeys hb)

theorem Extracted.plain {ev : Event} (h : Extracted rt ev) : GraphProjection.Plain ev := by
  obtain ⟨now, eventID, tenantID, connectorType, ocsf, h⟩ := h
  exact GraphProjection.extractFromOCSF_plain h

/-- However a sequence of extracted events is split into batches, the same graph comes out as
from the events one at a time, and a batch may be applied twice. -/
theorem batching_invariant (rt : Runtime) (d : Digest) {g : EntityGraph} (hg : WellFormed g)
    {batches : List (List Event)} (hb : ∀ batch ∈ batches, ∀ ev ∈ batch, Extracted rt ev) :
    SameGraph (batches.foldl (applyBatch rt d) g)
        (batches.flatten.foldl (fun g ev => applyBatch rt d g [ev]) g) ∧
      Reapplicable rt d g batches := by
  have hplain : ∀ batch ∈ batches, ∀ ev ∈ batch, GraphProjection.Plain ev :=
    fun batch hmem ev hev => (hb batch hmem ev hev).plain
  constructor
  · have hsingle : ∀ batch ∈ batches.flatten.map fun ev => [ev], ∀ ev ∈ batch,
        GraphProjection.Plain ev := by
      intro batch hmem ev hev
      obtain ⟨e, he, rfl⟩ := List.mem_map.mp hmem
      cases List.mem_singleton.mp hev
      obtain ⟨b, hbatch, hev⟩ := List.mem_flatten.mp he
      exact hplain b hbatch _ hev
    obtain ⟨-, news, links, hf⟩ := applyBatches_flushed rt d hg hplain
    obtain ⟨-, news', links', hf'⟩ := applyBatches_flushed rt d hg hsingle
    have hflat : ∀ l : List Event, (l.map fun ev => [ev]).flatten = l := by
      intro l
      rw [← List.flatMap_def, List.flatMap_singleton']
    rw [hflat, List.foldl_map] at hf'
    exact hf.sameGraph hf' hg
  · rintro before batch after rfl
    have hbefore := applyBatches_flushed rt d hg
      fun b hmem => hplain b (List.mem_append_left _ hmem)
    rw [List.foldl_append, List.foldl_cons, List.foldl_nil]
    exact reapply_eq hbefore.1 (hplain batch (List.mem_append_right _ List.mem_cons_self))

theorem techniqueEvent_extracted (tenant : String) :
    ∀ ev ∈ techniqueEvent tenant, Extracted plainRuntime ev :=
  fun _ hev => ⟨_, _, _, _, _, Option.mem_toList.mp hev⟩

/-- One technique, seen by two tenants in one batch. -/
theorem batching_invariant_technique :
    SameGraph ([techniqueEvent "tenant-a" ++ techniqueEvent "tenant-b"].foldl
        (applyBatch plainRuntime plainDigest) ⟨[], []⟩)
      ([techniqueEvent "tenant-a" ++ techniqueEvent "tenant-b"].flatten.foldl
        (fun g ev => applyBatch plainRuntime plainDigest g [ev]) ⟨[], []⟩) ∧
      Reapplicable plainRuntime plainDigest ⟨[], []⟩
        [techniqueEvent "tenant-a" ++ techniqueEvent "tenant-b"] := by
  refine batching_invariant plainRuntime plainDigest (fun _ hr => by cases hr) ?_
  intro batch hmem ev hev
  cases List.mem_singleton.mp hmem
  rcases List.mem_append.mp hev with hev | hev
  · exact techniqueEvent_extracted _ ev hev
  · exact techniqueEvent_extracted _ ev hev

end GraphBatching
