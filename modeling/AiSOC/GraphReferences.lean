import AiSOC.GraphBatching

/-! # Referential integrity of the projection

The edges of an event against its nodes, and both against the graph that a flush leaves. An
edge is merged with its ends, so it is never dropped; where its end is not a node of the event
a bare node is merged in its place. -/
namespace GraphReferences

open GraphExtractor (Runtime Object Event Edge extractFromOCSF)
open GraphWriter (Digest EntityGraph techniqueEvent plainRuntime plainDigest)
open GraphProjection (Closed HasEntity ServiceAccountAccess)
open GraphBatching (Extracted applyBatch batchWrites entityKeying)
open KeyedGraph

variable {rt : Runtime} {d : Digest} {ev : Event}

/-- The relationship of the edge is in the graph. -/
def Written (h : EntityGraph) (e : Edge) : Prop :=
  ∃ a b, keyAt entityKeying h a = some (e.fromLabel, e.fromKey) ∧
    keyAt entityKeying h b = some (e.toLabel, e.toKey) ∧ Connected h e.type a b

/-- The ends of the edges are nodes of the event; and whatever batch it is flushed with, no
key is there twice afterwards and no edge of it is missing. -/
structure Intact (rt : Runtime) (d : Digest) (ev : Event) : Prop where
  closed : Closed ev
  unique : ∀ (g : EntityGraph) (batch : List Event), WellFormed g → UniqueKeys entityKeying g →
    (∀ x ∈ batch, Extracted rt x) → ev ∈ batch → UniqueKeys entityKeying (applyBatch rt d g batch)
  written : ∀ (g : EntityGraph) (batch : List Event), WellFormed g →
    (∀ x ∈ batch, Extracted rt x) → ev ∈ batch → ∀ e ∈ ev.edges,
      Written (applyBatch rt d g batch) e

theorem applyBatch_uniqueKeys {g : EntityGraph} {batch : List Event} (hg : WellFormed g)
    (hunique : UniqueKeys entityKeying g) (hb : ∀ x ∈ batch, Extracted rt x) :
    UniqueKeys entityKeying (applyBatch rt d g batch) := by
  have hplain : ∀ x ∈ batch, GraphProjection.Plain x := fun x hx => (hb x hx).plain
  obtain ⟨-, news, links, hf⟩ := GraphBatching.applyBatch_flushed rt d hg hplain
  exact hf.uniqueKeys (GraphBatching.batchWrites_keepKeys hplain) hunique

theorem batchWrites_edge (rt : Runtime) (d : Digest) {batch : List Event} (hev : ev ∈ batch)
    {e : Edge} (he : e ∈ ev.edges) :
    (batchWrites rt d batch).rels e.type (e.fromLabel, e.fromKey) (e.toLabel, e.toKey) ≠ [] := by
  intro hnil
  have hnone := List.flatMap_eq_nil_iff.mp hnil ev hev
  rw [List.map_eq_nil_iff, List.filter_eq_nil_iff] at hnone
  apply hnone e he
  simp

/-- A flush merges both ends of every edge and the edge between them. -/
theorem applyBatch_written {g : EntityGraph} {batch : List Event} (hg : WellFormed g)
    (hb : ∀ x ∈ batch, Extracted rt x) (hev : ev ∈ batch) {e : Edge} (he : e ∈ ev.edges) :
    Written (applyBatch rt d g batch) e := by
  have hplain : ∀ x ∈ batch, GraphProjection.Plain x := fun x hx => (hb x hx).plain
  have hkeep : (batchWrites rt d batch).KeepKeys entityKeying :=
    GraphBatching.batchWrites_keepKeys hplain
  obtain ⟨-, news, links, hf⟩ := GraphBatching.applyBatch_flushed rt d hg hplain
  have hne := batchWrites_edge rt d hev he
  have hfrom := hf.present_of_touches hkeep (Or.inr ⟨e.type, _, Or.inl hne⟩)
  have hto := hf.present_of_touches hkeep (Or.inr ⟨e.type, _, Or.inr hne⟩)
  obtain ⟨a, ha⟩ := present_iff_keyAt.mp hfrom
  obtain ⟨b, hb⟩ := present_iff_keyAt.mp hto
  exact ⟨a, b, ha, hb, hf.connected_of_linked ⟨_, _, ha, hb, hne⟩⟩

/-- The projection of an event is intact unless a Kubernetes service account accesses a
resource: its node is a service account, the edge leaves a user. -/
theorem extracted_intact_iff {now : Int} {eventID tenantID connectorType : String}
    {ocsf : Object} (d : Digest)
    (h : extractFromOCSF rt now eventID tenantID connectorType (some ocsf) = some ev) :
    Intact rt d ev ↔ ¬ ServiceAccountAccess rt connectorType ocsf := by
  rw [← GraphProjection.extractFromOCSF_closed_iff h]
  constructor
  · intro hintact
    exact hintact.closed
  · intro hclosed
    refine ⟨hclosed, ?_, ?_⟩
    · intro g batch hg hunique hb _
      exact applyBatch_uniqueKeys hg hunique hb
    · intro g batch hg hb hev e he
      exact applyBatch_written hg hb hev he

/-- Access of a resource by the named user, as a Kubernetes audit event. -/
def accessObject (user : String) : Object :=
  [("actor", .map [("user", .map [("name", .str user)])]),
    ("activity_name", .str "get"), ("resource", .map [("name", .str "secret-1")])]

def accessEvent (user : String) : Option Event :=
  extractFromOCSF plainRuntime 1 "evt" "tenant-a" "kubernetes_audit" (some (accessObject user))

theorem user_access_intact : ∃ ev, accessEvent "jane" = some ev ∧
    (Intact plainRuntime plainDigest ev ↔
      ¬ ServiceAccountAccess plainRuntime "kubernetes_audit" (accessObject "jane")) := by
  have hev : ∃ ev, accessEvent "jane" = some ev := ⟨_, rfl⟩
  obtain ⟨ev, hev⟩ := hev
  exact ⟨ev, hev, extracted_intact_iff plainDigest hev⟩

/-- The edge of a service account leaves a user that is not among the nodes. -/
theorem service_account_not_intact : ¬ ∀ (rt : Runtime) (d : Digest) (now : Int)
    (eventID tenantID connectorType : String) (ocsf : Object) (ev : Event),
    extractFromOCSF rt now eventID tenantID connectorType (some ocsf) = some ev →
      Intact rt d ev := by
  intro h
  have hev : ∃ ev, accessEvent "system:serviceaccount:kube-system:default" = some ev ∧
      (∃ e ∈ ev.edges, e.fromLabel = .user) ∧ ∀ n ∈ ev.nodes, n.label ≠ .user := by
    refine ⟨_, rfl, ⟨_, List.mem_cons_self, rfl⟩, ?_⟩
    decide
  obtain ⟨ev, hev, hdangling⟩ := hev
  have hintact := h plainRuntime plainDigest 1 "evt" "tenant-a" "kubernetes_audit" _ ev hev
  exact GraphProjection.Dangling.not_closed hdangling hintact.closed

end GraphReferences
