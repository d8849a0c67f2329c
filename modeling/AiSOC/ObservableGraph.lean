import AiSOC.CodeText
import AiSOC.KeyedMerge

/-! # The observable graph of a case

Requests send nodes and edges to the graph that is stored with a case. -/
namespace ObservableGraph

open CodeText KeyedMerge

inductive Kind where
  | ip | user | host | domain | hash | file | process | alert
  deriving DecidableEq

structure ObservableNode where
  id : Text
  kind : Kind
  value : Text
  tags : List Text
  deriving DecidableEq

structure ObservableEdge where
  source : Text
  target : Text
  relation : Text
  deriving DecidableEq

structure UpdateObservablesRequest where
  nodes : List ObservableNode
  edges : List ObservableEdge

/-- The graph in the database, where either list may be missing. -/
structure StoredGraph where
  nodes : Option (List ObservableNode)
  edges : Option (List ObservableEdge)
  deriving DecidableEq

@[grind =]
def nodesOf (stored : Option StoredGraph) : List ObservableNode :=
  (stored.bind StoredGraph.nodes).getD []

@[grind =]
def edgesOf (stored : Option StoredGraph) : List ObservableEdge :=
  (stored.bind StoredGraph.edges).getD []

def pair (e : ObservableEdge) : Text × Text := (e.source, e.target)

@[grind =]
def addNode (existingIds : List Text) (nodes : List ObservableNode) (n : ObservableNode) :
    List ObservableNode :=
  if n.id ∉ existingIds then nodes ++ [n]
  else nodes.map fun x => if x.id = n.id then n else x

@[grind =]
def addEdge (edgeKeys : List (Text × Text)) (edges : List ObservableEdge) (e : ObservableEdge) :
    List ObservableEdge :=
  if pair e ∉ edgeKeys then edges ++ [e] else edges

/-- The ids and the pairs are those from before the first node and the first edge. -/
@[grind =]
def updateObservables (stored : Option StoredGraph) (body : UpdateObservablesRequest) :
    StoredGraph where
  nodes := some (body.nodes.foldl (addNode ((nodesOf stored).map ObservableNode.id))
    (nodesOf stored))
  edges := some (body.edges.foldl (addEdge ((edgesOf stored).map pair)) (edgesOf stored))

/-- A request, and whether the database takes its update. -/
structure Call where
  body : UpdateObservablesRequest
  saved : Bool

@[grind =]
def perform (stored : Option StoredGraph) (call : Call) : Option StoredGraph :=
  if call.saved then some (updateObservables stored call.body) else stored

@[grind =]
def run (stored : Option StoredGraph) (calls : List Call) : Option StoredGraph :=
  calls.foldl perform stored

/-! ## What is claimed of a run, and where it holds -/

/-- What a call sends and saves. -/
def Call.nodes (call : Call) : List ObservableNode := if call.saved then call.body.nodes else []

def Call.edges (call : Call) : List ObservableEdge := if call.saved then call.body.edges else []

/-- What was ever stored or sent. -/
@[grind =]
def knownNodes (stored : Option StoredGraph) (calls : List Call) : List ObservableNode :=
  nodesOf stored ++ calls.flatMap Call.nodes

@[grind =]
def knownEdges (stored : Option StoredGraph) (calls : List Call) : List ObservableEdge :=
  edgesOf stored ++ calls.flatMap Call.edges

/-- One node for each id, with its last contents, and each edge once. -/
structure IsUnion (stored : Option StoredGraph) (calls : List Call)
    (result : Option StoredGraph) : Prop where
  nodes : Holds ObservableNode.id (knownNodes stored calls) (nodesOf result)
  edges_nodup : (edgesOf result).Nodup
  mem_edges : ∀ e, e ∈ edgesOf result ↔ e ∈ knownEdges stored calls

/-- After the calls the graph is the union, and the last call repeated changes nothing. -/
def UpdatesUnion (stored : Option StoredGraph) (calls : List Call) : Prop :=
  IsUnion stored calls (run stored calls) ∧
    ∀ call ∈ calls.getLast?, run stored (calls ++ [call]) = run stored calls

/-- No new id and no edge between a new pair is sent twice, and edges between a known pair are
known. -/
structure Unambiguous (nodes : List ObservableNode) (edges : List ObservableEdge) (call : Call) :
    Prop where
  nodes : ((unknown ObservableNode.id nodes call.nodes).map ObservableNode.id).Nodup
  parallel : ∀ e ∈ call.edges, pair e ∈ edges.map pair → e ∈ edges
  edges : (unknown pair edges call.edges).Nodup

/-- Each request is unambiguous over what is known before it. -/
def AllUnambiguous (stored : Option StoredGraph) (calls : List Call) : Prop :=
  (edgesOf stored).Nodup ∧ ∀ before call after, calls = before ++ call :: after →
    Unambiguous (knownNodes stored before) (knownEdges stored before) call

/-! ## One request -/

theorem addNodes_eq (nodes sent : List ObservableNode) :
    sent.foldl (addNode (nodes.map ObservableNode.id)) nodes =
      replaced ObservableNode.id nodes sent ++ unknown ObservableNode.id nodes sent := by
  induction sent using List.reverseRecOn with
  | nil => rw [List.foldl_nil, replaced_nil, unknown_nil, List.append_nil]
  | append_singleton sent n ih =>
    rw [List.foldl_append, ih, List.foldl_cons, List.foldl_nil, addNode]
    by_cases hold : n.id ∈ nodes.map ObservableNode.id
    · rw [if_neg (not_not.mpr hold), unknown_concat_of_mem hold, List.map_append, replaced,
        List.map_map]
      congr 1
      · refine List.map_congr_left fun x _ => ?_
        have hid : ((last ObservableNode.id sent x.id).getD x).id = x.id :=
          @key_replaced _ _ _ ObservableNode.id sent x
        rw [Function.comp_apply, hid, last_append, last_singleton]
        by_cases hsame : x.id = n.id
        · rw [if_pos hsame, if_pos hsame.symm, Option.some_or, Option.getD_some]
        · rw [if_neg hsame, if_neg (Ne.symm hsame), Option.none_or]
      · refine (List.map_congr_left fun x hx => ?_).trans (List.map_id _)
        have hother : x.id ≠ n.id := fun h => (mem_unknown.mp hx).2 (h ▸ hold)
        rw [if_neg hother, id_eq]
    · have hsame : replaced ObservableNode.id nodes (sent ++ [n]) =
          replaced ObservableNode.id nodes sent := by
        refine List.map_congr_left fun x hx => ?_
        have hother : n.id ≠ x.id := fun h => hold (h ▸ List.mem_map_of_mem hx)
        rw [last_append, last_singleton, if_neg hother, Option.none_or]
      rw [if_pos hold, hsame, unknown_concat_of_notMem hold, List.append_assoc]

theorem addEdges_eq (edges sent : List ObservableEdge) :
    sent.foldl (addEdge (edges.map pair)) edges = edges ++ unknown pair edges sent := by
  induction sent using List.reverseRecOn with
  | nil => rw [List.foldl_nil, unknown_nil, List.append_nil]
  | append_singleton sent e ih =>
    rw [List.foldl_append, ih, List.foldl_cons, List.foldl_nil, addEdge]
    by_cases hold : pair e ∈ edges.map pair
    · rw [if_neg (not_not.mpr hold), unknown_concat_of_mem hold]
    · rw [if_pos hold, unknown_concat_of_notMem hold, List.append_assoc]

variable {stored : Option StoredGraph} {calls : List Call} {call : Call}

theorem nodesOf_perform : nodesOf (perform stored call) =
    replaced ObservableNode.id (nodesOf stored) call.nodes ++
      unknown ObservableNode.id (nodesOf stored) call.nodes := by
  rw [perform, Call.nodes]
  split_ifs
  · exact addNodes_eq _ _
  · rw [replaced_nil, unknown_nil, List.append_nil]

theorem edgesOf_perform : edgesOf (perform stored call) =
    edgesOf stored ++ unknown pair (edgesOf stored) call.edges := by
  rw [perform, Call.edges]
  split_ifs
  · exact addEdges_eq _ _
  · rw [unknown_nil, List.append_nil]

/-! ## Runs -/

theorem run_concat : run stored (calls ++ [call]) = perform (run stored calls) call :=
  List.foldl_concat perform stored call calls

theorem knownNodes_concat :
    knownNodes stored (calls ++ [call]) = knownNodes stored calls ++ call.nodes := by
  rw [knownNodes, List.flatMap_append, List.flatMap_singleton, ← List.append_assoc, knownNodes]

theorem knownEdges_concat :
    knownEdges stored (calls ++ [call]) = knownEdges stored calls ++ call.edges := by
  rw [knownEdges, List.flatMap_append, List.flatMap_singleton, ← List.append_assoc, knownEdges]

/-- The ids of the nodes and the pairs of the edges are those known, whatever was sent. -/
structure KeysKnown (stored : Option StoredGraph) (calls : List Call)
    (result : Option StoredGraph) : Prop where
  ids : ∀ id, id ∈ (nodesOf result).map ObservableNode.id ↔
    id ∈ (knownNodes stored calls).map ObservableNode.id
  pairs : ∀ p, p ∈ (edgesOf result).map pair ↔ p ∈ (knownEdges stored calls).map pair
  edges : ∀ e ∈ edgesOf result, e ∈ knownEdges stored calls

theorem keysKnown_run (stored : Option StoredGraph) (calls : List Call) :
    KeysKnown stored calls (run stored calls) := by
  induction calls using List.reverseRecOn with
  | nil =>
    have hnodes : knownNodes stored [] = nodesOf stored := List.append_nil _
    have hedges : knownEdges stored [] = edgesOf stored := List.append_nil _
    exact ⟨fun _ => by rw [hnodes]; rfl, fun _ => by rw [hedges]; rfl,
      fun _ he => by rw [hedges]; exact he⟩
  | append_singleton calls call ih =>
    rw [run_concat]
    refine ⟨fun id => ?_, fun p => ?_, fun e he => ?_⟩
    · rw [nodesOf_perform, knownNodes_concat, List.map_append, keys_replaced, List.mem_append,
        mem_keys_append_unknown, ih.ids, List.map_append, List.mem_append]
    · rw [edgesOf_perform, knownEdges_concat, List.map_append, List.mem_append,
        mem_keys_append_unknown, ih.pairs, List.map_append, List.mem_append]
    · rw [edgesOf_perform, List.mem_append] at he
      rw [knownEdges_concat, List.mem_append]
      exact he.imp (ih.edges e) fun h => (mem_unknown.mp h).1

/-- The nodes are the last ones of their ids exactly if no id is twice. -/
theorem holds_run_iff (h : ((nodesOf stored).map ObservableNode.id).Nodup) :
    Holds ObservableNode.id (knownNodes stored calls) (nodesOf (run stored calls)) ↔
      ((nodesOf (run stored calls)).map ObservableNode.id).Nodup := by
  refine ⟨Holds.nodup, ?_⟩
  induction calls using List.reverseRecOn with
  | nil =>
    intro _
    rw [knownNodes, List.flatMap_nil, List.append_nil]
    exact holds_self h
  | append_singleton calls call ih =>
    rw [run_concat, nodesOf_perform, List.map_append, keys_replaced, nodup_append_unknown,
      knownNodes_concat]
    exact fun hnodup => (ih hnodup.1).merge hnodup.2

theorem isUnion_nil (h : ((nodesOf stored).map ObservableNode.id).Nodup) :
    IsUnion stored [] (run stored []) ↔ (edgesOf stored).Nodup := by
  refine ⟨IsUnion.edges_nodup, fun hedges => ⟨(holds_run_iff h).mpr h, hedges, fun e => ?_⟩⟩
  rw [knownEdges, List.flatMap_nil, List.append_nil]
  rfl

/-- One more request keeps the union exactly if it is unambiguous. What goes wrong once is never
made good. -/
theorem isUnion_concat (h : ((nodesOf stored).map ObservableNode.id).Nodup) :
    IsUnion stored (calls ++ [call]) (run stored (calls ++ [call])) ↔
      IsUnion stored calls (run stored calls) ∧
        Unambiguous (knownNodes stored calls) (knownEdges stored calls) call := by
  have hknown := keysKnown_run stored calls
  have hids := @unknown_congr _ _ _ _ _ _ call.nodes hknown.ids
  have hpairs := @unknown_congr _ _ _ _ _ _ call.edges hknown.pairs
  have hnodup : ((nodesOf (run stored (calls ++ [call]))).map ObservableNode.id).Nodup ↔
      ((nodesOf (run stored calls)).map ObservableNode.id).Nodup ∧
        ((unknown ObservableNode.id (knownNodes stored calls) call.nodes).map
          ObservableNode.id).Nodup := by
    rw [run_concat, nodesOf_perform, List.map_append, keys_replaced, nodup_append_unknown, hids]
  have hedges : edgesOf (run stored (calls ++ [call])) =
      edgesOf (run stored calls) ++ unknown pair (knownEdges stored calls) call.edges := by
    rw [run_concat, edgesOf_perform, hpairs]
  constructor
  · intro hunion
    have hids_nodup := hnodup.mp hunion.nodes.nodup
    have hedges_nodup := hunion.edges_nodup
    rw [hedges, List.nodup_append'] at hedges_nodup
    -- an edge between a known pair can only be one that was there
    have hstays : ∀ e, e ∈ knownEdges stored calls ++ call.edges →
        pair e ∈ (knownEdges stored calls).map pair → e ∈ edgesOf (run stored calls) := by
      intro e he hpair
      rw [← knownEdges_concat, ← hunion.mem_edges, hedges, List.mem_append] at he
      exact he.resolve_right fun hnew => (mem_unknown.mp hnew).2 hpair
    refine ⟨⟨(holds_run_iff h).mpr hids_nodup.1, hedges_nodup.1, fun e => ⟨hknown.edges e,
      fun he => ?_⟩⟩, hids_nodup.2, fun e he hpair => ?_, hedges_nodup.2.1⟩
    · exact hstays e (List.mem_append_left _ he) (List.mem_map_of_mem he)
    · exact hknown.edges e (hstays e (List.mem_append_right _ he) hpair)
  · rintro ⟨hunion, hcall⟩
    refine ⟨(holds_run_iff h).mpr (hnodup.mpr ⟨hunion.nodes.nodup, hcall.nodes⟩), ?_, fun e => ?_⟩
    · rw [hedges, List.nodup_append']
      refine ⟨hunion.edges_nodup, hcall.edges, fun e he hnew => ?_⟩
      exact (mem_unknown.mp hnew).2 (List.mem_map_of_mem (hknown.edges e he))
    · rw [hedges, knownEdges_concat, List.mem_append, List.mem_append, hunion.mem_edges]
      refine ⟨Or.imp_right fun hnew => (mem_unknown.mp hnew).1, ?_⟩
      rintro (he | he)
      · exact .inl he
      · by_cases hpair : pair e ∈ (knownEdges stored calls).map pair
        · exact .inl (hcall.parallel e he hpair)
        · exact .inr (mem_unknown.mpr ⟨he, hpair⟩)

theorem allUnambiguous_nil : AllUnambiguous stored [] ↔ (edgesOf stored).Nodup := by
  refine ⟨fun hall => hall.1, fun hedges => ⟨hedges, fun before call after heq => ?_⟩⟩
  exact absurd heq.symm (List.append_ne_nil_of_right_ne_nil _ (List.cons_ne_nil _ _))

theorem allUnambiguous_concat : AllUnambiguous stored (calls ++ [call]) ↔
    AllUnambiguous stored calls ∧
      Unambiguous (knownNodes stored calls) (knownEdges stored calls) call := by
  constructor
  · rintro ⟨hedges, hall⟩
    refine ⟨⟨hedges, fun before c after heq => hall before c (after ++ [call]) ?_⟩,
      hall calls call [] rfl⟩
    rw [heq, List.append_assoc, List.cons_append]
  · rintro ⟨⟨hedges, hall⟩, hlast⟩
    refine ⟨hedges, fun before c after heq => ?_⟩
    rcases List.eq_nil_or_concat after with rfl | ⟨after, d, rfl⟩
    · obtain ⟨rfl, hc⟩ := List.append_inj' heq rfl
      obtain rfl := (List.cons.inj hc).1
      exact hlast
    · rw [List.concat_eq_append, ← List.cons_append, ← List.append_assoc] at heq
      obtain ⟨rfl, -⟩ := List.append_inj' heq rfl
      exact hall before c after rfl

theorem isUnion_iff (h : ((nodesOf stored).map ObservableNode.id).Nodup) :
    IsUnion stored calls (run stored calls) ↔ AllUnambiguous stored calls := by
  induction calls using List.reverseRecOn with
  | nil => exact (isUnion_nil h).trans allUnambiguous_nil.symm
  | append_singleton calls call ih => rw [isUnion_concat h, allUnambiguous_concat, ih]

theorem perform_saved (h : call.saved = true) : perform stored call =
    some ⟨some (nodesOf (perform stored call)), some (edgesOf (perform stored call))⟩ := by
  rw [perform, if_pos h]
  rfl

/-- A call whose nodes are the last and whose edges are known leaves the graph as it is. -/
theorem perform_again (h : IsUnion stored (calls ++ [call]) (run stored (calls ++ [call]))) :
    run stored (calls ++ [call] ++ [call]) = run stored (calls ++ [call]) := by
  rw [run_concat]
  cases hsaved : call.saved with
  | false => rw [perform, if_neg (by simp [hsaved])]
  | true =>
    have hnodes := h.nodes
    rw [knownNodes_concat] at hnodes
    have hedges : unknown pair (edgesOf (run stored (calls ++ [call]))) call.edges = [] := by
      refine List.filter_eq_nil_iff.mpr fun e he => ?_
      have hmem : e ∈ edgesOf (run stored (calls ++ [call])) := by
        rw [h.mem_edges, knownEdges_concat]
        exact List.mem_append_right _ he
      simpa using ⟨e, hmem, rfl⟩
    rw [perform_saved hsaved, nodesOf_perform, edgesOf_perform, hnodes.merge_again, hedges,
      List.append_nil]
    conv_rhs => rw [run_concat, perform_saved hsaved]
    rw [run_concat]

/-- The updates are the union exactly if the stored edges are distinct and each request is
unambiguous over what is known before it. -/
theorem updates_union_iff (stored : Option StoredGraph)
    (h : ((nodesOf stored).map ObservableNode.id).Nodup) (calls : List Call) :
    UpdatesUnion stored calls ↔ AllUnambiguous stored calls := by
  refine ⟨fun hunion => (isUnion_iff h).mp hunion.1, fun hall => ?_⟩
  have hunion := (isUnion_iff h).mpr hall
  refine ⟨hunion, fun call hcall => ?_⟩
  obtain ⟨before, rfl⟩ := List.getLast?_eq_some_iff.mp (Option.mem_def.mp hcall)
  exact perform_again hunion

def resolved : ObservableEdge := ⟨text "domain-1", text "ip-1", text "resolves_to"⟩
def beaconed : ObservableEdge := ⟨text "domain-1", text "ip-1", text "beacons_to"⟩

def sends (edge : ObservableEdge) : Call := ⟨⟨[], [edge]⟩, true⟩

/-- One relation is sent twice, and stored once. -/
theorem same_relation_again : UpdatesUnion none ([] ++ [sends resolved] ++ [sends resolved]) := by
  have hfirst : AllUnambiguous none ([] ++ [sends resolved]) :=
    allUnambiguous_concat.mpr ⟨allUnambiguous_nil.mpr List.nodup_nil,
      ⟨by decide +kernel, by decide +kernel, by decide +kernel⟩⟩
  exact (updates_union_iff none List.nodup_nil _).mpr (allUnambiguous_concat.mpr ⟨hfirst,
    ⟨by decide +kernel, by decide +kernel, by decide +kernel⟩⟩)

/-- A second relation between two nodes is lost. -/
theorem second_relation_lost : ¬ UpdatesUnion none [sends resolved, sends beaconed] := by
  intro h
  have hsent : beaconed ∈ knownEdges none [sends resolved, sends beaconed] :=
    List.mem_cons_of_mem _ List.mem_cons_self
  have hlost : beaconed ∉ edgesOf (run none [sends resolved, sends beaconed]) := by
    decide +kernel
  exact hlost ((h.1.mem_edges beaconed).mpr hsent)

end ObservableGraph
