import Mathlib.Logic.Relation
import AiSOC.AttackChainRows

/-! # The entity graph of an attack chain

The payload draws the seed with its entities, and each alert of the chain with those that it
shares with the seed. -/
namespace AttackChainGraph

open BreadthFirst Pagination AttackChainRanker AttackChainOrder AttackChainExact AttackChainRows

/-- An edge of the payload joins the nodes, in one direction or the other. -/
def Joined (graph : EntityGraph) (a b : String) : Prop :=
  ∃ edge ∈ graph.edges, edge.source = a ∧ edge.target = b ∨ edge.source = b ∧ edge.target = a

def Connected (graph : EntityGraph) : String → String → Prop := Relation.ReflTransGen (Joined graph)

/-- The entity is why the alert of the link is at its distance: an alert one hop nearer to the
seed touches it too. -/
def WitnessesDistance (store : AlertStore) (tenantId : TenantId) (start stop : ℤ)
    (seed : CandidateAlert) (link : ChainLink) (e : Entity) : Prop :=
  ∃ alert nearer, alert.id = link.alertId ∧ e ∈ alert.entities ∧ e ∈ nearer.entities ∧
    Distance (Hop store tenantId start stop) seed link.distance alert ∧
    Distance (Hop store tenantId start stop) seed (link.distance - 1) nearer

structure Explains (store : AlertStore) (start stop : ℤ) (seed : CandidateAlert)
    (result : AttackChain) : Prop where
  connected : ∀ node ∈ result.entityGraph.nodes, node.kind = "Alert" →
    Connected result.entityGraph (alertNodeId result.seedAlertId) node.id
  endpoints : ∀ edge ∈ result.entityGraph.edges,
    (∃ node ∈ result.entityGraph.nodes, node.id = edge.source) ∧
      ∃ node ∈ result.entityGraph.nodes, node.id = edge.target
  witnessed : ∀ link ∈ result.chain, ∃ e ∈ link.sharedEntities,
    WitnessesDistance store result.tenantId start stop seed link e

/-- Every alert two hops away or more is behind so many others that the chain ends before it. -/
def FarAreCut (seed : CandidateAlert) (window : ℤ) (maxLength : ℕ) (found : Found) : Prop :=
  ∀ a ∈ found, 2 ≤ a.2 → maxLength ≤ (found.filter fun c =>
    precedes (chainLink seed c.1 c.2 window) (chainLink seed a.1 a.2 window)).card

/-! ## What the payload draws -/

/-- The alerts of the payload with the entities they are drawn with. -/
def touched (seed : CandidateAlert) (chain : List ChainLink)
    (candidateIndex : AlertId → Option CandidateAlert) : List (CandidateAlert × List Entity) :=
  (seed, seed.entities.sort (· ≤ ·)) :: chain.filterMap fun link =>
    (candidateIndex link.alertId).map fun cand => (cand, link.sharedEntities)

structure Drawn (alerts : List (CandidateAlert × List Entity)) (state : GraphState) : Prop where
  named : ∀ e ∈ state.nodes.entries, e.2.id = e.1
  mem_keys : ∀ k, k ∈ state.nodes.keys ↔
    ∃ p ∈ alerts, k = alertNodeId p.1.id ∨ ∃ e ∈ p.2, k = entityNodeId e
  mem_edges : ∀ edge, edge ∈ state.edges ↔
    ∃ p ∈ alerts, ∃ e ∈ p.2, edge = ⟨alertNodeId p.1.id, entityNodeId e, "TOUCHES"⟩

variable {seed : CandidateAlert} {chain : List ChainLink} {state : GraphState}
  {candidateIndex : AlertId → Option CandidateAlert} {nodes : OrderedDict String GraphNode}
  {alerts : List (CandidateAlert × List Entity)}

theorem mem_keys_addNode {node : GraphNode} {k : String} :
    k ∈ (addNode nodes node).keys ↔ k ∈ nodes.keys ∨ k = node.id := by
  rw [addNode]
  split_ifs with hmem
  · constructor
    · exact Or.inl
    · rintro (hk | rfl)
      · exact hk
      · exact hmem
  · rw [OrderedDict.mem_keys_set, or_comm]

theorem named_addNode (h : ∀ e ∈ nodes.entries, e.2.id = e.1) (node : GraphNode) :
    ∀ e ∈ (addNode nodes node).entries, e.2.id = e.1 := by
  rw [addNode]
  split_ifs
  · exact h
  · let named : String → GraphNode → Prop := fun k node => node.id = k
    have hnode : named node.id node := rfl
    exact OrderedDict.forall_set h hnode

/-- An alert and some entities more. -/
theorem Drawn.addAlert (h : Drawn alerts state) (alert : CandidateAlert) (entities : List Entity) :
    Drawn (alerts ++ [(alert, entities)]) (addAlert state alert entities) := by
  induction entities using List.reverseRecOn with
  | nil =>
    refine ⟨named_addNode h.named _, ?_, ?_⟩
    · intro k
      simp only [AttackChainRanker.addAlert, List.foldl_nil, addAlertNode, mem_keys_addNode,
        h.mem_keys, List.mem_append, List.mem_singleton, or_and_right, exists_or, exists_eq_left,
        List.not_mem_nil, false_and, exists_false, or_false]
    · intro edge
      simp only [AttackChainRanker.addAlert, List.foldl_nil, h.mem_edges, List.mem_append,
        List.mem_singleton, or_and_right, exists_or, exists_eq_left, List.not_mem_nil, false_and,
        exists_false, or_false]
  | append_singleton entities e ih =>
    have hstep : AttackChainRanker.addAlert state alert (entities ++ [e]) =
        touch alert.id (AttackChainRanker.addAlert state alert entities) e := by
      rw [AttackChainRanker.addAlert, List.foldl_append]
      rfl
    rw [hstep]
    refine ⟨named_addNode ih.named _, ?_, ?_⟩
    · intro k
      rw [touch, mem_keys_addNode, ih.mem_keys]
      simp only [List.mem_append, List.mem_singleton, or_and_right, exists_or, exists_eq_left,
        or_assoc]
    · intro edge
      rw [touch, List.mem_append, ih.mem_edges, List.mem_singleton]
      simp only [List.mem_append, List.mem_singleton, or_and_right, exists_or, exists_eq_left,
        or_assoc]

theorem drawn_payload (seed : CandidateAlert) (chain : List ChainLink)
    (candidateIndex : AlertId → Option CandidateAlert) :
    ∃ state, Drawn (touched seed chain candidateIndex) state ∧
      entityGraphPayload seed chain candidateIndex = ⟨state.nodes.values, state.edges⟩ := by
  refine ⟨_, ?_, rfl⟩
  have hempty : Drawn [] ⟨.empty, []⟩ := by
    refine ⟨by nofun, ?_, ?_⟩
    · intro k
      simp [OrderedDict.empty, OrderedDict.keys]
    · intro edge
      simp
  induction chain using List.reverseRecOn with
  | nil => exact hempty.addAlert seed _
  | append_singleton chain link ih =>
    rw [List.foldl_append, List.foldl_cons, List.foldl_nil, touched, List.filterMap_append,
      ← List.cons_append]
    cases hcand : candidateIndex link.alertId with
    | none => simpa [hcand, touched] using ih
    | some cand => simpa [hcand, touched] using ih.addAlert cand link.sharedEntities

theorem exists_node {k : String} :
    (∃ node ∈ (entityGraphPayload seed chain candidateIndex).nodes, node.id = k) ↔
      ∃ p ∈ touched seed chain candidateIndex,
        k = alertNodeId p.1.id ∨ ∃ e ∈ p.2, k = entityNodeId e := by
  obtain ⟨state, hdrawn, hpayload⟩ := drawn_payload seed chain candidateIndex
  rw [← hdrawn.mem_keys, hpayload, OrderedDict.keys, OrderedDict.values, List.mem_map]
  constructor
  · rintro ⟨node, hnode, rfl⟩
    obtain ⟨e, he, rfl⟩ := List.mem_map.mp hnode
    exact ⟨e, he, (hdrawn.named e he).symm⟩
  · rintro ⟨e, he, rfl⟩
    exact ⟨e.2, List.mem_map_of_mem he, hdrawn.named e he⟩

theorem mem_edges {edge : GraphEdge} :
    edge ∈ (entityGraphPayload seed chain candidateIndex).edges ↔
      ∃ p ∈ touched seed chain candidateIndex, ∃ e ∈ p.2,
        edge = ⟨alertNodeId p.1.id, entityNodeId e, "TOUCHES"⟩ := by
  obtain ⟨state, hdrawn, hpayload⟩ := drawn_payload seed chain candidateIndex
  rw [hpayload]
  exact hdrawn.mem_edges edge

/-- An edge is drawn with its nodes. -/
theorem endpoints_drawn {edge : GraphEdge}
    (h : edge ∈ (entityGraphPayload seed chain candidateIndex).edges) :
    (∃ node ∈ (entityGraphPayload seed chain candidateIndex).nodes, node.id = edge.source) ∧
      ∃ node ∈ (entityGraphPayload seed chain candidateIndex).nodes, node.id = edge.target := by
  obtain ⟨p, hp, e, he, rfl⟩ := mem_edges.mp h
  exact ⟨exists_node.mpr ⟨p, hp, Or.inl rfl⟩, exists_node.mpr ⟨p, hp, Or.inr ⟨e, he, rfl⟩⟩⟩

/-- If each alert is drawn with an entity of the seed, every node is connected to the seed. -/
theorem connected_of_shared (hshared : ∀ p ∈ touched seed chain candidateIndex, p.1 = seed ∨
      ∃ e ∈ p.2, e ∈ seed.entities) {node : GraphNode}
    (hnode : node ∈ (entityGraphPayload seed chain candidateIndex).nodes) :
    Connected (entityGraphPayload seed chain candidateIndex) (alertNodeId seed.id) node.id := by
  have hjoin : ∀ p ∈ touched seed chain candidateIndex, ∀ e ∈ p.2,
      Joined (entityGraphPayload seed chain candidateIndex) (alertNodeId p.1.id)
        (entityNodeId e) := by
    intro p hp e he
    exact ⟨_, mem_edges.mpr ⟨p, hp, e, he, rfl⟩, Or.inl ⟨rfl, rfl⟩⟩
  have hseed : (seed, seed.entities.sort (· ≤ ·)) ∈ touched seed chain candidateIndex :=
    List.mem_cons_self
  have halert : ∀ p ∈ touched seed chain candidateIndex,
      Connected (entityGraphPayload seed chain candidateIndex) (alertNodeId seed.id)
        (alertNodeId p.1.id) := by
    intro p hp
    rcases hshared p hp with hself | ⟨e, he, hentity⟩
    · rw [hself]
      exact .refl
    · obtain ⟨edge, hedge, hends⟩ := hjoin p hp e he
      have hback : Joined _ (entityNodeId e) (alertNodeId p.1.id) := ⟨edge, hedge, hends.symm⟩
      have hout := hjoin _ hseed e ((Finset.mem_sort _).mpr hentity)
      exact (Relation.ReflTransGen.single hout).tail hback
  obtain ⟨p, hp, hid⟩ := exists_node.mp ⟨node, hnode, rfl⟩
  rcases hid with hid | ⟨e, he, hid⟩
  · rw [hid]
    exact halert p hp
  · rw [hid]
    exact (halert p hp).tail (hjoin p hp e he)

theorem alertNodeId_inj {a b : AlertId} (h : alertNodeId a = alertNodeId b) : a = b := by
  have hlist := congrArg String.toList h
  rw [alertNodeId, alertNodeId, String.toList_append, String.toList_append] at hlist
  exact String.toList_inj.mp (List.append_cancel_left hlist)

theorem alertNodeId_ne_entityNodeId {e : Entity} (he : e ∈ seed.entities) (id : AlertId) :
    alertNodeId id ≠ entityNodeId e := by
  have hkind : (ofLex e).1 = "Identity" ∨ (ofLex e).1 = "Endpoint" ∨ (ofLex e).1 = "Resource" := by
    simp only [CandidateAlert.entities, List.mem_toFinset, List.mem_append, List.mem_map] at he
    obtain ((⟨v, -, rfl⟩ | ⟨v, -, rfl⟩) | ⟨v, -, rfl⟩) | ⟨v, -, rfl⟩ := he
    · exact Or.inl rfl
    · exact Or.inr (Or.inl rfl)
    · exact Or.inr (Or.inl rfl)
    · exact Or.inr (Or.inr rfl)
  intro heq
  have hhead := congrArg (fun s => s.toList.head?) heq
  simp only [alertNodeId, entityNodeId, String.toList_append, List.head?_append] at hhead
  rcases hkind with hkind | hkind | hkind
  · rw [hkind] at hhead
    exact absurd (show some 'a' = some 'i' from hhead) (by decide)
  · rw [hkind] at hhead
    exact absurd (show some 'a' = some 'e' from hhead) (by decide)
  · rw [hkind] at hhead
    exact absurd (show some 'a' = some 'r' from hhead) (by decide)

/-- No edge reaches an alert that is drawn without entities. -/
theorem alone_of_unshared {id : AlertId} (hne : id ≠ seed.id)
    (hentities : ∀ p ∈ touched seed chain candidateIndex, ∀ e ∈ p.2, e ∈ seed.entities)
    (hid : ∀ p ∈ touched seed chain candidateIndex, p.1.id = id → p.2 = []) :
    ¬ Connected (entityGraphPayload seed chain candidateIndex) (alertNodeId seed.id)
      (alertNodeId id) := by
  intro hconnected
  rcases Relation.ReflTransGen.cases_tail hconnected with heq | ⟨a, -, edge, hedge, hends⟩
  · exact hne (alertNodeId_inj heq)
  · obtain ⟨p, hp, e, he, rfl⟩ := mem_edges.mp hedge
    rcases hends with ⟨-, htarget⟩ | ⟨hsource, -⟩
    · exact alertNodeId_ne_entityNodeId (hentities p hp e he) id htarget.symm
    · rw [hid p hp (alertNodeId_inj hsource)] at he
      exact absurd he List.not_mem_nil

/-! ## Where the chain is cut -/

variable {store : AlertStore} {loader : Loader} {tenantId : TenantId} {window : ℤ}
  {maxDepth maxLength : ℕ} {now : Option ℤ}

theorem mem_rankedChain (hloads : Loads loader store) (hseed : seed ∈ store.alerts)
    {link : ChainLink} : link ∈ rankedChain loader tenantId seed window maxDepth now ↔
      ∃ a ∈ candidates loader tenantId seed window maxDepth now,
        link = chainLink seed a.1 a.2 window := by
  have hholds : Holds store (knownAlerts loader tenantId seed window maxDepth now) _ :=
    knownAlerts_holds hloads hseed window maxDepth now
  have hperm := (rankedChain_rows maxDepth now :
    Answer rowKey _ (rankedChain loader tenantId seed window maxDepth now)).perm
  rw [hperm.mem_iff, chainLinks_eq, List.mem_map, candidates, ← hholds.pairs_toFinset]
  simp only [List.mem_toFinset, @eq_comm _ link]

/-- The chain ends before all alerts that are two hops away or more. -/
theorem farAreCut_iff (hloads : Loads loader store) (hseed : seed ∈ store.alerts) :
    FarAreCut seed window maxLength (candidates loader tenantId seed window maxDepth now) ↔
      ∀ link ∈ (rankedChain loader tenantId seed window maxDepth now).take maxLength,
        link.distance < 2 := by
  have hholds : Holds store (knownAlerts loader tenantId seed window maxDepth now) _ :=
    knownAlerts_holds hloads hseed window maxDepth now
  have hrows : Answer rowKey _ (rankedChain loader tenantId seed window maxDepth now) :=
    rankedChain_rows maxDepth now
  constructor
  · intro hcut link hlink
    obtain ⟨xs, ys, hsplit⟩ := List.append_of_mem hlink
    have hwhole : rankedChain loader tenantId seed window maxDepth now =
        xs ++ link :: (ys ++ (rankedChain loader tenantId seed window maxDepth now).drop
          maxLength) := by
      rw [← List.cons_append, ← List.append_assoc, ← hsplit, List.take_append_drop]
    have hposition := (hwhole ▸ hrows).position.1
    obtain ⟨a, ha, rfl⟩ := (mem_rankedChain hloads hseed).mp (List.take_subset _ _ hlink)
    by_contra hfar
    have hbehind := hcut a ha (not_lt.mp hfar)
    have hlength := congrArg List.length hsplit
    rw [List.length_take, List.length_append, List.length_cons] at hlength
    rw [hholds.before_eq] at hposition
    rw [candidates] at hbehind
    omega
  · intro hnear a ha hfar
    by_contra hcut
    have hmem : chainLink seed a.1 a.2 window ∈ chainLinks seed window
        (knownAlerts loader tenantId seed window maxDepth now) :=
      hrows.perm.subset ((mem_rankedChain hloads hseed).mpr ⟨a, ha, rfl⟩)
    have hfirst := hrows.getElem_before hmem
    have hcount : before rowKey _ (chainLink seed a.1 a.2 window) =
      ((candidates loader tenantId seed window maxDepth now).filter _).card := hholds.before_eq a
    rw [← hcount, not_le] at hcut
    -- what stands where the ties of the alert begin is as far away as the alert
    have hfound : ∃ link, (rankedChain loader tenantId seed window maxDepth now).find?
        (fun b => rowKey b = rowKey (chainLink seed a.1 a.2 window)) = some link := by
      rw [← Option.isSome_iff_exists, List.find?_isSome]
      exact ⟨_, (mem_rankedChain hloads hseed).mpr ⟨a, ha, rfl⟩, decide_eq_true rfl⟩
    obtain ⟨link, hlink⟩ := hfound
    have hkey : rowKey link = rowKey (chainLink seed a.1 a.2 window) := by
      simpa using List.find?_some hlink
    have hdistance : link.distance = a.2 := congrArg (fun k => (ofLex k).2) hkey
    rw [hlink, ← List.getElem?_take_of_lt hcut] at hfirst
    have hclose := hnear link (List.mem_of_getElem? hfirst)
    omega

/-! ## The graph explains the chain -/

variable {hash : String → String} {seedAlertId : AlertId} {windowLabel : String}
  {result : AttackChain} {alert : CandidateAlert} {start stop : ℤ}

theorem mem_sharedEntities {e : Entity} :
    e ∈ sharedEntities seed.entities alert.entities ↔ e ∈ seed.entities ∧ e ∈ alert.entities := by
  rw [sharedEntities, Finset.mem_sort, Finset.mem_inter]

theorem shares_of_distance_one (h : Distance (Hop store tenantId start stop) seed 1 alert) :
    ∃ e, e ∈ seed.entities ∧ e ∈ alert.entities := by
  obtain ⟨u, hu, -, e, hlabel, he⟩ := h.previous
  rw [distance_zero.mp hu] at hlabel
  exact ⟨e, hlabel, he⟩

/-- An alert that shares an entity with the seed is at most one hop away. -/
theorem distance_le_one {d : ℕ} (h : Distance (Hop store tenantId start stop) seed d alert)
    {e : Entity} (hseed : e ∈ seed.entities) (halert : e ∈ alert.entities) : d ≤ 1 := by
  cases d with
  | zero => exact Nat.zero_le 1
  | succ d =>
    obtain ⟨u, -, hin, -⟩ := h.previous
    have hwalk : Walk (Hop store tenantId start stop) seed 1 alert :=
      .step .source ⟨hin, e, hseed, halert⟩
    by_contra hfar
    exact h.least 1 (by omega) hwalk

/-- The payload explains the chain exactly if the chain ends before all alerts that are two hops
away or more. -/
theorem graph_explains_iff (hloader : Complete loader store)
    (hseed : loader.loadSeed seedAlertId tenantId = some seed)
    (hresult : computeAttackChain hash seedAlertId tenantId loader window windowLabel maxDepth
      maxLength now = some result) :
    Explains store (anchor seed now - window) (anchor seed now + window) seed result ↔
      FarAreCut seed window maxLength (candidates loader tenantId seed window maxDepth now) := by
  have hmem : seed ∈ store.alerts := hloader.seed _ _ _ hseed
  have hexact := @rankedChain_exact store loader tenantId seed hloader hmem window maxDepth now
  obtain ⟨hfiled, hknown⟩ :=
    @knownAlerts_iff store loader tenantId seed hloader hmem window maxDepth now
  rw [computeAttackChain, hseed] at hresult
  obtain rfl := Option.some.inj hresult
  rw [farAreCut_iff hloader.toLoads hmem]
  constructor
  · intro hexplains link hlink
    obtain ⟨e, he, alert, nearer, hid, halert, hnearer, hdist, -⟩ :=
      hexplains.witnessed link hlink
    obtain ⟨cand, d, -, -, -, rfl⟩ := (hexact.mem_iff link).mp (List.take_subset _ _ hlink)
    have hle := distance_le_one hdist (mem_sharedEntities.mp he).1 halert
    omega
  · intro hnear
    have hone : ∀ link ∈ (rankedChain loader tenantId seed window maxDepth now).take maxLength,
        ∃ alert, Distance (Hop store tenantId (anchor seed now - window)
          (anchor seed now + window)) seed 1 alert ∧ link = chainLink seed alert 1 window := by
      intro link hlink
      obtain ⟨alert, d, hdist, hpos, -, rfl⟩ :=
        (hexact.mem_iff link).mp (List.take_subset _ _ hlink)
      have hclose : d < 2 := hnear _ hlink
      obtain rfl : d = 1 := by omega
      exact ⟨alert, hdist, rfl⟩
    refine ⟨?_, fun edge hedge => endpoints_drawn hedge, ?_⟩
    · intro node hnode _
      refine connected_of_shared ?_ hnode
      intro p hp
      rcases List.mem_cons.mp hp with rfl | hp
      · exact Or.inl rfl
      · right
        obtain ⟨link, hlink, hp⟩ := List.mem_filterMap.mp hp
        obtain ⟨cand, -, rfl⟩ := Option.map_eq_some_iff.mp hp
        obtain ⟨alert, hdist, rfl⟩ := hone link hlink
        obtain ⟨e, hentity, he⟩ := shares_of_distance_one hdist
        exact ⟨e, mem_sharedEntities.mpr ⟨hentity, he⟩, hentity⟩
    · intro link hlink
      obtain ⟨alert, hdist, rfl⟩ := hone link hlink
      obtain ⟨e, hentity, he⟩ := shares_of_distance_one hdist
      exact ⟨e, mem_sharedEntities.mpr ⟨hentity, he⟩, alert, seed, rfl, he, hentity, hdist,
        distance_zero.mpr rfl⟩

/-- The first of three hosts with a search of one hop. -/
theorem oneHop_explains : ∃ result,
    computeAttackChain id "1" "acme" (inMemoryLoader threeHosts) 3600 "1h" 1 50 none =
      some result ∧
    (Explains threeHosts (anchor (hostAlert "1" 0 ["web"]) none - 3600)
        (anchor (hostAlert "1" 0 ["web"]) none + 3600) (hostAlert "1" 0 ["web"]) result ↔
      FarAreCut (hostAlert "1" 0 ["web"]) 3600 50 (candidates (inMemoryLoader threeHosts) "acme"
        (hostAlert "1" 0 ["web"]) 3600 1 none)) := by
  have hseed : (inMemoryLoader threeHosts).loadSeed "1" "acme" =
      some (hostAlert "1" 0 ["web"]) := by decide
  obtain ⟨result, hresult⟩ : ∃ result, computeAttackChain id "1" "acme"
      (inMemoryLoader threeHosts) 3600 "1h" 1 50 none = some result := by
    rw [computeAttackChain, hseed]
    exact ⟨_, rfl⟩
  exact ⟨result, hresult, graph_explains_iff (inMemoryLoader_complete threeHosts) hseed hresult⟩

theorem threeHosts_candidates : candidates (inMemoryLoader threeHosts) "acme"
    (hostAlert "1" 0 ["web"]) 3600 3 none =
      {(hostAlert "2" 60 ["web", "db"], 1), (hostAlert "3" 90 ["db"], 2)} := by decide

/-- The alert of the third host is in the chain, without a shared entity and without an edge. -/
theorem thirdHost_alone : ∃ result,
    computeAttackChain id "1" "acme" (inMemoryLoader threeHosts) 3600 "1h" 3 50 none =
      some result ∧
    (∃ link ∈ result.chain, link.alertId = "3" ∧ link.sharedEntities = []) ∧
    (∃ node ∈ result.entityGraph.nodes, node.id = alertNodeId "3") ∧
    ¬ Connected result.entityGraph (alertNodeId result.seedAlertId) (alertNodeId "3") := by
  have hseed : (inMemoryLoader threeHosts).loadSeed "1" "acme" =
      some (hostAlert "1" 0 ["web"]) := by decide
  have hloads := (inMemoryLoader_complete threeHosts).toLoads
  have hmem : hostAlert "1" 0 ["web"] ∈ threeHosts.alerts := by decide
  have hranked := fun link => @mem_rankedChain (hostAlert "1" 0 ["web"]) threeHosts
    (inMemoryLoader threeHosts) "acme" 3600 3 none hloads hmem link
  have hchain : (rankedChain (inMemoryLoader threeHosts) "acme" (hostAlert "1" 0 ["web"]) 3600 3
      none).take 50 = rankedChain (inMemoryLoader threeHosts) "acme" (hostAlert "1" 0 ["web"]) 3600
        3 none := by
    have hholds : Holds threeHosts (knownAlerts (inMemoryLoader threeHosts) "acme"
      (hostAlert "1" 0 ["web"]) 3600 3 none) _ := knownAlerts_holds hloads hmem 3600 3 none
    have hpairs := List.toFinset_card_of_nodup
      (hholds.pairs_nodup : (pairs (hostAlert "1" 0 ["web"]) _).Nodup)
    rw [hholds.pairs_toFinset, ← candidates, threeHosts_candidates] at hpairs
    have hperm := (rankedChain_rows 3 none : Answer rowKey _ (rankedChain
      (inMemoryLoader threeHosts) "acme" (hostAlert "1" 0 ["web"]) 3600 3 none)).perm
    apply List.take_of_length_le
    rw [hperm.length_eq, chainLinks_eq, List.length_map, ← hpairs]
    decide
  simp only [threeHosts_candidates, Finset.mem_insert, Finset.mem_singleton, exists_eq_or_imp,
    exists_eq_left] at hranked
  have hnone : sharedEntities (hostAlert "1" 0 ["web"]).entities
      (hostAlert "3" 90 ["db"]).entities = [] := by
    have hdisjoint : (hostAlert "1" 0 ["web"]).entities ∩
        (hostAlert "3" 90 ["db"]).entities = ∅ := by decide
    rw [sharedEntities, hdisjoint, Finset.sort_empty]
  have hindex : ((knownAlerts (inMemoryLoader threeHosts) "acme" (hostAlert "1" 0 ["web"]) 3600 3
      none).get "2").map Prod.fst = some (hostAlert "2" 60 ["web", "db"]) ∧
    ((knownAlerts (inMemoryLoader threeHosts) "acme" (hostAlert "1" 0 ["web"]) 3600 3
      none).get "3").map Prod.fst = some (hostAlert "3" 90 ["db"]) := by decide
  refine ⟨_, by rw [computeAttackChain, hseed]; rfl, ?_, ?_, ?_⟩
  · rw [hchain]
    exact ⟨_, (hranked _).mpr (Or.inr rfl), rfl, hnone⟩
  · refine exists_node.mpr ⟨(hostAlert "3" 90 ["db"], []), ?_, Or.inl rfl⟩
    refine List.mem_cons_of_mem _ (List.mem_filterMap.mpr ?_)
    rw [hchain]
    refine ⟨_, (hranked _).mpr (Or.inr rfl), ?_⟩
    change (Option.map Prod.fst (OrderedDict.get _ "3")).map _ = _
    rw [hindex.2, Option.map_some]
    exact congrArg some (congrArg (Prod.mk _) hnone)
  · rw [hchain]
    refine alone_of_unshared (by decide) ?_ ?_
    · intro p hp e he
      rcases List.mem_cons.mp hp with rfl | hp
      · exact (Finset.mem_sort _).mp he
      · obtain ⟨link, hlink, hp⟩ := List.mem_filterMap.mp hp
        obtain ⟨cand, -, rfl⟩ := Option.map_eq_some_iff.mp hp
        rcases (hranked link).mp hlink with rfl | rfl
        · exact (mem_sharedEntities.mp he).1
        · exact (mem_sharedEntities.mp he).1
    · intro p hp hid
      rcases List.mem_cons.mp hp with rfl | hp
      · exact absurd hid (by decide)
      · obtain ⟨link, hlink, hp⟩ := List.mem_filterMap.mp hp
        obtain ⟨cand, hcand, rfl⟩ := Option.map_eq_some_iff.mp hp
        rcases (hranked link).mp hlink with rfl | rfl
        · rw [Option.some.inj (hcand.symm.trans hindex.1)] at hid
          exact absurd hid (by decide)
        · exact hnone

end AttackChainGraph
