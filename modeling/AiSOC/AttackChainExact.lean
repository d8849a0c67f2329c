import AiSOC.AttackChainOrder

/-! # Attack chains are exact

With a loader that misses no alert of the window, the chain is made of the alerts that can be
reached, at their distances, in the documented order. -/
namespace AttackChainExact

open FloatOrder BreadthFirst Pagination AttackChainRanker AttackChainOrder

/-- The alerts of all tenants; no id twice. -/
structure AlertStore where
  alerts : List CandidateAlert
  ids_nodup : (alerts.map CandidateAlert.id).Nodup

theorem AlertStore.eq_of_id (store : AlertStore) {a b : CandidateAlert} (ha : a ∈ store.alerts)
    (hb : b ∈ store.alerts) (h : a.id = b.id) : a = b :=
  List.inj_on_of_nodup_map store.ids_nodup ha hb h

def InWindow (store : AlertStore) (tenantId : TenantId) (start stop : ℤ)
    (alert : CandidateAlert) : Prop :=
  alert ∈ store.alerts ∧ alert.tenantId = tenantId ∧ start ≤ alert.eventTime ∧
    alert.eventTime ≤ stop

/-- A loader of the alerts of a store. -/
structure Loads (loader : Loader) (store : AlertStore) : Prop where
  seed : ∀ id tenantId seed, loader.loadSeed id tenantId = some seed → seed ∈ store.alerts
  rows : ∀ tenantId entities start stop exclude row,
    row ∈ loader.loadCandidatesForEntities tenantId entities start stop exclude →
      row ∈ store.alerts

/-- It returns the alerts of the window that share an entity with those it is asked about; it
may leave out those it is told to exclude. -/
structure Complete (loader : Loader) (store : AlertStore) : Prop extends Loads loader store where
  shares : ∀ tenantId entities start stop exclude row,
    row ∈ loader.loadCandidatesForEntities tenantId entities start stop exclude →
      InWindow store tenantId start stop row ∧ ∃ e ∈ entities, e ∈ row.entities
  all : ∀ tenantId entities start stop exclude row, InWindow store tenantId start stop row →
    (∃ e ∈ entities, e ∈ row.entities) → row.id ∉ exclude →
    row ∈ loader.loadCandidatesForEntities tenantId entities start stop exclude

/-- What is known is filed under its id. -/
def Filed (store : AlertStore) (known : Known) : Prop :=
  ∀ e ∈ known.entries, e.1 = e.2.1.id ∧ e.2.1 ∈ store.alerts

def KnownAt (known : Known) (alert : CandidateAlert) (distance : ℕ) : Prop :=
  known.get alert.id = some (alert, distance)

variable {store : AlertStore} {loader : Loader} {known : Known}

theorem Filed.set (h : Filed store known) {row : CandidateAlert} (hrow : row ∈ store.alerts)
    (depth : ℕ) : Filed store (known.set row.id (row, depth)) := by
  rintro ⟨k, v⟩ hmem
  rw [← OrderedDict.get_eq_some, OrderedDict.get_set] at hmem
  split_ifs at hmem with hk
  · cases hmem
    exact ⟨hk, hrow⟩
  · exact h _ (OrderedDict.get_eq_some.mp hmem)

theorem KnownAt.mem_keys {alert : CandidateAlert} {k : ℕ} (h : KnownAt known alert k) :
    alert.id ∈ known.keys := OrderedDict.get_isSome.mp (Option.isSome_of_eq_some h)

theorem Filed.mem_keys (h : Filed store known) {alert : CandidateAlert}
    (halert : alert ∈ store.alerts) : alert.id ∈ known.keys ↔ ∃ k, KnownAt known alert k := by
  rw [← OrderedDict.get_isSome, Option.isSome_iff_exists]
  constructor
  · rintro ⟨⟨found, k⟩, hget⟩
    obtain ⟨hid, hfound⟩ := h _ (OrderedDict.get_eq_some.mp hget)
    obtain rfl := store.eq_of_id halert hfound hid
    exact ⟨k, hget⟩
  · rintro ⟨k, hget⟩
    exact ⟨_, hget⟩

/-- The rows that are added. -/
def New (known : Known) (rows : List CandidateAlert) (alert : CandidateAlert) : Prop :=
  alert ∈ rows ∧ alert.id ∉ known.keys

theorem knownAt_set {row v : CandidateAlert} {depth k : ℕ} (hrow : row.id ∉ known.keys) :
    KnownAt (known.set row.id (row, depth)) v k ↔ KnownAt known v k ∨ v = row ∧ k = depth := by
  unfold KnownAt
  rw [OrderedDict.get_set]
  split_ifs with hid
  · rw [hid, OrderedDict.get_eq_none.mpr hrow, Option.some.injEq, Prod.mk.injEq]
    simp only [reduceCtorEq, false_or, eq_comm]
  · constructor
    · exact Or.inl
    · rintro (hat | ⟨rfl, -⟩)
      · exact hat
      · exact absurd rfl hid

theorem new_cons_known {row v : CandidateAlert} {rows : List CandidateAlert}
    (hrow : row.id ∈ known.keys) : New known (row :: rows) v ↔ New known rows v := by
  unfold New
  rw [List.mem_cons]
  constructor
  · rintro ⟨rfl | hv, hnew⟩
    · exact absurd hrow hnew
    · exact ⟨hv, hnew⟩
  · rintro ⟨hv, hnew⟩
    exact ⟨Or.inr hv, hnew⟩

theorem new_cons_set {row v : CandidateAlert} {rows : List CandidateAlert} (depth : ℕ)
    (hrows : ∀ r ∈ row :: rows, r ∈ store.alerts) (hrow : row.id ∉ known.keys) :
    New known (row :: rows) v ↔ v = row ∨ New (known.set row.id (row, depth)) rows v := by
  unfold New
  rw [List.mem_cons, OrderedDict.mem_keys_set, not_or]
  constructor
  · rintro ⟨rfl | hv, hnew⟩
    · exact Or.inl rfl
    · by_cases heq : v = row
      · exact Or.inl heq
      · refine Or.inr ⟨hv, ?_, hnew⟩
        intro hid
        exact heq (store.eq_of_id (hrows v (List.mem_cons_of_mem row hv))
          (hrows row List.mem_cons_self) hid)
  · rintro (rfl | ⟨hv, -, hnew⟩)
    · exact ⟨Or.inl rfl, hrow⟩
    · exact ⟨Or.inr hv, hnew⟩

/-- What one depth adds, with the entities it collects. -/
theorem foldl_addRow {rows : List CandidateAlert} (hrows : ∀ row ∈ rows, row ∈ store.alerts)
    (depth : ℕ) (next : Finset Entity) (h : Filed store known) :
    Filed store (rows.foldl (addRow depth) (known, next)).1 ∧
      (∀ v k, KnownAt (rows.foldl (addRow depth) (known, next)).1 v k ↔
        KnownAt known v k ∨ New known rows v ∧ k = depth) ∧
      ∀ e, e ∈ (rows.foldl (addRow depth) (known, next)).2 ↔
        e ∈ next ∨ ∃ v, New known rows v ∧ e ∈ v.entities := by
  induction rows generalizing known next with
  | nil => simp [h, New]
  | cons row rows ih =>
    have hrest := (List.forall_mem_cons.mp hrows).2
    rw [List.foldl_cons, addRow]
    by_cases hknown : row.id ∈ known.keys
    · rw [if_pos hknown]
      simp only [new_cons_known hknown]
      exact ih hrest next h
    · rw [if_neg hknown]
      obtain ⟨hfiled, hat, hnext⟩ :=
        ih hrest (next ∪ row.entities) (h.set (hrows row List.mem_cons_self) depth)
      refine ⟨hfiled, ?_, ?_⟩
      · intro v k
        rw [hat, knownAt_set hknown, new_cons_set depth hrows hknown]
        tauto
      · intro e
        rw [hnext, Finset.mem_union]
        simp only [new_cons_set depth hrows hknown, or_and_right, exists_or, exists_eq_left]
        tauto

section

variable (store) (tenantId : TenantId) (start stop : ℤ)

abbrev entityLabels (alert : CandidateAlert) : Set Entity := alert.entities

/-- One hop from an alert over an entity to an alert of the window. -/
abbrev Hop : CandidateAlert → CandidateAlert → Prop :=
  Adjacent entityLabels (InWindow store tenantId start stop)

end

variable {tenantId : TenantId} {start stop : ℤ} {seed : CandidateAlert} {frontier : Finset Entity}

/-- What one depth adds, with the entities it goes on from. -/
theorem Loads.nextLayer (hloader : Loads loader store) (h : Filed store known)
    (tenantId : TenantId) (start stop : ℤ) (depth : ℕ) (frontier : Finset Entity) :
    Filed store (nextLayer loader tenantId start stop depth frontier known).1 ∧
      (∀ v k, KnownAt (nextLayer loader tenantId start stop depth frontier known).1 v k ↔
        KnownAt known v k ∨ New known (loader.loadCandidatesForEntities tenantId frontier start stop
          known.keys.toFinset) v ∧ k = depth) ∧
      ∀ e, e ∈ (nextLayer loader tenantId start stop depth frontier known).2 ↔
        ∃ v, New known (loader.loadCandidatesForEntities tenantId frontier start stop
          known.keys.toFinset) v ∧ e ∈ v.entities := by
  have hrows : ∀ row ∈ loader.loadCandidatesForEntities tenantId frontier start stop
      known.keys.toFinset, row ∈ store.alerts := fun row => hloader.rows _ _ _ _ _ row
  obtain ⟨hfiled, hat, hnext⟩ := foldl_addRow hrows depth ∅ h
  refine ⟨hfiled, hat, ?_⟩
  intro e
  rw [AttackChainRanker.nextLayer, hnext]
  simp only [Finset.notMem_empty, false_or]

/-- The new rows of a complete loader are the fresh vertices of the layer. -/
theorem new_iff_fresh (hloader : Complete loader store) (h : Filed store known)
    (v : CandidateAlert) :
    New known (loader.loadCandidatesForEntities tenantId frontier start stop
      known.keys.toFinset) v ↔
      Fresh entityLabels (InWindow store tenantId start stop) frontier (KnownAt known) v := by
  constructor
  · rintro ⟨hrow, hnew⟩
    obtain ⟨hv, e, he, hlabel⟩ := hloader.shares _ _ _ _ _ _ hrow
    exact ⟨⟨hv, e, he, hlabel⟩, not_exists.mp ((h.mem_keys hv.1).not.mp hnew)⟩
  · rintro ⟨⟨hv, e, he, hlabel⟩, hfresh⟩
    have hnew := (h.mem_keys hv.1).not.mpr (not_exists.mpr hfresh)
    exact ⟨hloader.all _ _ _ _ _ _ hv ⟨e, he, hlabel⟩ (by simpa using hnew), hnew⟩

/-- One depth is one layer. -/
theorem nextLayer_layer (hloader : Complete loader store) {d : ℕ} (h : Filed store known)
    (hlayer : Layer entityLabels (InWindow store tenantId start stop) seed d frontier
      (KnownAt known)) :
    Filed store (nextLayer loader tenantId start stop (d + 1) frontier known).1 ∧
      Layer entityLabels (InWindow store tenantId start stop) seed (d + 1)
        ((nextLayer loader tenantId start stop (d + 1) frontier known).2 \ frontier : Finset Entity)
        (KnownAt (nextLayer loader tenantId start stop (d + 1) frontier known).1) := by
  obtain ⟨hfiled, hat, hnext⟩ := hloader.toLoads.nextLayer h tenantId start stop (d + 1) frontier
  simp only [new_iff_fresh hloader h] at hat hnext
  refine ⟨hfiled, ?_⟩
  have hknown : KnownAt (nextLayer loader tenantId start stop (d + 1) frontier known).1 =
      fun v k => KnownAt known v k ∨
        Fresh entityLabels (InWindow store tenantId start stop) frontier (KnownAt known) v ∧
          k = d + 1 := by
    funext v k
    exact propext (hat v k)
  have hfrontier : (((nextLayer loader tenantId start stop (d + 1) frontier known).2 \ frontier :
      Finset Entity) : Set Entity) =
        {e | ∃ v, Fresh entityLabels (InWindow store tenantId start stop) frontier
          (KnownAt known) v ∧ e ∈ entityLabels v} \ frontier := by
    ext e
    simp only [Finset.coe_sdiff, Set.mem_sdiff, Finset.mem_coe, hnext, Set.mem_ofPred_eq]
  rw [hknown, hfrontier]
  exact hlayer.next

/-- The search finds the alerts up to its depth, at their distances. -/
theorem explore_layers (hloader : Complete loader store) (remaining d : ℕ)
    (h : Filed store known) (hlayer : Layer entityLabels (InWindow store tenantId start stop)
      seed d frontier (KnownAt known)) :
    Filed store (explore loader tenantId start stop remaining (d + 1) frontier known) ∧
      ∀ v k, KnownAt (explore loader tenantId start stop remaining (d + 1) frontier known) v k ↔
        Distance (Hop store tenantId start stop) seed k v ∧ k ≤ d + remaining := by
  induction remaining generalizing d frontier known with
  | zero => exact ⟨h, hlayer.known_iff⟩
  | succ remaining ih =>
    rw [explore]
    by_cases hempty : frontier = ∅
    · rw [if_pos hempty]
      subst hempty
      rw [Finset.coe_empty] at hlayer
      refine ⟨h, ?_⟩
      intro v k
      rw [← hlayer.stop v k]
      constructor
      · intro hat
        have hle := ((hlayer.known_iff v k).mp hat).2
        exact ⟨hat, by omega⟩
      · exact And.left
    · rw [if_neg hempty]
      obtain ⟨hfiled, hnext⟩ := nextLayer_layer hloader h hlayer
      obtain ⟨hfiled', hat⟩ := ih (d + 1) hfiled hnext
      refine ⟨hfiled', ?_⟩
      intro v k
      rw [hat v k, Nat.add_assoc, Nat.add_comm 1]

theorem filed_seed (hseed : seed ∈ store.alerts) :
    Filed store (OrderedDict.empty.set seed.id (seed, 0)) :=
  Filed.set (by nofun) hseed 0

theorem layer_seed : Layer entityLabels (InWindow store tenantId start stop) seed 0
    seed.entities (KnownAt (OrderedDict.empty.set seed.id (seed, 0))) := by
  have hknown : KnownAt (OrderedDict.empty.set seed.id (seed, 0)) =
      fun v k => v = seed ∧ k = 0 := by
    funext v k
    rw [propext (knownAt_set (List.not_mem_nil))]
    simp [KnownAt]
  rw [hknown]
  exact Layer.start

/-- The alerts that the search knows are those within its depth. -/
theorem knownAlerts_iff (hloader : Complete loader store) (hseed : seed ∈ store.alerts)
    (window : ℤ) (maxDepth : ℕ) (now : Option ℤ) :
    Filed store (knownAlerts loader tenantId seed window maxDepth now) ∧
      ∀ v k, KnownAt (knownAlerts loader tenantId seed window maxDepth now) v k ↔
        Distance (Hop store tenantId (anchor seed now - window) (anchor seed now + window))
          seed k v ∧ k ≤ 0 + maxDepth :=
  explore_layers hloader maxDepth 0 (filed_seed hseed) layer_seed

theorem Filed.mem_links (h : Filed store known) {window : ℤ} {link : ChainLink} :
    link ∈ chainLinks seed window known ↔ ∃ alert distance, KnownAt known alert distance ∧
      alert.id ≠ seed.id ∧ link = chainLink seed alert distance window := by
  rw [mem_chainLinks]
  constructor
  · rintro ⟨⟨id, alert, distance⟩, hmem, hid, hlink⟩
    have hfiled : id = alert.id := (h _ hmem).1
    rw [hfiled] at hmem hid
    exact ⟨alert, distance, OrderedDict.get_eq_some.mpr hmem, hid, hlink⟩
  · rintro ⟨alert, distance, hat, hid, hlink⟩
    exact ⟨_, OrderedDict.get_eq_some.mp hat, hid, hlink⟩

theorem Filed.links_nodup (h : Filed store known) (window : ℤ) :
    ((chainLinks seed window known).map ChainLink.alertId).Nodup := by
  have hids : (chainLinks seed window known).map ChainLink.alertId =
      (known.entries.filter fun e => e.1 ≠ seed.id).map Prod.fst := by
    rw [chainLinks, List.map_map]
    apply List.map_congr_left
    intro e he
    exact (h e (List.mem_of_mem_filter he)).1.symm
  rw [hids]
  exact (List.filter_sublist.map Prod.fst).nodup known.nodup

/-- What the chain is before it is cut. -/
structure Exact (store : AlertStore) (tenantId : TenantId) (seed : CandidateAlert) (window : ℤ)
    (maxDepth : ℕ) (now : Option ℤ) (chain : List ChainLink) : Prop where
  mem_iff : ∀ link, link ∈ chain ↔ ∃ alert distance,
    Distance (Hop store tenantId (anchor seed now - window) (anchor seed now + window))
      seed distance alert ∧ 1 ≤ distance ∧ distance ≤ maxDepth ∧
        link = chainLink seed alert distance window
  once : (chain.map ChainLink.alertId).Nodup
  never_seed : seed.id ∉ chain.map ChainLink.alertId
  ordered : chain.Pairwise fun a b =>
    b.score < a.score ∨ (a.score == b.score) = true ∧ a.eventTime ≤ b.eventTime

theorem rankedChain_answer (window : ℤ) (maxDepth : ℕ) (now : Option ℤ) :
    Answer sortKey (chainLinks seed window (knownAlerts loader tenantId seed window maxDepth now))
      (rankedChain loader tenantId seed window maxDepth now) := by
  rw [rankedChain, sortChain_eq chainLinks_isNumber]
  exact answer_sortRows _

theorem rankedChain_exact (hloader : Complete loader store) (hseed : seed ∈ store.alerts)
    (window : ℤ) (maxDepth : ℕ) (now : Option ℤ) :
    Exact store tenantId seed window maxDepth now
      (rankedChain loader tenantId seed window maxDepth now) := by
  obtain ⟨hfiled, hknown⟩ :=
    @knownAlerts_iff store loader tenantId seed hloader hseed window maxDepth now
  have hanswer : Answer sortKey _ (rankedChain loader tenantId seed window maxDepth now) :=
    rankedChain_answer window maxDepth now
  refine ⟨?_, ?_, ?_, ?_⟩
  · intro link
    rw [hanswer.perm.mem_iff, hfiled.mem_links]
    constructor
    · rintro ⟨alert, d, hat, hid, hlink⟩
      obtain ⟨hdist, hle⟩ := (hknown alert d).mp hat
      refine ⟨alert, d, hdist, ?_, by omega, hlink⟩
      rcases Nat.eq_zero_or_pos d with rfl | hpos
      · exact absurd (congrArg CandidateAlert.id (distance_zero.mp hdist)) hid
      · exact hpos
    · rintro ⟨alert, d, hdist, hpos, hle, hlink⟩
      have hat := (hknown alert d).mpr ⟨hdist, by omega⟩
      refine ⟨alert, d, hat, ?_, hlink⟩
      intro hid
      obtain rfl := store.eq_of_id (hfiled _ (OrderedDict.get_eq_some.mp hat)).2 hseed hid
      have := hdist.unique (distance_zero.mpr rfl)
      omega
  · exact (hanswer.perm.map _).nodup_iff.mpr (hfiled.links_nodup window)
  · rw [(hanswer.perm.map _).mem_iff, List.mem_map]
    rintro ⟨link, hlink, hid⟩
    obtain ⟨alert, d, -, hne, rfl⟩ := hfiled.mem_links.mp hlink
    exact hne hid
  · refine hanswer.sorted.imp_of_mem ?_
    intro a b ha hb
    exact sortKey_le (chainLinks_isNumber a (hanswer.perm.subset ha))
      (chainLinks_isNumber b (hanswer.perm.subset hb))

/-- The chain is what can be reached, and the result is the start of it. -/
theorem computeAttackChain_exact (hash : String → String) (seedAlertId : AlertId) (window : ℤ)
    (windowLabel : String) (maxDepth maxLength : ℕ) (now : Option ℤ)
    (hloader : Complete loader store) (hseed : loader.loadSeed seedAlertId tenantId = some seed) :
    Exact store tenantId seed window maxDepth now
      (rankedChain loader tenantId seed window maxDepth now) ∧
    ∃ result, computeAttackChain hash seedAlertId tenantId loader window windowLabel maxDepth
        maxLength now = some result ∧
      result.chain = (rankedChain loader tenantId seed window maxDepth now).take maxLength ∧
      result.chain.length ≤ maxLength := by
  refine ⟨rankedChain_exact hloader (hloader.seed _ _ _ hseed) window maxDepth now, ?_⟩
  unfold computeAttackChain
  rw [hseed]
  exact ⟨_, rfl, rfl, List.length_take_le _ _⟩

/-- The loader that goes through the alerts in memory. -/
def inMemoryLoader (store : AlertStore) : Loader where
  loadSeed id tenantId := store.alerts.find? fun row => row.id = id ∧ row.tenantId = tenantId
  loadCandidatesForEntities tenantId entities start stop exclude :=
    store.alerts.filter fun row =>
      (row.tenantId = tenantId ∧ row.id ∉ exclude ∧ start ≤ row.eventTime ∧
        row.eventTime ≤ stop) ∧ row.entities ∩ entities ≠ ∅

theorem inMemoryLoader_complete (store : AlertStore) : Complete (inMemoryLoader store) store where
  seed id tenantId seed h := List.mem_of_find?_eq_some h
  rows tenantId entities start stop exclude row h := List.mem_of_mem_filter h
  shares tenantId entities start stop exclude row h := by
    obtain ⟨hrow, hkept⟩ := List.mem_filter.mp h
    obtain ⟨⟨htenant, -, hstart, hstop⟩, hshared⟩ := decide_eq_true_iff.mp hkept
    obtain ⟨e, he⟩ := Finset.nonempty_iff_ne_empty.mpr hshared
    obtain ⟨hlabel, he⟩ := Finset.mem_inter.mp he
    exact ⟨⟨hrow, htenant, hstart, hstop⟩, e, he, hlabel⟩
  all tenantId entities start stop exclude row := by
    rintro ⟨hrow, htenant, hstart, hstop⟩ ⟨e, he, hlabel⟩ hexclude
    refine List.mem_filter.mpr ⟨hrow, decide_eq_true ⟨⟨htenant, hexclude, hstart, hstop⟩, ?_⟩⟩
    exact Finset.nonempty_iff_ne_empty.mp ⟨e, Finset.mem_inter.mpr ⟨hlabel, he⟩⟩

def hostAlert (id : AlertId) (eventTime : ℤ) (hosts : List String) : CandidateAlert where
  id := id
  tenantId := "acme"
  title := "Suspicious login"
  severity := "high"
  eventTime := eventTime
  mitreTechniques := []
  affectedUsers := []
  affectedHosts := hosts
  affectedIps := []
  affectedAssets := []
  connectorType := none
  sourceEventIds := []

/-- From the first alert to the second one over a host, and from there to the third. -/
def threeHosts : AlertStore where
  alerts := [hostAlert "1" 0 ["web"], hostAlert "2" 60 ["web", "db"], hostAlert "3" 90 ["db"]]
  ids_nodup := by decide

theorem threeHosts_exact :
    Exact threeHosts "acme" (hostAlert "1" 0 ["web"]) 3600 3 none
      (rankedChain (inMemoryLoader threeHosts) "acme" (hostAlert "1" 0 ["web"]) 3600 3 none) ∧
    ∃ result, computeAttackChain id "1" "acme" (inMemoryLoader threeHosts) 3600 "1h" 3 50 none =
        some result ∧
      result.chain = (rankedChain (inMemoryLoader threeHosts) "acme" (hostAlert "1" 0 ["web"])
        3600 3 none).take 50 ∧
      result.chain.length ≤ 50 :=
  computeAttackChain_exact id "1" 3600 "1h" 3 50 none (inMemoryLoader_complete threeHosts)
    (by decide)

end AttackChainExact
