import Mathlib.Data.Finset.Union
import AiSOC.AttackChainExact
import AiSOC.StableSort

/-! # Attack chains and the order of the rows

The search finds the same alerts at the same distances in whatever order the loader returns
them, so the chain is the same if the order of the chain leaves no two of its alerts tied. -/
namespace AttackChainRows

open Pagination AttackChainRanker AttackChainOrder AttackChainExact

/-- The same rows for every query, in an order of its own. -/
structure Reordered (loader other : Loader) : Prop where
  seed : other.loadSeed = loader.loadSeed
  rows : ∀ tenantId entities start stop exclude,
    (other.loadCandidatesForEntities tenantId entities start stop exclude).Perm
      (loader.loadCandidatesForEntities tenantId entities start stop exclude)

section

variable (loader : Loader) (tenantId : TenantId) (start stop : ℤ)

/-- What the search finds, as a set of alerts with their distances. -/
abbrev Found := Finset (CandidateAlert × ℕ)

def foundIds (found : Found) : Finset AlertId := found.image fun p => p.1.id

/-- The rows that have not been found yet. -/
def freshRows (frontier : Finset Entity) (found : Found) : Finset CandidateAlert :=
  (loader.loadCandidatesForEntities tenantId frontier start stop
    (foundIds found)).toFinset.filter fun row => row.id ∉ foundIds found

def reach : ℕ → ℕ → Finset Entity → Found → Found
  | 0, _, _, found => found
  | remaining + 1, depth, frontier, found =>
    if frontier = ∅ then found
    else
      let rows := freshRows loader tenantId start stop frontier found
      reach remaining (depth + 1) (rows.biUnion CandidateAlert.entities \ frontier)
        (found ∪ rows.image fun row => (row, depth))

end

/-- The alerts that the search finds, except the seed. -/
def candidates (loader : Loader) (tenantId : TenantId) (seed : CandidateAlert) (window : ℤ)
    (maxDepth : ℕ) (now : Option ℤ) : Found :=
  (reach loader tenantId (anchor seed now - window) (anchor seed now + window) maxDepth 1
    seed.entities {(seed, 0)}).filter fun p => p.1.id ≠ seed.id

variable {loader other : Loader} {store : AlertStore} {known : Known} {found : Found}
  {tenantId : TenantId} {start stop window : ℤ} {seed : CandidateAlert} {frontier : Finset Entity}

theorem Reordered.reach_eq (h : Reordered loader other) (remaining depth : ℕ) :
    reach other tenantId start stop remaining depth frontier found =
      reach loader tenantId start stop remaining depth frontier found := by
  induction remaining generalizing depth frontier found with
  | zero => rfl
  | succ remaining ih =>
    have hrows : freshRows other tenantId start stop frontier found =
        freshRows loader tenantId start stop frontier found := by
      unfold freshRows
      rw [List.toFinset_eq_of_perm _ _ (h.rows _ _ _ _ _)]
    rw [reach, reach, hrows]
    split_ifs
    · rfl
    · exact ih _

theorem Reordered.loads (h : Reordered loader other) (hloads : Loads loader store) :
    Loads other store where
  seed id tenantId seed hseed := hloads.seed id tenantId seed (h.seed ▸ hseed)
  rows _ _ _ _ _ row hrow := hloads.rows _ _ _ _ _ row ((h.rows _ _ _ _ _).subset hrow)

/-- The dictionary holds what was found. -/
structure Holds (store : AlertStore) (known : Known) (found : Found) : Prop where
  filed : Filed store known
  mem_iff : ∀ v k, KnownAt known v k ↔ (v, k) ∈ found

theorem Holds.keys_eq (h : Holds store known found) : known.keys.toFinset = foundIds found := by
  ext id
  simp only [List.mem_toFinset, OrderedDict.keys, List.mem_map, foundIds, Finset.mem_image,
    Prod.exists]
  constructor
  · rintro ⟨_, alert, k, hmem, rfl⟩
    have hid := (h.filed _ hmem).1
    dsimp only at hid
    subst hid
    exact ⟨alert, k, (h.mem_iff alert k).mp (OrderedDict.get_eq_some.mpr hmem), rfl⟩
  · rintro ⟨alert, k, hmem, rfl⟩
    exact ⟨_, alert, k, OrderedDict.get_eq_some.mp ((h.mem_iff alert k).mpr hmem), rfl⟩

theorem Holds.mem_freshRows (h : Holds store known found) (v : CandidateAlert) :
    v ∈ freshRows loader tenantId start stop frontier found ↔
      New known (loader.loadCandidatesForEntities tenantId frontier start stop
        known.keys.toFinset) v := by
  rw [freshRows, Finset.mem_filter, List.mem_toFinset, ← h.keys_eq, List.mem_toFinset, New]

theorem explore_holds (hloads : Loads loader store) (remaining depth : ℕ)
    (h : Holds store known found) :
    Holds store (explore loader tenantId start stop remaining depth frontier known)
      (reach loader tenantId start stop remaining depth frontier found) := by
  induction remaining generalizing depth frontier known found with
  | zero => exact h
  | succ remaining ih =>
    rw [explore, reach]
    split_ifs with hempty
    · exact h
    · obtain ⟨hfiled, hat, hnext⟩ := hloads.nextLayer h.filed tenantId start stop depth frontier
      have hholds : Holds store (nextLayer loader tenantId start stop depth frontier known).1
          (found ∪ (freshRows loader tenantId start stop frontier found).image
            fun row => (row, depth)) := by
        refine ⟨hfiled, ?_⟩
        intro v k
        rw [hat, ← h.mem_freshRows, h.mem_iff]
        simp only [Finset.mem_union, Finset.mem_image, Prod.mk.injEq, existsAndEq, true_and,
          @eq_comm _ k]
      have hfrontier : (nextLayer loader tenantId start stop depth frontier known).2 =
          (freshRows loader tenantId start stop frontier found).biUnion
            CandidateAlert.entities := by
        ext e
        rw [hnext, Finset.mem_biUnion]
        simp only [h.mem_freshRows]
      dsimp only
      rw [hfrontier]
      exact ih (depth + 1) hholds

theorem knownAlerts_holds (hloads : Loads loader store) (hseed : seed ∈ store.alerts)
    (window : ℤ) (maxDepth : ℕ) (now : Option ℤ) :
    Holds store (knownAlerts loader tenantId seed window maxDepth now)
      (reach loader tenantId (anchor seed now - window) (anchor seed now + window) maxDepth 1
        seed.entities {(seed, 0)}) := by
  refine explore_holds hloads maxDepth 1 ⟨filed_seed hseed, ?_⟩
  intro v k
  rw [knownAt_set List.not_mem_nil, Finset.mem_singleton, Prod.mk.injEq]
  simp [KnownAt]

/-- What a depth adds stands behind what was known. -/
theorem foldl_addRow_entries (rows : List CandidateAlert) (depth : ℕ) (next : Finset Entity) :
    ∃ added, (rows.foldl (addRow depth) (known, next)).1.entries = known.entries ++ added ∧
      ∀ e ∈ added, e.2.2 = depth := by
  induction rows generalizing known next with
  | nil => exact ⟨[], (List.append_nil _).symm, by simp⟩
  | cons row rows ih =>
    rw [List.foldl_cons, addRow]
    split_ifs with hrow
    · exact ih next
    · obtain ⟨added, hadded, hdepth⟩ := @ih (known.set row.id (row, depth)) (next ∪ row.entities)
      refine ⟨(row.id, row, depth) :: added, ?_, List.forall_mem_cons.mpr ⟨rfl, hdepth⟩⟩
      rw [hadded, OrderedDict.entries_set_of_notMem hrow, List.append_assoc,
        List.singleton_append]

/-- The distances rise in the order of the dictionary, below the next depth. -/
structure Rising (depth : ℕ) (known : Known) : Prop where
  sorted : known.entries.Pairwise fun a b => a.2.2 ≤ b.2.2
  below : ∀ e ∈ known.entries, e.2.2 < depth

theorem Rising.nextLayer {depth : ℕ} (h : Rising depth known) (frontier : Finset Entity) :
    Rising (depth + 1) (nextLayer loader tenantId start stop depth frontier known).1 := by
  obtain ⟨added, hentries, hdepth⟩ := @foldl_addRow_entries known
    (loader.loadCandidatesForEntities tenantId frontier start stop known.keys.toFinset) depth ∅
  constructor
  · rw [AttackChainRanker.nextLayer, hentries, List.pairwise_append]
    refine ⟨h.sorted, ?_, ?_⟩
    · refine List.pairwise_of_forall_mem_list ?_
      intro a ha b hb
      rw [hdepth a ha, hdepth b hb]
    · intro a ha b hb
      rw [hdepth b hb]
      exact (h.below a ha).le
  · rw [AttackChainRanker.nextLayer, hentries]
    intro e he
    rcases List.mem_append.mp he with he | he
    · exact Nat.lt_succ_of_lt (h.below e he)
    · rw [hdepth e he]
      exact Nat.lt_succ_self depth

theorem Rising.explore {depth : ℕ} (h : Rising depth known) (remaining : ℕ) :
    (explore loader tenantId start stop remaining depth frontier known).entries.Pairwise
      fun a b => a.2.2 ≤ b.2.2 := by
  induction remaining generalizing depth frontier known with
  | zero => exact h.sorted
  | succ remaining ih =>
    rw [AttackChainRanker.explore]
    split_ifs
    · exact h.sorted
    · exact ih (h.nextLayer frontier)

theorem rising_seed : Rising 1 (OrderedDict.empty.set seed.id (seed, 0)) where
  sorted := List.pairwise_singleton _ _
  below e he := by
    obtain rfl := List.mem_singleton.mp he
    exact Nat.zero_lt_one

/-- With the distance, in which the search finds the alerts. -/
def rowKey (link : ChainLink) : (FloatOrder.Rank ×ₗ ℤ) ×ₗ ℕ := toLex (sortKey link, link.distance)

/-- The chain is in the order of the score, the time and the distance. -/
theorem rankedChain_rows (maxDepth : ℕ) (now : Option ℤ) :
    Answer rowKey (chainLinks seed window (knownAlerts loader tenantId seed window maxDepth now))
      (rankedChain loader tenantId seed window maxDepth now) := by
  rw [rankedChain, sortChain_eq chainLinks_isNumber]
  apply answer_lex
  have hsorted : (knownAlerts loader tenantId seed window maxDepth now).entries.Pairwise
      fun a b => a.2.2 ≤ b.2.2 := rising_seed.explore maxDepth
  exact List.pairwise_map.mpr (hsorted.filter _)

/-- `a` is before `b` in every order of the rows. -/
def precedes (a b : ChainLink) : Bool :=
  keyLt a b || !keyLt b a && decide (a.distance < b.distance)

theorem precedes_iff {a b : ChainLink} (ha : FloatOrder.IsNumber a.score)
    (hb : FloatOrder.IsNumber b.score) : precedes a b = true ↔ rowKey a < rowKey b := by
  rw [precedes, Bool.or_eq_true, Bool.and_eq_true, Bool.not_eq_true', ← Bool.not_eq_true,
    keyLt_iff ha hb, keyLt_iff hb ha, decide_eq_true_iff, rowKey, rowKey,
    Prod.Lex.toLex_lt_toLex, not_lt]
  constructor
  · rintro (hlt | ⟨hle, hdist⟩)
    · exact Or.inl hlt
    · rcases lt_or_eq_of_le hle with hlt | heq
      · exact Or.inl hlt
      · exact Or.inr ⟨heq, hdist⟩
  · rintro (hlt | ⟨heq, hdist⟩)
    · exact Or.inl hlt
    · exact Or.inr ⟨heq.le, hdist⟩

/-- Of any two alerts that the order leaves tied, the chain is cut before both. -/
def TiesAreCut (seed : CandidateAlert) (window : ℤ) (maxLength : ℕ) (found : Found) : Prop :=
  ∀ a ∈ found, ∀ b ∈ found, a ≠ b →
    precedes (chainLink seed a.1 a.2 window) (chainLink seed b.1 b.2 window) = false →
    precedes (chainLink seed b.1 b.2 window) (chainLink seed a.1 a.2 window) = false →
    maxLength ≤ (found.filter fun c =>
      precedes (chainLink seed c.1 c.2 window) (chainLink seed a.1 a.2 window)).card

/-- What the chain is made from. -/
def pairs (seed : CandidateAlert) (known : Known) : List (CandidateAlert × ℕ) :=
  (known.entries.filter fun e => e.1 ≠ seed.id).map Prod.snd

theorem chainLinks_eq (seed : CandidateAlert) (window : ℤ) (known : Known) :
    chainLinks seed window known =
      (pairs seed known).map fun p => chainLink seed p.1 p.2 window := by
  rw [chainLinks, pairs, List.map_map]
  rfl

theorem Holds.pairs_nodup (h : Holds store known found) : (pairs seed known).Nodup := by
  have hlinks : (chainLinks seed 0 known).Nodup := (h.filed.links_nodup 0).of_map
  rw [chainLinks_eq] at hlinks
  exact hlinks.of_map

theorem Holds.pairs_toFinset (h : Holds store known found) :
    (pairs seed known).toFinset = found.filter fun p => p.1.id ≠ seed.id := by
  ext ⟨alert, k⟩
  rw [List.mem_toFinset, Finset.mem_filter, ← h.mem_iff, pairs, List.mem_map]
  constructor
  · rintro ⟨⟨id, p⟩, he, rfl⟩
    obtain ⟨hmem, hid⟩ := List.mem_filter.mp he
    have hfiled : id = alert.id := (h.filed _ hmem).1
    subst hfiled
    exact ⟨OrderedDict.get_eq_some.mpr hmem, of_decide_eq_true hid⟩
  · rintro ⟨hat, hid⟩
    exact ⟨_, List.mem_filter.mpr ⟨OrderedDict.get_eq_some.mp hat, decide_eq_true hid⟩, rfl⟩

/-- The links that come before one, counted among the alerts that are found. -/
theorem Holds.before_eq (h : Holds store known found) (a : CandidateAlert × ℕ) :
    before rowKey (chainLinks seed window known) (chainLink seed a.1 a.2 window) =
      ((found.filter fun p => p.1.id ≠ seed.id).filter fun c =>
        precedes (chainLink seed c.1 c.2 window) (chainLink seed a.1 a.2 window)).card := by
  rw [← h.pairs_toFinset, ← List.toFinset_filter,
    List.toFinset_card_of_nodup (h.pairs_nodup.filter _), ← List.countP_eq_length_filter, before, chainLinks_eq, List.countP_map]
  apply List.countP_congr
  intro c _
  rw [Function.comp_apply, decide_eq_true_iff]
  exact (precedes_iff (score_isNumber _ _ _ _) (score_isNumber _ _ _ _)).symm

theorem rowKey_tied {a b : CandidateAlert × ℕ} :
    rowKey (chainLink seed a.1 a.2 window) = rowKey (chainLink seed b.1 b.2 window) ↔
      precedes (chainLink seed a.1 a.2 window) (chainLink seed b.1 b.2 window) = false ∧
      precedes (chainLink seed b.1 b.2 window) (chainLink seed a.1 a.2 window) = false := by
  rw [← Bool.not_eq_true, ← Bool.not_eq_true,
    precedes_iff (score_isNumber _ _ _ _) (score_isNumber _ _ _ _),
    precedes_iff (score_isNumber _ _ _ _) (score_isNumber _ _ _ _), not_lt, not_lt]
  constructor
  · intro heq
    exact ⟨heq.ge, heq.le⟩
  · rintro ⟨hba, hab⟩
    exact le_antisymm hab hba

variable (tenantId seed window) in
/-- Reordered rows give the same links, in an order of the same key. -/
theorem reordered_answer (hloads : Loads loader store) (hseed : seed ∈ store.alerts)
    (h : Reordered loader other) (maxDepth : ℕ) (now : Option ℤ) :
    Answer rowKey (chainLinks seed window (knownAlerts loader tenantId seed window maxDepth now))
      (rankedChain other tenantId seed window maxDepth now) := by
  have hloader : Holds store (knownAlerts loader tenantId seed window maxDepth now) _ :=
    knownAlerts_holds hloads hseed window maxDepth now
  have hother : Holds store (knownAlerts other tenantId seed window maxDepth now) _ :=
    knownAlerts_holds (h.loads hloads) hseed window maxDepth now
  have hpairs : (pairs seed (knownAlerts other tenantId seed window maxDepth now)).Perm
      (pairs seed (knownAlerts loader tenantId seed window maxDepth now)) := by
    apply List.perm_of_nodup_nodup_toFinset_eq hother.pairs_nodup hloader.pairs_nodup
    rw [hother.pairs_toFinset, hloader.pairs_toFinset, h.reach_eq]
  have hanswer : Answer rowKey
      (chainLinks seed window (knownAlerts other tenantId seed window maxDepth now))
      (rankedChain other tenantId seed window maxDepth now) := rankedChain_rows maxDepth now
  refine ⟨hanswer.perm.trans ?_, hanswer.sorted⟩
  rw [chainLinks_eq, chainLinks_eq]
  exact hpairs.map _

/-- Without ties before the cut, the order of the rows does not show. -/
theorem take_eq_of_tiesAreCut (hloads : Loads loader store) (hseed : seed ∈ store.alerts)
    {maxDepth maxLength : ℕ} {now : Option ℤ} {first second : Loader}
    (hfirst : Reordered loader first) (hsecond : Reordered loader second)
    (hties : TiesAreCut seed window maxLength
      (candidates loader tenantId seed window maxDepth now)) :
    (rankedChain first tenantId seed window maxDepth now).take maxLength =
      (rankedChain second tenantId seed window maxDepth now).take maxLength := by
  have hholds : Holds store (knownAlerts loader tenantId seed window maxDepth now) _ :=
    knownAlerts_holds hloads hseed window maxDepth now
  refine (reordered_answer tenantId window seed hloads hseed hfirst maxDepth now).take_eq
    (reordered_answer tenantId window seed hloads hseed hsecond maxDepth now) ?_
  intro x hx y hy hne hkey
  rw [chainLinks_eq, List.mem_map] at hx hy
  obtain ⟨a, ha, rfl⟩ := hx
  obtain ⟨b, hb, rfl⟩ := hy
  rw [← List.mem_toFinset, hholds.pairs_toFinset] at ha hb
  obtain ⟨hab, hba⟩ := rowKey_tied.mp hkey
  rw [hholds.before_eq]
  exact hties a ha b hb (fun heq => hne (heq ▸ rfl)) hab hba

/-- The loader that returns one alert before all others. -/
def promote (v : CandidateAlert) (loader : Loader) : Loader where
  loadSeed := loader.loadSeed
  loadCandidatesForEntities tenantId entities start stop exclude :=
    let rows := loader.loadCandidatesForEntities tenantId entities start stop exclude
    rows.filter (· = v) ++ rows.filter (· ≠ v)

variable {v : CandidateAlert}

theorem promote_reordered (v : CandidateAlert) (loader : Loader) :
    Reordered loader (promote v loader) := by
  refine ⟨rfl, ?_⟩
  intro tenantId entities start stop exclude
  have hperm := List.filter_append_perm (· = v)
    (loader.loadCandidatesForEntities tenantId entities start stop exclude)
  simpa only [promote, ne_eq, decide_not] using hperm

theorem promote_rows {entities : Finset Entity} {exclude : Finset AlertId}
    (h : v ∈ (promote v loader).loadCandidatesForEntities tenantId entities start stop exclude) :
    ∃ rest, (promote v loader).loadCandidatesForEntities tenantId entities start stop exclude =
      v :: rest := by
  unfold promote at h ⊢
  dsimp only at h ⊢
  generalize loader.loadCandidatesForEntities tenantId entities start stop exclude = rows at h ⊢
  cases hv : rows.filter (· = v) with
  | nil =>
    rw [hv, List.nil_append] at h
    exact absurd rfl (of_decide_eq_true (List.mem_filter.mp h).2)
  | cons w ws =>
    have hw : w ∈ rows.filter (· = v) := hv ▸ List.mem_cons_self
    obtain rfl := of_decide_eq_true (List.mem_filter.mp hw).2
    exact ⟨_, rfl⟩

/-- The alert is the first one that is known at its distance. -/
def Leads (v : CandidateAlert) (known : Known) : Prop :=
  ∀ k, KnownAt known v k → (known.entries.find? fun e => e.2.2 = k) = some (v.id, v, k)

theorem Leads.append {known' : Known} {added : List (AlertId × CandidateAlert × ℕ)}
    (h : Leads v known) (hv : v.id ∈ known.keys)
    (hentries : known'.entries = known.entries ++ added) : Leads v known' := by
  intro k hat
  obtain ⟨p, hp⟩ := Option.isSome_iff_exists.mp (OrderedDict.get_isSome.mpr hv)
  have hp' : known'.get v.id = some p := by
    rw [OrderedDict.get_eq_some, hentries, List.mem_append]
    exact Or.inl (OrderedDict.get_eq_some.mp hp)
  obtain rfl := Option.some.inj (hp'.symm.trans hat)
  rw [hentries, List.find?_append, h k hp]
  rfl

theorem Leads.nextLayer {depth : ℕ} (hloads : Loads loader store) (hfiled : Filed store known)
    (h : Leads v known) (hrising : Rising depth known) :
    Leads v (nextLayer (promote v loader) tenantId start stop depth frontier known).1 := by
  by_cases hv : v.id ∈ known.keys
  · obtain ⟨added, hentries, -⟩ := @foldl_addRow_entries known
      ((promote v loader).loadCandidatesForEntities tenantId frontier start stop
        known.keys.toFinset) depth ∅
    exact h.append hv hentries
  · by_cases hrow : v ∈ (promote v loader).loadCandidatesForEntities tenantId frontier start stop
        known.keys.toFinset
    · obtain ⟨rest, hrest⟩ := promote_rows hrow
      rw [AttackChainRanker.nextLayer, hrest, List.foldl_cons, addRow, if_neg hv]
      obtain ⟨added, hentries, -⟩ :=
        @foldl_addRow_entries (known.set v.id (v, depth)) rest depth (∅ ∪ v.entities)
      refine Leads.append ?_ (OrderedDict.mem_keys_set.mpr (Or.inl rfl)) hentries
      -- the alert is the first one that this depth adds
      intro k hat
      have hnone : (known.entries.find? fun e => e.2.2 = depth) = none := by
        rw [List.find?_eq_none]
        intro e he
        have := hrising.below e he
        simp only [decide_eq_true_eq]
        omega
      unfold KnownAt at hat
      rw [OrderedDict.get_set, if_pos rfl] at hat
      cases hat
      rw [OrderedDict.entries_set_of_notMem hv, List.find?_append, hnone]
      simp
    · have hpromoted := (promote_reordered v loader).loads hloads
      intro k hat
      rcases ((hpromoted.nextLayer hfiled tenantId start stop depth frontier).2.1 v k).mp hat with
        hknown | ⟨hnew, -⟩
      · exact absurd hknown.mem_keys hv
      · exact absurd hnew.1 hrow

theorem Leads.explore (hloads : Loads loader store) (remaining : ℕ) {depth : ℕ}
    (hfiled : Filed store known) (h : Leads v known) (hrising : Rising depth known) :
    Leads v (explore (promote v loader) tenantId start stop remaining depth frontier known) := by
  induction remaining generalizing depth frontier known with
  | zero => exact h
  | succ remaining ih =>
    have hpromoted := (promote_reordered v loader).loads hloads
    rw [AttackChainRanker.explore]
    split_ifs
    · exact h
    · exact ih (hpromoted.nextLayer hfiled tenantId start stop depth frontier).1
        (h.nextLayer hloads hfiled hrising) (hrising.nextLayer frontier)

theorem leads_seed (hv : v.id ≠ seed.id) : Leads v (OrderedDict.empty.set seed.id (seed, 0)) := by
  intro k hat
  have hmem := hat.mem_keys
  rw [OrderedDict.mem_keys_set] at hmem
  rcases hmem with heq | hmem
  · exact absurd heq hv
  · exact absurd hmem List.not_mem_nil

/-- Among the links that are tied with its own, that of the alert comes first. -/
theorem Leads.find?_links (h : Leads v known) (hv : v.id ≠ seed.id) {k : ℕ}
    (hat : KnownAt known v k) :
    ((chainLinks seed window known).find? fun link =>
      rowKey link = rowKey (chainLink seed v k window)) = some (chainLink seed v k window) := by
  obtain ⟨-, as, bs, hentries, has⟩ := List.find?_eq_some_iff_append.mp (h k hat)
  have hfind : ((known.entries.filter fun e => e.1 ≠ seed.id).find? fun e =>
      rowKey (chainLink seed e.2.1 e.2.2 window) = rowKey (chainLink seed v k window)) =
        some (v.id, v, k) := by
    rw [List.find?_filter, List.find?_eq_some_iff_append]
    refine ⟨by simpa using hv, as, bs, hentries, ?_⟩
    intro e he
    have hdist := has e he
    simp only [Bool.not_eq_true', decide_eq_false_iff_not] at hdist ⊢
    rintro ⟨-, hkey⟩
    exact hdist (Prod.mk.inj (toLex.injective (of_decide_eq_true hkey))).2
  rw [chainLinks, List.find?_map]
  unfold Function.comp
  rw [hfind]
  rfl

/-- Its link stands where the tie begins. -/
theorem promote_getElem (hloads : Loads loader store) (hseed : seed ∈ store.alerts)
    {maxDepth : ℕ} {now : Option ℤ} {k : ℕ}
    (hfound : (v, k) ∈ candidates loader tenantId seed window maxDepth now) :
    (rankedChain (promote v loader) tenantId seed window maxDepth now)[before rowKey
      (chainLinks seed window (knownAlerts loader tenantId seed window maxDepth now))
      (chainLink seed v k window)]? = some (chainLink seed v k window) := by
  have hreordered := promote_reordered v loader
  obtain ⟨hmem, hv⟩ := Finset.mem_filter.mp hfound
  have hholds : Holds store (knownAlerts loader tenantId seed window maxDepth now) _ :=
    knownAlerts_holds hloads hseed window maxDepth now
  have hholds' : Holds store (knownAlerts (promote v loader) tenantId seed window maxDepth now) _ :=
    knownAlerts_holds (hreordered.loads hloads) hseed window maxDepth now
  rw [hreordered.reach_eq] at hholds'
  have hat := (hholds'.mem_iff v k).mpr hmem
  have hleads : Leads v (knownAlerts (promote v loader) tenantId seed window maxDepth now) :=
    (leads_seed hv).explore hloads maxDepth (filed_seed hseed) rising_seed
  have hlink : chainLink seed v k window ∈
      chainLinks seed window (knownAlerts loader tenantId seed window maxDepth now) :=
    hholds.filed.mem_links.mpr ⟨v, k, (hholds.mem_iff v k).mpr hmem, hv, rfl⟩
  rw [(reordered_answer tenantId window seed hloads hseed hreordered maxDepth now).getElem_before
    hlink, rankedChain, sortChain_eq chainLinks_isNumber,
    @find?_sortRows _ _ _ _ _ _ (sortKey (chainLink seed v k window))]
  · exact hleads.find?_links hv hat
  · intro link hlink
    exact (Prod.mk.inj (toLex.injective (of_decide_eq_true hlink))).1

/-- The links and the signature. -/
def outcome (hash : String → String) (seedAlertId : AlertId) (tenantId : TenantId)
    (window : ℤ) (windowLabel : String) (maxDepth maxLength : ℕ) (now : Option ℤ)
    (loader : Loader) : Option (List ChainLink × String) :=
  (computeAttackChain hash seedAlertId tenantId loader window windowLabel maxDepth maxLength
    now).map fun result => (result.chain, result.chainSignature)

variable {hash : String → String} {seedAlertId : AlertId} {windowLabel : String}
  {maxDepth maxLength : ℕ} {now : Option ℤ}

theorem Reordered.outcome_eq (h : Reordered loader other)
    (hseed : loader.loadSeed seedAlertId tenantId = some seed) :
    outcome hash seedAlertId tenantId window windowLabel maxDepth maxLength now other =
      some ((rankedChain other tenantId seed window maxDepth now).take maxLength,
        chainSignature hash seed.id
          ((rankedChain other tenantId seed window maxDepth now).take maxLength)) := by
  unfold outcome computeAttackChain
  rw [h.seed, hseed]
  rfl

/-- Of two tied alerts before the cut, each can be the first one. -/
theorem tiesAreCut_of_stable (hloads : Loads loader store)
    (hstable : ∀ first second, Reordered loader first → Reordered loader second →
      outcome hash seedAlertId tenantId window windowLabel maxDepth maxLength now first =
        outcome hash seedAlertId tenantId window windowLabel maxDepth maxLength now second)
    (hseed : loader.loadSeed seedAlertId tenantId = some seed) :
    TiesAreCut seed window maxLength (candidates loader tenantId seed window maxDepth now) := by
  have hmem := hloads.seed _ _ _ hseed
  have hholds : Holds store (knownAlerts loader tenantId seed window maxDepth now) _ :=
    knownAlerts_holds hloads hmem window maxDepth now
  intro a ha b hb hne hab hba
  have hkey := rowKey_tied.mpr ⟨hab, hba⟩
  have hcount : before rowKey _ (chainLink seed a.1 a.2 window) =
      ((candidates loader tenantId seed window maxDepth now).filter _).card := hholds.before_eq a
  by_contra hcut
  have hfirst := promote_reordered a.1 loader
  have hsecond := promote_reordered b.1 loader
  have hsame := hstable _ _ hfirst hsecond
  rw [hfirst.outcome_eq hseed, hsecond.outcome_eq hseed, Option.some.injEq,
    Prod.mk.injEq] at hsame
  have hata := promote_getElem hloads hmem ha
  have hatb := promote_getElem hloads hmem hb
  rw [before, ← hkey, ← before] at hatb
  have hlt : before rowKey (chainLinks seed window (knownAlerts loader tenantId seed window
      maxDepth now)) (chainLink seed a.1 a.2 window) < maxLength := by omega
  rw [← List.getElem?_take_of_lt hlt, hsame.1, List.getElem?_take_of_lt hlt, hatb,
    Option.some.injEq] at hata
  obtain ⟨ha, -⟩ := Finset.mem_filter.mp ha
  obtain ⟨hb, -⟩ := Finset.mem_filter.mp hb
  have hid : b.1.id = a.1.id := congrArg ChainLink.alertId hata
  have hknowna : OrderedDict.get _ a.1.id = some a := (hholds.mem_iff a.1 a.2).mpr ha
  have hknownb : OrderedDict.get _ b.1.id = some b := (hholds.mem_iff b.1 b.2).mpr hb
  rw [hid, hknowna, Option.some.injEq] at hknownb
  exact hne hknownb

/-- The links and the signature do not depend on the order of the rows if and only if the chain
is cut before all alerts that are tied. -/
theorem outcome_stable_iff (hloads : Loads loader store) :
    (∀ first second, Reordered loader first → Reordered loader second →
      outcome hash seedAlertId tenantId window windowLabel maxDepth maxLength now first =
        outcome hash seedAlertId tenantId window windowLabel maxDepth maxLength now second) ↔
    ∀ seed, loader.loadSeed seedAlertId tenantId = some seed →
      TiesAreCut seed window maxLength
        (candidates loader tenantId seed window maxDepth now) := by
  constructor
  · intro hstable seed hseed
    exact tiesAreCut_of_stable hloads hstable hseed
  · intro hties first second hfirst hsecond
    cases hseed : loader.loadSeed seedAlertId tenantId with
    | none =>
      unfold outcome computeAttackChain
      rw [hfirst.seed, hsecond.seed, hseed]
      rfl
    | some seed =>
      rw [hfirst.outcome_eq hseed, hsecond.outcome_eq hseed,
        take_eq_of_tiesAreCut hloads (hloads.seed _ _ _ hseed) hfirst hsecond (hties seed hseed)]

theorem threeHosts_stable :
    (∀ first second, Reordered (inMemoryLoader threeHosts) first →
      Reordered (inMemoryLoader threeHosts) second →
      outcome id "1" "acme" 3600 "1h" 3 50 none first =
        outcome id "1" "acme" 3600 "1h" 3 50 none second) ↔
    ∀ seed, (inMemoryLoader threeHosts).loadSeed "1" "acme" = some seed →
      TiesAreCut seed 3600 50 (candidates (inMemoryLoader threeHosts) "acme" seed 3600 3 none) :=
  outcome_stable_iff (inMemoryLoader_complete threeHosts).toLoads

/-- Two alerts of the same moment on the same host. -/
def twoAtOnce : AlertStore where
  alerts := [hostAlert "1" 0 ["web"], hostAlert "2" 60 ["web"], hostAlert "3" 60 ["web"]]
  ids_nodup := by decide

theorem twoAtOnce_tied :
    ¬ TiesAreCut (hostAlert "1" 0 ["web"]) 3600 50
      (candidates (inMemoryLoader twoAtOnce) "acme" (hostAlert "1" 0 ["web"]) 3600 3 none) := by
  have hcandidates : candidates (inMemoryLoader twoAtOnce) "acme" (hostAlert "1" 0 ["web"]) 3600 3
      none = {(hostAlert "2" 60 ["web"], 1), (hostAlert "3" 60 ["web"], 1)} := by decide
  rw [hcandidates]
  intro hties
  have hcut := hties (hostAlert "2" 60 ["web"], 1) (by decide) (hostAlert "3" 60 ["web"], 1)
    (by decide) (by decide) (by decide +kernel) (by decide +kernel)
  revert hcut
  decide +kernel

/-- The two can change places. -/
theorem twoAtOnce_unstable :
    ¬ ∀ first second, Reordered (inMemoryLoader twoAtOnce) first →
      Reordered (inMemoryLoader twoAtOnce) second →
      outcome id "1" "acme" 3600 "1h" 3 50 none first =
        outcome id "1" "acme" 3600 "1h" 3 50 none second := by
  intro hstable
  exact twoAtOnce_tied (tiesAreCut_of_stable (inMemoryLoader_complete twoAtOnce).toLoads hstable
    (by decide))

end AttackChainRows
