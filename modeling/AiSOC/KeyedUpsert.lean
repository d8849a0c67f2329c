import AiSOC.KeyedGraph

/-! # Batched upserts as writes

A batched upsert merges its rows clause by clause and sets properties afterwards. As merging
never makes a second node of a key, and never a second relationship of a type between two
nodes, what a row is bound to does not depend on when it is bound, and the statement writes
what its rows write in order. -/
namespace KeyedUpsert

open PropertyGraph
open KeyedGraph

variable {Label Rel V K R : Type*}

/-- A clause that makes what is absent, class by class: `bound` is what a class is bound to
and depends on nothing that is made for other classes. -/
structure Merging (G C B : Type*) where
  clause : G → C → G × B
  add : G → List C → G
  Has : G → C → Prop
  bound : G → C → B
  add_nil : ∀ g, add g [] = g
  add_add : ∀ g xs ys, add (add g xs) ys = add g (xs ++ ys)
  has_add : ∀ g xs c, Has (add g xs) c ↔ Has g c ∨ c ∈ xs
  bound_add : ∀ g xs c, c ∉ xs → bound (add g xs) c = bound g c
  clause_of_has : ∀ g c, Has g c → clause g c = (g, bound g c)
  clause_of_not_has : ∀ g c, ¬ Has g c → clause g c = (add g [c], bound (add g [c]) c)

section Merging

variable {G C B : Type*} (M : Merging G C B)

/-- `news` are the classes of `wanted` that were absent. -/
structure Merging.Makes (g : G) (wanted : C → Prop) (news : List C) : Prop where
  nodup : news.Nodup
  mem_iff : ∀ c, c ∈ news ↔ wanted c ∧ ¬ M.Has g c

variable {M} {g : G} {wanted later : C → Prop} {news more : List C}

theorem Merging.Makes.has (h : M.Makes g wanted news) {c : C} (hc : wanted c) :
    M.Has (M.add g news) c := by
  rw [M.has_add, h.mem_iff]
  by_cases hold : M.Has g c
  · exact Or.inl hold
  · exact Or.inr ⟨hc, hold⟩

theorem Merging.Makes.append (h : M.Makes g wanted news)
    (h' : M.Makes (M.add g news) later more) :
    M.Makes g (fun c => wanted c ∨ later c) (news ++ more) := by
  constructor
  · refine List.nodup_append.mpr ⟨h.nodup, h'.nodup, ?_⟩
    rintro c hc d hd rfl
    exact ((h'.mem_iff c).mp hd).2 ((M.has_add _ _ _).mpr (Or.inr hc))
  · intro c
    rw [List.mem_append, h'.mem_iff, M.has_add, h.mem_iff]
    tauto

/-- What was wanted before is bound to the same afterwards. -/
theorem Merging.Makes.bound_later (h : M.Makes g wanted news)
    (h' : M.Makes (M.add g news) later more) {c : C} (hc : wanted c) :
    M.bound (M.add g (news ++ more)) c = M.bound (M.add g news) c := by
  rw [← M.add_add]
  exact M.bound_add _ _ _ fun hmore => ((h'.mem_iff c).mp hmore).2 (h.has hc)

/-- A clause over rows makes every absent class once and leaves every row bound to the same,
whenever one looks. -/
theorem mapRows_merge (M : Merging G C B) (g : G) (c : R → C) (rows : List R) :
    ∃ news, M.Makes g (fun d => ∃ row ∈ rows, c row = d) news ∧
      mapRows (fun g row => M.clause g (c row)) g rows =
        (M.add g news, rows.map fun row => (row, M.bound (M.add g news) (c row))) := by
  induction rows using List.reverseRecOn with
  | nil => exact ⟨[], ⟨List.nodup_nil, by simp⟩, by simp [mapRows, M.add_nil]⟩
  | append_singleton rows row ih =>
    obtain ⟨news, hmakes, heq⟩ := ih
    have hstep : ∃ more, M.Makes (M.add g news) (fun d => c row = d) more ∧
        M.clause (M.add g news) (c row) =
          (M.add g (news ++ more), M.bound (M.add g (news ++ more)) (c row)) := by
      by_cases hhas : M.Has (M.add g news) (c row)
      · refine ⟨[], ⟨List.nodup_nil, fun d => ?_⟩, ?_⟩
        · constructor
          · exact fun h => (List.not_mem_nil h).elim
          · rintro ⟨rfl, hnot⟩
            exact (hnot hhas).elim
        · rw [List.append_nil, M.clause_of_has _ _ hhas]
      · refine ⟨[c row], ⟨List.nodup_singleton _, fun d => ?_⟩, ?_⟩
        · rw [List.mem_singleton]
          constructor
          · rintro rfl
            exact ⟨rfl, hhas⟩
          · rintro ⟨rfl, -⟩
            rfl
        · rw [M.clause_of_not_has _ _ hhas, M.add_add]
    obtain ⟨more, hmore, hclause⟩ := hstep
    refine ⟨news ++ more, ?_, ?_⟩
    · have happ := hmakes.append hmore
      refine ⟨happ.nodup, fun d => (happ.mem_iff d).trans (and_congr_left' ?_)⟩
      simp [or_and_right, exists_or]
    · rw [mapRows_snoc, heq, hclause, List.map_append, List.map_singleton]
      congr 2
      exact List.map_congr_left fun r hr => by rw [hmakes.bound_later hmore ⟨r, hr, rfl⟩]

/-- The same for a clause that merges a list of classes for each row. -/
theorem mapRows_mergeAll (M : Merging G C (List Nat)) (g : G) (cs : R → List C)
    (rows : List R) :
    ∃ news, M.Makes g (fun d => ∃ row ∈ rows, d ∈ cs row) news ∧
      mapRows (fun g row => ((mapRows M.clause g (cs row)).1,
        (mapRows M.clause g (cs row)).2.flatMap Prod.snd)) g rows =
        (M.add g news, rows.map fun row => (row, (cs row).flatMap (M.bound (M.add g news)))) := by
  induction rows using List.reverseRecOn with
  | nil => exact ⟨[], ⟨List.nodup_nil, by simp⟩, by simp [mapRows, M.add_nil]⟩
  | append_singleton rows row ih =>
    obtain ⟨news, hmakes, heq⟩ := ih
    obtain ⟨more, hmore, hclause⟩ := mapRows_merge M (M.add g news) id (cs row)
    have hmore : M.Makes (M.add g news) (fun d => d ∈ cs row) more :=
      ⟨hmore.nodup, fun d => (hmore.mem_iff d).trans (and_congr_left' (by simp))⟩
    refine ⟨news ++ more, ?_, ?_⟩
    · have happ := hmakes.append hmore
      refine ⟨happ.nodup, fun d => (happ.mem_iff d).trans (and_congr_left' ?_)⟩
      simp [or_and_right, exists_or]
    · rw [mapRows_snoc, heq]
      simp only [id] at hclause
      rw [hclause, M.add_add, List.map_append, List.map_singleton]
      congr 2
      · refine List.map_congr_left fun r hr => congrArg _ ?_
        exact List.flatMap_congr fun d hd =>
          (hmakes.bound_later hmore ⟨r, hr, hd⟩).symm
      · simp [List.flatMap_map]

end Merging

variable {κ : Keying K Label V} {g : Graph Label Rel V}

@[grind =]
def addNodes (κ : Keying K Label V) (g : Graph Label Rel V) (news : List K) :
    Graph Label Rel V :=
  { g with nodes := g.nodes ++ news.map κ.fresh }

@[grind =]
def addRels (type : Rel) (g : Graph Label Rel V) (pairs : List (Nat × Nat)) :
    Graph Label Rel V :=
  { g with rels := g.rels ++ pairs.map fun e => bare (type, e) }

theorem addNodes_append (news more : List K) :
    addNodes κ (addNodes κ g news) more = addNodes κ g (news ++ more) := by
  simp [addNodes]

theorem present_addNodes {news : List K} {k : K} :
    Present κ (addNodes κ g news) k ↔ Present κ g k ∨ k ∈ news := by
  simp only [Present, addNodes, List.mem_append, List.mem_map]
  constructor
  · rintro ⟨n, hn | ⟨j, hj, rfl⟩, hkey⟩
    · exact Or.inl ⟨n, hn, hkey⟩
    · rw [κ.key_fresh] at hkey
      cases hkey
      exact Or.inr hj
  · rintro (⟨n, hn, hkey⟩ | hk)
    · exact ⟨n, Or.inl hn, hkey⟩
    · exact ⟨_, Or.inr ⟨k, hk, rfl⟩, κ.key_fresh k⟩

theorem addRels_append (type : Rel) (pairs more : List (Nat × Nat)) :
    addRels type (addRels type g pairs) more = addRels type g (pairs ++ more) := by
  simp [addRels]

theorem hasRel_addRels {type : Rel} {pairs : List (Nat × Nat)} {t : Rel} {a b : Nat} :
    Connected (addRels type g pairs) t a b ↔
      Connected g t a b ∨ (t = type ∧ (a, b) ∈ pairs) := by
  simp only [Connected, addRels, List.mem_append, List.mem_map]
  constructor
  · rintro ⟨r, hr | ⟨e, he, rfl⟩, htype, hsource, htarget⟩
    · exact Or.inl ⟨r, hr, htype, hsource, htarget⟩
    · obtain ⟨c, d⟩ := e
      simp only [bare] at htype hsource htarget
      exact Or.inr ⟨htype.symm, by rwa [← hsource, ← htarget]⟩
  · rintro (⟨r, hr, hends⟩ | ⟨rfl, he⟩)
    · exact ⟨r, Or.inl hr, hends⟩
    · exact ⟨_, Or.inr ⟨(a, b), he, rfl⟩, rfl, rfl, rfl⟩

variable [DecidableEq K]

/-- The pattern that selects the nodes of a key. -/
def sel (κ : Keying K Label V) (k : K) (n : GraphNode Label V) : Bool := κ.key n = some k

@[grind =]
def nodePatches (k : R → K) (patch : R → Patch V) (rows : List R) (j : K) : List (Patch V) :=
  (rows.filter fun row => k row = j).map patch

/-- What an upsert of nodes writes. -/
@[grind =]
def nodeWrites (k : R → K) (patch : R → Patch V) (rows : List R) : Writes K Rel V where
  nodes := nodePatches k patch rows
  rels _ _ _ := []

/-- What an upsert of relationships of a type writes. -/
@[grind =]
def relWrites [DecidableEq Rel] (type : Rel) (source target : R → K) (patch : R → Patch V)
    (rows : List R) : Writes K Rel V where
  nodes _ := []
  rels t a b := if t = type then (rows.filter fun row => source row = a ∧ target row = b).map patch
    else []

theorem mem_selected_sel {k : K} {i : Nat} : i ∈ selected g (sel κ k) ↔ keyAt κ g i = some k := by
  rw [selected, List.mem_filter, List.mem_range, keyAt]
  cases hn : g.nodes[i]? with
  | none => simp
  | some n => simp [sel, (List.getElem?_eq_some_iff.mp hn).1]

theorem selected_eq_nil {k : K} : selected g (sel κ k) = [] ↔ ¬ Present κ g k := by
  rw [List.eq_nil_iff_forall_not_mem, present_iff_keyAt, not_exists]
  exact forall_congr' fun i => not_congr mem_selected_sel

theorem selected_append (ns : List (GraphNode Label V)) (p : GraphNode Label V → Bool) :
    selected { g with nodes := g.nodes ++ ns } p = selected g p ++
      ((List.range ns.length).filter fun i => (ns[i]?).any p).map (g.nodes.length + ·) := by
  unfold selected
  dsimp only
  rw [List.length_append, List.range_add, List.filter_append, List.filter_map]
  congr 1
  · refine List.filter_congr fun i hi => ?_
    rw [List.getElem?_append_left (List.mem_range.mp hi)]
  · congr 1
    refine List.filter_congr fun i _ => ?_
    simp [List.getElem?_append_right]

/-- New keys leave the nodes of the others alone. -/
theorem selected_addNodes {news : List K} {k : K} (hk : k ∉ news) :
    selected (addNodes κ g news) (sel κ k) = selected g (sel κ k) := by
  have hnone : (List.range (news.map κ.fresh).length).filter
      (fun i => ((news.map κ.fresh)[i]?).any (sel κ k)) = [] := by
    refine List.filter_eq_nil_iff.mpr fun i _ => ?_
    rw [List.getElem?_map]
    cases hj : news[i]? with
    | none => simp
    | some j =>
      have hne : j ≠ k := fun heq => hk (heq ▸ List.mem_of_getElem? hj)
      simp [sel, κ.key_fresh, hne]
  rw [addNodes, selected_append, hnone, List.map_nil, List.append_nil]

theorem selected_addNodes_self {k : K} (hk : ¬ Present κ g k) :
    selected (addNodes κ g [k]) (sel κ k) = [g.nodes.length] := by
  rw [addNodes, selected_append, selected_eq_nil.mpr hk]
  simp [sel, κ.key_fresh]

/-- Merging the nodes of a key. -/
@[grind =]
def nodeMerging (κ : Keying K Label V) : Merging (Graph Label Rel V) K (List Nat) where
  clause g k := mergeNode g (sel κ k) (κ.fresh k)
  add := addNodes κ
  Has := Present κ
  bound g k := selected g (sel κ k)
  add_nil g := by simp [addNodes]
  add_add _ _ _ := addNodes_append _ _
  has_add _ _ _ := present_addNodes
  bound_add _ _ _ hk := selected_addNodes hk
  clause_of_has g k hhas := by
    unfold mergeNode
    split
    · rename_i hnil
      exact absurd hhas (selected_eq_nil.mp hnil)
    · rfl
  clause_of_not_has g k hnot := by
    unfold mergeNode
    rw [selected_eq_nil.mpr hnot, selected_addNodes_self hnot]
    simp [addNodes]

theorem writeNode_snoc (k : R → K) (patch : R → Patch V) (rows : List R) (row : R)
    (n : GraphNode Label V) :
    writeNode κ (nodePatches k patch (rows ++ [row])) n =
      if κ.key n = some (k row) then
        (writeNode κ (nodePatches k patch rows) n).set (patch row)
      else writeNode κ (nodePatches k patch rows) n := by
  unfold writeNode nodePatches
  cases hkey : κ.key n with
  | none => rfl
  | some j =>
    by_cases hj : k row = j
    · simp [hj, GraphNode.set, setPlus_append]
    · simp [hj, Ne.symm hj]

/-- The set clause, over the bindings that the merge clause has left. -/
theorem foldl_setNodes (κ : Keying K Label V) (g : Graph Label Rel V) (k : R → K)
    (patch : R → Patch V) (rows : List R) :
    (rows.map fun row => (row, selected g (sel κ (k row)))).foldl
        (fun h r => setNodes h r.2 (patch r.1)) g =
      { g with nodes := g.nodes.map (writeNode κ (nodePatches k patch rows)) } := by
  induction rows using List.reverseRecOn with
  | nil =>
    have hid : ∀ n ∈ g.nodes,
        writeNode κ (nodePatches k patch ([] : List R)) n = id n :=
      fun n _ => writeNode_of_nil fun _ _ => rfl
    simp [List.map_congr_left hid]
  | append_singleton rows row ih =>
    rw [List.map_append, List.foldl_append, ih, List.map_singleton, List.foldl_cons,
      List.foldl_nil, setNodes]
    congr 1
    refine List.ext_getElem? fun i => ?_
    rw [List.getElem?_mapIdx, List.getElem?_map, List.getElem?_map]
    cases hn : g.nodes[i]? with
    | none => rfl
    | some n =>
      have hmem : i ∈ selected g (sel κ (k row)) ↔ κ.key n = some (k row) := by
        rw [mem_selected_sel, keyAt, hn, Option.bind_some]
      rw [Option.map_some, Option.map_some, Option.map_some, writeNode_snoc]
      simp only [hmem]

theorem touches_nodeWrites {k : R → K} {patch : R → Patch V} {rows : List R} {j : K} :
    (nodeWrites k patch rows : Writes K Rel V).Touches j ↔ ∃ row ∈ rows, k row = j := by
  simp [Writes.Touches, nodeWrites, nodePatches, List.filter_eq_nil_iff]

/-- A batched upsert of nodes writes what its rows write. -/
theorem upsertNodes_flushed (κ : Keying K Label V) (g : Graph Label Rel V) (k : R → K)
    (patch : R → Patch V) (rows : List R) :
    Flushed κ (nodeWrites k patch rows) g
      (upsertNodes (fun row => sel κ (k row)) (fun row => κ.fresh (k row)) patch g rows) := by
  obtain ⟨news, hmakes, hmerged⟩ := mapRows_merge (nodeMerging κ) g k rows
  simp only [nodeMerging] at hmerged
  refine ⟨news, [], hmakes.nodup,
    fun j => (hmakes.mem_iff j).trans (and_congr_left' touches_nodeWrites.symm), ?_,
    List.nodup_nil, ?_, ?_⟩
  · simp only [upsertNodes, hmerged, foldl_setNodes]
    rfl
  · intro t a b
    simp [Linked, nodeWrites]
  · simp only [upsertNodes, hmerged, foldl_setNodes]
    have hid : ∀ r ∈ g.rels ++ ([] : List (Rel × Nat × Nat)).map bare, writeRel κ
        (nodeWrites k patch rows) { addNodes κ g news with
          nodes := (addNodes κ g news).nodes.map (writeNode κ (nodePatches k patch rows)) } r =
        id r := by
      intro r _
      unfold writeRel
      split <;> rfl
    rw [List.map_congr_left hid]
    simp [addNodes]

section Relationships

variable [DecidableEq Rel] {type : Rel}

theorem mem_connected {t : Rel} {a b i : Nat} : i ∈ connected g t a b ↔
    ∃ r, g.rels[i]? = some r ∧ r.type = t ∧ r.source = a ∧ r.target = b := by
  rw [connected, List.mem_filter, List.mem_range]
  cases hr : g.rels[i]? with
  | none => simp
  | some r => simp [(List.getElem?_eq_some_iff.mp hr).1]

theorem connected_eq_nil {t : Rel} {a b : Nat} :
    connected g t a b = [] ↔ ¬ Connected g t a b := by
  rw [List.eq_nil_iff_forall_not_mem, ← not_exists]
  refine not_congr ⟨?_, ?_⟩
  · rintro ⟨i, hi⟩
    obtain ⟨r, hr, hends⟩ := mem_connected.mp hi
    exact ⟨r, List.mem_of_getElem? hr, hends⟩
  · rintro ⟨r, hr, hends⟩
    obtain ⟨i, hi⟩ := List.mem_iff_getElem?.mp hr
    exact ⟨i, mem_connected.mpr ⟨r, hi, hends⟩⟩

theorem connected_addRels (pairs : List (Nat × Nat)) (a b : Nat) :
    connected (addRels type g pairs) type a b = connected g type a b ++
      ((List.range pairs.length).filter fun i => pairs[i]? = some (a, b)).map
        (g.rels.length + ·) := by
  unfold connected addRels
  dsimp only
  rw [List.length_append, List.length_map, List.range_add, List.filter_append, List.filter_map]
  congr 1
  · refine List.filter_congr fun i hi => ?_
    rw [List.getElem?_append_left (List.mem_range.mp hi)]
  · congr 1
    refine List.filter_congr fun i _ => ?_
    rcases hp : pairs[i]? with _ | ⟨c, d⟩ <;>
      simp [List.getElem?_append_right, hp, bare]

theorem connected_addRels_of_not_mem {pairs : List (Nat × Nat)} {a b : Nat}
    (h : (a, b) ∉ pairs) :
    connected (addRels type g pairs) type a b = connected g type a b := by
  have hnone : (List.range pairs.length).filter (fun i => pairs[i]? = some (a, b)) = [] :=
    List.filter_eq_nil_iff.mpr fun i _ hi => h (List.mem_of_getElem? (of_decide_eq_true hi))
  rw [connected_addRels, hnone, List.map_nil, List.append_nil]

/-- Merging the relationships of a type, for pairs of nodes. -/
def relMerging (type : Rel) : Merging (Graph Label Rel V) (Nat × Nat) (List Nat) where
  clause g e := mergeRel g type e.1 e.2
  add := addRels type
  Has g e := Connected g type e.1 e.2
  bound g e := connected g type e.1 e.2
  add_nil g := by simp [addRels]
  add_add _ _ _ := addRels_append _ _ _
  has_add g pairs e := by simp [hasRel_addRels]
  bound_add _ _ _ he := connected_addRels_of_not_mem he
  clause_of_has g e hhas := by
    unfold mergeRel
    split
    · rename_i hnil
      exact absurd hhas (connected_eq_nil.mp hnil)
    · rfl
  clause_of_not_has g e hnot := by
    unfold mergeRel
    rw [connected_eq_nil.mpr hnot, connected_addRels, connected_eq_nil.mpr hnot]
    simp [addRels, bare]

theorem writeRel_snoc (source target : R → K) (patch : R → Patch V) (rows : List R) (row : R)
    (r : Relationship Rel V) :
    writeRel κ (relWrites type source target patch (rows ++ [row])) g r =
      if r.type = type ∧ keyAt κ g r.source = some (source row) ∧
          keyAt κ g r.target = some (target row) then
        { writeRel κ (relWrites type source target patch rows) g r with
          props := setPlus (writeRel κ (relWrites type source target patch rows) g r).props
            (patch row) }
      else writeRel κ (relWrites type source target patch rows) g r := by
  unfold writeRel relWrites
  rcases ha : keyAt κ g r.source with _ | a
  · simp
  rcases hb : keyAt κ g r.target with _ | b
  · simp
  by_cases htype : r.type = type
  · by_cases hends : source row = a ∧ target row = b
    · obtain ⟨rfl, rfl⟩ := hends
      simp [htype, setPlus_append]
    · have hother : ¬ (a = source row ∧ b = target row) :=
        fun heq => hends ⟨heq.1.symm, heq.2.symm⟩
      simp [htype, hends, hother]
  · simp [htype]

/-- The set clause of relationships: `ids` are the bindings that the merge clause has left. -/
theorem foldl_setRels (g : Graph Label Rel V) (source target : R → K) (patch : R → Patch V)
    (ids : R → List Nat) (rows : List R)
    (hids : ∀ row ∈ rows, ∀ i, i ∈ ids row ↔ ∃ r, g.rels[i]? = some r ∧ r.type = type ∧
      keyAt κ g r.source = some (source row) ∧ keyAt κ g r.target = some (target row)) :
    rows.foldl (fun h row => setRels h (ids row) (patch row)) g =
      { g with
        rels := g.rels.map (writeRel κ (relWrites type source target patch rows) g) } := by
  induction rows using List.reverseRecOn with
  | nil =>
    have hid : ∀ r ∈ g.rels,
        writeRel κ (relWrites type source target patch ([] : List R)) g r = id r := by
      intro r _
      unfold writeRel relWrites
      split
      · simp
      · rfl
    simp [List.map_congr_left hid]
  | append_singleton rows row ih =>
    rw [List.foldl_append, ih fun r hr => hids r (List.mem_append_left _ hr), List.foldl_cons,
      List.foldl_nil, setRels]
    congr 1
    refine List.ext_getElem? fun i => ?_
    rw [List.getElem?_mapIdx, List.getElem?_map, List.getElem?_map]
    cases hr : g.rels[i]? with
    | none => rfl
    | some r =>
      have hmem : i ∈ ids row ↔ r.type = type ∧ keyAt κ g r.source = some (source row) ∧
          keyAt κ g r.target = some (target row) := by
        rw [hids row (List.mem_append_right _ List.mem_cons_self), hr]
        simp
      rw [Option.map_some, Option.map_some, Option.map_some, writeRel_snoc]
      simp only [hmem]

theorem relWrites_ne_nil {source target : R → K} {patch : R → Patch V} {rows : List R} {t : Rel}
    {a b : K} : (relWrites type source target patch rows).rels t a b ≠ [] ↔
      t = type ∧ ∃ row ∈ rows, source row = a ∧ target row = b := by
  unfold relWrites
  by_cases ht : t = type
  · simp [ht, List.filter_eq_nil_iff]
  · simp [ht]

theorem touches_relWrites {source target : R → K} {patch : R → Patch V} {rows : List R} {k : K} :
    (relWrites type source target patch rows).Touches k ↔
      (∃ row ∈ rows, source row = k) ∨ ∃ row ∈ rows, target row = k := by
  simp only [Writes.Touches, relWrites_ne_nil]
  constructor
  · rintro (hne | ⟨t, j, ⟨-, row, hrow, hsource, -⟩ | ⟨-, row, hrow, -, htarget⟩⟩)
    · exact (hne rfl).elim
    · exact Or.inl ⟨row, hrow, hsource⟩
    · exact Or.inr ⟨row, hrow, htarget⟩
  · rintro (⟨row, hrow, rfl⟩ | ⟨row, hrow, rfl⟩)
    · exact Or.inr ⟨type, target row, Or.inl ⟨rfl, row, hrow, rfl, rfl⟩⟩
    · exact Or.inr ⟨type, source row, Or.inr ⟨rfl, row, hrow, rfl, rfl⟩⟩

/-- The four clauses of a batched upsert of relationships, put together. -/
theorem upsertRels_eq (κ : Keying K Label V) (g : Graph Label Rel V) (type : Rel)
    (source target : R → K) (patch : R → Patch V) (rows : List R) :
    ∃ news more pairs,
      (nodeMerging κ).Makes g (fun k => ∃ row ∈ rows, source row = k) news ∧
      (nodeMerging κ).Makes (addNodes κ g news) (fun k => ∃ row ∈ rows, target row = k) more ∧
      (relMerging type).Makes (addNodes κ g (news ++ more)) (fun e => ∃ row ∈ rows,
        keyAt κ (addNodes κ g (news ++ more)) e.1 = some (source row) ∧
        keyAt κ (addNodes κ g (news ++ more)) e.2 = some (target row)) pairs ∧
      upsertRels type (fun row => sel κ (source row)) (fun row => sel κ (target row))
        (fun row => κ.fresh (source row)) (fun row => κ.fresh (target row)) patch g rows =
      { nodes := (addNodes κ g (news ++ more)).nodes
        rels := (addRels type (addNodes κ g (news ++ more)) pairs).rels.map
          (writeRel κ (relWrites type source target patch rows)
            (addNodes κ g (news ++ more))) } := by
  obtain ⟨news, hnews, hsources⟩ := mapRows_merge (nodeMerging κ) g source rows
  obtain ⟨more, hmore, htargets⟩ := mapRows_merge (nodeMerging κ) (addNodes κ g news)
    (fun r : R × List Nat => target r.1)
    (rows.map fun row => (row, selected (addNodes κ g news) (sel κ (source row))))
  have hmore : (nodeMerging κ).Makes (addNodes κ g news)
      (fun k => ∃ row ∈ rows, target row = k) more :=
    ⟨hmore.nodup, fun k => (hmore.mem_iff k).trans (and_congr_left' (by simp))⟩
  have hlater : ∀ row ∈ rows, selected (addNodes κ g news) (sel κ (source row)) =
      selected (addNodes κ g (news ++ more)) (sel κ (source row)) :=
    fun row hrow => (hnews.bound_later hmore ⟨row, hrow, rfl⟩).symm
  obtain ⟨pairs, hpairs, hrels⟩ := mapRows_mergeAll (relMerging type)
    (addNodes κ g (news ++ more))
    (fun r : (R × List Nat) × List Nat => r.1.2.flatMap fun a => r.2.map fun b => (a, b))
    (rows.map fun row => ((row, selected (addNodes κ g news) (sel κ (source row))),
      selected (addNodes κ g (news ++ more)) (sel κ (target row))))
  have hends : ∀ row ∈ rows, ∀ a b, (a, b) ∈
      ((selected (addNodes κ g news) (sel κ (source row))).flatMap fun a =>
        (selected (addNodes κ g (news ++ more)) (sel κ (target row))).map fun b => (a, b)) ↔
      keyAt κ (addNodes κ g (news ++ more)) a = some (source row) ∧
        keyAt κ (addNodes κ g (news ++ more)) b = some (target row) := by
    intro row hrow a b
    rw [hlater row hrow, ← mem_selected_sel, ← mem_selected_sel]
    simp
  refine ⟨news, more, pairs, hnews, hmore, ⟨hpairs.nodup, fun e => ?_⟩, ?_⟩
  · refine (hpairs.mem_iff e).trans (and_congr_left' ?_)
    simp only [List.mem_map, exists_exists_and_eq_and]
    exact exists_congr fun row => and_congr_right fun hrow => hends row hrow e.1 e.2
  · simp only [nodeMerging, relMerging, List.map_map, addNodes_append] at hsources htargets hrels
    simp only [Function.comp_def] at htargets hrels
    simp only [upsertRels, mergeRels, hsources, htargets, hrels, List.foldl_map]
    refine foldl_setRels (κ := κ) (addRels type (addNodes κ g (news ++ more)) pairs) source target
      patch _ rows fun row hrow i => ?_
    rw [List.mem_flatMap]
    constructor
    · rintro ⟨⟨a, b⟩, hab, hi⟩
      obtain ⟨r, hr, htype, rfl, rfl⟩ := mem_connected.mp hi
      exact ⟨r, hr, htype, (hends row hrow _ _).mp hab⟩
    · rintro ⟨r, hr, htype, hab⟩
      exact ⟨(r.source, r.target), (hends row hrow _ _).mpr hab,
        mem_connected.mpr ⟨r, hr, htype, rfl, rfl⟩⟩

/-- A batched upsert of relationships writes what its rows write. -/
theorem upsertRels_flushed (κ : Keying K Label V) (g : Graph Label Rel V) (type : Rel)
    (source target : R → K) (patch : R → Patch V) (rows : List R) :
    Flushed κ (relWrites type source target patch rows) g
      (upsertRels type (fun row => sel κ (source row)) (fun row => sel κ (target row))
        (fun row => κ.fresh (source row)) (fun row => κ.fresh (target row)) patch g rows) := by
  obtain ⟨news, more, pairs, hnews, hmore, hpairs, heq⟩ :=
    upsertRels_eq κ g type source target patch rows
  have hall := hnews.append hmore
  rw [heq]
  refine ⟨news ++ more, pairs.map fun e => (type, e), hall.nodup,
    fun k => (hall.mem_iff k).trans (and_congr_left' touches_relWrites.symm), ?_,
    hpairs.nodup.map fun e f hef => (Prod.mk.inj hef).2, ?_, ?_⟩
  · have hid : ∀ n ∈ g.nodes ++ (news ++ more).map κ.fresh,
        writeNode κ (relWrites type source target patch rows).nodes n = id n :=
      fun n _ => writeNode_of_nil fun _ _ => rfl
    rw [List.map_congr_left hid, List.map_id]
    rfl
  · intro t a b
    have hpair : (t, a, b) ∈ pairs.map (fun e => (type, e)) ↔ t = type ∧ (a, b) ∈ pairs := by
      simp only [List.mem_map, Prod.mk.injEq]
      constructor
      · rintro ⟨e, he, rfl, rfl⟩
        exact ⟨rfl, he⟩
      · rintro ⟨rfl, he⟩
        exact ⟨_, he, rfl, rfl⟩
    rw [hpair, hpairs.mem_iff]
    constructor
    · rintro ⟨rfl, ⟨row, hrow, ha, hb⟩, hnot⟩
      exact ⟨⟨_, _, ha, hb, relWrites_ne_nil.mpr ⟨rfl, row, hrow, rfl, rfl⟩⟩, hnot⟩
    · rintro ⟨⟨i, j, ha, hb, hne⟩, hnot⟩
      obtain ⟨rfl, row, hrow, rfl, rfl⟩ := relWrites_ne_nil.mp hne
      exact ⟨rfl, ⟨row, hrow, ha, hb⟩, hnot⟩
  · rw [List.map_map]
    rfl

end Relationships

end KeyedUpsert
