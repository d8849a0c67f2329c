import Mathlib.Data.List.Dedup
import Mathlib.Logic.Equiv.Basic
import AiSOC.PropertyGraph

/-! # Writes to keyed graphs

The meaning of a batch of upserts, whatever statements it is made of: for every key the
patches of its nodes, in order, and for every relationship type and pair of keys the patches
of the relationships between their nodes. Two graphs that come out of the same writes to one
graph differ in the numbering of their nodes and in the order of their relationships only. -/
namespace KeyedGraph

open PropertyGraph

variable {Label Rel V K : Type*}

/-- How a key is read off a node and how a node is made for a key. -/
structure Keying (K Label V : Type*) where
  key : GraphNode Label V → Option K
  fresh : K → GraphNode Label V
  key_fresh : ∀ k, key (fresh k) = some k

@[ext] structure Writes (K Rel V : Type*) where
  nodes : K → List (Patch V)
  rels : Rel → K → K → List (Patch V)

/-- One batch of writes after another. -/
def Writes.append (w v : Writes K Rel V) : Writes K Rel V where
  nodes k := w.nodes k ++ v.nodes k
  rels t a b := w.rels t a b ++ v.rels t a b

/-- The key's nodes are written to or are an end of a relationship that is. -/
def Writes.Touches (w : Writes K Rel V) (k : K) : Prop :=
  w.nodes k ≠ [] ∨ ∃ t j, w.rels t k j ≠ [] ∨ w.rels t j k ≠ []

/-- No patch of a node changes its key. -/
def Writes.KeepKeys (κ : Keying K Label V) (w : Writes K Rel V) : Prop :=
  ∀ k, ∀ patch ∈ w.nodes k, ∀ n : GraphNode Label V, κ.key (n.set patch) = κ.key n

def keyAt (κ : Keying K Label V) (g : Graph Label Rel V) (i : Nat) : Option K :=
  (g.nodes[i]?).bind κ.key

def Present (κ : Keying K Label V) (g : Graph Label Rel V) (k : K) : Prop :=
  ∃ n ∈ g.nodes, κ.key n = some k

def Connected (g : Graph Label Rel V) (t : Rel) (a b : Nat) : Prop :=
  ∃ r ∈ g.rels, r.type = t ∧ r.source = a ∧ r.target = b

/-- The writes ask for a relationship between the two nodes. -/
def Linked (κ : Keying K Label V) (w : Writes K Rel V) (g : Graph Label Rel V)
    (t : Rel) (a b : Nat) : Prop :=
  ∃ i j, keyAt κ g a = some i ∧ keyAt κ g b = some j ∧ w.rels t i j ≠ []

/-- The relationships lead from nodes to nodes. -/
def WellFormed (g : Graph Label Rel V) : Prop :=
  ∀ r ∈ g.rels, r.source < g.nodes.length ∧ r.target < g.nodes.length

/-- No two nodes have one key. -/
def UniqueKeys (κ : Keying K Label V) (g : Graph Label Rel V) : Prop :=
  ∀ k i j, keyAt κ g i = some k → keyAt κ g j = some k → i = j

def writeNode (κ : Keying K Label V) (patches : K → List (Patch V)) (n : GraphNode Label V) :
    GraphNode Label V :=
  match κ.key n with
  | some k => n.set (patches k).flatten
  | none => n

def writeRel (κ : Keying K Label V) (w : Writes K Rel V) (g : Graph Label Rel V)
    (r : Relationship Rel V) : Relationship Rel V :=
  match keyAt κ g r.source, keyAt κ g r.target with
  | some a, some b => { r with props := setPlus r.props (w.rels r.type a b).flatten }
  | _, _ => r

def bare (l : Rel × Nat × Nat) : Relationship Rel V := ⟨l.1, l.2.1, l.2.2, fun _ => none⟩

/-- `h` is `g` after the writes: `news` are the keys that nodes were made for, `links` the
relationships that were made. -/
structure FlushedWith (κ : Keying K Label V) (w : Writes K Rel V) (g h : Graph Label Rel V)
    (news : List K) (links : List (Rel × Nat × Nat)) : Prop where
  news_nodup : news.Nodup
  mem_news : ∀ k, k ∈ news ↔ w.Touches k ∧ ¬ Present κ g k
  nodes_eq : h.nodes = (g.nodes ++ news.map κ.fresh).map (writeNode κ w.nodes)
  links_nodup : links.Nodup
  mem_links : ∀ t a b, (t, a, b) ∈ links ↔ Linked κ w h t a b ∧ ¬ Connected g t a b
  rels_eq : h.rels = (g.rels ++ links.map bare).map (writeRel κ w h)

def Flushed (κ : Keying K Label V) (w : Writes K Rel V) (g h : Graph Label Rel V) : Prop :=
  ∃ news links, FlushedWith κ w g h news links

def renameEnds (f : Nat → Nat) (r : Relationship Rel V) : Relationship Rel V :=
  { r with source := f r.source, target := f r.target }

def renameLink (f : Nat → Nat) (l : Rel × Nat × Nat) : Rel × Nat × Nat := (l.1, f l.2.1, f l.2.2)

/-- The graphs are one up to the numbering of nodes and the order of relationships. -/
def SameGraph (g h : Graph Label Rel V) : Prop :=
  ∃ f : Equiv.Perm Nat, (∀ i, h.nodes[f i]? = g.nodes[i]?) ∧
    (g.rels.map (renameEnds f)).Perm h.rels

variable {κ : Keying K Label V} {w v : Writes K Rel V} {g h h' : Graph Label Rel V}
  {news news' : List K} {links links' : List (Rel × Nat × Nat)}

theorem setPlus_flatten_idem (p : Props V) (patch : Patch V) :
    setPlus (setPlus p patch) patch = setPlus p patch := by
  have only : ∀ (patch : Patch V) (p q : Props V) (k : String), k ∈ patch.map Prod.fst →
      setPlus p patch k = setPlus q patch k := by
    intro patch
    induction patch with
    | nil => simp
    | cons kv patch ih =>
      intro p q k hk
      by_cases hrest : k ∈ patch.map Prod.fst
      · exact ih _ _ k hrest
      · have hhead : k = kv.1 := by simpa [hrest] using hk
        rw [setPlus_cons, setPlus_cons, setPlus_of_not_mem hrest, setPlus_of_not_mem hrest,
          hhead, Function.update_self, Function.update_self]
  funext k
  by_cases hk : k ∈ patch.map Prod.fst
  · exact only patch _ _ k hk
  · exact setPlus_of_not_mem hk _

@[simp] theorem Writes.append_nodes (w v : Writes K Rel V) (k : K) :
    (w.append v).nodes k = w.nodes k ++ v.nodes k := rfl

@[simp] theorem Writes.append_rels (w v : Writes K Rel V) (t : Rel) (a b : K) :
    (w.append v).rels t a b = w.rels t a b ++ v.rels t a b := rfl

theorem Writes.touches_append {k : K} :
    (w.append v).Touches k ↔ w.Touches k ∨ v.Touches k := by
  simp only [Writes.Touches, append_nodes, append_rels, ne_eq, List.append_eq_nil_iff,
    not_and_or]
  constructor
  · rintro ((hw | hv) | ⟨t, j, (hw | hv) | (hw | hv)⟩)
    · exact Or.inl (Or.inl hw)
    · exact Or.inr (Or.inl hv)
    · exact Or.inl (Or.inr ⟨t, j, Or.inl hw⟩)
    · exact Or.inr (Or.inr ⟨t, j, Or.inl hv⟩)
    · exact Or.inl (Or.inr ⟨t, j, Or.inr hw⟩)
    · exact Or.inr (Or.inr ⟨t, j, Or.inr hv⟩)
  · rintro ((hw | ⟨t, j, hw | hw⟩) | (hv | ⟨t, j, hv | hv⟩))
    · exact Or.inl (Or.inl hw)
    · exact Or.inr ⟨t, j, Or.inl (Or.inl hw)⟩
    · exact Or.inr ⟨t, j, Or.inr (Or.inl hw)⟩
    · exact Or.inl (Or.inr hv)
    · exact Or.inr ⟨t, j, Or.inl (Or.inr hv)⟩
    · exact Or.inr ⟨t, j, Or.inr (Or.inr hv)⟩

theorem key_set_flatten {patches : List (Patch V)}
    (h : ∀ patch ∈ patches, ∀ n : GraphNode Label V, κ.key (n.set patch) = κ.key n)
    (n : GraphNode Label V) : κ.key (n.set patches.flatten) = κ.key n := by
  induction patches generalizing n with
  | nil => rfl
  | cons patch patches ih =>
    have hset : n.set (patch :: patches).flatten = (n.set patch).set patches.flatten := by
      simp [GraphNode.set, setPlus_append]
    rw [hset, ih (fun q hq => h q (List.mem_cons_of_mem patch hq)), h patch List.mem_cons_self]

theorem key_writeNode (hk : w.KeepKeys κ) (n : GraphNode Label V) :
    κ.key (writeNode κ w.nodes n) = κ.key n := by
  unfold writeNode
  split
  · rename_i k hkey
    exact key_set_flatten (hk k) n
  · rfl

theorem writeNode_append (hk : w.KeepKeys κ) (n : GraphNode Label V) :
    writeNode κ v.nodes (writeNode κ w.nodes n) = writeNode κ (w.append v).nodes n := by
  have hkey := key_writeNode hk n
  unfold writeNode at hkey ⊢
  cases hn : κ.key n with
  | none => simp [hn]
  | some k =>
    rw [hn] at hkey
    dsimp only at hkey ⊢
    rw [hkey]
    simp [GraphNode.set, setPlus_append]

/-- A write that has been made changes nothing when it is made again. -/
theorem writeNode_idem (hk : w.KeepKeys κ) (n : GraphNode Label V) :
    writeNode κ w.nodes (writeNode κ w.nodes n) = writeNode κ w.nodes n := by
  have hkey := key_writeNode hk n
  unfold writeNode at hkey ⊢
  cases hn : κ.key n with
  | none => simp [hn]
  | some k =>
    rw [hn] at hkey
    dsimp only at hkey ⊢
    rw [hkey]
    simp [GraphNode.set, setPlus_flatten_idem]

theorem writeNode_of_nil {patches : K → List (Patch V)} {n : GraphNode Label V}
    (hn : ∀ k, κ.key n = some k → patches k = []) : writeNode κ patches n = n := by
  unfold writeNode
  split
  · rename_i k hkey
    rw [hn k hkey]
    rfl
  · rfl

theorem present_iff_keyAt {k : K} : Present κ g k ↔ ∃ i, keyAt κ g i = some k := by
  constructor
  · rintro ⟨n, hn, hkey⟩
    obtain ⟨i, hi, rfl⟩ := List.mem_iff_getElem.mp hn
    exact ⟨i, by simp [keyAt, hi, hkey]⟩
  · rintro ⟨i, hi⟩
    obtain ⟨n, hn, hkey⟩ := Option.bind_eq_some_iff.mp hi
    exact ⟨n, List.mem_of_getElem? hn, hkey⟩

theorem lt_of_keyAt {i : Nat} {k : K} (h : keyAt κ g i = some k) : i < g.nodes.length := by
  obtain ⟨n, hn, -⟩ := Option.bind_eq_some_iff.mp h
  exact (List.getElem?_eq_some_iff.mp hn).1

/-- A write keeps type and ends. -/
theorem writeRel_ends (r : Relationship Rel V) : (writeRel κ w g r).type = r.type ∧
    (writeRel κ w g r).source = r.source ∧ (writeRel κ w g r).target = r.target := by
  unfold writeRel
  split <;> exact ⟨rfl, rfl, rfl⟩

namespace FlushedWith

theorem length_nodes (hf : FlushedWith κ w g h news links) :
    h.nodes.length = g.nodes.length + news.length := by
  simp [hf.nodes_eq]

theorem keyAt_of_lt (hf : FlushedWith κ w g h news links) (hk : w.KeepKeys κ) {i : Nat}
    (hi : i < g.nodes.length) : keyAt κ h i = keyAt κ g i := by
  rw [keyAt, hf.nodes_eq, List.getElem?_map, List.getElem?_append_left hi,
    List.getElem?_eq_getElem hi]
  simp [keyAt, hi, key_writeNode hk]

theorem keyAt_new (hf : FlushedWith κ w g h news links) (hk : w.KeepKeys κ) (i : Nat) :
    keyAt κ h (g.nodes.length + i) = news[i]? := by
  rw [keyAt, hf.nodes_eq, List.getElem?_map, List.getElem?_append_right (Nat.le_add_right _ _),
    Nat.add_sub_cancel_left, List.getElem?_map]
  cases news[i]? with
  | none => rfl
  | some k => simp [key_writeNode hk, κ.key_fresh]

theorem keyAt_eq_some_iff (hf : FlushedWith κ w g h news links) (hk : w.KeepKeys κ) {i : Nat}
    {k : K} : keyAt κ h i = some k ↔
      keyAt κ g i = some k ∨ (g.nodes.length ≤ i ∧ news[i - g.nodes.length]? = some k) := by
  rcases Nat.lt_or_ge i g.nodes.length with hi | hi
  · rw [hf.keyAt_of_lt hk hi]
    exact ⟨Or.inl, fun hor => hor.resolve_right fun hnew => absurd hnew.1 (Nat.not_le.mpr hi)⟩
  · obtain ⟨j, rfl⟩ := Nat.exists_eq_add_of_le hi
    rw [hf.keyAt_new hk, Nat.add_sub_cancel_left]
    constructor
    · exact fun hnew => Or.inr ⟨hi, hnew⟩
    · rintro (hold | ⟨-, hnew⟩)
      · exact absurd (lt_of_keyAt hold) (Nat.not_lt.mpr hi)
      · exact hnew

theorem present_iff (hf : FlushedWith κ w g h news links) (hk : w.KeepKeys κ) {k : K} :
    Present κ h k ↔ Present κ g k ∨ k ∈ news := by
  simp only [Present, hf.nodes_eq, List.mem_map, List.mem_append]
  constructor
  · rintro ⟨-, ⟨n, hn | ⟨j, hj, rfl⟩, rfl⟩, hkey⟩ <;> rw [key_writeNode hk] at hkey
    · exact Or.inl ⟨n, hn, hkey⟩
    · rw [κ.key_fresh] at hkey
      cases hkey
      exact Or.inr hj
  · rintro (⟨n, hn, hkey⟩ | hnew)
    · exact ⟨_, ⟨n, Or.inl hn, rfl⟩, (key_writeNode hk n).trans hkey⟩
    · exact ⟨_, ⟨_, Or.inr ⟨k, hnew, rfl⟩, rfl⟩, (key_writeNode hk _).trans (κ.key_fresh k)⟩

theorem present_of_touches (hf : FlushedWith κ w g h news links) (hk : w.KeepKeys κ) {k : K}
    (ht : w.Touches k) : Present κ h k := by
  by_cases hold : Present κ g k
  · exact (hf.present_iff hk).mpr (Or.inl hold)
  · exact (hf.present_iff hk).mpr (Or.inr ((hf.mem_news k).mpr ⟨ht, hold⟩))

theorem connected_iff (hf : FlushedWith κ w g h news links) {t : Rel} {a b : Nat} :
    Connected h t a b ↔ Connected g t a b ∨ (t, a, b) ∈ links := by
  simp only [Connected, hf.rels_eq, List.mem_map, List.mem_append]
  constructor
  · rintro ⟨-, ⟨r, hr | ⟨⟨t', a', b'⟩, hl, rfl⟩, rfl⟩, htype, hsource, htarget⟩
    · obtain ⟨ht, hs, hd⟩ := writeRel_ends (κ := κ) (w := w) (g := h) r
      exact Or.inl ⟨r, hr, ht.symm.trans htype, hs.symm.trans hsource, hd.symm.trans htarget⟩
    · obtain ⟨ht, hs, hd⟩ := writeRel_ends (κ := κ) (w := w) (g := h)
        (bare (V := V) (t', a', b'))
      rw [ht] at htype
      rw [hs] at hsource
      rw [hd] at htarget
      simp only [bare] at htype hsource htarget
      exact Or.inr (by rwa [← htype, ← hsource, ← htarget])
  · rintro (⟨r, hr, htype, hsource, htarget⟩ | hl)
    · obtain ⟨ht, hs, hd⟩ := writeRel_ends (κ := κ) (w := w) (g := h) r
      exact ⟨_, ⟨r, Or.inl hr, rfl⟩, ht.trans htype, hs.trans hsource, hd.trans htarget⟩
    · exact ⟨_, ⟨_, Or.inr ⟨_, hl, rfl⟩, rfl⟩, writeRel_ends (bare (t, a, b))⟩

theorem wellFormed (hf : FlushedWith κ w g h news links) (hg : WellFormed g) :
    WellFormed h := by
  intro r hr
  rw [hf.rels_eq] at hr
  obtain ⟨q, hq, rfl⟩ := List.mem_map.mp hr
  obtain ⟨-, hs, hd⟩ := writeRel_ends (κ := κ) (w := w) (g := h) q
  rw [hs, hd]
  rcases List.mem_append.mp hq with hq | hq
  · rw [hf.length_nodes]
    exact ⟨Nat.lt_add_right _ (hg q hq).1, Nat.lt_add_right _ (hg q hq).2⟩
  · obtain ⟨⟨t, a, b⟩, hl, rfl⟩ := List.mem_map.mp hq
    obtain ⟨⟨i, j, ha, hb, -⟩, -⟩ := (hf.mem_links t a b).mp hl
    exact ⟨lt_of_keyAt ha, lt_of_keyAt hb⟩

theorem keyAt_forth (hf : FlushedWith κ w g h news links) (hk : w.KeepKeys κ) {i : Nat} {k : K}
    (hi : keyAt κ g i = some k) : keyAt κ h i = some k :=
  (hf.keyAt_of_lt hk (lt_of_keyAt hi)).trans hi

/-- Nodes whose key was there before the second batch were there themselves. -/
theorem keyAt_back (hf : FlushedWith κ w g h news links) (hk : w.KeepKeys κ) {i : Nat} {k : K}
    (hi : keyAt κ h i = some k) (hold : Present κ g k) : keyAt κ g i = some k := by
  rcases (hf.keyAt_eq_some_iff hk).mp hi with hi | ⟨-, hnew⟩
  · exact hi
  · exact absurd hold ((hf.mem_news k).mp (List.mem_of_getElem? hnew)).2

theorem uniqueKeys (hf : FlushedWith κ w g h news links) (hk : w.KeepKeys κ)
    (hg : UniqueKeys κ g) : UniqueKeys κ h := by
  have hnot : ∀ {i j : Nat} {k : K}, keyAt κ g i = some k → news[j]? = some k → False := by
    intro i j k hi hj
    apply ((hf.mem_news k).mp (List.mem_of_getElem? hj)).2
    exact present_iff_keyAt.mpr ⟨i, hi⟩
  intro k i j hi hj
  rcases (hf.keyAt_eq_some_iff hk).mp hi with hi | ⟨hile, hi⟩
  · rcases (hf.keyAt_eq_some_iff hk).mp hj with hj | ⟨-, hj⟩
    · exact hg k i j hi hj
    · exact (hnot hi hj).elim
  · rcases (hf.keyAt_eq_some_iff hk).mp hj with hj | ⟨hjle, hj⟩
    · exact (hnot hj hi).elim
    · have hlt : i - g.nodes.length < news.length := (List.getElem?_eq_some_iff.mp hi).1
      have hsame : i - g.nodes.length = j - g.nodes.length :=
        (List.getElem?_inj hlt hf.news_nodup).mp (hi.trans hj.symm)
      omega

/-- What the writes ask for is there afterwards. -/
theorem connected_of_linked (hf : FlushedWith κ w g h news links) {t : Rel} {a b : Nat}
    (hl : Linked κ w h t a b) : Connected h t a b := by
  rw [hf.connected_iff, hf.mem_links]
  by_cases hold : Connected g t a b
  · exact Or.inl hold
  · exact Or.inr ⟨hl, hold⟩

end FlushedWith

theorem Writes.KeepKeys.append (hw : w.KeepKeys κ) (hv : v.KeepKeys κ) :
    (w.append v).KeepKeys κ := by
  intro k patch hpatch
  rcases List.mem_append.mp hpatch with hp | hp
  · exact hw k patch hp
  · exact hv k patch hp

theorem writeRel_append {r : Relationship Rel V} (hs : keyAt κ h r.source = keyAt κ g r.source)
    (ht : keyAt κ h r.target = keyAt κ g r.target) :
    writeRel κ v h (writeRel κ w g r) = writeRel κ (w.append v) h r := by
  obtain ⟨htype, hsource, htarget⟩ := writeRel_ends (κ := κ) (w := w) (g := g) r
  rw [writeRel, htype, hsource, htarget, hs, ht]
  unfold writeRel
  rw [hs, ht]
  rcases keyAt κ g r.source with _ | a
  · rfl
  rcases keyAt κ g r.target with _ | b
  · rfl
  simp [setPlus_append]

theorem writeRel_idem (r : Relationship Rel V) :
    writeRel κ w g (writeRel κ w g r) = writeRel κ w g r := by
  obtain ⟨htype, hsource, htarget⟩ := writeRel_ends (κ := κ) (w := w) (g := g) r
  rw [writeRel, htype, hsource, htarget]
  unfold writeRel
  rcases keyAt κ g r.source with _ | a
  · rfl
  rcases keyAt κ g r.target with _ | b
  · rfl
  simp [setPlus_flatten_idem]

section Composition

variable (hf : FlushedWith κ w g h news links) (hf' : FlushedWith κ v h h' news' links')
  (hw : w.KeepKeys κ)

include hf hf' hw

/-- What the first batch links, it links between nodes that the second one finds. -/
theorem linked_back (hv : v.KeepKeys κ) {t : Rel} {a b : Nat} {i j : K} (ha : keyAt κ h' a = some i)
    (hb : keyAt κ h' b = some j) (hne : w.rels t i j ≠ []) : Linked κ w h t a b :=
  ⟨i, j, hf'.keyAt_back hv ha (hf.present_of_touches hw (Or.inr ⟨t, j, Or.inl hne⟩)),
    hf'.keyAt_back hv hb (hf.present_of_touches hw (Or.inr ⟨t, i, Or.inr hne⟩)), hne⟩

theorem append_nodes_eq :
    h'.nodes = (g.nodes ++ (news ++ news').map κ.fresh).map (writeNode κ (w.append v).nodes) := by
  have hnew : ∀ k ∈ news', writeNode κ v.nodes (κ.fresh k) = writeNode κ (w.append v).nodes (κ.fresh k) := by
    intro k hk
    rw [← writeNode_append hw]
    refine congrArg _ (writeNode_of_nil ?_).symm
    intro k' hkey
    cases (κ.key_fresh k).symm.trans hkey
    by_contra hne
    exact ((hf'.mem_news k).mp hk).2 (hf.present_of_touches hw (Or.inl hne))
  calc h'.nodes
      = ((g.nodes ++ news.map κ.fresh).map (writeNode κ w.nodes) ++ news'.map κ.fresh).map
          (writeNode κ v.nodes) := by rw [hf'.nodes_eq, hf.nodes_eq]
    _ = (g.nodes ++ news.map κ.fresh).map (writeNode κ (w.append v).nodes) ++
          (news'.map κ.fresh).map (writeNode κ (w.append v).nodes) := by
        rw [List.map_append, List.map_map]
        congr 1
        · exact List.map_congr_left fun n _ => writeNode_append hw n
        · rw [List.map_map, List.map_map]
          exact List.map_congr_left hnew
    _ = (g.nodes ++ (news ++ news').map κ.fresh).map (writeNode κ (w.append v).nodes) := by simp

theorem append_mem_links (hv : v.KeepKeys κ) {t : Rel} {a b : Nat} :
    (t, a, b) ∈ links ++ links' ↔ Linked κ (w.append v) h' t a b ∧ ¬ Connected g t a b := by
  rw [List.mem_append]
  constructor
  · rintro (hl | hl)
    · obtain ⟨⟨i, j, ha, hb, hne⟩, hnot⟩ := (hf.mem_links t a b).mp hl
      exact ⟨⟨i, j, hf'.keyAt_forth hv ha, hf'.keyAt_forth hv hb, by simp [hne]⟩,
        hnot⟩
    · obtain ⟨⟨i, j, ha, hb, hne⟩, hnot⟩ := (hf'.mem_links t a b).mp hl
      exact ⟨⟨i, j, ha, hb, by simp [hne]⟩, fun hc => hnot (hf.connected_iff.mpr (Or.inl hc))⟩
  · rintro ⟨⟨i, j, ha, hb, hne⟩, hnot⟩
    by_cases hfirst : w.rels t i j = []
    · have hsecond : v.rels t i j ≠ [] := by simpa [hfirst] using hne
      by_cases hc : Connected h t a b
      · exact Or.inl ((hf.connected_iff.mp hc).resolve_left hnot)
      · exact Or.inr ((hf'.mem_links t a b).mpr ⟨⟨i, j, ha, hb, hsecond⟩, hc⟩)
    · exact Or.inl ((hf.mem_links t a b).mpr ⟨linked_back hf hf' hw hv ha hb hfirst, hnot⟩)

theorem append_rels_eq (hv : v.KeepKeys κ) (hg : WellFormed g) :
    h'.rels = (g.rels ++ (links ++ links').map bare).map (writeRel κ (w.append v) h') := by
  have hold : ∀ r ∈ g.rels ++ links.map bare, writeRel κ v h' (writeRel κ w h r) =
      writeRel κ (w.append v) h' r := by
    intro r hr
    have hmem : writeRel κ w h r ∈ h.rels := hf.rels_eq ▸ List.mem_map_of_mem hr
    obtain ⟨hs, ht⟩ := hf.wellFormed hg _ hmem
    obtain ⟨-, hsource, htarget⟩ := writeRel_ends (κ := κ) (w := w) (g := h) r
    rw [hsource] at hs
    rw [htarget] at ht
    exact writeRel_append (hf'.keyAt_of_lt hv hs) (hf'.keyAt_of_lt hv ht)
  have hnew : ∀ l ∈ links', writeRel κ v h' (bare l) = writeRel κ (w.append v) h' (bare l) := by
    rintro ⟨t, a, b⟩ hl
    obtain ⟨⟨i, j, ha, hb, -⟩, hnot⟩ := (hf'.mem_links t a b).mp hl
    have hnone : w.rels t i j = [] := by
      by_contra hne
      exact hnot (hf.connected_of_linked (linked_back hf hf' hw hv ha hb hne))
    simp [writeRel, bare, ha, hb, hnone]
  have hsplit : h'.rels = (g.rels ++ links.map bare).map (writeRel κ (w.append v) h') ++
      (links'.map bare).map (writeRel κ (w.append v) h') := by
    rw [hf'.rels_eq, hf.rels_eq, List.map_append, List.map_map]
    congr 1
    · exact List.map_congr_left hold
    · rw [List.map_map, List.map_map]
      exact List.map_congr_left hnew
  rw [hsplit, ← List.map_append, List.append_assoc, ← List.map_append]

/-- Two batches of writes, one after the other, are one batch. -/
theorem FlushedWith.append (hv : v.KeepKeys κ) (hg : WellFormed g) :
    FlushedWith κ (w.append v) g h' (news ++ news') (links ++ links') where
  news_nodup := by
    refine List.nodup_append.mpr ⟨hf.news_nodup, hf'.news_nodup, ?_⟩
    rintro k hk j hj rfl
    exact ((hf'.mem_news k).mp hj).2 ((hf.present_iff hw).mpr (Or.inr hk))
  mem_news k := by
    rw [List.mem_append, hf.mem_news, hf'.mem_news, hf.present_iff hw, hf.mem_news,
      Writes.touches_append]
    tauto
  nodes_eq := append_nodes_eq hf hf' hw
  links_nodup := by
    refine List.nodup_append.mpr ⟨hf.links_nodup, hf'.links_nodup, ?_⟩
    rintro ⟨t, a, b⟩ hl m hm rfl
    exact ((hf'.mem_links t a b).mp hm).2 (hf.connected_iff.mpr (Or.inr hl))
  mem_links t a b := append_mem_links hf hf' hw hv
  rels_eq := append_rels_eq hf hf' hw hv hg

end Composition

theorem flushed_nothing (g : Graph Label Rel V) (hnodes : ∀ k, w.nodes k = [])
    (hrels : ∀ t a b, w.rels t a b = []) : Flushed κ w g g := by
  refine ⟨[], [], List.nodup_nil, by simp [Writes.Touches, hnodes, hrels], ?_, List.nodup_nil,
    by simp [Linked, hrels], ?_⟩
  · have hid : ∀ n ∈ g.nodes ++ ([] : List K).map κ.fresh, writeNode κ w.nodes n = id n :=
      fun n _ => writeNode_of_nil fun k _ => hnodes k
    rw [List.map_congr_left hid]
    simp
  · have hid : ∀ r ∈ g.rels ++ ([] : List (Rel × Nat × Nat)).map bare,
        writeRel κ w g r = id r := by
      intro r _
      unfold writeRel
      split
      · simp [hrels]
      · rfl
    rw [List.map_congr_left hid]
    simp

/-- Writes that have been made change nothing when they are made again. -/
theorem FlushedWith.eq_of_again (hf : FlushedWith κ w g h news links)
    (hf' : FlushedWith κ w h h' news' links') (hw : w.KeepKeys κ) : h' = h := by
  have hnews : news' = [] := List.eq_nil_iff_forall_not_mem.mpr fun k hk =>
    ((hf'.mem_news k).mp hk).2 (hf.present_of_touches hw ((hf'.mem_news k).mp hk).1)
  have hnodes : h'.nodes = h.nodes := by
    rw [hf'.nodes_eq, hnews, List.map_nil, List.append_nil, hf.nodes_eq, List.map_map]
    exact List.map_congr_left fun n _ => writeNode_idem hw n
  have hkeys : ∀ i, keyAt κ h' i = keyAt κ h i := fun i => by rw [keyAt, hnodes, keyAt]
  have hlinks : links' = [] := by
    refine List.eq_nil_iff_forall_not_mem.mpr fun ⟨t, a, b⟩ hl => ?_
    obtain ⟨⟨i, j, ha, hb, hne⟩, hnot⟩ := (hf'.mem_links t a b).mp hl
    rw [hkeys] at ha hb
    exact hnot (hf.connected_of_linked ⟨i, j, ha, hb, hne⟩)
  have hwrite : ∀ r, writeRel κ w h' r = writeRel κ w h r := fun r => by
    rw [writeRel, hkeys, hkeys, writeRel]
  have hrels : h'.rels = h.rels := by
    rw [hf'.rels_eq, hlinks, List.map_nil, List.append_nil, hf.rels_eq, List.map_map]
    exact List.map_congr_left fun r _ => (hwrite _).trans (writeRel_idem r)
  cases h
  cases h'
  simp_all

/-- A renumbering that leaves 0 alone and acts one place further on. -/
def shift (f : Equiv.Perm Nat) : Equiv.Perm Nat where
  toFun
    | 0 => 0
    | i + 1 => f i + 1
  invFun
    | 0 => 0
    | i + 1 => f.symm i + 1
  left_inv
    | 0 => rfl
    | i + 1 => congrArg (· + 1) (f.symm_apply_apply i)
  right_inv
    | 0 => rfl
    | i + 1 => congrArg (· + 1) (f.apply_symm_apply i)

theorem exists_renumbering {α : Type*} {l m : List α} (hp : l.Perm m) :
    ∃ f : Equiv.Perm Nat, ∀ i, m[f i]? = l[i]? := by
  induction hp with
  | nil => exact ⟨Equiv.refl Nat, fun _ => rfl⟩
  | cons x _ ih =>
    obtain ⟨f, hf⟩ := ih
    refine ⟨shift f, fun i => ?_⟩
    cases i with
    | zero => rfl
    | succ i => exact hf i
  | swap x y l =>
    refine ⟨Equiv.swap 0 1, fun i => ?_⟩
    match i with
    | 0 => rfl
    | 1 => rfl
    | i + 2 => rw [Equiv.swap_apply_of_ne_of_ne (by omega) (by omega)]; rfl
  | trans _ _ ih ih' =>
    obtain ⟨f, hf⟩ := ih
    obtain ⟨f', hf'⟩ := ih'
    exact ⟨f.trans f', fun i => (hf' (f i)).trans (hf i)⟩

/-- Behind a common list the renumbering can leave that list alone. -/
theorem exists_renumbering_append {α : Type*} (base : List α) {l m : List α} (hp : l.Perm m) :
    ∃ f : Equiv.Perm Nat, (∀ i < base.length, f i = i) ∧
      ∀ i, (base ++ m)[f i]? = (base ++ l)[i]? := by
  induction base with
  | nil =>
    obtain ⟨f, hf⟩ := exists_renumbering hp
    exact ⟨f, fun i hi => absurd hi (Nat.not_lt_zero i), hf⟩
  | cons x base ih =>
    obtain ⟨f, hfix, hf⟩ := ih
    refine ⟨shift f, fun i hi => ?_, fun i => ?_⟩
    · cases i with
      | zero => rfl
      | succ i => exact congrArg (· + 1) (hfix i (Nat.lt_of_succ_lt_succ hi))
    · cases i with
      | zero => rfl
      | succ i => exact hf i

section Uniqueness

variable {f : Equiv.Perm Nat}

theorem lt_iff_of_fixes {n : Nat} (hfix : ∀ i < n, f i = i) {i : Nat} : f i < n ↔ i < n := by
  constructor
  · intro hi
    have hsame : f i = i := f.injective (hfix (f i) hi)
    rwa [hsame] at hi
  · intro hi
    rwa [hfix i hi]

theorem connected_renumbered {n : Nat} (hg : ∀ r ∈ g.rels, r.source < n ∧ r.target < n)
    (hfix : ∀ i < n, f i = i) {t : Rel} {a b : Nat} :
    Connected g t (f a) (f b) ↔ Connected g t a b := by
  constructor
  · rintro ⟨r, hr, htype, hsource, htarget⟩
    obtain ⟨hs, ht⟩ := hg r hr
    rw [hsource, lt_iff_of_fixes hfix] at hs
    rw [htarget, lt_iff_of_fixes hfix] at ht
    exact ⟨r, hr, htype, hsource.trans (hfix a hs), htarget.trans (hfix b ht)⟩
  · rintro ⟨r, hr, htype, hsource, htarget⟩
    obtain ⟨hs, ht⟩ := hg r hr
    exact ⟨r, hr, htype, by rw [← hsource, hfix _ hs], by rw [← htarget, hfix _ ht]⟩

theorem writeRel_renumbered (hkeys : ∀ i, keyAt κ h' (f i) = keyAt κ h i)
    (r : Relationship Rel V) :
    renameEnds f (writeRel κ w h r) = writeRel κ w h' (renameEnds f r) := by
  unfold writeRel
  simp only [renameEnds, hkeys]
  split <;> rfl

/-- What the same writes make of one graph is one graph. -/
theorem FlushedWith.sameGraph (hf : FlushedWith κ w g h news links)
    (hf' : FlushedWith κ w g h' news' links') (hg : WellFormed g) : SameGraph h h' := by
  have hnews : news.Perm news' :=
    (List.perm_ext_iff_of_nodup hf.news_nodup hf'.news_nodup).mpr fun k =>
      (hf.mem_news k).trans (hf'.mem_news k).symm
  obtain ⟨f, hfix, hpos⟩ := exists_renumbering_append g.nodes (hnews.map κ.fresh)
  have hnodes : ∀ i, h'.nodes[f i]? = h.nodes[i]? := fun i => by
    rw [hf.nodes_eq, hf'.nodes_eq, List.getElem?_map, List.getElem?_map, hpos i]
  have hkeys : ∀ i, keyAt κ h' (f i) = keyAt κ h i := fun i => by rw [keyAt, hnodes, keyAt]
  have hlinks : (links.map (renameLink f)).Perm links' := by
    refine (List.perm_ext_iff_of_nodup (hf.links_nodup.map ?_) hf'.links_nodup).mpr ?_
    · rintro ⟨t, a, b⟩ ⟨t', a', b'⟩ heq
      simpa [renameLink] using heq
    have mem : ∀ t a b, (t, f a, f b) ∈ links' ↔ (t, a, b) ∈ links := fun t a b => by
      rw [hf.mem_links, hf'.mem_links, connected_renumbered hg hfix, Linked, Linked, hkeys, hkeys]
    rintro ⟨t, a, b⟩
    rw [List.mem_map]
    constructor
    · rintro ⟨⟨t', a', b'⟩, hl, heq⟩
      cases heq
      exact (mem _ _ _).mpr hl
    · intro hl
      exact ⟨(t, f.symm a, f.symm b), (mem _ _ _).mp (by simpa using hl), by simp [renameLink]⟩
  refine ⟨f, hnodes, ?_⟩
  have hold : g.rels.map (renameEnds f) = g.rels := by
    have hid : ∀ r ∈ g.rels, renameEnds f r = id r := fun r hr => by
      simp [renameEnds, hfix _ (hg r hr).1, hfix _ (hg r hr).2]
    rw [List.map_congr_left hid, List.map_id]
  have hrename : h.rels.map (renameEnds f) =
      (g.rels ++ (links.map (renameLink f)).map bare).map (writeRel κ w h') := by
    have hcomm : renameEnds f ∘ writeRel κ w h = writeRel κ w h' ∘ renameEnds f :=
      funext (writeRel_renumbered hkeys)
    rw [hf.rels_eq, List.map_map, hcomm, ← List.map_map, List.map_append, hold, List.map_map,
      List.map_map]
    rfl
  rw [hrename, hf'.rels_eq]
  exact ((hlinks.map bare).append_left g.rels).map (writeRel κ w h')

end Uniqueness

end KeyedGraph
