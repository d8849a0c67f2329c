import Mathlib.Data.List.Induction
import Mathlib.Logic.Function.Basic

/-! # Property graphs under batched upserts

Nodes and relationships carry a label and a map of properties. A batched upsert runs clause
by clause over its rows, as a query language of tables does: first every row is merged and
bound to the nodes it selects, then the properties of every row are set on what it bound.
Nodes are numbered by position and are never deleted. -/
namespace PropertyGraph

variable {Label Rel V R : Type*}

abbrev Props (V : Type*) := String → Option V

structure GraphNode (Label V : Type*) where
  label : Label
  props : Props V

structure Relationship (Rel V : Type*) where
  type : Rel
  source : Nat
  target : Nat
  props : Props V

structure Graph (Label Rel V : Type*) where
  nodes : List (GraphNode Label V)
  rels : List (Relationship Rel V)

/-- Property writes in order; `none` removes the property. -/
abbrev Patch (V : Type*) := List (String × Option V)

/-- `SET n += patch`. -/
def setPlus (p : Props V) (patch : Patch V) : Props V :=
  patch.foldl (fun p kv => Function.update p kv.1 kv.2) p

@[simp] theorem setPlus_nil (p : Props V) : setPlus p [] = p := rfl

@[simp] theorem setPlus_cons (p : Props V) (kv : String × Option V) (patch : Patch V) :
    setPlus p (kv :: patch) = setPlus (Function.update p kv.1 kv.2) patch := rfl

theorem setPlus_append (p : Props V) (a b : Patch V) :
    setPlus p (a ++ b) = setPlus (setPlus p a) b := List.foldl_append

theorem setPlus_of_not_mem {patch : Patch V} {k : String} (hk : k ∉ patch.map Prod.fst)
    (p : Props V) : setPlus p patch k = p k := by
  induction patch generalizing p with
  | nil => rfl
  | cons kv patch ih =>
    simp only [List.map_cons, List.mem_cons, not_or] at hk
    rw [setPlus_cons, ih hk.2, Function.update_of_ne hk.1]

def GraphNode.set (n : GraphNode Label V) (patch : Patch V) : GraphNode Label V :=
  { n with props := setPlus n.props patch }

/-- The positions of the nodes that a pattern selects. -/
def selected (g : Graph Label Rel V) (sel : GraphNode Label V → Bool) : List Nat :=
  (List.range g.nodes.length).filter fun i => (g.nodes[i]?).any sel

/-- `MERGE`: all the nodes selected, or a new one when there is none. -/
def mergeNode (g : Graph Label Rel V) (sel : GraphNode Label V → Bool)
    (fresh : GraphNode Label V) : Graph Label Rel V × List Nat :=
  match selected g sel with
  | [] => ({ g with nodes := g.nodes ++ [fresh] }, [g.nodes.length])
  | ids => (g, ids)

def setNodes (g : Graph Label Rel V) (ids : List Nat) (patch : Patch V) : Graph Label Rel V :=
  { g with nodes := g.nodes.mapIdx fun i n => if i ∈ ids then n.set patch else n }

/-- The relationships of a type between two bound lists of nodes. -/
def connected (g : Graph Label Rel V) [DecidableEq Rel] (type : Rel) (source target : Nat) :
    List Nat :=
  (List.range g.rels.length).filter fun i =>
    (g.rels[i]?).any fun r => r.type = type ∧ r.source = source ∧ r.target = target

def mergeRel (g : Graph Label Rel V) [DecidableEq Rel] (type : Rel) (source target : Nat) :
    Graph Label Rel V × List Nat :=
  match connected g type source target with
  | [] => ({ g with rels := g.rels ++ [⟨type, source, target, fun _ => none⟩] },
      [g.rels.length])
  | ids => (g, ids)

def setRels (g : Graph Label Rel V) (ids : List Nat) (patch : Patch V) : Graph Label Rel V :=
  { g with
    rels := g.rels.mapIdx fun i r =>
      if i ∈ ids then { r with props := setPlus r.props patch } else r }

/-- One clause over a table of rows: the graph is threaded, every row keeps its binding. -/
def mapRows {G B : Type*} (clause : G → R → G × B) (g : G) (rows : List R) : G × List (R × B) :=
  rows.foldl (fun acc row =>
    ((clause acc.1 row).1, acc.2 ++ [(row, (clause acc.1 row).2)])) (g, [])

theorem mapRows_snoc {G B : Type*} (clause : G → R → G × B) (g : G) (rows : List R) (row : R) :
    mapRows clause g (rows ++ [row]) =
      ((clause (mapRows clause g rows).1 row).1,
        (mapRows clause g rows).2 ++ [(row, (clause (mapRows clause g rows).1 row).2)]) := by
  simp [mapRows]

/-- `UNWIND rows AS row MERGE (n ..) SET n += ..`. -/
def upsertNodes (sel : R → GraphNode Label V → Bool) (fresh : R → GraphNode Label V)
    (patch : R → Patch V) (g : Graph Label Rel V) (rows : List R) : Graph Label Rel V :=
  let merged := mapRows (fun g row => mergeNode g (sel row) (fresh row)) g rows
  merged.2.foldl (fun g r => setNodes g r.2 (patch r.1)) merged.1

/-- The pairs of a list of sources and a list of targets, each merged as a relationship. -/
def mergeRels [DecidableEq Rel] (type : Rel) (g : Graph Label Rel V) (ends : List Nat × List Nat) :
    Graph Label Rel V × List Nat :=
  let merged := mapRows (fun g (e : Nat × Nat) => mergeRel g type e.1 e.2) g
    (ends.1.flatMap fun a => ends.2.map fun b => (a, b))
  (merged.1, merged.2.flatMap Prod.snd)

/-- `UNWIND rows AS row MERGE (a ..) MERGE (b ..) MERGE (a)-[r]->(b) SET r += ..`. -/
def upsertRels [DecidableEq Rel] (type : Rel)
    (selFrom selTo : R → GraphNode Label V → Bool) (freshFrom freshTo : R → GraphNode Label V)
    (patch : R → Patch V) (g : Graph Label Rel V) (rows : List R) : Graph Label Rel V :=
  let sources := mapRows (fun g row => mergeNode g (selFrom row) (freshFrom row)) g rows
  let targets := mapRows (fun g (r : R × List Nat) => mergeNode g (selTo r.1) (freshTo r.1))
    sources.1 sources.2
  let rel := mapRows (fun g (r : (R × List Nat) × List Nat) =>
    mergeRels type g (r.1.2, r.2)) targets.1 targets.2
  rel.2.foldl (fun g r => setRels g r.2 (patch r.1.1.1)) rel.1

/-- The node at a position that was there before. -/
def HasNode (g : Graph Label Rel V) (i : Nat) (n : GraphNode Label V) : Prop :=
  g.nodes[i]? = some n

theorem mem_selected {g : Graph Label Rel V} {sel : GraphNode Label V → Bool} {i : Nat}
    {n : GraphNode Label V} (h : HasNode g i n) : i ∈ selected g sel ↔ sel n = true := by
  have hi : i < g.nodes.length := (List.getElem?_eq_some_iff.mp h).1
  have hn : g.nodes[i] = n := (List.getElem?_eq_some_iff.mp h).2
  simp [selected, hi, hn]

theorem mergeNode_hasNode {g : Graph Label Rel V} {i : Nat} {n : GraphNode Label V}
    (h : HasNode g i n) (sel : GraphNode Label V → Bool) (fresh : GraphNode Label V) :
    HasNode (mergeNode g sel fresh).1 i n := by
  unfold mergeNode
  split
  · have hi : i < g.nodes.length := (List.getElem?_eq_some_iff.mp h).1
    simpa [HasNode, List.getElem?_append_left hi] using h
  · exact h

/-- An old node is bound by a merge exactly when the pattern selects it. -/
theorem mem_mergeNode {g : Graph Label Rel V} {i : Nat} {n : GraphNode Label V}
    (h : HasNode g i n) (sel : GraphNode Label V → Bool) (fresh : GraphNode Label V) :
    i ∈ (mergeNode g sel fresh).2 ↔ sel n = true := by
  have hi : i < g.nodes.length := (List.getElem?_eq_some_iff.mp h).1
  rw [← mem_selected h]
  unfold mergeNode
  split
  · rename_i hnone
    simp [hnone, Nat.ne_of_lt hi]
  · rfl

theorem mapRows_invariant {G B : Type*} (clause : G → R → G × B) {P : G → Prop}
    (hP : ∀ g row, P g → P (clause g row).1) {g : G} (hg : P g) (rows : List R) :
    P (mapRows clause g rows).1 := by
  induction rows using List.reverseRecOn with
  | nil => exact hg
  | append_singleton rows row ih => rw [mapRows_snoc]; exact hP _ _ ih

/-- The merge clause of a batch keeps the old nodes and binds them by the patterns. -/
theorem mergeRows_hasNode {g : Graph Label Rel V} {i : Nat} {n : GraphNode Label V}
    (h : HasNode g i n) (sel : R → GraphNode Label V → Bool) (fresh : R → GraphNode Label V)
    (rows : List R) :
    HasNode (mapRows (fun g row => mergeNode g (sel row) (fresh row)) g rows).1 i n :=
  mapRows_invariant _ (P := fun k => HasNode k i n)
    (fun _ row hk => mergeNode_hasNode hk (sel row) (fresh row)) h rows

theorem setNodes_hasNode {g : Graph Label Rel V} {i : Nat} {n : GraphNode Label V}
    (h : HasNode g i n) (ids : List Nat) (patch : Patch V) :
    HasNode (setNodes g ids patch) i (if i ∈ ids then n.set patch else n) := by
  simp [HasNode, setNodes, show g.nodes[i]? = some n from h]

/-- What a batched upsert does to a node that exists: the rows that select it, in order. -/
def applyRows (sel : R → GraphNode Label V → Bool) (patch : R → Patch V) (n : GraphNode Label V)
    (rows : List R) : GraphNode Label V :=
  (rows.filter fun row => sel row n).foldl (fun m row => m.set (patch row)) n

/-- The two clauses of a batched upsert, seen from one node that exists before it. -/
theorem upsertNodes_hasNode {g : Graph Label Rel V} {i : Nat} {n : GraphNode Label V}
    (h : HasNode g i n) (sel : R → GraphNode Label V → Bool) (fresh : R → GraphNode Label V)
    (patch : R → Patch V) (rows : List R) :
    HasNode (upsertNodes sel fresh patch g rows) i (applyRows sel patch n rows) := by
  -- The bindings of the merge clause, related to the rows that select the node.
  have table : ∀ (m : GraphNode Label V) (k : Graph Label Rel V), HasNode k i m →
      HasNode ((mapRows (fun g row => mergeNode g (sel row) (fresh row)) g rows).2.foldl
        (fun g r => setNodes g r.2 (patch r.1)) k) i
        ((rows.filter fun row => sel row n).foldl (fun m row => m.set (patch row)) m) := by
    induction rows using List.reverseRecOn with
    | nil => intro m k hk; exact hk
    | append_singleton rows row ih =>
      intro m k hk
      rw [mapRows_snoc, List.foldl_append, List.filter_append, List.foldl_append]
      have hstep := setNodes_hasNode (ih m k hk)
        (mergeNode (mapRows (fun g row => mergeNode g (sel row) (fresh row)) g rows).1
          (sel row) (fresh row)).2 (patch row)
      have hmem := mem_mergeNode (mergeRows_hasNode h sel fresh rows) (sel row) (fresh row)
      by_cases hsel : sel row n = true
      · rw [if_pos (hmem.mpr hsel)] at hstep
        simpa [hsel] using hstep
      · rw [if_neg (fun hin => hsel (hmem.mp hin))] at hstep
        simpa [hsel] using hstep
  exact table n _ (mergeRows_hasNode h sel fresh rows)

theorem applyRows_eq_self {sel : R → GraphNode Label V → Bool} {patch : R → Patch V}
    {n : GraphNode Label V} {rows : List R} (h : ∀ row ∈ rows, sel row n = false) :
    applyRows sel patch n rows = n := by
  have hnil : rows.filter (fun row => sel row n) = [] := by
    simpa [List.filter_eq_nil_iff] using h
  simp [applyRows, hnil]

/-- A property that every row establishes holds of a node that some row selects. -/
theorem applyRows_establishes {sel : R → GraphNode Label V → Bool} {patch : R → Patch V}
    {P : GraphNode Label V → Prop} {rows : List R}
    (hP : ∀ row ∈ rows, ∀ m : GraphNode Label V, P (m.set (patch row)))
    {n : GraphNode Label V} (h : P n ∨ ∃ row ∈ rows, sel row n = true) :
    P (applyRows sel patch n rows) := by
  have keep : ∀ l : List R, (∀ row ∈ l, row ∈ rows) → ∀ m, P m →
      P (l.foldl (fun m row => m.set (patch row)) m) := by
    intro l
    induction l with
    | nil => exact fun _ m hm => hm
    | cons r l ih =>
      intro hl m _
      exact ih (fun row hrow => hl row (List.mem_cons_of_mem r hrow)) _
        (hP r (hl r List.mem_cons_self) m)
  have sub : ∀ row ∈ rows.filter (fun row => sel row n), row ∈ rows :=
    fun row hrow => (List.mem_filter.mp hrow).1
  unfold applyRows
  rcases hl : rows.filter (fun row => sel row n) with _ | ⟨row, rest⟩
  · rcases h with h | ⟨row, hrow, hsel⟩
    · exact h
    · have hin : row ∈ rows.filter (fun row => sel row n) := List.mem_filter.mpr ⟨hrow, hsel⟩
      rw [hl] at hin
      cases hin
  · rw [hl] at sub
    exact keep rest (fun r hr => sub r (List.mem_cons_of_mem row hr)) _
      (hP row (sub row List.mem_cons_self) n)

theorem mergeRel_nodes [DecidableEq Rel] (g : Graph Label Rel V) (type : Rel) (a b : Nat) :
    (mergeRel g type a b).1.nodes = g.nodes := by
  unfold mergeRel
  split <;> rfl

theorem mergeRels_nodes [DecidableEq Rel] (g : Graph Label Rel V) (type : Rel)
    (ends : List Nat × List Nat) : (mergeRels type g ends).1.nodes = g.nodes :=
  mapRows_invariant (fun k (e : Nat × Nat) => mergeRel k type e.1 e.2)
    (P := fun k => k.nodes = g.nodes)
    (fun k e hk => (mergeRel_nodes k type e.1 e.2).trans hk) rfl _

/-- Relationship upserts merge endpoints but never write to a node that exists. -/
theorem upsertRels_hasNode [DecidableEq Rel] {g : Graph Label Rel V} {i : Nat}
    {n : GraphNode Label V} (h : HasNode g i n) (type : Rel)
    (selFrom selTo : R → GraphNode Label V → Bool) (freshFrom freshTo : R → GraphNode Label V)
    (patch : R → Patch V) (rows : List R) :
    HasNode (upsertRels type selFrom selTo freshFrom freshTo patch g rows) i n := by
  have hset : ∀ (t : List (((R × List Nat) × List Nat) × List Nat)) (k : Graph Label Rel V),
      HasNode k i n → HasNode (t.foldl (fun g r => setRels g r.2 (patch r.1.1.1)) k) i n := by
    intro t
    induction t with
    | nil => exact fun k hk => hk
    | cons r t ih => exact fun k hk => ih _ hk
  have hfrom := mergeRows_hasNode h selFrom freshFrom rows
  have hto := mergeRows_hasNode hfrom (fun r : R × List Nat => selTo r.1) (fun r => freshTo r.1)
    (mapRows (fun g row => mergeNode g (selFrom row) (freshFrom row)) g rows).2
  refine hset _ _ (mapRows_invariant (fun k (r : (R × List Nat) × List Nat) =>
    mergeRels type k (r.1.2, r.2)) (P := fun k => HasNode k i n) (fun k r hk => ?_) hto _)
  exact (congrArg (·[i]?) (mergeRels_nodes k type _)).trans hk

end PropertyGraph
