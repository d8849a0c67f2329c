import Mathlib.Data.Nat.Find
import Mathlib.Data.Set.Basic

/-! # Distances in layers

Vertices are adjacent if they have a label in common and the second one is in the graph. A
search that goes on from the labels of its last layer, less those it has just gone on from,
finds the vertices at every distance in turn. -/
namespace BreadthFirst

section

variable {V : Type*} (adj : V → V → Prop) (source : V)

inductive Walk : ℕ → V → Prop where
  | source : Walk 0 source
  | step {k u v} : Walk k u → adj u v → Walk (k + 1) v

/-- The length of the shortest walk. -/
structure Distance (k : ℕ) (v : V) : Prop where
  walk : Walk adj source k v
  least : ∀ j < k, ¬ Walk adj source j v

variable {adj source} {j k : ℕ} {u v : V}

theorem Distance.unique (hj : Distance adj source j v) (hk : Distance adj source k v) : j = k := by
  rcases Nat.lt_trichotomy j k with h | h | h
  · exact absurd hj.walk (hk.least j h)
  · exact h
  · exact absurd hk.walk (hj.least k h)

theorem distance_zero : Distance adj source 0 v ↔ v = source := by
  constructor
  · rintro ⟨⟨⟩, -⟩
    rfl
  · rintro rfl
    exact ⟨.source, nofun⟩

/-- A walk is no shorter than the distance. -/
theorem Walk.distance (h : Walk adj source k v) : ∃ j ≤ k, Distance adj source j v := by
  classical
  have hwalks : ∃ j, Walk adj source j v := ⟨k, h⟩
  exact ⟨Nat.find hwalks, Nat.find_min' hwalks h, Nat.find_spec hwalks,
    fun _ hj => Nat.find_min hwalks hj⟩

theorem Distance.next (hu : Distance adj source k u) (hadj : adj u v) :
    ∃ j ≤ k + 1, Distance adj source j v := (hu.walk.step hadj).distance

/-- On a shortest walk the vertex before has the distance before. -/
theorem Distance.previous (h : Distance adj source (k + 1) v) :
    ∃ u, Distance adj source k u ∧ adj u v := by
  obtain ⟨hwalk, hleast⟩ := h
  cases hwalk with
  | step hu hadj =>
    refine ⟨_, ⟨hu, ?_⟩, hadj⟩
    intro j hj hwalk
    exact hleast (j + 1) (by omega) (hwalk.step hadj)

/-- Beyond an empty layer there is nothing. -/
theorem distance_le_of_empty (h : ∀ v, ¬ Distance adj source (k + 1) v)
    (hv : Distance adj source j v) : j ≤ k := by
  induction j generalizing v with
  | zero => exact Nat.zero_le k
  | succ j ih =>
    obtain ⟨u, hu, -⟩ := hv.previous
    have hle := ih hu
    rcases Nat.eq_or_lt_of_le hle with rfl | hlt
    · exact absurd hv (h v)
    · exact hlt

end

variable {V E : Type*} (labels : V → Set E) (inGraph : V → Prop)

def Adjacent (u v : V) : Prop := inGraph v ∧ ∃ e, e ∈ labels u ∧ e ∈ labels v

/-- What the search has after `d` layers: the vertices up to distance `d`, and the labels of the
last layer except those of which every vertex is known already. -/
structure Layer (source : V) (d : ℕ) (frontier : Set E) (known : V → ℕ → Prop) : Prop where
  known_iff : ∀ v k, known v k ↔ Distance (Adjacent labels inGraph) source k v ∧ k ≤ d
  reached : ∀ e ∈ frontier, ∃ u, Distance (Adjacent labels inGraph) source d u ∧ e ∈ labels u
  explored : ∀ u e, Distance (Adjacent labels inGraph) source d u → e ∈ labels u →
    e ∈ frontier ∨ ∀ v, inGraph v → e ∈ labels v → ∃ k, known v k

variable {labels inGraph} {source : V} {d : ℕ} {frontier : Set E} {known : V → ℕ → Prop}

theorem Layer.start : Layer labels inGraph source 0 (labels source)
    fun v k => v = source ∧ k = 0 where
  known_iff v k := by
    constructor
    · rintro ⟨rfl, rfl⟩
      exact ⟨distance_zero.mpr rfl, Nat.le_refl 0⟩
    · rintro ⟨hdist, hk⟩
      obtain rfl := Nat.le_zero.mp hk
      exact ⟨distance_zero.mp hdist, rfl⟩
  reached e he := ⟨source, distance_zero.mpr rfl, he⟩
  explored u e hu he := by
    obtain rfl := distance_zero.mp hu
    exact Or.inl he

/-- The vertices that the next layer adds. -/
def Fresh (labels : V → Set E) (inGraph : V → Prop) (frontier : Set E) (known : V → ℕ → Prop)
    (v : V) : Prop :=
  (inGraph v ∧ ∃ e ∈ frontier, e ∈ labels v) ∧ ∀ k, ¬ known v k

/-- They are those at the next distance. -/
theorem Layer.mem_fresh_iff (h : Layer labels inGraph source d frontier known) (v : V) :
    Fresh labels inGraph frontier known v ↔
      Distance (Adjacent labels inGraph) source (d + 1) v := by
  constructor
  · rintro ⟨⟨hv, e, he, hlabel⟩, hfresh⟩
    obtain ⟨u, hu, hulabel⟩ := h.reached e he
    obtain ⟨j, hj, hdist⟩ := hu.next ⟨hv, e, hulabel, hlabel⟩
    rcases Nat.eq_or_lt_of_le hj with rfl | hlt
    · exact hdist
    · exact absurd ((h.known_iff v j).mpr ⟨hdist, Nat.le_of_lt_succ hlt⟩) (hfresh j)
  · intro hdist
    have hfresh : ∀ k, ¬ known v k := by
      intro k hk
      obtain ⟨hdist', hle⟩ := (h.known_iff v k).mp hk
      have := hdist.unique hdist'
      omega
    obtain ⟨u, hu, hv, e, hulabel, hlabel⟩ := hdist.previous
    rcases h.explored u e hu hulabel with he | hall
    · exact ⟨⟨hv, e, he, hlabel⟩, hfresh⟩
    · obtain ⟨k, hk⟩ := hall v hv hlabel
      exact absurd hk (hfresh k)

/-- One more layer. -/
theorem Layer.next (h : Layer labels inGraph source d frontier known) :
    Layer labels inGraph source (d + 1)
      ({e | ∃ v, Fresh labels inGraph frontier known v ∧ e ∈ labels v} \ frontier)
      (fun v k => known v k ∨ Fresh labels inGraph frontier known v ∧ k = d + 1) where
  known_iff v k := by
    rw [h.known_iff, h.mem_fresh_iff]
    constructor
    · rintro (⟨hdist, hle⟩ | ⟨hdist, rfl⟩)
      · exact ⟨hdist, Nat.le_succ_of_le hle⟩
      · exact ⟨hdist, Nat.le_refl _⟩
    · rintro ⟨hdist, hle⟩
      rcases Nat.eq_or_lt_of_le hle with rfl | hlt
      · exact Or.inr ⟨hdist, rfl⟩
      · exact Or.inl ⟨hdist, Nat.le_of_lt_succ hlt⟩
  reached := by
    rintro e ⟨⟨v, hfresh, hlabel⟩, -⟩
    exact ⟨v, (h.mem_fresh_iff v).mp hfresh, hlabel⟩
  explored u e hu hlabel := by
    by_cases he : e ∈ frontier
    · right
      intro v hv hvlabel
      by_cases hknown : ∃ k, known v k
      · obtain ⟨k, hk⟩ := hknown
        exact ⟨k, Or.inl hk⟩
      · exact ⟨d + 1, Or.inr ⟨⟨⟨hv, e, he, hvlabel⟩, not_exists.mp hknown⟩, rfl⟩⟩
    · exact Or.inl ⟨⟨u, (h.mem_fresh_iff u).mpr hu, hlabel⟩, he⟩

/-- Without labels to go on from, all distances are known. -/
theorem Layer.stop (h : Layer labels inGraph source d ∅ known) (v : V) (k : ℕ) :
    known v k ↔ Distance (Adjacent labels inGraph) source k v := by
  have hempty : ∀ v, ¬ Distance (Adjacent labels inGraph) source (d + 1) v := by
    intro v hdist
    obtain ⟨⟨-, e, he, -⟩, -⟩ := (h.mem_fresh_iff v).mpr hdist
    exact he
  rw [h.known_iff]
  exact ⟨And.left, fun hdist => ⟨hdist, distance_le_of_empty hempty hdist⟩⟩

end BreadthFirst
