import Mathlib.Data.List.Nodup
import Mathlib.Data.List.Pairwise

/-! # The highest of some candidates

A selection of at most `limit` candidates such that none that was left out is higher. A ranking
gives one by its first members when no candidate is overtaken and no place is wasted. -/
namespace TopSelection

variable {α : Type*} {Candidate : α → Prop} {NotAbove : α → α → Prop} {limit : ℕ}
  {ranked out before after : List α} {a b : α}

/-- `NotAbove b a` says that `b` is not higher than `a`. -/
structure IsTop (Candidate : α → Prop) (NotAbove : α → α → Prop) (limit : ℕ) (out : List α) :
    Prop where
  ordered : out.Pairwise fun a b => NotAbove b a
  nodup : out.Nodup
  candidates : ∀ a ∈ out, Candidate a
  size : out.length ≤ limit
  full : out.length < limit → ∀ a, Candidate a → a ∈ out
  highest : ∀ a ∈ out, ∀ b, Candidate b → b ∉ out → NotAbove b a

/-- Places may be wasted when there are places for all. -/
def Filled (Candidate : α → Prop) (limit : ℕ) (ranked : List α) : Prop :=
  (limit ≤ ranked.length ∧ ∀ a ∈ ranked.take limit, Candidate a) ∨
    ∀ a, Candidate a → a ∈ ranked.take limit

/-- No candidate is higher than one of the first `limit` that the ranking has before it. -/
def NotOvertaken (Candidate : α → Prop) (NotAbove : α → α → Prop) (limit : ℕ) (ranked : List α) :
    Prop :=
  ∀ before a after, ranked.take limit = before ++ a :: after → Candidate a →
    ∀ b, Candidate b → b ∉ before → b ≠ a → NotAbove b a

theorem isTop_zero_iff : IsTop Candidate NotAbove 0 out ↔ out = [] := by
  constructor
  · intro h
    exact List.length_eq_zero_iff.mp (Nat.le_zero.mp h.size)
  · rintro rfl
    exact ⟨List.Pairwise.nil, List.nodup_nil, nofun, Nat.le_refl 0, nofun, nofun⟩

theorem pairwise_of_split {R : α → α → Prop} {l : List α}
    (h : ∀ before a after, l = before ++ a :: after → ∀ b ∈ after, R a b) : l.Pairwise R := by
  induction l with
  | nil => exact List.Pairwise.nil
  | cons a l ih =>
    refine List.pairwise_cons.mpr ⟨h [] a l rfl, ih ?_⟩
    intro before c after heq
    exact h (a :: before) c after (heq ▸ rfl)

variable [DecidablePred Candidate]

theorem IsTop.filled (h : IsTop Candidate NotAbove limit
    ((ranked.take limit).filter (Candidate ·))) : Filled Candidate limit ranked := by
  by_cases hshort : ((ranked.take limit).filter (Candidate ·)).length < limit
  · right
    intro a ha
    exact List.mem_of_mem_filter (h.full hshort a ha)
  · left
    have hle := List.length_filter_le (Candidate ·) (ranked.take limit)
    have htake := List.length_take_le limit ranked
    have htake' := List.length_take_le' limit ranked
    constructor
    · omega
    · intro a ha
      have heq : ((ranked.take limit).filter (Candidate ·)).length =
          (ranked.take limit).length := by
        omega
      exact of_decide_eq_true (List.length_filter_eq_length_iff.mp heq a ha)

theorem IsTop.notOvertaken (h : IsTop Candidate NotAbove limit
    ((ranked.take limit).filter (Candidate ·))) : NotOvertaken Candidate NotAbove limit ranked := by
  intro before a after heq ha b hb hbefore hne
  have hmem : a ∈ (ranked.take limit).filter (Candidate ·) := by
    rw [heq]
    exact List.mem_filter.mpr ⟨List.mem_append_right _ List.mem_cons_self, decide_eq_true ha⟩
  by_cases hout : b ∈ (ranked.take limit).filter (Candidate ·)
  · have hordered := h.ordered
    rw [heq] at hout hordered
    have hcons : (a :: after).filter (Candidate ·) = a :: after.filter (Candidate ·) :=
      List.filter_cons_of_pos (decide_eq_true ha)
    rw [List.filter_append, hcons, List.pairwise_append, List.pairwise_cons] at hordered
    apply hordered.2.1.1
    obtain ⟨hmemb, hcand⟩ := List.mem_filter.mp hout
    rcases List.mem_append.mp hmemb with hb' | hb'
    · exact absurd hb' hbefore
    · exact List.mem_filter.mpr ⟨(List.mem_cons.mp hb').resolve_left hne, hcand⟩
  · exact h.highest a hmem b hb hout

theorem NotOvertaken.isTop (hnodup : ranked.Nodup) (hfilled : Filled Candidate limit ranked)
    (horder : NotOvertaken Candidate NotAbove limit ranked) :
    IsTop Candidate NotAbove limit ((ranked.take limit).filter (Candidate ·)) := by
  have htake : (ranked.take limit).Nodup := hnodup.sublist (List.take_sublist _ _)
  constructor
  · rw [List.pairwise_filter]
    apply pairwise_of_split
    intro before a after heq b hafter ha hb
    rw [heq, List.nodup_append, List.nodup_cons] at htake
    apply horder before a after heq (of_decide_eq_true ha) b (of_decide_eq_true hb)
    · intro hbefore
      exact htake.2.2 b hbefore b (List.mem_cons_of_mem a hafter) rfl
    · rintro rfl
      exact htake.2.1.1 hafter
  · exact htake.filter _
  · intro a ha
    exact of_decide_eq_true (List.mem_filter.mp ha).2
  · exact Nat.le_trans (List.length_filter_le _ _) (List.length_take_le _ _)
  · intro hshort a ha
    rcases hfilled with ⟨hlong, hall⟩ | hall
    · have hself : (ranked.take limit).filter (Candidate ·) = ranked.take limit := by
        rw [List.filter_eq_self]
        intro c hc
        exact decide_eq_true (hall c hc)
      rw [hself, List.length_take] at hshort
      omega
    · exact List.mem_filter.mpr ⟨hall a ha, decide_eq_true ha⟩
  · intro a ha b hb hout
    obtain ⟨hmem, hcand⟩ := List.mem_filter.mp ha
    obtain ⟨before, after, heq⟩ := List.append_of_mem hmem
    have hnot : b ∉ ranked.take limit := by
      intro hb'
      exact hout (List.mem_filter.mpr ⟨hb', decide_eq_true hb⟩)
    rw [heq] at hnot
    apply horder before a after heq (of_decide_eq_true hcand) b hb
    · intro hb'
      exact hnot (List.mem_append_left _ hb')
    · rintro rfl
      exact hnot (List.mem_append_right _ List.mem_cons_self)

/-- The first members of a ranking are a top exactly when none of them was overtaken and no place
is wasted. -/
theorem isTop_take_iff (hnodup : ranked.Nodup) :
    IsTop Candidate NotAbove limit ((ranked.take limit).filter (Candidate ·)) ↔
      Filled Candidate limit ranked ∧ NotOvertaken Candidate NotAbove limit ranked := by
  constructor
  · intro h
    exact ⟨h.filled, h.notOvertaken⟩
  · rintro ⟨hfilled, horder⟩
    exact horder.isTop hnodup hfilled

end TopSelection
