import Mathlib.Data.List.Basic

/-! # Joins of lists of rows

Inner and outer joins over lists, and what of a join can be seen through a filter: two pairs
of operands that agree on the rows a filter lets through give joins that agree on them,
provided that the row an outer join fills in is hidden by the filter, or the operands are
the same. -/
namespace RelationalJoin

inductive JoinKind where
  | inner | left | right | full
  deriving DecidableEq, Repr

variable {α β : Type*}

/-- The matches, or the null row where there are none. -/
def orNull (null : β) : List β → List β
  | [] => [null]
  | r :: rs => r :: rs

def joinRows (kind : JoinKind) (nullLeft : α) (nullRight : β) (ls : List α) (rs : List β)
    (on : α → β → Bool) : List (α × β) :=
  match kind with
  | .inner => ls.flatMap fun l => (rs.filter (on l)).map (l, ·)
  | .left => ls.flatMap fun l => (orNull nullRight (rs.filter (on l))).map (l, ·)
  | .right => rs.flatMap fun r => (orNull nullLeft (ls.filter fun l => on l r)).map (·, r)
  | .full => (ls.flatMap fun l => (orNull nullRight (rs.filter (on l))).map (l, ·)) ++
      (rs.filter fun r => !ls.any fun l => on l r).map (nullLeft, ·)

def both (p : α → Bool) (q : β → Bool) (x : α × β) : Bool := p x.1 && q x.2

/-- Operands that agree as far as the filter can see. -/
structure Agree (p : α → Bool) (null : α) (xs ys : List α) : Prop where
  filter_eq : xs.filter p = ys.filter p
  null_hidden_or_eq : p null = false ∨ xs = ys

variable {p : α → Bool} {q : β → Bool} {nullLeft : α} {nullRight : β}

theorem filter_orNull (h : q nullRight = false) (rs : List β) :
    (orNull nullRight rs).filter q = rs.filter q := by
  cases rs with
  | nil => simp [orNull, h]
  | cons r rs => rfl

theorem Agree.filter_filter {xs ys : List α} (h : Agree p nullLeft xs ys) (f : α → Bool) :
    (xs.filter f).filter p = (ys.filter f).filter p := by
  rw [List.filter_comm, h.filter_eq, List.filter_comm]

theorem Agree.filter_orNull {xs ys : List α} (h : Agree p nullLeft xs ys) (f : α → Bool) :
    (orNull nullLeft (xs.filter f)).filter p = (orNull nullLeft (ys.filter f)).filter p := by
  rcases h.null_hidden_or_eq with hnull | rfl
  · rw [RelationalJoin.filter_orNull hnull, RelationalJoin.filter_orNull hnull,
      h.filter_filter f]
  · rfl

theorem filter_pairs_left (ls : List α) (f : α → List β) :
    (ls.flatMap fun l => (f l).map (l, ·)).filter (both p q) =
      (ls.filter p).flatMap fun l => ((f l).filter q).map (l, ·) := by
  induction ls with
  | nil => rfl
  | cons l ls ih =>
    rw [List.flatMap_cons, List.filter_append, ih, List.filter_map]
    by_cases hl : p l = true
    · have hcomp : both p q ∘ (l, ·) = q := by
        funext r
        simp [both, hl]
      rw [List.filter_cons_of_pos hl, List.flatMap_cons, hcomp]
    · have hcomp : both p q ∘ (l, ·) = fun _ => false := by
        funext r
        simp [both, hl]
      rw [List.filter_cons_of_neg hl, hcomp, List.filter_false]
      rfl

theorem filter_pairs_right (rs : List β) (f : β → List α) :
    (rs.flatMap fun r => (f r).map (·, r)).filter (both p q) =
      (rs.filter q).flatMap fun r => ((f r).filter p).map (·, r) := by
  induction rs with
  | nil => rfl
  | cons r rs ih =>
    rw [List.flatMap_cons, List.filter_append, ih, List.filter_map]
    by_cases hr : q r = true
    · have hcomp : both p q ∘ (·, r) = p := by
        funext l
        simp [both, hr]
      rw [List.filter_cons_of_pos hr, List.flatMap_cons, hcomp]
    · have hcomp : both p q ∘ (·, r) = fun _ => false := by
        funext l
        simp [both, hr]
      rw [List.filter_cons_of_neg hr, hcomp, List.filter_false]
      rfl

/-- The rows of the right operand that a full join adds. -/
theorem filter_unmatched {ls₁ ls₂ : List α} {rs₁ rs₂ : List β} (hl : Agree p nullLeft ls₁ ls₂)
    (hr : Agree q nullRight rs₁ rs₂) (on : α → β → Bool) :
    ((rs₁.filter fun r => !ls₁.any fun l => on l r).map (nullLeft, ·)).filter (both p q) =
      ((rs₂.filter fun r => !ls₂.any fun l => on l r).map (nullLeft, ·)).filter (both p q) := by
  rw [List.filter_map, List.filter_map]
  rcases hl.null_hidden_or_eq with hnull | rfl
  · have hcomp : both p q ∘ (nullLeft, ·) = fun _ => false := by
      funext r
      simp [both, hnull]
    rw [hcomp, List.filter_false, List.filter_false]
  · by_cases hnull : p nullLeft = true
    · have hcomp : both p q ∘ (nullLeft, ·) = q := by
        funext r
        simp [both, hnull]
      rw [hcomp, hr.filter_filter]
    · have hcomp : both p q ∘ (nullLeft, ·) = fun _ => false := by
        funext r
        simp [both, hnull]
      rw [hcomp, List.filter_false, List.filter_false]

theorem filter_joinRows {ls₁ ls₂ : List α} {rs₁ rs₂ : List β} (hl : Agree p nullLeft ls₁ ls₂)
    (hr : Agree q nullRight rs₁ rs₂) (kind : JoinKind) (on : α → β → Bool) :
    (joinRows kind nullLeft nullRight ls₁ rs₁ on).filter (both p q) =
      (joinRows kind nullLeft nullRight ls₂ rs₂ on).filter (both p q) := by
  cases kind with
  | inner =>
    simp only [joinRows, filter_pairs_left, hl.filter_eq, hr.filter_filter]
  | left =>
    simp only [joinRows, filter_pairs_left, hl.filter_eq, hr.filter_orNull]
  | right =>
    simp only [joinRows, filter_pairs_right, hr.filter_eq, hl.filter_orNull]
  | full =>
    simp only [joinRows, List.filter_append, filter_pairs_left, hl.filter_eq, hr.filter_orNull]
    rw [filter_unmatched hl hr]

/-- Joins of operands that agree agree. -/
theorem joinRows_agree {ls₁ ls₂ : List α} {rs₁ rs₂ : List β} (hl : Agree p nullLeft ls₁ ls₂)
    (hr : Agree q nullRight rs₁ rs₂) (kind : JoinKind) (on : α → β → Bool) :
    Agree (both p q) (nullLeft, nullRight) (joinRows kind nullLeft nullRight ls₁ rs₁ on)
      (joinRows kind nullLeft nullRight ls₂ rs₂ on) where
  filter_eq := filter_joinRows hl hr kind on
  null_hidden_or_eq := by
    rcases hl.null_hidden_or_eq with hnull | rfl
    · exact Or.inl (by simp [both, hnull])
    · rcases hr.null_hidden_or_eq with hnull | rfl
      · exact Or.inl (by simp [both, hnull])
      · exact Or.inr rfl

theorem mem_orNull {null x : β} {rs : List β} (h : x ∈ orNull null rs) : x = null ∨ x ∈ rs := by
  cases rs with
  | nil => exact Or.inl (List.mem_singleton.mp h)
  | cons r rs => exact Or.inr h

/-- A pair is made of rows of the operands and null rows. -/
theorem mem_joinRows {ls : List α} {rs : List β} {kind : JoinKind} {on : α → β → Bool}
    {x : α × β} (h : x ∈ joinRows kind nullLeft nullRight ls rs on) :
    (x.1 = nullLeft ∨ x.1 ∈ ls) ∧ (x.2 = nullRight ∨ x.2 ∈ rs) := by
  have hleft : x ∈ (ls.flatMap fun l => (orNull nullRight (rs.filter (on l))).map (l, ·)) →
      (x.1 = nullLeft ∨ x.1 ∈ ls) ∧ (x.2 = nullRight ∨ x.2 ∈ rs) := by
    intro hx
    obtain ⟨l, hl, hx⟩ := List.mem_flatMap.mp hx
    obtain ⟨r, hr, rfl⟩ := List.mem_map.mp hx
    exact ⟨Or.inr hl, (mem_orNull hr).imp_right fun hr => (List.mem_filter.mp hr).1⟩
  cases kind with
  | inner =>
    obtain ⟨l, hl, hx⟩ := List.mem_flatMap.mp h
    obtain ⟨r, hr, rfl⟩ := List.mem_map.mp hx
    exact ⟨Or.inr hl, Or.inr (List.mem_filter.mp hr).1⟩
  | left => exact hleft h
  | right =>
    obtain ⟨r, hr, hx⟩ := List.mem_flatMap.mp h
    obtain ⟨l, hl, rfl⟩ := List.mem_map.mp hx
    exact ⟨(mem_orNull hl).imp_right fun hl => (List.mem_filter.mp hl).1, Or.inr hr⟩
  | full =>
    rcases List.mem_append.mp h with hx | hx
    · exact hleft hx
    · obtain ⟨r, hr, rfl⟩ := List.mem_map.mp hx
      exact ⟨Or.inl rfl, Or.inr (List.mem_filter.mp hr).1⟩

end RelationalJoin
