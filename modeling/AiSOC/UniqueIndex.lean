import Mathlib.Data.List.Perm.Basic
import Mathlib.Data.List.Nodup
import Mathlib.Data.List.Pairwise
import Mathlib.Tactic.SplitIfs

/-! # Insertions into a table with unique indexes

Under read-committed transactions a row that clashes with one of another open transaction waits
for its end, and a row that clashes with one that is there is refused. -/
namespace UniqueIndex

variable {τ ρ : Type*} [DecidableEq τ]

/-- `pending` are the rows that open transactions have inserted. -/
structure Table (τ ρ : Type*) where
  rows : List ρ
  pending : List (τ × ρ)

variable {s u : Table τ ρ} {t t' : τ} {r r' : ρ}

def Table.own (s : Table τ ρ) (t : τ) : List ρ :=
  (s.pending.filter fun p => p.1 = t).map Prod.snd

/-- A transaction sees what is committed and its own rows. -/
def Table.visible (s : Table τ ρ) (t : τ) : List ρ := s.rows ++ s.own t

def Table.rollback (s : Table τ ρ) (t : τ) : Table τ ρ :=
  { s with pending := s.pending.filter fun p => p.1 ≠ t }

def Table.commit (s : Table τ ρ) (t : τ) : Table τ ρ :=
  { s.rollback t with rows := s.visible t }

/-- A change of the transaction's own rows. -/
def Table.amend (s : Table τ ρ) (t : τ) (f : ρ → ρ) : Table τ ρ :=
  { s with pending := s.pending.map fun p => if p.1 = t then (t, f p.2) else p }

inductive Insertion (τ ρ : Type*) where
  | waits
  | violated
  | done (table : Table τ ρ)

section

variable (clash : ρ → ρ → Prop) [DecidableRel clash]

def Table.insert (s : Table τ ρ) (t : τ) (r : ρ) : Insertion τ ρ :=
  if ∃ p ∈ s.pending, p.1 ≠ t ∧ clash p.2 r then .waits
  else if ∃ r' ∈ s.visible t, clash r' r then .violated
  else .done { s with pending := s.pending ++ [(t, r)] }

omit [DecidableEq τ] [DecidableRel clash] in
/-- No two rows clash, committed or not. -/
def Table.Unique (s : Table τ ρ) : Prop :=
  (s.rows ++ s.pending.map Prod.snd).Pairwise fun a b => ¬ clash a b

end

variable {clash : ρ → ρ → Prop}

@[simp] theorem rows_rollback (s : Table τ ρ) (t : τ) : (s.rollback t).rows = s.rows := rfl

@[simp] theorem rows_amend (s : Table τ ρ) (t : τ) (f : ρ → ρ) : (s.amend t f).rows = s.rows := rfl

theorem mem_own : r ∈ s.own t ↔ (t, r) ∈ s.pending := by
  simp only [Table.own, List.mem_map, List.mem_filter, decide_eq_true_eq]
  constructor
  · rintro ⟨⟨t', r'⟩, ⟨hmem, rfl⟩, rfl⟩
    exact hmem
  · intro hmem
    exact ⟨(t, r), ⟨hmem, rfl⟩, rfl⟩

theorem mem_rows_commit : r ∈ (s.commit t).rows ↔ r ∈ s.rows ∨ (t, r) ∈ s.pending := by
  rw [Table.commit, Table.visible, List.mem_append, mem_own]

theorem mem_pending_rollback : (t', r) ∈ (s.rollback t).pending ↔
    (t', r) ∈ s.pending ∧ t' ≠ t := by
  simp only [Table.rollback, List.mem_filter, decide_eq_true_eq]

theorem mem_pending_commit : (t', r) ∈ (s.commit t).pending ↔
    (t', r) ∈ s.pending ∧ t' ≠ t := mem_pending_rollback

theorem mem_pending_amend {f : ρ → ρ} : (t', r) ∈ (s.amend t f).pending ↔
    (t' ≠ t ∧ (t', r) ∈ s.pending) ∨ t' = t ∧ ∃ r', (t, r') ∈ s.pending ∧ r = f r' := by
  simp only [Table.amend, List.mem_map]
  constructor
  · rintro ⟨⟨t'', r''⟩, hmem, heq⟩
    split_ifs at heq with h
    · obtain ⟨rfl, rfl⟩ := Prod.mk.inj heq
      exact Or.inr ⟨rfl, r'', h ▸ hmem, rfl⟩
    · obtain ⟨rfl, rfl⟩ := Prod.mk.inj heq
      exact Or.inl ⟨h, hmem⟩
  · rintro (⟨h, hmem⟩ | ⟨rfl, r', hmem, rfl⟩)
    · exact ⟨(t', r), hmem, if_neg h⟩
    · exact ⟨(t', r'), hmem, if_pos rfl⟩

/-- Who has inserted nothing sees what is committed. -/
theorem visible_of_free (h : ∀ r, (t, r) ∉ s.pending) : s.visible t = s.rows := by
  have hown : s.own t = [] := by
    rw [List.eq_nil_iff_forall_not_mem]
    exact fun r hr => h r (mem_own.mp hr)
  rw [Table.visible, hown, List.append_nil]

theorem commit_of_free (h : ∀ r, (t, r) ∉ s.pending) : (s.commit t).rows = s.rows :=
  visible_of_free h

theorem rollback_of_free (h : ∀ r, (t, r) ∉ s.pending) : s.rollback t = s := by
  have hpending : s.pending.filter (fun p => p.1 ≠ t) = s.pending := by
    rw [List.filter_eq_self]
    rintro ⟨t', r⟩ hp
    have hne : t' ≠ t := by
      rintro rfl
      exact h r hp
    exact decide_eq_true hne
  rw [Table.rollback, hpending]

/-! ## What insertions keep -/

variable [DecidableRel clash]

theorem insert_eq_done_iff : s.insert clash t r = .done u ↔
    (∀ p ∈ s.pending, p.1 ≠ t → ¬ clash p.2 r) ∧ (∀ r' ∈ s.visible t, ¬ clash r' r) ∧
      u = { s with pending := s.pending ++ [(t, r)] } := by
  rw [Table.insert]
  split_ifs with hwaits hviolated
  · rw [false_iff]
    rintro ⟨h, -⟩
    obtain ⟨p, hp, hne, hclash⟩ := hwaits
    exact h p hp hne hclash
  · rw [false_iff]
    rintro ⟨-, h, -⟩
    obtain ⟨r', hr', hclash⟩ := hviolated
    exact h r' hr' hclash
  · push Not at hwaits hviolated
    rw [Insertion.done.injEq]
    constructor
    · rintro rfl
      exact ⟨hwaits, hviolated, rfl⟩
    · exact fun h => h.2.2.symm

theorem insert_eq_violated (h : s.insert clash t r = .violated) :
    ∃ r' ∈ s.visible t, clash r' r := by
  rw [Table.insert] at h
  split_ifs at h with hwaits hviolated
  exact hviolated

theorem insert_eq_waits (h : s.insert clash t r = .waits) :
    ∃ p ∈ s.pending, p.1 ≠ t ∧ clash p.2 r := by
  rw [Table.insert] at h
  split_ifs at h with hwaits
  exact hwaits

theorem Table.Unique.insert (h : s.Unique clash) (hs : s.insert clash t r = .done u) :
    u.Unique clash := by
  obtain ⟨hpending, hvisible, rfl⟩ := insert_eq_done_iff.mp hs
  rw [Table.Unique, List.map_append, List.map_singleton, ← List.append_assoc]
  refine List.pairwise_append.mpr ⟨h, List.pairwise_singleton _ _, ?_⟩
  intro a ha b hb
  rw [List.mem_singleton.mp hb]
  rcases List.mem_append.mp ha with hrow | hopen
  · exact hvisible a (List.mem_append_left _ hrow)
  · obtain ⟨⟨t', a'⟩, hp, rfl⟩ := List.mem_map.mp hopen
    by_cases ht : t' = t
    · exact hvisible a' (List.mem_append_right _ (mem_own.mpr (ht ▸ hp)))
    · exact hpending _ hp ht

omit [DecidableRel clash]

theorem Table.Unique.rollback (h : s.Unique clash) (t : τ) : (s.rollback t).Unique clash := by
  refine List.Pairwise.sublist ?_ h
  exact (List.Sublist.refl _).append (List.filter_sublist.map _)

theorem Table.Unique.commit (hsymm : ∀ a b, clash a b → clash b a) (h : s.Unique clash) (t : τ) :
    (s.commit t).Unique clash := by
  have hperm : (s.rows ++ s.pending.map Prod.snd).Perm
      ((s.commit t).rows ++ (s.commit t).pending.map Prod.snd) := by
    have hsplit := List.filter_append_perm (fun p : τ × ρ => decide (p.1 = t)) s.pending
    have hnot : s.pending.filter (fun p => !decide (p.1 = t)) =
        s.pending.filter fun p => p.1 ≠ t := by
      congr 1
      funext p
      exact (decide_not).symm
    rw [hnot] at hsplit
    have hmap := hsplit.symm.map Prod.snd
    rw [List.map_append] at hmap
    rw [Table.commit, Table.visible, List.append_assoc]
    exact hmap.append_left _
  refine (hperm.pairwise_iff ?_).mp h
  exact fun hab hba => hab (hsymm _ _ hba)

/-- A change that brings no new clashes. -/
theorem Table.Unique.amend {f : ρ → ρ} (hleft : ∀ a b, clash (f a) b → clash a b)
    (hright : ∀ a b, clash a (f b) → clash a b) (h : s.Unique clash) (t : τ) :
    (s.amend t f).Unique clash := by
  have hmap : (s.amend t f).pending.map Prod.snd =
      s.pending.map fun p => if p.1 = t then f p.2 else p.2 := by
    rw [Table.amend, List.map_map]
    refine List.map_congr_left fun p _ => ?_
    rw [Function.comp_apply]
    split_ifs <;> rfl
  have hleft' : ∀ (p : τ × ρ) b, clash (if p.1 = t then f p.2 else p.2) b → clash p.2 b := by
    intro p b hclash
    split_ifs at hclash
    · exact hleft _ _ hclash
    · exact hclash
  have hright' : ∀ a (p : τ × ρ), clash a (if p.1 = t then f p.2 else p.2) → clash a p.2 := by
    intro a p hclash
    split_ifs at hclash
    · exact hright _ _ hclash
    · exact hclash
  obtain ⟨hrows, hpending, hcross⟩ := List.pairwise_append.mp h
  rw [Table.Unique, hmap]
  refine List.pairwise_append.mpr ⟨hrows, ?_, ?_⟩
  · rw [List.pairwise_map] at hpending ⊢
    exact hpending.imp fun hab hclash => hab (hleft' _ _ (hright' _ _ hclash))
  · intro a ha b hb hclash
    obtain ⟨p, hp, rfl⟩ := List.mem_map.mp hb
    exact hcross a ha p.2 (List.mem_map_of_mem hp) (hright' _ _ hclash)

theorem mem_of_visible (h : r ∈ s.visible t) : r ∈ s.rows ++ s.pending.map Prod.snd := by
  rcases List.mem_append.mp h with hrow | hown
  · exact List.mem_append_left _ hrow
  · exact List.mem_append_right _ (List.mem_map_of_mem (mem_own.mp hown))

omit [DecidableEq τ] in
theorem Table.Unique.eq_of_clash (hsymm : ∀ a b, clash a b → clash b a) (h : s.Unique clash)
    (hr : r ∈ s.rows ++ s.pending.map Prod.snd) (hr' : r' ∈ s.rows ++ s.pending.map Prod.snd)
    (hclash : clash r r') : r = r' := by
  have : Std.Symm fun a b => ¬ clash a b := ⟨fun a b hab hba => hab (hsymm b a hba)⟩
  by_contra hne
  exact List.Pairwise.forall h hr hr' hne hclash

omit [DecidableEq τ] in
/-- Of rows that clash with each other there is at most one. -/
theorem Table.Unique.filter_eq (h : s.Unique clash) {p : ρ → Bool}
    (hp : ∀ a ∈ s.rows, ∀ b ∈ s.rows, p a = true → p b = true → clash a b) (hr : r ∈ s.rows)
    (hpr : p r = true) : s.rows.filter p = [r] := by
  have hrows : s.rows.Pairwise fun a b => ¬ clash a b := (List.pairwise_append.mp h).1
  have hfilter := hrows.filter p
  have hmem : r ∈ s.rows.filter p := List.mem_filter.mpr ⟨hr, hpr⟩
  rcases hlist : s.rows.filter p with - | ⟨a, - | ⟨b, rest⟩⟩
  · rw [hlist] at hmem
    cases hmem
  · rw [hlist, List.mem_singleton] at hmem
    rw [hmem]
  · have hin : ∀ c, c ∈ a :: b :: rest → c ∈ s.rows ∧ p c = true := by
      intro c hc
      rw [← hlist] at hc
      exact List.mem_filter.mp hc
    obtain ⟨ha, hpa⟩ := hin a List.mem_cons_self
    obtain ⟨hb, hpb⟩ := hin b (List.mem_cons_of_mem _ List.mem_cons_self)
    rw [hlist] at hfilter
    have hab := (List.pairwise_cons.mp hfilter).1 b List.mem_cons_self
    exact absurd (hp a ha b hb hpa hpb) hab

end UniqueIndex
