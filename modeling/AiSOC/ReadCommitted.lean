import Mathlib.Logic.Function.Basic
import Mathlib.Data.Option.Basic

/-! # Rows under read-committed transactions

A write locks its row until the transaction ends, and is computed from the row as the writer
sees it at that moment. Reads take no lock: a transaction sees its own writes and otherwise what
is committed. -/
namespace ReadCommitted

variable {τ κ ν : Type*} [DecidableEq τ]

/-- `held` tells the writer of a locked row and what the row is to become. -/
structure Store (τ κ ν : Type*) where
  committed : κ → ν
  held : κ → Option (τ × ν)

def Store.read (s : Store τ κ ν) (t : τ) (k : κ) : ν :=
  match s.held k with
  | some (t', v) => if t' = t then v else s.committed k
  | none => s.committed k

def Store.rollback (s : Store τ κ ν) (t : τ) : Store τ κ ν :=
  { s with held := fun k => (s.held k).filter fun h => h.1 ≠ t }

def Store.commit (s : Store τ κ ν) (t : τ) : Store τ κ ν :=
  { s.rollback t with committed := fun k => s.read t k }

variable {s u : Store τ κ ν} {t t' : τ} {k : κ} {v : ν} {f : ν → ν}

@[simp] theorem read_of_held (h : s.held k = some (t, v)) : s.read t k = v := by
  rw [Store.read, h]
  exact if_pos rfl

/-- Who holds no write on a row sees what is committed. -/
theorem read_of_not_held (h : ∀ v, s.held k ≠ some (t, v)) : s.read t k = s.committed k := by
  rw [Store.read]
  rcases hheld : s.held k with _ | ⟨t', v⟩
  · rfl
  · have hne : t' ≠ t := by
      rintro rfl
      exact h v hheld
    exact if_neg hne

@[simp] theorem committed_rollback (s : Store τ κ ν) (t : τ) :
    (s.rollback t).committed = s.committed := rfl

theorem held_rollback : (s.rollback t).held k = some (t', v) ↔
    s.held k = some (t', v) ∧ t' ≠ t := by
  simp only [Store.rollback, Option.filter_eq_some_iff, decide_eq_true_eq]

/-- There is nothing to give up for who holds no row. -/
theorem rollback_of_free (h : ∀ k v, s.held k ≠ some (t, v)) : s.rollback t = s := by
  have hheld : (fun k => (s.held k).filter fun h => h.1 ≠ t) = s.held := by
    funext k
    rcases hk : s.held k with _ | ⟨t', v⟩
    · rfl
    · have hne : t' ≠ t := by
        rintro rfl
        exact h k v hk
      exact if_pos (decide_eq_true hne)
  rw [Store.rollback, hheld]

@[simp] theorem held_commit (s : Store τ κ ν) (t : τ) :
    (s.commit t).held = (s.rollback t).held := rfl

theorem committed_commit (s : Store τ κ ν) (t : τ) (k : κ) :
    (s.commit t).committed k = s.read t k := rfl

/-- A commit leaves the rows alone that the transaction has not written. -/
theorem committed_commit_of_not_held (h : ∀ v, s.held k ≠ some (t, v)) :
    (s.commit t).committed k = s.committed k := read_of_not_held h

/-! ## Transactions that write one row -/

/-- Every transaction has at most one row to write, and its lock holds its update of what is
committed. -/
def Store.Pending (s : Store τ κ ν) (updates : τ → Option (κ × (ν → ν))) : Prop :=
  ∀ k t v, s.held k = some (t, v) ↔ ∃ f, updates t = some (k, f) ∧ v = f (s.committed k)

variable {updates : τ → Option (κ × (ν → ν))} {g : ν → ν}

omit [DecidableEq τ] in
theorem pending_idle {committed : κ → ν} :
    (Store.mk committed fun _ => none).Pending fun _ : τ => none := by
  intro k t v
  constructor
  · nofun
  · rintro ⟨f, hf, -⟩
    cases hf

omit [DecidableEq τ] in
theorem Store.Pending.held (h : s.Pending updates) (ht : updates t = some (k, f)) :
    s.held k = some (t, f (s.committed k)) :=
  (h k t _).mpr ⟨f, ht, rfl⟩

omit [DecidableEq τ] in
/-- A row has one writer. -/
theorem Store.Pending.writer_eq (h : s.Pending updates) (ht : updates t = some (k, f))
    (ht' : updates t' = some (k, g)) : t = t' := by
  have heq := (h.held ht).symm.trans (h.held ht')
  exact (Prod.mk.inj (Option.some.inj heq)).1

theorem Store.Pending.committed_commit (h : s.Pending updates) (ht : updates t = some (k, f)) :
    (s.commit t).committed k = f (s.committed k) :=
  read_of_held (h.held ht)

theorem Store.Pending.committed_commit_of_ne (h : s.Pending updates)
    (ht : ∀ f, updates t ≠ some (k, f)) : (s.commit t).committed k = s.committed k := by
  apply committed_commit_of_not_held
  intro v hv
  obtain ⟨f, hf, -⟩ := (h k t v).mp hv
  exact ht f hf

theorem Store.Pending.read (h : s.Pending updates) (ht : updates t = none) (k : κ) :
    s.read t k = s.committed k := by
  apply h.committed_commit_of_ne
  intro f hf
  rw [ht] at hf
  cases hf

theorem Store.Pending.rollback (h : s.Pending updates) (t : τ) :
    (s.rollback t).Pending (Function.update updates t none) := by
  intro k t' v
  rw [held_rollback, h k t' v]
  by_cases ht : t' = t
  · rw [ht, Function.update_self]
    constructor
    · exact fun h => absurd rfl h.2
    · rintro ⟨f, hf, -⟩
      cases hf
  · rw [Function.update_of_ne ht]
    exact and_iff_left ht

theorem Store.Pending.commit (h : s.Pending updates) (t : τ) :
    (s.commit t).Pending (Function.update updates t none) := by
  intro k t' v
  rw [held_commit, h.rollback t k t' v]
  refine exists_congr fun f => and_congr_right fun hf => ?_
  have ht : t' ≠ t := by
    rintro rfl
    rw [Function.update_self] at hf
    cases hf
  rw [Function.update_of_ne ht] at hf
  rw [h.committed_commit_of_ne]
  · exact Iff.rfl
  · intro g hg
    exact ht (h.writer_eq hf hg)

/-! Each transaction is the work of a call, whose state tells its update. -/

variable {γ : Type*} {update : γ → Option (κ × (ν → ν))}

def updatesOf (update : γ → Option (κ × (ν → ν))) (calls : τ → Option γ) (t : τ) :
    Option (κ × (ν → ν)) := (calls t).bind update

theorem updatesOf_update (calls : τ → Option γ) (t : τ) (call : γ) :
    updatesOf update (Function.update calls t (some call)) =
      Function.update (updatesOf update calls) t (update call) := by
  funext t'
  by_cases h : t' = t
  · rw [h, updatesOf, Function.update_self, Function.update_self, Option.bind_some]
  · rw [updatesOf, Function.update_of_ne h, Function.update_of_ne h]
    rfl

/-- What holds of the calls after one of them has moved. -/
theorem forall_update {P : τ → γ → Prop} {calls : τ → Option γ} {call : γ} (hmoved : P t call)
    (hothers : ∀ t', t' ≠ t → ∀ c, calls t' = some c → P t' c) :
    ∀ t' c, Function.update calls t (some call) t' = some c → P t' c := by
  intro t' c h
  by_cases ht : t' = t
  · rw [ht, Function.update_self] at h
    rw [ht, ← Option.some.inj h]
    exact hmoved
  · rw [Function.update_of_ne ht] at h
    exact hothers t' ht c h

variable [DecidableEq κ]

/-- `none` where another transaction holds the row: the writer has to wait. -/
def Store.write (s : Store τ κ ν) (t : τ) (k : κ) (f : ν → ν) : Option (Store τ κ ν) :=
  match s.held k with
  | some (t', v) =>
    if t' = t then some { s with held := Function.update s.held k (some (t, f v)) } else none
  | none => some { s with held := Function.update s.held k (some (t, f (s.committed k))) }

theorem write_eq_some_iff : s.write t k f = some u ↔
    (∀ t' v, s.held k = some (t', v) → t' = t) ∧
      u = { s with held := Function.update s.held k (some (t, f (s.read t k))) } := by
  rw [Store.write, Store.read]
  rcases s.held k with _ | ⟨t', v⟩
  · simp only [Option.some.injEq, reduceCtorEq, IsEmpty.forall_iff, implies_true, true_and]
    exact eq_comm
  · by_cases ht : t' = t
    · simp only [if_pos ht, Option.some.injEq, Prod.mk.injEq]
      constructor
      · rintro rfl
        exact ⟨fun _ _ h => h.1 ▸ ht, rfl⟩
      · exact fun h => h.2.symm
    · simp only [if_neg ht, reduceCtorEq, false_iff, not_and]
      intro h
      exact absurd (h t' v rfl) ht

theorem committed_write (h : s.write t k f = some u) : u.committed = s.committed := by
  rw [write_eq_some_iff] at h
  rw [h.2]

/-- A write leaves the locks of the others alone. -/
theorem held_write_of_ne (h : s.write t k f = some u) (ht : t' ≠ t) {k' : κ} :
    u.held k' = some (t', v) ↔ s.held k' = some (t', v) := by
  rw [write_eq_some_iff] at h
  obtain ⟨hlock, rfl⟩ := h
  dsimp only
  by_cases hk : k' = k
  · rw [hk, Function.update_self]
    constructor
    · intro heq
      exact absurd (Prod.mk.inj (Option.some.inj heq)).1.symm ht
    · intro heq
      exact absurd (hlock t' v heq) ht
  · rw [Function.update_of_ne hk]

theorem held_write_of_ne_row (h : s.write t k f = some u) {k' : κ} (hk : k' ≠ k) :
    u.held k' = s.held k' := by
  rw [write_eq_some_iff] at h
  rw [h.2]
  exact Function.update_of_ne hk _ _

theorem held_write_self (h : s.write t k f = some u) : u.held k = some (t, f (s.read t k)) := by
  rw [write_eq_some_iff] at h
  rw [h.2]
  exact Function.update_self _ _ _

theorem Store.Pending.write (h : s.Pending updates) (ht : updates t = none)
    (hw : s.write t k f = some u) : u.Pending (Function.update updates t (some (k, f))) := by
  rw [write_eq_some_iff] at hw
  obtain ⟨hlock, rfl⟩ := hw
  have hfree : ∀ t' g, updates t' ≠ some (k, g) := by
    intro t' g hg
    obtain rfl := hlock t' _ (h.held hg)
    rw [ht] at hg
    cases hg
  intro k' t' v
  dsimp only
  rw [h.read ht k]
  by_cases hk : k' = k
  · rw [hk, Function.update_self]
    by_cases htt : t' = t
    · rw [htt, Function.update_self]
      simp only [Option.some.injEq, Prod.mk.injEq, true_and, exists_eq_left']
      exact eq_comm
    · rw [Function.update_of_ne htt]
      constructor
      · intro heq
        exact absurd (Prod.mk.inj (Option.some.inj heq)).1.symm htt
      · rintro ⟨g, hg, -⟩
        exact absurd hg (hfree t' g)
  · rw [Function.update_of_ne hk, h k' t' v]
    by_cases htt : t' = t
    · rw [htt, Function.update_self, ht]
      constructor
      · rintro ⟨g, hg, -⟩
        cases hg
      · rintro ⟨g, hg, -⟩
        exact absurd (Prod.mk.inj (Option.some.inj hg)).1.symm hk
    · rw [Function.update_of_ne htt]

end ReadCommitted
