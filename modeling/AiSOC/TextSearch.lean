import AiSOC.CodeText

/-! # The first occurrence of a text in another

Where a search finds a piece that stands behind a separator, and what the parts between separators
are. -/
namespace TextSearch

open CodeText (eq_nil_of_prefix_cons)

variable {α : Type*} {p a b t : List α} {c : α}

/-- A piece without `c` that begins a text around `c` is no longer than what is before `c`. -/
theorem prefix_of_prefix_append (hc : c ∉ p) (h : p <+: a ++ c :: b) : p <+: a := by
  rcases List.prefix_or_prefix_of_prefix h (List.prefix_append a (c :: b)) with hp | ⟨rest, rfl⟩
  · exact hp
  · rw [List.prefix_append_right_inj] at h
    rw [List.mem_append, not_or] at hc
    rw [eq_nil_of_prefix_cons hc.2 h, List.append_nil]

/-- Parts joined with a comma and a blank, as parts joined with a comma. -/
theorem intercalate_pair (sep blank : α) (first : List α) (rest : List (List α)) :
    List.intercalate [sep, blank] (first :: rest) =
      List.intercalate [sep] (first :: rest.map (blank :: ·)) := by
  induction rest generalizing first with
  | nil => rfl
  | cons second rest ih =>
    rw [List.intercalate_cons_cons, ih second, List.map_cons, List.intercalate_cons_cons,
      List.intercalate_cons_cons_left, List.append_assoc, List.append_assoc]
    rfl

theorem length_le_intercalate {sep piece : List α} {pieces : List (List α)} (h : piece ∈ pieces) :
    piece.length ≤ (sep.intercalate pieces).length := by
  induction pieces with
  | nil => cases h
  | cons first rest ih =>
    cases rest with
    | nil => rw [List.mem_singleton.mp h, List.intercalate_singleton]
    | cons second rest =>
      rw [List.intercalate_cons_cons, List.length_append, List.length_append]
      rcases List.mem_cons.mp h with rfl | hrest
      · omega
      · have := ih hrest
        omega

variable [DecidableEq α]

/-- The place of the first occurrence. -/
@[grind =]
def find (p : List α) : List α → Option ℕ
  | [] => if p = [] then some 0 else none
  | c :: t => if p <+: c :: t then some 0 else (find p t).map (· + 1)

theorem find_eq_none : find p t = none ↔ ¬ p <:+: t := by
  induction t with
  | nil =>
    rw [find, List.infix_nil]
    split_ifs with h
    · exact ⟨nofun, fun hne => absurd h hne⟩
    · exact ⟨fun _ => h, fun _ => rfl⟩
  | cons c t ih =>
    rw [find, List.infix_cons_iff]
    split_ifs with h
    · exact ⟨nofun, fun hne => absurd (Or.inl h) hne⟩
    · rw [Option.map_eq_none_iff, ih, or_iff_right h]

theorem find_of_prefix (h : p <+: t) : find p t = some 0 := by
  cases t with
  | nil => rw [find, if_pos (List.prefix_nil.mp h)]
  | cons c t => rw [find, if_pos h]

theorem find_spec {i : ℕ} (h : find p t = some i) : p <+: t.drop i := by
  induction t generalizing i with
  | nil =>
    rw [find] at h
    split_ifs at h with hp
    rw [hp]
    exact List.nil_prefix
  | cons c t ih =>
    rw [find] at h
    split_ifs at h with hp
    · cases h
      exact hp
    · obtain ⟨j, hj, rfl⟩ := Option.map_eq_some_iff.mp h
      exact ih hj

/-- A piece that occurs in the beginning of a text is found there. -/
theorem find_le_of_infix (h : p <:+: a) (b : List α) :
    ∃ i ≤ a.length, find p (a ++ b) = some i := by
  induction a with
  | nil =>
    rw [List.infix_nil] at h
    exact ⟨0, le_rfl, find_of_prefix (h ▸ List.nil_prefix)⟩
  | cons d a ih =>
    by_cases hp : p <+: d :: (a ++ b)
    · exact ⟨0, Nat.zero_le _, find_of_prefix hp⟩
    · have hinfix : p <:+: a := by
        rcases List.infix_cons_iff.mp h with hpre | hinfix
        · exact absurd (hpre.trans (List.prefix_append (d :: a) b)) hp
        · exact hinfix
      obtain ⟨i, hi, hfind⟩ := ih hinfix
      refine ⟨i + 1, Nat.succ_le_succ hi, ?_⟩
      rw [List.cons_append, find, if_neg hp, hfind]
      rfl

/-- A piece that stands behind a separator is found there, unless it occurs before. -/
theorem find_behind (hne : p ≠ []) (hc : c ∉ p) (ha : ¬ p <:+: a) :
    find p (a ++ c :: (p ++ b)) = some (a.length + 1) := by
  induction a with
  | nil =>
    have hnot : ¬ p <+: c :: (p ++ b) := fun h => hne (eq_nil_of_prefix_cons hc h)
    rw [List.nil_append, find, if_neg hnot, find_of_prefix (List.prefix_append p b)]
    rfl
  | cons d a ih =>
    rw [List.infix_cons_iff, not_or] at ha
    have hnot : ¬ p <+: d :: (a ++ c :: (p ++ b)) := fun h =>
      ha.1 (prefix_of_prefix_append hc h)
    rw [List.cons_append, find, if_neg hnot, ih ha.2]
    rfl

theorem find_behind_iff (hne : p ≠ []) (hc : c ∉ p) :
    find p (a ++ c :: (p ++ b)) = some (a.length + 1) ↔ ¬ p <:+: a := by
  constructor
  · intro h ha
    obtain ⟨i, hi, hfind⟩ := find_le_of_infix ha (c :: (p ++ b))
    rw [h] at hfind
    have := Option.some.inj hfind
    omega
  · exact find_behind hne hc

/-! ## The parts of a text -/

theorem length_le_of_mem_splitOn {piece : List α} (h : piece ∈ t.splitOn c) :
    piece.length ≤ t.length := by
  have hle := @length_le_intercalate α [c] piece _ h
  rwa [List.intercalate_splitOn] at hle

theorem notMem_of_length_splitOn (h : (t.splitOn c).length ≤ 1) : c ∉ t := by
  intro hmem
  obtain ⟨u, v, rfl⟩ := List.append_of_mem hmem
  have hu := List.length_pos_iff.mpr (List.splitOn_ne_nil c u)
  have hv := List.length_pos_iff.mpr (List.splitOn_ne_nil c v)
  rw [List.splitOn_append_cons_self, List.length_append] at h
  omega

theorem length_splitOn_intercalate (first second : List α) (rest : List (List α)) :
    (([c].intercalate (first :: second :: rest)).splitOn c).length =
      (first.splitOn c).length + (([c].intercalate (second :: rest)).splitOn c).length := by
  rw [List.intercalate_cons_cons, List.append_assoc, List.singleton_append,
    List.splitOn_append_cons_self, List.length_append]

theorem length_le_splitOn_intercalate (pieces : List (List α)) :
    pieces.length ≤ (([c].intercalate pieces).splitOn c).length := by
  induction pieces with
  | nil => exact Nat.zero_le _
  | cons first rest ih =>
    have hfirst := List.length_pos_iff.mpr (List.splitOn_ne_nil c first)
    cases rest with
    | nil =>
      rw [List.intercalate_singleton]
      exact hfirst
    | cons second rest =>
      rw [length_splitOn_intercalate, List.length_cons]
      omega

/-- Joined pieces come apart into as many only if no separator is in them. -/
theorem notMem_of_splitOn_intercalate {pieces : List (List α)}
    (h : (([c].intercalate pieces).splitOn c).length ≤ pieces.length) :
    ∀ piece ∈ pieces, c ∉ piece := by
  induction pieces with
  | nil => nofun
  | cons first rest ih =>
    cases rest with
    | nil =>
      rw [List.intercalate_singleton] at h
      intro piece hpiece
      rw [List.mem_singleton.mp hpiece]
      exact notMem_of_length_splitOn h
    | cons second rest =>
      have hfirst := List.length_pos_iff.mpr (List.splitOn_ne_nil c first)
      have hrest := @length_le_splitOn_intercalate α c _ (second :: rest)
      rw [length_splitOn_intercalate, List.length_cons] at h
      intro piece hpiece
      rcases List.mem_cons.mp hpiece with rfl | hmem
      · exact notMem_of_length_splitOn (by omega)
      · exact ih (by omega) piece hmem

/-- What is left after every occurrence of `p` is cut out; `skip` elements still belong to the last
one that was found. -/
@[grind =]
def removeFrom (p : List α) (skip : ℕ) : List α → List α
  | [] => []
  | c :: t =>
    match skip with
    | skip + 1 => removeFrom p skip t
    | 0 => if p <+: c :: t then removeFrom p (p.length - 1) t else c :: removeFrom p 0 t

@[grind =]
def remove (p : List α) (t : List α) : List α := removeFrom p 0 t

/-- The occurrences of `c` that have no `mark` in front of them. -/
@[grind =]
def countUnmarked (mark c : α) (marked : Bool) : List α → ℕ
  | [] => 0
  | d :: t => (if d = c ∧ marked = false then 1 else 0) + countUnmarked mark c (d = mark) t

theorem count_remove_pair {mark c : α} (h : mark ≠ c) :
    ∀ t : List α, (remove [mark, c] t).count c = countUnmarked mark c false t
  | [] => rfl
  | d :: t => by
    have hunmarked : ∀ e, (e :: removeFrom [mark, c] 0 t).count c =
        (if e = c ∧ false = false then 1 else 0) + (remove [mark, c] t).count c := by
      intro e
      rw [List.count_cons, remove, Nat.add_comm]
      simp only [beq_iff_eq, and_true]
    rw [remove, removeFrom]
    by_cases hpair : [mark, c] <+: d :: t
    · -- the marked occurrence goes together with its mark
      rw [if_pos hpair]
      obtain ⟨rfl, hc⟩ := List.cons_prefix_cons.mp hpair
      cases t with
      | nil => cases List.prefix_nil.mp hc
      | cons e t =>
        obtain ⟨rfl, -⟩ := List.cons_prefix_cons.mp hc
        rw [countUnmarked, countUnmarked, if_neg fun hd => h hd.1, if_neg (by simp), Nat.zero_add,
          Nat.zero_add, decide_eq_false h.symm]
        exact count_remove_pair h t
    · rw [if_neg hpair, hunmarked, count_remove_pair h t, countUnmarked]
      congr 1
      by_cases hd : d = mark
      · subst hd
        cases t with
        | nil => rfl
        | cons e t =>
          have hne : e ≠ c := fun he => hpair (by rw [he]; exact ⟨t, rfl⟩)
          rw [countUnmarked, countUnmarked, if_neg fun he => hne he.1, if_neg fun he => hne he.1]
      · rw [decide_eq_false hd]

end TextSearch
