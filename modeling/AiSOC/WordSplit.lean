import Mathlib.Data.List.DropRight
import Mathlib.Data.List.TakeWhile

/-! # Words between separators

A text is split into its words at the elements that separate, with any number of them between two
words and at the ends. Joined with one separator between them, the words stay the same, and two
texts with the same words are joined to the same text. -/
namespace WordSplit

variable {α : Type*}

def words (p : α → Bool) (t : List α) : List (List α) := (t.splitOnP p).filter fun w => !w.isEmpty

/-- The words with one separator between two of them. -/
def joined (p : α → Bool) (s : α) (t : List α) : List α := List.intercalate [s] (words p t)

/-- A word: not empty, and nothing in it separates. -/
def IsWord (p : α → Bool) (w : List α) : Prop := w ≠ [] ∧ ∀ c ∈ w, p c = false

instance (p : α → Bool) (w : List α) : Decidable (IsWord p w) :=
  decidable_of_iff (w.isEmpty = false ∧ (w.all fun c => !p c) = true) (by simp [IsWord])

variable {p : α → Bool} {s c : α} {a b t u w rest : List α} {ws : List (List α)}

theorem words_nil : words p [] = [] := by
  rw [words, List.splitOnP_nil]
  rfl

theorem words_append_cons (hs : p s = true) : words p (a ++ s :: b) = words p a ++ words p b := by
  rw [words, List.splitOnP_append_cons a b hs, List.filter_append]
  rfl

theorem words_cons_separator (hs : p s = true) : words p (s :: b) = words p b := by
  have h := @words_append_cons _ p s [] b hs
  rwa [words_nil, List.nil_append] at h

theorem words_append_separator (hs : p s = true) : words p (a ++ [s]) = words p a := by
  rw [words_append_cons hs, words_nil, List.append_nil]

theorem words_append_of_head (hb : b.head? = some s) (hs : p s = true) :
    words p (a ++ b) = words p a ++ words p b := by
  obtain ⟨c, rfl⟩ := List.head?_eq_some_iff.mp hb
  rw [words_append_cons hs, words_cons_separator hs]

theorem words_append_of_last (ha : a.getLast? = some s) (hs : p s = true) :
    words p (a ++ b) = words p a ++ words p b := by
  obtain ⟨c, rfl⟩ := List.getLast?_eq_some_iff.mp ha
  rw [List.append_assoc, List.singleton_append, words_append_cons hs, words_append_separator hs]

theorem IsWord.words (h : IsWord p w) : words p w = [w] := by
  rw [WordSplit.words, List.splitOnP_eq_singleton h.2, List.filter_cons_of_pos, List.filter_nil]
  cases w with
  | nil => exact absurd rfl h.1
  | cons c w => rfl

/-- A word ends at a separator or with the text. -/
theorem IsWord.words_append (h : IsWord p w) (hrest : ∀ c ∈ rest.head?, p c = true) :
    WordSplit.words p (w ++ rest) = w :: WordSplit.words p rest := by
  cases rest with
  | nil => rw [List.append_nil, h.words, words_nil]
  | cons c rest =>
    have hc : p c = true := hrest c rfl
    rw [words_append_cons hc, h.words, words_cons_separator hc, List.singleton_append]

theorem words_dropWhile (t : List α) : words p (t.dropWhile p) = words p t := by
  induction t with
  | nil => rfl
  | cons c t ih =>
    by_cases hc : p c = true
    · rw [List.dropWhile_cons_of_pos hc, ih, words_cons_separator hc]
    · rw [List.dropWhile_cons_of_neg hc]

/-- Every text begins with its first word, after separators. -/
theorem exists_first (h : t.dropWhile p ≠ []) : ∃ w rest, t.dropWhile p = w ++ rest ∧
    IsWord p w ∧ ∀ c ∈ rest.head?, p c = true := by
  set u := t.dropWhile p with hu
  refine ⟨u.takeWhile (!p ·), u.dropWhile (!p ·), (List.takeWhile_append_dropWhile).symm,
    ⟨?_, ?_⟩, ?_⟩
  · have hhead := List.head?_dropWhile_not p t
    rw [← hu] at hhead
    cases hcase : u with
    | nil => exact absurd hcase h
    | cons c u =>
      rw [hcase] at hhead
      rw [List.takeWhile_cons_of_pos (by simpa using hhead)]
      exact List.cons_ne_nil c _
  · intro c hc
    simpa using List.mem_takeWhile_imp hc
  · intro c hc
    have hhead := List.head?_dropWhile_not (!p ·) u
    rw [Option.mem_def.mp hc] at hhead
    simpa using hhead

theorem words_eq_nil : words p t = [] ↔ ∀ c ∈ t, p c = true := by
  rw [← words_dropWhile, ← List.dropWhile_eq_nil_iff]
  constructor
  · intro h
    by_contra hne
    obtain ⟨w, rest, heq, hw, hrest⟩ := exists_first hne
    rw [heq, hw.words_append hrest] at h
    exact List.cons_ne_nil _ _ h
  · intro h
    rw [h, words_nil]

theorem words_eq_cons : words p t = w :: ws ↔ ∃ rest, t.dropWhile p = w ++ rest ∧ IsWord p w ∧
    (∀ c ∈ rest.head?, p c = true) ∧ words p rest = ws := by
  rw [← words_dropWhile]
  constructor
  · intro h
    have hne : t.dropWhile p ≠ [] := by
      intro hnil
      rw [hnil, words_nil] at h
      exact List.cons_ne_nil _ _ h.symm
    obtain ⟨w', rest, heq, hw, hrest⟩ := exists_first hne
    rw [heq, hw.words_append hrest] at h
    obtain ⟨rfl, rfl⟩ := List.cons.inj h
    exact ⟨rest, heq, hw, hrest, rfl⟩
  · rintro ⟨rest, heq, hw, hrest, rfl⟩
    rw [heq, hw.words_append hrest]

theorem isWord_of_mem (h : w ∈ words p t) : IsWord p w := by
  obtain ⟨ws, hws⟩ : ∃ ws, words p t = ws := ⟨_, rfl⟩
  rw [hws] at h
  induction ws generalizing t with
  | nil => cases h
  | cons v vs ih =>
    obtain ⟨rest, -, hv, -, hrest⟩ := words_eq_cons.mp hws
    rcases List.mem_cons.mp h with rfl | h
    · exact hv
    · exact ih h hrest

/-! ## Joining -/

theorem words_intercalate (hs : p s = true) (h : ∀ w ∈ ws, IsWord p w) :
    words p (List.intercalate [s] ws) = ws := by
  induction ws with
  | nil => exact words_nil
  | cons w ws ih =>
    obtain ⟨hw, hws⟩ := List.forall_mem_cons.mp h
    cases ws with
    | nil => rw [List.intercalate_singleton, hw.words]
    | cons v vs =>
      rw [List.intercalate_cons_cons, List.append_assoc, List.singleton_append,
        words_append_cons hs, hw.words, ih hws, List.singleton_append]

theorem words_joined (hs : p s = true) (t : List α) : words p (joined p s t) = words p t :=
  words_intercalate hs fun _ => isWord_of_mem

theorem joined_eq_iff (hs : p s = true) : joined p s t = joined p s u ↔ words p t = words p u := by
  constructor
  · intro h
    rw [← words_joined hs t, h, words_joined hs u]
  · intro h
    rw [joined, h, joined]

/-! ## A single word -/

theorem words_eq_singleton : words p t = [w] ↔ IsWord p w ∧ ∃ rest,
    t.dropWhile p = w ++ rest ∧ ∀ c ∈ rest, p c = true := by
  rw [words_eq_cons]
  constructor
  · rintro ⟨rest, heq, hw, -, hrest⟩
    exact ⟨hw, rest, heq, words_eq_nil.mp hrest⟩
  · rintro ⟨hw, rest, heq, hrest⟩
    exact ⟨rest, heq, hw, fun c hc => hrest c (List.mem_of_mem_head? hc), words_eq_nil.mpr hrest⟩

theorem rdropWhile_append (hw : IsWord p w) (hrest : ∀ c ∈ rest, p c = true) :
    (w ++ rest).rdropWhile p = w := by
  induction rest using List.reverseRecOn with
  | nil =>
    rw [List.append_nil, List.rdropWhile_eq_self_iff]
    intro hne hlast
    rw [hw.2 _ (List.getLast_mem hne)] at hlast
    cases hlast
  | append_singleton rest c ih =>
    rw [← List.append_assoc, List.rdropWhile_concat_pos _ _ _
      (hrest c (List.mem_append_right _ (List.mem_singleton_self c)))]
    exact ih fun d hd => hrest d (List.mem_append_left _ hd)

/-- Without the separators at its ends the text is the word. -/
theorem words_eq_singleton_iff_strip (hw : IsWord p w) :
    words p t = [w] ↔ (t.dropWhile p).rdropWhile p = w := by
  rw [words_eq_singleton]
  constructor
  · rintro ⟨-, rest, heq, hrest⟩
    rw [heq, rdropWhile_append hw hrest]
  · intro h
    refine ⟨hw, (t.dropWhile p).rtakeWhile p, ?_, fun c hc => List.mem_rtakeWhile_imp hc⟩
    rw [← h, List.rdropWhile_append_rtakeWhile]

/-- A text that ends with what is no separator has none behind its last word. -/
theorem words_append_mark (hw : IsWord p w) (hc : p c = false) :
    words p (t ++ [c]) = [w ++ [c]] ↔ t.dropWhile p = w := by
  have hdrop : (t ++ [c]).dropWhile p = t.dropWhile p ++ [c] := by
    rw [List.dropWhile_append]
    split_ifs with hempty
    · rw [List.isEmpty_iff.mp hempty, List.dropWhile_cons_of_neg (by simp [hc]), List.nil_append]
    · rfl
  have hmark : IsWord p (w ++ [c]) := by
    refine ⟨by simp, fun d hd => ?_⟩
    rcases List.mem_append.mp hd with hd | hd
    · exact hw.2 d hd
    · rw [List.mem_singleton.mp hd, hc]
  rw [words_eq_singleton_iff_strip hmark, hdrop, List.rdropWhile_concat_neg _ _ _ (by simp [hc])]
  exact List.append_left_inj [c]

end WordSplit
