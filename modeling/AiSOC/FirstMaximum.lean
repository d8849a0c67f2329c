import Mathlib.Data.List.Induction
import Mathlib.Data.List.Perm.Basic
import Mathlib.Order.WithBot

/-! # The first maximum of a list

A fold that gives up what it has only for something strictly greater ends with the first of the
greatest. Which of them comes first depends on the order. -/
namespace FirstMaximum

variable {α β γ L : Type*} [LinearOrder L]

/-- Elements whose key is `⊥` are passed over. -/
@[grind =]
def step (key : α → WithBot L) (best : Option α) (a : α) : Option α :=
  if best.elim ⊥ key < key a then some a else best

@[grind =]
def firstMax (key : α → WithBot L) (l : List α) : Option α := l.foldl (step key) none

structure IsTop (key : α → WithBot L) (l : List α) (a : α) : Prop where
  mem : a ∈ l
  pos : ⊥ < key a
  le : ∀ b ∈ l, key b ≤ key a

variable {key : α → WithBot L} {l l' : List α} {a b : α}

theorem firstMax_append_singleton :
    firstMax key (l ++ [a]) = step key (firstMax key l) a := by
  rw [firstMax, List.foldl_append]
  rfl

theorem IsTop.perm (h : IsTop key l a) (hperm : l.Perm l') : IsTop key l' a :=
  ⟨hperm.mem_iff.mp h.mem, h.pos, fun b hb => h.le b (hperm.mem_iff.mpr hb)⟩

theorem IsTop.key_eq (ha : IsTop key l a) (hb : IsTop key l b) : key a = key b :=
  le_antisymm (hb.le a ha.mem) (ha.le b hb.mem)

/-- Nothing is kept where nothing has a key, and otherwise one of the greatest. -/
theorem firstMax_spec (key : α → WithBot L) (l : List α) :
    (firstMax key l = none ∧ ∀ b ∈ l, key b = ⊥) ∨
      ∃ a, firstMax key l = some a ∧ IsTop key l a := by
  induction l using List.reverseRecOn with
  | nil => exact Or.inl ⟨rfl, fun _ h => absurd h List.not_mem_nil⟩
  | append_singleton l b ih =>
    rw [firstMax_append_singleton, step]
    rcases ih with ⟨hnone, hbot⟩ | ⟨a, hsome, htop⟩
    · rw [hnone, Option.elim_none]
      by_cases hb : ⊥ < key b
      · rw [if_pos hb]
        refine Or.inr ⟨b, rfl, List.mem_append_right _ List.mem_cons_self, hb, ?_⟩
        intro c hc
        rcases List.mem_append.mp hc with hold | hnew
        · exact (hbot c hold).trans_le bot_le
        · exact (congrArg key (List.mem_singleton.mp hnew)).le
      · rw [if_neg hb]
        refine Or.inl ⟨rfl, ?_⟩
        intro c hc
        rcases List.mem_append.mp hc with hold | hnew
        · exact hbot c hold
        · rw [List.mem_singleton.mp hnew]
          exact not_bot_lt_iff.mp hb
    · rw [hsome, Option.elim_some]
      by_cases hb : key a < key b
      · rw [if_pos hb]
        refine Or.inr ⟨b, rfl, List.mem_append_right _ List.mem_cons_self, bot_le.trans_lt hb, ?_⟩
        intro c hc
        rcases List.mem_append.mp hc with hold | hnew
        · exact (htop.le c hold).trans hb.le
        · exact (congrArg key (List.mem_singleton.mp hnew)).le
      · rw [if_neg hb]
        refine Or.inr ⟨a, rfl, List.mem_append_left _ htop.mem, htop.pos, ?_⟩
        intro c hc
        rcases List.mem_append.mp hc with hold | hnew
        · exact htop.le c hold
        · rw [List.mem_singleton.mp hnew]
          exact not_lt.mp hb

/-- Later elements that are not greater change nothing. -/
theorem foldl_step_of_le (h : ∀ b ∈ l, key b ≤ key a) :
    l.foldl (step key) (some a) = some a := by
  induction l with
  | nil => rfl
  | cons b l ih =>
    obtain ⟨hb, hl⟩ := List.forall_mem_cons.mp h
    rw [List.foldl_cons, step, Option.elim_some, if_neg hb.not_gt]
    exact ih hl

theorem firstMax_cons (h : IsTop key (a :: l) a) : firstMax key (a :: l) = some a := by
  rw [firstMax, List.foldl_cons, step, Option.elim_none, if_pos h.pos]
  exact foldl_step_of_le fun b hb => h.le b (List.mem_cons_of_mem _ hb)

/-- Each of the greatest is kept in some order. -/
theorem IsTop.exists_perm (h : IsTop key l a) : ∃ rest, (a :: rest).Perm l ∧
    IsTop key (a :: rest) a := by
  obtain ⟨before, after, rfl⟩ := List.append_of_mem h.mem
  have hperm : (a :: (before ++ after)).Perm (before ++ a :: after) := List.perm_middle.symm
  exact ⟨before ++ after, hperm, h.perm hperm.symm⟩

def TopsAgree (key : α → WithBot L) (f : α → γ) (l : List α) : Prop :=
  ∀ a b, IsTop key l a → IsTop key l b → f a = f b

/-- What is seen of the first maximum is the same in every order exactly if it is the same for
all the greatest. -/
theorem forall_perm_iff (view : Option α → γ) :
    (∀ l₁ l₂ : List α, l₁.Perm l → l₂.Perm l →
      view (firstMax key l₁) = view (firstMax key l₂)) ↔
      TopsAgree key (fun a => view (some a)) l := by
  constructor
  · intro h a b ha hb
    obtain ⟨u, hu, hau⟩ := ha.exists_perm
    obtain ⟨v, hv, hbv⟩ := hb.exists_perm
    have heq := h _ _ hu hv
    rwa [firstMax_cons hau, firstMax_cons hbv] at heq
  · intro h l₁ l₂ h₁ h₂
    rcases firstMax_spec key l₁ with ⟨hnone, hbot⟩ | ⟨a, hsome, ha⟩
    · rcases firstMax_spec key l₂ with ⟨hnone', -⟩ | ⟨b, -, hb⟩
      · rw [hnone, hnone']
      · have hmem := (h₂.trans h₁.symm).mem_iff.mp hb.mem
        exact absurd (hbot b hmem) hb.pos.ne'
    · rcases firstMax_spec key l₂ with ⟨-, hbot⟩ | ⟨b, hsome', hb⟩
      · have hmem := (h₁.trans h₂.symm).mem_iff.mp ha.mem
        exact absurd (hbot a hmem) ha.pos.ne'
      · rw [hsome, hsome']
        exact h a b (ha.perm h₁) (hb.perm h₂)

theorem step_pos {best : Option α} (hbest : ∀ b ∈ best, ⊥ < key b) (a : α) :
    ∀ b ∈ step key best a, ⊥ < key b := by
  intro b hb
  rw [step] at hb
  split_ifs at hb with h
  · exact Option.some.inj hb ▸ bot_le.trans_lt h
  · exact hbest b hb

/-- A fold that follows another one wherever an invariant of the other holds. -/
theorem foldl_hom_of_invariant {δ : Type*} {g : δ → α → δ} {g' : γ → α → γ} {view : δ → γ}
    {P : δ → Prop} {s : δ} (hs : P s) (hstep : ∀ s a, P s → P (g s a))
    (hview : ∀ s a, P s → g' (view s) a = view (g s a)) (l : List α) :
    l.foldl g' (view s) = view (l.foldl g s) := by
  induction l generalizing s with
  | nil => rfl
  | cons a l ih =>
    rw [List.foldl_cons, List.foldl_cons, hview s a hs]
    exact ih (hstep s a hs)

/-- A fold that keeps a part of its best element. -/
theorem foldl_eq_view {g : γ → α → γ} (view : Option α → γ)
    (h : ∀ best a, (∀ b ∈ best, ⊥ < key b) → g (view best) a = view (step key best a))
    (l : List α) : l.foldl g (view none) = view (firstMax key l) := by
  have hnone : ∀ b ∈ (none : Option α), ⊥ < key b := fun _ hb => nomatch hb
  exact foldl_hom_of_invariant hnone (fun _ a hbest => step_pos hbest a) h l

/-! ## What the successive maxima leave behind -/

/-- Each new maximum brings what it has, and leaves what is there if it has nothing. -/
@[grind =]
def carryStep (key : α → WithBot L) (f : α → Option β) (s : Option α × Option β) (a : α) :
    Option α × Option β :=
  if s.1.elim ⊥ key < key a then (some a, (f a).or s.2) else s

@[grind =]
def carry (key : α → WithBot L) (f : α → Option β) (l : List α) : Option α × Option β :=
  l.foldl (carryStep key f) (none, none)

variable {f : α → Option β} {v : β}

theorem carry_append_singleton :
    carry key f (l ++ [a]) = carryStep key f (carry key f l) a := by
  rw [carry, List.foldl_append]
  rfl

theorem carryStep_fst {s : Option α × Option β} :
    (carryStep key f s a).1 = step key s.1 a := by
  rw [carryStep, step]
  split_ifs
  · rfl
  · rfl

theorem carry_fst : (carry key f l).1 = firstMax key l := by
  induction l using List.reverseRecOn with
  | nil => rfl
  | append_singleton l a ih =>
    rw [carry_append_singleton, firstMax_append_singleton, carryStep_fst, ih]

/-- A fold that keeps a part of its best element and of what has been left behind. -/
theorem foldl_eq_carry {g : γ → α → γ} (view : Option α × Option β → γ)
    (h : ∀ s a, (∀ b ∈ s.1, ⊥ < key b) → g (view s) a = view (carryStep key f s a))
    (l : List α) : l.foldl g (view (none, none)) = view (carry key f l) := by
  have hnone : ∀ b ∈ (none : Option α), ⊥ < key b := fun _ hb => nomatch hb
  refine foldl_hom_of_invariant (P := fun s => ∀ b ∈ s.1, ⊥ < key b) hnone ?_ h l
  intro s a hs
  rw [carryStep_fst]
  exact step_pos hs a

theorem carry_of_firstMax (h : firstMax key l = some a) (hv : f a = some v) :
    (carry key f l).2 = some v := by
  induction l using List.reverseRecOn with
  | nil => cases h
  | append_singleton l b ih =>
    rw [firstMax_append_singleton, step] at h
    rw [carry_append_singleton, carryStep, carry_fst]
    split_ifs at h ⊢
    · obtain rfl := Option.some.inj h
      rw [hv, Option.some_or]
    · exact ih h

theorem carry_of_forall_none (h : ∀ a ∈ l, f a = none) : (carry key f l).2 = none := by
  induction l using List.reverseRecOn with
  | nil => rfl
  | append_singleton l b ih =>
    have hl : ∀ a ∈ l, f a = none := fun a ha => h a (List.mem_append_left _ ha)
    have hb : f b = none := h b (List.mem_append_right _ List.mem_cons_self)
    rw [carry_append_singleton, carryStep]
    split_ifs
    · rw [hb, Option.none_or]
      exact ih hl
    · exact ih hl

theorem carry_cons (h : IsTop key (a :: l) a) : (carry key f (a :: l)).2 = f a := by
  have hstay : l.foldl (carryStep key f) (some a, f a) = (some a, f a) := by
    have hle : ∀ b ∈ l, key b ≤ key a := fun b hb => h.le b (List.mem_cons_of_mem _ hb)
    clear h
    induction l with
    | nil => rfl
    | cons b l ih =>
      obtain ⟨hb, hl⟩ := List.forall_mem_cons.mp hle
      rw [List.foldl_cons, carryStep, Option.elim_some, if_neg hb.not_gt]
      exact ih hl
  rw [carry, List.foldl_cons, carryStep, Option.elim_none, if_pos h.pos, Option.or_none, hstay]

theorem carry_of_no_key (h : ∀ a ∈ l, key a = ⊥) : (carry key f l).2 = none := by
  induction l using List.reverseRecOn with
  | nil => rfl
  | append_singleton l b ih =>
    have hb : ¬(carry key f l).1.elim ⊥ key < key b := by
      rw [h b (List.mem_append_right _ List.mem_cons_self)]
      exact not_lt_bot
    rw [carry_append_singleton, carryStep, if_neg hb]
    exact ih fun a ha => h a (List.mem_append_left _ ha)

/-- Nobody has anything, or all the greatest have the same. -/
def CarriesTop (key : α → WithBot L) (f : α → Option β) (l : List α) : Prop :=
  (∀ a ∈ l, f a = none) ∨
    (∃ a, IsTop key l a) ∧ ∃ v, ∀ a, IsTop key l a → f a = some v

theorem CarriesTop.carry (h : CarriesTop key f l) (hperm : l'.Perm l) :
    (∀ a ∈ l, f a = none) ∧ (carry key f l').2 = none ∨
      ∃ a v, IsTop key l a ∧ f a = some v ∧ (FirstMaximum.carry key f l').2 = some v := by
  rcases h with hnone | ⟨⟨a, ha⟩, v, hv⟩
  · exact Or.inl ⟨hnone, carry_of_forall_none fun a ha => hnone a (hperm.mem_iff.mp ha)⟩
  · rcases firstMax_spec key l' with ⟨-, hbot⟩ | ⟨b, hsome, hb⟩
    · exact absurd (hbot a (hperm.mem_iff.mpr ha.mem)) ha.pos.ne'
    · have htop := hb.perm hperm
      exact Or.inr ⟨b, v, htop, hv b htop, carry_of_firstMax hsome (hv b htop)⟩

/-- The order does not matter, and something is left if anybody has something. -/
theorem carriesTop_iff : CarriesTop key f l ↔
    (∀ l₁ l₂ : List α, l₁.Perm l → l₂.Perm l → (carry key f l₁).2 = (carry key f l₂).2) ∧
      ∀ l₁ : List α, l₁.Perm l → (carry key f l₁).2 = none → ∀ a ∈ l, f a = none := by
  constructor
  · intro h
    refine ⟨?_, ?_⟩
    · intro l₁ l₂ h₁ h₂
      rcases h.carry h₁ with ⟨hnone, heq⟩ | ⟨a, v, ha, hv, heq⟩
      · rw [heq, carry_of_forall_none fun a ha => hnone a (h₂.mem_iff.mp ha)]
      · rcases h.carry h₂ with ⟨hnone, -⟩ | ⟨b, w, hb, hw, heq'⟩
        · exact absurd (hnone a ha.mem) (hv ▸ Option.some_ne_none v)
        · rcases h with hnone | ⟨-, u, hu⟩
          · exact absurd (hnone a ha.mem) (hv ▸ Option.some_ne_none v)
          · rw [heq, heq', ← hv, ← hw, hu a ha, hu b hb]
    · intro l₁ h₁ hleft
      rcases h.carry h₁ with ⟨hnone, -⟩ | ⟨a, v, -, -, heq⟩
      · exact hnone
      · exact absurd (hleft.symm.trans heq) (Option.some_ne_none v).symm
  · rintro ⟨hsame, hleft⟩
    by_cases hnone : ∀ a ∈ l, f a = none
    · exact Or.inl hnone
    · refine Or.inr ?_
      have htop : ∀ a, IsTop key l a → ∃ v, f a = some v ∧ (carry key f l).2 = some v := by
        intro a ha
        obtain ⟨rest, hperm, hrest⟩ := ha.exists_perm
        have hfirst : (carry key f (a :: rest)).2 = f a := carry_cons hrest
        have hsome : f a ≠ none := fun h => hnone (hleft _ hperm (hfirst.trans h))
        obtain ⟨v, hv⟩ := Option.ne_none_iff_exists'.mp hsome
        exact ⟨v, hv, (hsame l _ (List.Perm.refl l) hperm).trans (hfirst.trans hv)⟩
      rcases firstMax_spec key l with ⟨-, hbot⟩ | ⟨b, -, hb⟩
      · exact absurd (hleft l (List.Perm.refl l) (carry_of_no_key hbot)) hnone
      · obtain ⟨v, -, hv⟩ := htop b hb
        refine ⟨⟨b, hb⟩, v, ?_⟩
        intro a ha
        obtain ⟨w, hw, hcarry⟩ := htop a ha
        rw [hw, ← hcarry, hv]

/-! ## The first that has something -/

def Agree (f : α → Option β) (l : List α) : Prop :=
  ∀ a ∈ l, ∀ b ∈ l, ∀ v ∈ f a, ∀ w ∈ f b, v = w

theorem findSome?_forall_perm_iff :
    (∀ l₁ l₂ : List α, l₁.Perm l → l₂.Perm l → l₁.findSome? f = l₂.findSome? f) ↔
      Agree f l := by
  constructor
  · intro h a ha b hb v hv w hw
    have hfirst : ∀ {c : α} {u : β}, c ∈ l → u ∈ f c → l.findSome? f = some u := by
      intro c u hc hu
      obtain ⟨before, after, rfl⟩ := List.append_of_mem hc
      have hperm : (c :: (before ++ after)).Perm (before ++ c :: after) := List.perm_middle.symm
      rw [h _ _ (List.Perm.refl _) hperm, List.findSome?_cons, Option.mem_def.mp hu]
    exact Option.some.inj ((hfirst ha hv).symm.trans (hfirst hb hw))
  · intro h l₁ l₂ h₁ h₂
    rcases hfind : l₁.findSome? f with - | v
    · symm
      rw [List.findSome?_eq_none_iff] at hfind ⊢
      exact fun a ha => hfind a ((h₂.trans h₁.symm).mem_iff.mp ha)
    · obtain ⟨a, ha, hv⟩ := List.exists_of_findSome?_eq_some hfind
      rcases hfind' : l₂.findSome? f with - | w
      · have hnone := List.findSome?_eq_none_iff.mp hfind' a ((h₁.trans h₂.symm).mem_iff.mp ha)
        exact absurd (hnone.symm.trans hv) (Option.some_ne_none v).symm
      · obtain ⟨b, hb, hw⟩ := List.exists_of_findSome?_eq_some hfind'
        rw [h a (h₁.mem_iff.mp ha) b (h₂.mem_iff.mp hb) v hv w hw]

end FirstMaximum
