import Mathlib.Logic.Basic

/-! # Steps that can fail

When a program of several steps returns, and when a whole run of one step over a list does. -/
namespace FallibleRuns

variable {ε α β σ : Type} {x : Except ε α} {f : α → Except ε β}

def Returns (x : Except ε α) : Prop := ∃ a, x = .ok a

theorem bind_eq_ok {b : β} : (x >>= f) = .ok b ↔ ∃ a, x = .ok a ∧ f a = .ok b := by
  cases x with
  | error e => exact iff_of_false nofun fun ⟨_, h, _⟩ => nomatch h
  | ok a =>
    refine ⟨fun h => ⟨a, rfl, h⟩, ?_⟩
    rintro ⟨a', ha, h⟩
    exact Except.ok.inj ha ▸ h

theorem returns_bind : Returns (x >>= f) ↔ ∃ a, x = .ok a ∧ Returns (f a) := by
  constructor
  · rintro ⟨b, h⟩
    obtain ⟨a, ha, hb⟩ := bind_eq_ok.mp h
    exact ⟨a, ha, b, hb⟩
  · rintro ⟨a, ha, b, hb⟩
    exact ⟨b, bind_eq_ok.mpr ⟨a, ha, hb⟩⟩

/-- If it does not depend on the result of the first step whether the rest returns. -/
theorem returns_bind_and {Q : Prop} (h : ∀ a, x = .ok a → (Returns (f a) ↔ Q)) :
    Returns (x >>= f) ↔ Returns x ∧ Q := by
  rw [returns_bind]
  constructor
  · rintro ⟨a, ha, hf⟩
    exact ⟨⟨a, ha⟩, (h a ha).mp hf⟩
  · rintro ⟨⟨a, ha⟩, hQ⟩
    exact ⟨a, ha, (h a ha).mpr hQ⟩

theorem returns_pure (a : α) : Returns (.ok a : Except ε α) := ⟨a, rfl⟩

theorem not_returns_error (e : ε) : ¬ Returns (.error e : Except ε α) := nofun

theorem returns_map {g : α → β} : Returns (x.map g) ↔ Returns x := by
  cases x with
  | error e => exact iff_of_false nofun nofun
  | ok a => exact iff_of_true ⟨_, rfl⟩ ⟨_, rfl⟩

/-- A run returns if each step does in the state that the steps before it lead to. -/
theorem returns_foldlM {step : σ → α → Except ε σ} {P : σ → α → Prop}
    (hstep : ∀ s a, Returns (step s a) ↔ P s a) (s : σ) (as : List α) :
    Returns (as.foldlM step s) ↔
      ∀ before a after s', as = before ++ a :: after → before.foldlM step s = .ok s' → P s' a := by
  induction as generalizing s with
  | nil =>
    refine iff_of_true ⟨s, rfl⟩ ?_
    intro before a after s' heq
    simp at heq
  | cons a as ih =>
    rw [List.foldlM_cons, returns_bind]
    constructor
    · rintro ⟨t, ht, hrest⟩ before b after s' heq hbefore
      cases before with
      | nil =>
        obtain ⟨rfl, rfl⟩ := List.cons.inj heq
        obtain rfl := Except.ok.inj hbefore
        exact (hstep _ _).mp ⟨t, ht⟩
      | cons c before =>
        obtain ⟨rfl, rfl⟩ := List.cons.inj heq
        rw [List.foldlM_cons] at hbefore
        obtain ⟨t', ht', hbefore⟩ := bind_eq_ok.mp hbefore
        obtain rfl := Except.ok.inj (ht.symm.trans ht')
        exact (ih t).mp hrest before b after s' rfl hbefore
    · intro h
      obtain ⟨t, ht⟩ := (hstep s a).mpr (h [] a as s rfl rfl)
      refine ⟨t, ht, (ih t).mpr ?_⟩
      intro before b after s' heq hbefore
      refine h (a :: before) b after s' (by rw [heq]; rfl) ?_
      rw [List.foldlM_cons]
      exact bind_eq_ok.mpr ⟨t, ht, hbefore⟩

end FallibleRuns
