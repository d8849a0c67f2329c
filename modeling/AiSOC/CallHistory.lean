import Mathlib.Data.List.Induction

/-! # Histories of calls

What is said of every call of a history may depend on the calls before it. -/
namespace CallHistory

variable {α : Type*} {P Q : List α → α → Prop} {calls before : List α} {c : α}

def EachCall (P : List α → α → Prop) (calls : List α) : Prop :=
  ∀ before c after, calls = before ++ c :: after → P before c

theorem eachCall_nil (P : List α → α → Prop) : EachCall P [] := by
  intro before c after heq
  exact absurd heq.symm (List.append_ne_nil_of_right_ne_nil before (List.cons_ne_nil c after))

theorem eachCall_append_singleton :
    EachCall P (before ++ [c]) ↔ EachCall P before ∧ P before c := by
  constructor
  · intro h
    refine ⟨?_, h before c [] rfl⟩
    rintro front d rest rfl
    exact h front d (rest ++ [c]) (by simp)
  · rintro ⟨hbefore, hlast⟩ front d rest heq
    rcases List.eq_nil_or_concat rest with rfl | ⟨rest, e, rfl⟩
    · obtain ⟨rfl, hc⟩ := List.append_inj' heq rfl
      exact (List.cons.inj hc).1 ▸ hlast
    · apply hbefore front d rest
      rw [List.concat_eq_append, ← List.cons_append, ← List.append_assoc] at heq
      exact (List.append_inj' heq rfl).1

/-- Two conditions hold of the same histories if they agree on each call after a history of which
both hold. -/
theorem eachCall_congr
    (h : ∀ before c, EachCall P before → EachCall Q before → (P before c ↔ Q before c)) :
    EachCall P calls ↔ EachCall Q calls := by
  induction calls using List.reverseRecOn with
  | nil => exact iff_of_true (eachCall_nil P) (eachCall_nil Q)
  | append_singleton before c ih =>
    rw [eachCall_append_singleton, eachCall_append_singleton]
    constructor
    · rintro ⟨hbefore, hlast⟩
      exact ⟨ih.mp hbefore, (h before c hbefore (ih.mp hbefore)).mp hlast⟩
    · rintro ⟨hbefore, hlast⟩
      exact ⟨ih.mpr hbefore, (h before c (ih.mpr hbefore) hbefore).mpr hlast⟩

end CallHistory
