import Mathlib.Logic.Relation

/-! # Event-driven transition systems

A step is a partial function of a state and an event: `none` means that the event is not
enabled. Runs may be restricted to the steps that meet a guard, which is how the
assumptions of a safety result are stated: on the steps, never on the states reached. -/
namespace TransitionSystem

structure System (σ ε : Type*) where
  start : σ → Prop
  next : σ → ε → Option σ

variable {σ ε : Type*} {M : System σ ε} {G H : σ → ε → Prop}

/-- The guard of a run that is not restricted. -/
def anyStep (_ : σ) (_ : ε) : Prop := True

/-- States reached by runs whose steps all meet the guard. -/
inductive Reachable (M : System σ ε) (G : σ → ε → Prop) : σ → Prop where
  | start {s} : M.start s → Reachable M G s
  | step {s e t} : Reachable M G s → G s e → M.next s e = some t → Reachable M G t

/-- An invariant is established by the start states and kept by every guarded step. -/
theorem Reachable.invariant {P : σ → Prop} (hstart : ∀ s, M.start s → P s)
    (hstep : ∀ s e t, P s → G s e → M.next s e = some t → P t) {s : σ}
    (h : Reachable M G s) : P s := by
  induction h with
  | start h => exact hstart _ h
  | step _ hg hn ih => exact hstep _ _ _ ih hg hn

/-- Executable runs: the events are consumed from the left. -/
def runTrace (M : System σ ε) : σ → List ε → Option σ
  | s, [] => some s
  | s, e :: es => (M.next s e).bind fun t => runTrace M t es

/-- The guard holds at every step of the run over `es`. -/
def GuardedTrace (M : System σ ε) (G : σ → ε → Prop) : σ → List ε → Prop
  | _, [] => True
  | s, e :: es => G s e ∧ ∀ t, M.next s e = some t → GuardedTrace M G t es

instance GuardedTrace.decide [∀ s e, Decidable (G s e)] :
    (s : σ) → (es : List ε) → Decidable (GuardedTrace M G s es)
  | _, [] => isTrue trivial
  | s, e :: es =>
    match h : M.next s e with
    | none => decidable_of_iff (G s e) ⟨fun hg => ⟨hg, fun t ht => by rw [h] at ht; cases ht⟩,
        And.left⟩
    | some t =>
      have := GuardedTrace.decide t es
      decidable_of_iff (G s e ∧ GuardedTrace M G t es)
        ⟨fun hg => ⟨hg.1, fun u hu => Option.some.inj (h.symm.trans hu) ▸ hg.2⟩,
          fun hg => ⟨hg.1, hg.2 t h⟩⟩

theorem anyStep_guarded (es : List ε) (s : σ) : GuardedTrace M anyStep s es := by
  induction es generalizing s with
  | nil => trivial
  | cons e es ih => exact ⟨trivial, fun t _ => ih t⟩

/-- The guard at a step whose outcome is known, then at the rest of the run. -/
theorem guardedTrace_cons {e : ε} {es : List ε} {s t : σ} (hg : G s e)
    (hnext : M.next s e = some t) (h : GuardedTrace M G t es) : GuardedTrace M G s (e :: es) := by
  refine ⟨hg, ?_⟩
  intro u hu
  obtain rfl := Option.some.inj (hnext.symm.trans hu)
  exact h

theorem Reachable.runTrace {es : List ε} {s t : σ} (h : Reachable M G s)
    (hg : GuardedTrace M G s es) (hr : runTrace M s es = some t) : Reachable M G t := by
  induction es generalizing s with
  | nil => exact Option.some.inj hr ▸ h
  | cons e es ih =>
    obtain ⟨u, hu, hr⟩ := Option.bind_eq_some_iff.mp hr
    exact ih (h.step hg.1 hu) (hg.2 u hu) hr

/-- What the events of a run keep, whatever the states in between. -/
theorem runTrace_keeps {P : σ → Prop} {Q : ε → Prop}
    (hstep : ∀ s e t, P s → Q e → M.next s e = some t → P t) {es : List ε} {s t : σ} (hs : P s)
    (hq : ∀ e ∈ es, Q e) (hr : runTrace M s es = some t) : P t := by
  induction es generalizing s with
  | nil => exact Option.some.inj hr ▸ hs
  | cons e es ih =>
    obtain ⟨u, hu, hr⟩ := Option.bind_eq_some_iff.mp hr
    exact ih (hstep s e u hs (hq e List.mem_cons_self) hu)
      (fun x hx => hq x (List.mem_cons_of_mem e hx)) hr

/-- What the guard gives at every state where an invariant of it holds, it gives along runs. -/
theorem guardedTrace_imp {I : σ → Prop}
    (hstep : ∀ s e t, I s → G s e → M.next s e = some t → I t)
    (h : ∀ s e, I s → G s e → H s e) {es : List ε} {s : σ} (hs : I s)
    (hg : GuardedTrace M G s es) : GuardedTrace M H s es := by
  induction es generalizing s with
  | nil => trivial
  | cons e es ih =>
    exact ⟨h s e hs hg.1, fun t hn => ih (hstep s e t hs hg.1 hn) (hg.2 t hn)⟩

/-- Two guards that agree wherever an invariant of the first holds along the same runs. -/
theorem guardedTrace_congr {I : σ → Prop}
    (hstep : ∀ s e t, I s → G s e → M.next s e = some t → I t)
    (h : ∀ s e, I s → (G s e ↔ H s e)) {es : List ε} {s : σ} (hs : I s) :
    GuardedTrace M G s es ↔ GuardedTrace M H s es :=
  ⟨guardedTrace_imp hstep (fun s e hi => (h s e hi).mp) hs,
    guardedTrace_imp (fun s e t hi hg => hstep s e t hi ((h s e hi).mpr hg))
      (fun s e hi => (h s e hi).mpr) hs⟩

/-- A condition on the events alone can be added to the guard of a run. -/
theorem GuardedTrace.and_events {Q : ε → Prop} {es : List ε} {s : σ}
    (hg : GuardedTrace M G s es) (hq : ∀ e ∈ es, Q e) :
    GuardedTrace M (fun s e => Q e ∧ G s e) s es := by
  induction es generalizing s with
  | nil => trivial
  | cons e es ih =>
    exact ⟨⟨hq e List.mem_cons_self, hg.1⟩, fun t hn =>
      ih (hg.2 t hn) fun x hx => hq x (List.mem_cons_of_mem e hx)⟩

theorem guardedTrace_and {es : List ε} {s : σ} :
    GuardedTrace M (fun s e => G s e ∧ H s e) s es ↔
      GuardedTrace M G s es ∧ GuardedTrace M H s es := by
  induction es generalizing s with
  | nil => exact (and_iff_left trivial).symm
  | cons e es ih =>
    simp only [GuardedTrace, ih, imp_and, forall_and]
    exact and_and_and_comm

/-- The guard holds at each step of the run: after what comes before it. -/
theorem guardedTrace_iff_forall {es : List ε} {s : σ} :
    GuardedTrace M G s es ↔ ∀ before e after, es = before ++ e :: after →
      ∀ t, TransitionSystem.runTrace M s before = some t → G t e := by
  induction es generalizing s with
  | nil =>
    refine iff_of_true trivial ?_
    intro before e after h
    exact absurd h.symm (List.append_ne_nil_of_right_ne_nil _ (List.cons_ne_nil _ _))
  | cons x es ih =>
    constructor
    · rintro ⟨hx, hes⟩ before e after h t ht
      cases before with
      | nil =>
        obtain ⟨rfl, -⟩ := List.cons.inj h
        exact Option.some.inj ht ▸ hx
      | cons b before =>
        obtain ⟨rfl, rest⟩ := List.cons.inj h
        obtain ⟨u, hu, ht⟩ := Option.bind_eq_some_iff.mp ht
        exact ih.mp (hes u hu) before e after rest t ht
    · intro h
      refine ⟨h [] x es rfl s rfl, ?_⟩
      intro u hu
      refine ih.mpr ?_
      intro before e after heq t ht
      refine h (x :: before) e after ?_ t ?_
      · rw [heq, List.cons_append]
      · exact Option.bind_eq_some_iff.mpr ⟨u, hu, ht⟩

/-- Where, under an invariant, a step keeps a property and leads to it exactly when it meets the
guard, a run meets the guard exactly when it ends with the property. -/
theorem guardedTrace_iff {P I : σ → Prop}
    (hkeep : ∀ s e t, I s → M.next s e = some t → I t)
    (hstep : ∀ s e t, I s → M.next s e = some t → (P t ↔ P s ∧ G s e))
    {es : List ε} {s t : σ} (hs : I s) (hr : runTrace M s es = some t) :
    P t ↔ P s ∧ GuardedTrace M G s es := by
  induction es generalizing s with
  | nil =>
    obtain rfl := Option.some.inj hr
    exact (and_iff_left trivial).symm
  | cons e es ih =>
    obtain ⟨u, hu, hr⟩ := Option.bind_eq_some_iff.mp hr
    have hcons : GuardedTrace M G s (e :: es) ↔ G s e ∧ GuardedTrace M G u es := by
      constructor
      · exact fun h => ⟨h.1, h.2 u hu⟩
      · exact fun h => guardedTrace_cons h.1 hu h.2
    rw [ih (hkeep s e u hs hu) hr, hstep s e u hs hu, hcons, and_assoc]

end TransitionSystem
