import AiSOC.FusionEngine

/-! # Concurrent deliveries inside one deduplication window

Any number of `process` calls on alerts of one fingerprint, interleaved at the two Redis
commands. A call that finds no entry treats its alert as new from that moment on; the
commands succeed, and what follows the registration no longer touches the store. -/
namespace DeduplicationWindow

open TransitionSystem (System GuardedTrace runTrace)
open ExpiringStore (Store)
open FusionEngine (UUID RawAlert Engine Outcomes redisKey isDuplicate register process fuse)

variable {E P : Type}

/-- `missed` lies between the `GET` that found nothing and the `SET`. -/
inductive Phase where
  | started
  | missed
  | registered
  | duplicate (original : UUID)
  deriving DecidableEq, Repr

structure Call where
  alert : RawAlert
  phase : Phase
  deriving DecidableEq, Repr

/-- `deadline` is the end of the window that the history stays inside. -/
structure World where
  store : Store String UUID
  now : Nat
  deadline : Nat
  calls : Nat → Option Call

inductive Event where
  | begin (c : Nat) (a : RawAlert)
  | get (c : Nat)
  | set (c : Nat)
  | advance (d : Nat)
  deriving DecidableEq, Repr

def setPhase (w : World) (c : Nat) (a : RawAlert) (p : Phase) : World :=
  { w with calls := Function.update w.calls c (some ⟨a, p⟩) }

def next (eng : Engine E) (fingerprint : String) (w : World) : Event → Option World
  | .begin c a =>
    if w.calls c = none ∧ eng.fingerprint a = fingerprint then some (setPhase w c a .started)
    else none
  | .get c =>
    match w.calls c with
    | some ⟨a, .started⟩ =>
      match isDuplicate eng w.store w.now a with
      | some original => some (setPhase w c a (.duplicate original))
      | none => some (setPhase w c a .missed)
    | _ => none
  | .set c =>
    match w.calls c with
    | some ⟨a, .missed⟩ =>
      some { setPhase w c a .registered with store := register eng w.store w.now a }
    | _ => none
  | .advance d => if w.now + d < w.deadline then some { w with now := w.now + d } else none

/-- The history starts with no call in progress, over any store. -/
def deliveries (eng : Engine E) (fingerprint : String) : System World Event where
  start w := (∀ c, w.calls c = none) ∧ w.now < w.deadline ∧ w.deadline = w.now + eng.window
  next := next eng fingerprint

def InPhase (w : World) (c : Nat) (p : Phase) : Prop := ∃ a, w.calls c = some ⟨a, p⟩

/-- The call has passed the check and goes on to fuse its alert. -/
def TreatsAsNew (w : World) (c : Nat) : Prop := InPhase w c .missed ∨ InPhase w c .registered

def AtMostOneNew (w : World) : Prop := ∀ c d, TreatsAsNew w c → TreatsAsNew w d → c = d

/-- Every state that the step leads to has at most one call that treats its alert as new. -/
def LeavesOneNew (eng : Engine E) (fingerprint : String) (w : World) (e : Event) : Prop :=
  ∀ t, next eng fingerprint w e = some t → AtMostOneNew t

/-- No call looks up the fingerprint while another one is about to register it. -/
def NoOverlap (w : World) : Event → Prop
  | .get c => InPhase w c .started → ∀ d, ¬ InPhase w d .missed
  | _ => True

structure Invariant (eng : Engine E) (fingerprint : String) (w : World) : Prop where
  one_new : AtMostOneNew w
  same_fingerprint : ∀ c a p, w.calls c = some ⟨a, p⟩ → eng.fingerprint a = fingerprint
  inside : w.now < w.deadline ∧ w.deadline ≤ w.now + eng.window
  registered_live : ∀ c, InPhase w c .registered →
    ∃ v t, w.store (redisKey fingerprint) = some ⟨v, t⟩ ∧ w.deadline ≤ t
  missed_absent : ∀ c, InPhase w c .missed →
    ExpiringStore.get w.store w.now (redisKey fingerprint) = none

theorem isDuplicate_eq {eng : Engine E} {fingerprint : String} {a : RawAlert}
    (h : eng.fingerprint a = fingerprint) (s : Store String UUID) (now : Nat) :
    isDuplicate eng s now a = ExpiringStore.get s now (redisKey fingerprint) := by
  rw [isDuplicate, Engine.dedupKey, h]

theorem inPhase_setPhase_self {w : World} {c : Nat} {a : RawAlert} {p q : Phase} :
    InPhase (setPhase w c a p) c q ↔ q = p := by
  simp [InPhase, setPhase, eq_comm]

theorem inPhase_setPhase_ne {w : World} {c d : Nat} {a : RawAlert} {p q : Phase} (h : d ≠ c) :
    InPhase (setPhase w c a p) d q ↔ InPhase w d q := by
  simp [InPhase, setPhase, h]

theorem InPhase.unique {w : World} {c : Nat} {p q : Phase} (hp : InPhase w c p)
    (hq : InPhase w c q) : p = q := by
  obtain ⟨a, ha⟩ := hp
  obtain ⟨b, hb⟩ := hq
  rw [ha] at hb
  injection hb with hb
  injection hb

/-- While a registration lives nobody can miss it. -/
theorem Invariant.live_get {eng : Engine E} {fingerprint : String} {w : World}
    (h : Invariant eng fingerprint w) {c : Nat} (hc : InPhase w c .registered) :
    ∃ v, ExpiringStore.get w.store w.now (redisKey fingerprint) = some v := by
  obtain ⟨v, t, hs, ht⟩ := h.registered_live c hc
  exact ⟨v, ExpiringStore.get_eq_some_iff.mpr ⟨t, hs, Nat.lt_of_lt_of_le h.inside.1 ht⟩⟩

/-- A call that finds an entry is a delivery that returns `DUPLICATE`. -/
theorem get_duplicate_process {eng : Engine E} {fingerprint : String} {w : World} {c : Nat}
    {a : RawAlert} {original : UUID} (hc : w.calls c = some ⟨a, .started⟩)
    (hn : next eng fingerprint w (.get c) = some (setPhase w c a (.duplicate original)))
    {o : Outcomes E P} (ho : o.get = none) :
    process eng w.store w.now a o =
      (w.store, .ok ⟨a.id, a.tenantId, none, .duplicate, some original, a, eng.defaults⟩) := by
  have hcall : ∀ p q : Phase, some (setPhase w c a p) = some (setPhase w c a q) → p = q := by
    intro p q h
    have h := congrFun (congrArg World.calls (Option.some.inj h)) c
    simpa [setPhase] using h
  simp only [next, hc] at hn
  split at hn
  · rename_i found hfound
    have horiginal := hcall _ _ hn
    simp only [Phase.duplicate.injEq] at horiginal
    simp [process, ho, hfound, horiginal]
  · cases hcall _ _ hn

/-- Without interleaving the two commands of a call that finds nothing are the delivery. -/
theorem get_set_process {eng : Engine E} {fingerprint : String} {w u : World} {c : Nat}
    {a : RawAlert} (hw : eng.window ≠ 0) (hc : w.calls c = some ⟨a, .started⟩)
    (hr : runTrace (deliveries eng fingerprint) w [.get c, .set c] = some u)
    {o : Outcomes E P} (hget : o.get = none) (hset : o.set = none) :
    process eng w.store w.now a o = (u.store, fuse eng a o) := by
  obtain ⟨v, hv, hr⟩ := Option.bind_eq_some_iff.mp hr
  obtain ⟨x, hx, hr⟩ := Option.bind_eq_some_iff.mp hr
  cases Option.some.inj hr
  simp only [deliveries, next, hc] at hv
  split at hv
  · cases Option.some.inj hv
    simp [deliveries, next, setPhase] at hx
  · rename_i habs
    cases Option.some.inj hv
    simp only [deliveries, next, setPhase, Function.update_self, Option.some.injEq] at hx
    simp [process, hget, hset, habs, FusionEngine.registerAwait, hw, ← hx]

theorem start_invariant {eng : Engine E} {fingerprint : String} {w : World}
    (h : (deliveries eng fingerprint).start w) : Invariant eng fingerprint w := by
  have hnone : ∀ c p, ¬ InPhase w c p := by
    rintro c p ⟨a, ha⟩
    rw [h.1 c] at ha
    cases ha
  constructor
  · exact fun c d hc => (hc.elim (hnone c _) (hnone c _)).elim
  · intro c a p hc; rw [h.1 c] at hc; cases hc
  · exact ⟨h.2.1, h.2.2.le⟩
  · exact fun c hc => (hnone c _ hc).elim
  · exact fun c hc => (hnone c _ hc).elim

theorem Invariant.fingerprint_setPhase {eng : Engine E} {fingerprint : String} {w : World}
    (h : Invariant eng fingerprint w) {c d : Nat} {a b : RawAlert} {p q : Phase}
    (ha : eng.fingerprint a = fingerprint) (hd : (setPhase w c a p).calls d = some ⟨b, q⟩) :
    eng.fingerprint b = fingerprint := by
  by_cases hdc : d = c
  · subst hdc
    simp only [setPhase, Function.update_self, Option.some.injEq, Call.mk.injEq] at hd
    exact hd.1 ▸ ha
  · exact h.same_fingerprint d b q (by simpa [setPhase, hdc] using hd)

/-- A call that enters a phase other than the two new ones leaves the others as they were. -/
theorem setPhase_invariant {eng : Engine E} {fingerprint : String} {w : World}
    (h : Invariant eng fingerprint w) {c : Nat} {a : RawAlert} {p : Phase}
    (ha : eng.fingerprint a = fingerprint) (hm : p ≠ .missed) (hr : p ≠ .registered) :
    Invariant eng fingerprint (setPhase w c a p) := by
  have keep : ∀ d q, q = .missed ∨ q = .registered → InPhase (setPhase w c a p) d q →
      InPhase w d q := by
    intro d q hq hd
    by_cases hdc : d = c
    · subst hdc
      rw [inPhase_setPhase_self] at hd
      rcases hq with rfl | rfl
      · exact (hm hd.symm).elim
      · exact (hr hd.symm).elim
    · exact (inPhase_setPhase_ne hdc).mp hd
  have keepNew : ∀ d, TreatsAsNew (setPhase w c a p) d → TreatsAsNew w d := fun d hd =>
    hd.imp (keep d _ (Or.inl rfl)) (keep d _ (Or.inr rfl))
  constructor
  · exact fun d e hd he => h.one_new d e (keepNew d hd) (keepNew e he)
  · exact fun d b q hd => h.fingerprint_setPhase ha hd
  · exact h.inside
  · exact fun d hd => h.registered_live d (keep d _ (Or.inr rfl) hd)
  · exact fun d hd => h.missed_absent d (keep d _ (Or.inl rfl) hd)

/-- A call that finds nothing while no other call is between its two commands. -/
theorem miss_invariant {eng : Engine E} {fingerprint : String} {w : World}
    (h : Invariant eng fingerprint w) {c : Nat} {a : RawAlert}
    (ha : eng.fingerprint a = fingerprint) (hnone : ∀ d, ¬ InPhase w d .missed)
    (habs : ExpiringStore.get w.store w.now (redisKey fingerprint) = none) :
    Invariant eng fingerprint (setPhase w c a .missed) := by
  have hreg : ∀ d, ¬ InPhase w d .registered := by
    intro d hd
    obtain ⟨v, hv⟩ := h.live_get hd
    rw [habs] at hv
    cases hv
  have only : ∀ d, TreatsAsNew (setPhase w c a .missed) d → d = c := by
    intro d hd
    by_contra hdc
    rcases hd with hd | hd
    · exact hnone d ((inPhase_setPhase_ne hdc).mp hd)
    · exact hreg d ((inPhase_setPhase_ne hdc).mp hd)
  constructor
  · exact fun d e hd he => (only d hd).trans (only e he).symm
  · exact fun d b q hd => h.fingerprint_setPhase ha hd
  · exact h.inside
  · intro d hd
    by_cases hdc : d = c
    · subst hdc
      rw [inPhase_setPhase_self] at hd
      cases hd
    · exact (hreg d ((inPhase_setPhase_ne hdc).mp hd)).elim
  · exact fun _ _ => habs

theorem set_invariant {eng : Engine E} {fingerprint : String} {w : World}
    (h : Invariant eng fingerprint w) {c : Nat} {a : RawAlert}
    (hc : w.calls c = some ⟨a, .missed⟩) :
    Invariant eng fingerprint
      { setPhase w c a .registered with store := register eng w.store w.now a } := by
  have ha := h.same_fingerprint c a _ hc
  have hnew : TreatsAsNew w c := Or.inl ⟨a, hc⟩
  have only : ∀ d, TreatsAsNew (setPhase w c a .registered) d → d = c := by
    intro d hd
    by_contra hdc
    refine hdc (h.one_new d c ?_ hnew)
    exact hd.imp (inPhase_setPhase_ne hdc).mp (inPhase_setPhase_ne hdc).mp
  constructor
  · exact fun d e hd he => (only d hd).trans (only e he).symm
  · exact fun d b q hd => h.fingerprint_setPhase ha hd
  · exact h.inside
  · intro d _
    refine ⟨a.id, w.now + eng.window, ?_, h.inside.2⟩
    simp [register, ExpiringStore.setEx, Engine.dedupKey, ha]
  · intro d hd
    have hdc := only d (Or.inl hd)
    subst hdc
    cases inPhase_setPhase_self.mp hd

theorem advance_invariant {eng : Engine E} {fingerprint : String} {w : World}
    (h : Invariant eng fingerprint w) {d : Nat} (hd : w.now + d < w.deadline) :
    Invariant eng fingerprint { w with now := w.now + d } where
  one_new := h.one_new
  same_fingerprint := h.same_fingerprint
  inside := ⟨hd, Nat.le_trans h.inside.2 (by simp only; omega)⟩
  registered_live := h.registered_live
  missed_absent c hc :=
    ExpiringStore.get_eq_none_of_le (Nat.le_add_right _ _) (h.missed_absent c hc)

theorem next_invariant {eng : Engine E} {fingerprint : String} {w u : World} {e : Event}
    (h : Invariant eng fingerprint w) (hg : NoOverlap w e)
    (hn : next eng fingerprint w e = some u) : Invariant eng fingerprint u := by
  cases e with
  | begin c a =>
    simp only [next] at hn
    split at hn
    · rename_i hok
      rw [← Option.some.inj hn]
      exact setPhase_invariant h hok.2 (by decide) (by decide)
    · cases hn
  | get c =>
    simp only [next] at hn
    split at hn
    · rename_i a hc
      have ha := h.same_fingerprint c a _ hc
      rw [isDuplicate_eq ha] at hn
      split at hn
      · rw [← Option.some.inj hn]
        exact setPhase_invariant h ha (by simp) (by simp)
      · rename_i habs
        rw [← Option.some.inj hn]
        exact miss_invariant h ha (hg ⟨a, hc⟩) habs
    · cases hn
  | set c =>
    simp only [next] at hn
    split at hn
    · rename_i a hc
      rw [← Option.some.inj hn]
      exact set_invariant h hc
    · cases hn
  | advance d =>
    simp only [next] at hn
    split at hn
    · rename_i hd
      rw [← Option.some.inj hn]
      exact advance_invariant h hd
    · cases hn

/-- A lookup during another call's gap finds nothing, so two calls treat their alert as new. -/
theorem overlap_two_new {eng : Engine E} {fingerprint : String} {w : World}
    (h : Invariant eng fingerprint w) {c d : Nat} (hc : InPhase w c .started)
    (hd : InPhase w d .missed) : ¬ LeavesOneNew eng fingerprint w (.get c) := by
  intro hone
  obtain ⟨a, ha⟩ := hc
  have hcd : d ≠ c := by
    rintro rfl
    cases hd.unique ⟨a, ha⟩
  have hstep : next eng fingerprint w (.get c) = some (setPhase w c a .missed) := by
    simp only [next, ha, isDuplicate_eq (h.same_fingerprint c a _ ha), h.missed_absent d hd]
  refine hcd (hone _ hstep d c (Or.inl ?_) (Or.inl ?_))
  · exact (inPhase_setPhase_ne hcd).mpr hd
  · exact inPhase_setPhase_self.mpr rfl

theorem no_overlap_iff {eng : Engine E} {fingerprint : String} {w : World}
    (h : Invariant eng fingerprint w) (e : Event) :
    NoOverlap w e ↔ LeavesOneNew eng fingerprint w e := by
  refine ⟨fun hg t ht => (next_invariant h hg ht).one_new, fun hone => ?_⟩
  cases e with
  | get c => exact fun hc d hd => overlap_two_new h hc hd hone
  | _ => trivial

/-- Along every history inside one window at most one call treats its alert as new exactly
when no lookup falls between another call's lookup and registration. -/
theorem one_new_iff_no_overlap (eng : Engine E) (fingerprint : String) {w : World}
    (hw : (deliveries eng fingerprint).start w) (es : List Event) :
    GuardedTrace (deliveries eng fingerprint) (LeavesOneNew eng fingerprint) w es ↔
      GuardedTrace (deliveries eng fingerprint) NoOverlap w es := by
  symm
  exact TransitionSystem.guardedTrace_congr (fun _ _ _ hi hg hn => next_invariant hi hg hn)
    (fun _ e hi => no_overlap_iff hi e) (start_invariant hw)

def quietWorld : World := ⟨fun _ => none, 0, 300000, fun _ => none⟩

/-- Two workers look the fingerprint up before either has registered it. -/
theorem two_lookups_two_new :
    ¬ GuardedTrace (deliveries FusionEngine.sampleEngine "beacon")
      (LeavesOneNew FusionEngine.sampleEngine "beacon") quietWorld
      [.begin 0 FusionEngine.sampleAlert, .begin 1 FusionEngine.sampleAlert, .get 0, .get 1] := by
  intro h
  obtain ⟨-, h⟩ := h
  obtain ⟨-, h⟩ := h _ rfl
  obtain ⟨-, h⟩ := h _ rfl
  obtain ⟨h, -⟩ := h _ rfl
  have hsame := h _ rfl 0 1 (Or.inl ⟨_, rfl⟩) (Or.inl ⟨_, rfl⟩)
  cases hsame

theorem one_new_quiet_world :
    GuardedTrace (deliveries FusionEngine.sampleEngine "beacon")
        (LeavesOneNew FusionEngine.sampleEngine "beacon") quietWorld
        [.begin 0 FusionEngine.sampleAlert, .get 0, .set 0] ↔
      GuardedTrace (deliveries FusionEngine.sampleEngine "beacon") NoOverlap quietWorld
        [.begin 0 FusionEngine.sampleAlert, .get 0, .set 0] :=
  one_new_iff_no_overlap FusionEngine.sampleEngine "beacon" ⟨fun _ => rfl, by decide, rfl⟩ _

end DeduplicationWindow
