import Mathlib.Data.List.Sort
import AiSOC.TransitionSystem
import AiSOC.ExpiringStore

/-! # Alert fusion

One delivery of an alert: the deduplication check, the registration of its fingerprint and
the pipeline behind them. What each await does is an input of the delivery, so a delivery
may fail at any of them. Redis holds the id of the first alert under the fingerprint. -/
namespace FusionEngine

open TransitionSystem (System GuardedTrace)
open ExpiringStore (Store)

/-- The 128 bits of an id; the stored text of an id is never empty and parses back. -/
abbrev UUID := Nat

inductive AlertSeverity where
  | critical | high | medium | low | info
  deriving DecidableEq, Repr

inductive FusionDecision where
  | newAlert | duplicate | correlated | newIncident
  deriving DecidableEq, Repr

structure RawAlert where
  id : UUID
  tenantId : UUID
  source : String
  title : String
  severity : AlertSeverity
  srcIp : Option String
  dstIp : Option String
  hostname : Option String
  username : Option String
  fileHash : Option String
  domain : Option String
  mitreTactics : List String
  mitreTechniques : List String
  createdAt : Nat
  deriving DecidableEq, Repr

/-- The object whose canonical JSON is hashed. -/
structure FingerprintFields where
  tenantId : UUID
  source : String
  title : String
  srcIp : Option String
  dstIp : Option String
  hostname : Option String
  username : Option String
  fileHash : Option String
  mitreTechniques : List String
  deriving DecidableEq, Repr

def RawAlert.fingerprintFields (a : RawAlert) : FingerprintFields where
  tenantId := a.tenantId
  source := a.source
  title := a.title
  srcIp := a.srcIp
  dstIp := a.dstIp
  hostname := a.hostname
  username := a.username
  fileHash := a.fileHash
  mitreTechniques := a.mitreTechniques.insertionSort (· ≤ ·)

/-- What escapes from an await: an `Exception`, or the cancellation of the task, which
`except Exception` does not catch. -/
inductive Fault where
  | error
  | cancelled
  deriving DecidableEq, Repr

/-- `E` is the enrichment the scorers attach, `P` a promoted entity. -/
structure FusedAlert (E : Type) where
  id : UUID
  tenantId : UUID
  incidentId : Option UUID
  fusionDecision : FusionDecision
  duplicateOf : Option UUID
  alert : RawAlert
  enrichment : E

/-- The settings read here and the hash of the fingerprint. The window is in milliseconds. -/
structure Engine (E : Type) where
  window : Nat
  entityRiskEnabled : Bool
  vulnBoostEnabled : Bool
  sha256Hex : FingerprintFields → String
  defaults : E

/-- What the awaits and the guarded calls of one delivery do. A `SET` that raises may have
been applied by the server all the same. -/
structure Outcomes (E P : Type) where
  get : Option Fault
  set : Option (Fault × Bool)
  correlate : Except Fault (Bool × UUID)
  score : E → Except Fault E
  confidence : E → Option E
  boost : E → Option E
  observe : Except Fault (List P)
  narrative : E → List P → Option E

variable {E P : Type}

def Engine.fingerprint (eng : Engine E) (a : RawAlert) : String := eng.sha256Hex a.fingerprintFields

def redisKey (fingerprint : String) : String := "aisoc:fusion:dedup:" ++ fingerprint

def Engine.dedupKey (eng : Engine E) (a : RawAlert) : String := redisKey (eng.fingerprint a)

def isDuplicate (eng : Engine E) (s : Store String UUID) (now : Nat) (a : RawAlert) :
    Option UUID :=
  ExpiringStore.get s now (eng.dedupKey a)

def register (eng : Engine E) (s : Store String UUID) (now : Nat) (a : RawAlert) :
    Store String UUID :=
  ExpiringStore.setEx s now eng.window (eng.dedupKey a) a.id

/-- `register` with the reply that reaches the caller. The server rejects an expiry of zero. -/
def registerAwait (eng : Engine E) (s : Store String UUID) (now : Nat) (a : RawAlert) :
    Option (Fault × Bool) → Store String UUID × Option Fault
  | none => if eng.window = 0 then (s, some .error) else (register eng s now a, none)
  | some (f, applied) =>
    if applied ∧ eng.window ≠ 0 then (register eng s now a, some f) else (s, some f)

/-- `try .. except Exception` around a value with a default. -/
def caught {α : Type} (x : Except Fault α) (default : α) : Except Fault α :=
  match x with
  | .error .error => .ok default
  | x => x

/-- Correlation and everything after it. -/
def fuse (eng : Engine E) (a : RawAlert) (o : Outcomes E P) : Except Fault (FusedAlert E) := do
  let (correlated, incident) ← o.correlate
  let scored ← caught (o.score eng.defaults) eng.defaults
  let scored := (o.confidence scored).getD scored
  let boosted := if eng.vulnBoostEnabled then (o.boost scored).getD scored else scored
  let promotions ← if eng.entityRiskEnabled then caught o.observe [] else .ok []
  return {
    id := a.id
    tenantId := a.tenantId
    incidentId := some incident
    fusionDecision := if correlated then .correlated else .newIncident
    duplicateOf := none
    alert := a
    enrichment := (o.narrative boosted promotions).getD boosted }

def process (eng : Engine E) (s : Store String UUID) (now : Nat) (a : RawAlert)
    (o : Outcomes E P) : Store String UUID × Except Fault (FusedAlert E) :=
  match o.get with
  | some f => (s, .error f)
  | none =>
    match isDuplicate eng s now a with
    | some original => (s, .ok ⟨a.id, a.tenantId, none, .duplicate, some original, a, eng.defaults⟩)
    | none =>
      match registerAwait eng s now a o.set with
      | (s, some f) => (s, .error f)
      | (s, none) => (s, fuse eng a o)

def Raised {α : Type} (r : Except Fault α) : Prop := ∃ f, r = .error f

def IsDuplicate (r : Except Fault (FusedAlert E)) : Prop :=
  ∃ fused, r = .ok fused ∧ fused.fusionDecision = .duplicate

/-- Fusion completed: the alert went through as a new one. -/
def Completed (r : Except Fault (FusedAlert E)) : Prop :=
  ∃ fused, r = .ok fused ∧ fused.fusionDecision ≠ .duplicate

/-- An await behind the registration fails for good. -/
def FailsBehindRegistration (eng : Engine E) (o : Outcomes E P) : Prop :=
  Raised o.correlate ∨ o.score eng.defaults = .error .cancelled ∨
    (eng.entityRiskEnabled = true ∧ o.observe = .error .cancelled)

/-- The delivery fails once its fingerprint is in the store: the reply of the `SET` is lost
or a later await fails. -/
def FailsRegistered (eng : Engine E) (s : Store String UUID) (now : Nat) (a : RawAlert)
    (o : Outcomes E P) : Prop :=
  o.get = none ∧ isDuplicate eng s now a = none ∧ eng.window ≠ 0 ∧
    ((∃ f, o.set = some (f, true)) ∨ (o.set = none ∧ FailsBehindRegistration eng o))

theorem caught_eq_error {α : Type} {x : Except Fault α} {default : α} {f : Fault} :
    caught x default = .error f ↔ f = .cancelled ∧ x = .error .cancelled := by
  rcases x with f' | v
  · cases f' <;> cases f <;> simp [caught]
  · simp [caught]

theorem fuse_raised_iff (eng : Engine E) (a : RawAlert) (o : Outcomes E P) :
    Raised (fuse eng a o) ↔ FailsBehindRegistration eng o := by
  unfold FailsBehindRegistration fuse
  rcases hc : o.correlate with f | ⟨correlated, incident⟩
  · exact ⟨fun _ => Or.inl ⟨f, rfl⟩, fun _ => ⟨f, rfl⟩⟩
  rcases hs : caught (o.score eng.defaults) eng.defaults with f | scored
  · have hf := caught_eq_error.mp hs
    exact ⟨fun _ => Or.inr (Or.inl hf.2), fun _ => ⟨f, by simp [bind, Except.bind]⟩⟩
  have hscore : o.score eng.defaults ≠ .error .cancelled := by
    intro h
    rw [caught_eq_error.mpr ⟨rfl, h⟩] at hs
    cases hs
  cases hr : eng.entityRiskEnabled with
  | false => simp [hscore, Raised, bind, Except.bind, pure, Except.pure]
  | true =>
    rcases ho : caught o.observe [] with f | promotions
    · have hf := caught_eq_error.mp ho
      simp [hf.2, Raised, bind, Except.bind]
    · have hobserve : o.observe ≠ .error .cancelled := by
        intro h
        rw [caught_eq_error.mpr ⟨rfl, h⟩] at ho
        cases ho
      simp [hscore, hobserve, Raised, bind, Except.bind, pure, Except.pure]

theorem fuse_not_duplicate {eng : Engine E} {a : RawAlert} {o : Outcomes E P}
    {fused : FusedAlert E} (h : fuse eng a o = .ok fused) : fused.fusionDecision ≠ .duplicate := by
  simp only [fuse, bind, Except.bind, pure, Except.pure] at h
  repeat' split at h
  all_goals cases h
  all_goals dsimp only
  all_goals decide

/-- What one delivery does to the store: nothing, or it registers an absent fingerprint. -/
theorem process_store (eng : Engine E) (s : Store String UUID) (now : Nat) (a : RawAlert)
    (o : Outcomes E P) :
    (process eng s now a o).1 = s ∨ (isDuplicate eng s now a = none ∧ eng.window ≠ 0 ∧
      (process eng s now a o).1 = register eng s now a) := by
  unfold process
  split
  · exact Or.inl rfl
  split
  · exact Or.inl rfl
  rename_i hdup
  unfold registerAwait
  rcases o.set with _ | ⟨f, applied⟩
  · by_cases hw : eng.window = 0
    · simp [hw]
    · simpa [hw] using Or.inr hdup
  · by_cases hw : applied = true ∧ eng.window ≠ 0
    · simpa [hw] using Or.inr hdup
    · simp [hw]

theorem register_ne_self {eng : Engine E} {s : Store String UUID} {now : Nat} {a : RawAlert}
    (hdup : isDuplicate eng s now a = none) (hw : eng.window ≠ 0) : register eng s now a ≠ s :=
  ExpiringStore.setEx_ne_self (Nat.pos_of_ne_zero hw) hdup

/-- A delivery that raises leaves the store as it was exactly when it does not fail once
registered. -/
theorem process_raised_keeps_iff (eng : Engine E) (s : Store String UUID) (now : Nat)
    (a : RawAlert) (o : Outcomes E P) :
    (Raised (process eng s now a o).2 → (process eng s now a o).1 = s) ↔
      ¬ FailsRegistered eng s now a o := by
  unfold FailsRegistered process
  rcases hget : o.get with _ | f
  swap
  · simp
  rcases hdup : isDuplicate eng s now a with _ | original
  swap
  · simp
  rcases hset : o.set with _ | ⟨f, applied⟩
  · by_cases hw : eng.window = 0
    · simp [registerAwait, hw]
    · simp only [registerAwait, hw, if_false, fuse_raised_iff]
      simp [register_ne_self hdup hw, show eng.window ≠ 0 from hw]
  · by_cases hw : eng.window = 0
    · simp [registerAwait, hw]
    · cases applied with
      | false => simp [registerAwait]
      | true => simp [registerAwait, hw, register_ne_self hdup hw, Raised]

/-- A delivery reported as a duplicate found its key in the store. -/
theorem process_duplicate {eng : Engine E} {s : Store String UUID} {now : Nat} {a : RawAlert}
    {o : Outcomes E P} (h : IsDuplicate (process eng s now a o).2) :
    ∃ original, isDuplicate eng s now a = some original := by
  obtain ⟨fused, hok, hd⟩ := h
  unfold process at hok
  split at hok
  · cases hok
  split at hok
  · rename_i original horiginal
    exact ⟨original, horiginal⟩
  split at hok
  · cases hok
  · exact (fuse_not_duplicate hok hd).elim

theorem process_registered_completed {eng : Engine E} {s : Store String UUID} {now : Nat}
    {a : RawAlert} {o : Outcomes E P} (hf : ¬ FailsRegistered eng s now a o)
    (hdup : isDuplicate eng s now a = none) (hne : (process eng s now a o).1 ≠ s) :
    Completed (process eng s now a o).2 := by
  have hkeep := (process_raised_keeps_iff eng s now a o).mpr hf
  rcases hr : (process eng s now a o).2 with f | fused
  · exact (hne (hkeep ⟨f, hr⟩)).elim
  · refine ⟨fused, rfl, fun hd => ?_⟩
    obtain ⟨original, horiginal⟩ := process_duplicate ⟨fused, hr, hd⟩
    rw [hdup] at horiginal
    cases horiginal

/-- One delivery and its result, as a log keeps it. -/
structure Delivery (E : Type) where
  alert : RawAlert
  result : Except Fault (FusedAlert E)

structure World (E : Type) where
  store : Store String UUID
  now : Nat
  deliveries : List (Delivery E)

inductive Event (E P : Type) where
  | deliver (a : RawAlert) (o : Outcomes E P)
  | advance (d : Nat)

def next (eng : Engine E) (w : World E) : Event E P → World E
  | .deliver a o =>
    { w with
      store := (process eng w.store w.now a o).1
      deliveries := w.deliveries ++ [⟨a, (process eng w.store w.now a o).2⟩] }
  | .advance d => { w with now := w.now + d }

/-- The worker takes the deliveries one after the other, in any order and at any time. -/
def fusion (eng : Engine E) : System (World E) (Event E P) where
  start w := w.store = (fun _ => none) ∧ w.deliveries = []
  next w e := some (next eng w e)

/-- An earlier delivery with the fingerprint of the alert completed fusion. -/
def FusedBefore (eng : Engine E) (w : World E) (a : RawAlert) : Prop :=
  ∃ d ∈ w.deliveries, eng.fingerprint d.alert = eng.fingerprint a ∧ Completed d.result

/-- A delivery that raises changes nothing, and an alert whose delivery raised is not taken
for a duplicate later unless its fingerprint was fused before. -/
def NoAlertLost (eng : Engine E) (w : World E) : Event E P → Prop
  | .deliver a o =>
    (Raised (process eng w.store w.now a o).2 → (process eng w.store w.now a o).1 = w.store) ∧
    ((∃ d ∈ w.deliveries, d.alert = a ∧ Raised d.result) →
      IsDuplicate (process eng w.store w.now a o).2 → FusedBefore eng w a)
  | .advance _ => True

def NoLateFailure (eng : Engine E) (w : World E) : Event E P → Prop
  | .deliver a o => ¬ FailsRegistered eng w.store w.now a o
  | .advance _ => True

/-- Every key in the store was registered by a delivery that completed. -/
def Invariant (eng : Engine E) (w : World E) : Prop :=
  ∀ k e, w.store k = some e →
    ∃ d ∈ w.deliveries, eng.dedupKey d.alert = k ∧ Completed d.result

theorem dedupKey_inj {eng : Engine E} {a b : RawAlert} (h : eng.dedupKey a = eng.dedupKey b) :
    eng.fingerprint a = eng.fingerprint b := (String.append_right_inj _).mp h

theorem start_invariant {eng : Engine E} {w : World E} (h : (fusion (P := P) eng).start w) :
    Invariant eng w := by
  intro k e he
  simp [h.1] at he

theorem next_invariant {eng : Engine E} {w : World E} (h : Invariant eng w) {e : Event E P}
    (hg : NoLateFailure eng w e) : Invariant eng (next eng w e) := by
  cases e with
  | advance d => exact h
  | deliver a o =>
    intro k x hx
    have old : w.store k = some x → ∃ d ∈ (next eng w (.deliver a o)).deliveries,
        eng.dedupKey d.alert = k ∧ Completed d.result := by
      intro hk
      obtain ⟨d, hd, hrest⟩ := h k x hk
      exact ⟨d, List.mem_append_left _ hd, hrest⟩
    rcases process_store eng w.store w.now a o with hs | ⟨hdup, hw, hs⟩
    · exact old (by simpa only [next, hs] using hx)
    · by_cases hk : k = eng.dedupKey a
      · have hcompleted : Completed (process eng w.store w.now a o).2 :=
          process_registered_completed hg hdup (hs ▸ register_ne_self hdup hw)
        exact ⟨⟨a, _⟩, List.mem_append_right _ (List.mem_singleton_self _), hk.symm, hcompleted⟩
      · refine old ?_
        simp only [next, hs, register] at hx
        rwa [ExpiringStore.setEx_of_ne hk] at hx

theorem no_alert_lost_iff {eng : Engine E} {w : World E} (h : Invariant eng w)
    (e : Event E P) : NoLateFailure eng w e ↔ NoAlertLost eng w e := by
  cases e with
  | advance d => exact Iff.rfl
  | deliver a o =>
    refine ⟨fun hg => ⟨(process_raised_keeps_iff eng w.store w.now a o).mpr hg, fun _ hd => ?_⟩,
      fun hp => (process_raised_keeps_iff eng w.store w.now a o).mp hp.1⟩
    obtain ⟨original, horiginal⟩ := process_duplicate hd
    obtain ⟨t, ht, -⟩ := ExpiringStore.get_eq_some_iff.mp horiginal
    obtain ⟨d, hmem, hkey, hcompleted⟩ := h _ _ ht
    exact ⟨d, hmem, dedupKey_inj hkey, hcompleted⟩

/-- Along every sequence of deliveries no alert is lost exactly when none of them fails once
its fingerprint is registered. -/
theorem no_alert_lost_iff_no_late_failure (eng : Engine E) {w : World E}
    (hw : (fusion (P := P) eng).start w) (es : List (Event E P)) :
    GuardedTrace (fusion eng) (NoAlertLost eng) w es ↔
      GuardedTrace (fusion eng) (NoLateFailure eng) w es := by
  symm
  refine TransitionSystem.guardedTrace_congr (fun w e t hi hg hn => ?_)
    (fun w e hi => no_alert_lost_iff hi e) (start_invariant hw)
  rw [← Option.some.inj hn]
  exact next_invariant hi hg

def sampleEngine : Engine Unit := ⟨300000, false, false, FingerprintFields.title, ()⟩

def sampleAlert : RawAlert where
  id := 7
  tenantId := 1
  source := "edr"
  title := "beacon"
  severity := .high
  srcIp := none
  dstIp := none
  hostname := some "host-1"
  username := none
  fileHash := none
  domain := none
  mitreTactics := []
  mitreTechniques := []
  createdAt := 0

/-- All awaits succeed except for the outcome given for the correlation. -/
def withCorrelation (r : Except Fault (Bool × UUID)) : Outcomes Unit Unit :=
  ⟨none, none, r, .ok, some, some, .ok [], fun e _ => some e⟩

def emptyWorld : World Unit := ⟨fun _ => none, 0, []⟩

def afterFailure : World Unit :=
  next sampleEngine emptyWorld (.deliver sampleAlert (withCorrelation (.error .error)))

/-- The correlation fails once; the redelivered alert is suppressed by its own fingerprint. -/
theorem redelivery_after_failure_suppressed :
    (∃ d ∈ afterFailure.deliveries, d.alert = sampleAlert ∧ Raised d.result) ∧
    IsDuplicate (process sampleEngine afterFailure.store afterFailure.now sampleAlert
      (withCorrelation (.ok (false, 1)))).2 ∧
    ¬ FusedBefore sampleEngine afterFailure sampleAlert ∧
    ¬ GuardedTrace (fusion sampleEngine) (NoAlertLost sampleEngine) emptyWorld
      [.deliver sampleAlert (withCorrelation (.error .error)),
        .deliver sampleAlert (withCorrelation (.ok (false, 1)))] := by
  have hlog : afterFailure.deliveries = [⟨sampleAlert, .error .error⟩] := rfl
  have hdup : (process sampleEngine afterFailure.store afterFailure.now sampleAlert
      (withCorrelation (.ok (false, 1)))).2 =
      .ok ⟨7, 1, none, .duplicate, some 7, sampleAlert, ()⟩ := rfl
  have hraised : ∃ d ∈ afterFailure.deliveries, d.alert = sampleAlert ∧ Raised d.result :=
    ⟨_, by rw [hlog]; exact List.mem_singleton_self _, rfl, .error, rfl⟩
  have hnot : ¬ FusedBefore sampleEngine afterFailure sampleAlert := by
    rintro ⟨d, hd, -, fused, hok, -⟩
    rw [hlog, List.mem_singleton] at hd
    subst hd
    cases hok
  refine ⟨hraised, ⟨_, hdup, rfl⟩, hnot, fun ⟨_, hrest⟩ => ?_⟩
  obtain ⟨⟨-, hlost⟩, -⟩ := hrest afterFailure rfl
  exact hnot (hlost hraised ⟨_, hdup, rfl⟩)

theorem no_alert_lost_empty_world :
    GuardedTrace (fusion sampleEngine) (NoAlertLost sampleEngine) emptyWorld
        [.deliver sampleAlert (withCorrelation (.ok (false, 1))), .advance 5] ↔
      GuardedTrace (fusion sampleEngine) (NoLateFailure sampleEngine) emptyWorld
        [.deliver sampleAlert (withCorrelation (.ok (false, 1))), .advance 5] :=
  no_alert_lost_iff_no_late_failure sampleEngine ⟨rfl, rfl⟩ _

end FusionEngine
