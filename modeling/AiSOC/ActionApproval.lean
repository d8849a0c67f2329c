import Mathlib.Data.List.Induction
import AiSOC.TransitionSystem
import AiSOC.ResponseActions

/-! # Approval of response actions

Requests to submit, approve and reject actions, interleaved at the awaited executor. The log
records what an observer sees of an id: an approval taken up, a call of the executor, a
rejection that returned. -/
namespace ActionApproval

open TransitionSystem (System GuardedTrace)
open ResponseActions

variable {V : Type}

inductive Entry where
  | approved (id : UUID)
  | called (id : UUID)
  | rejected (id : UUID)
  deriving DecidableEq, Repr

structure World (V : Type) where
  store : ActionStore V
  executions : Nat → Option (Execution V)
  log : List Entry

/-- `x` names the handler's task, which exists while its execution is awaited. -/
inductive Event (V : Type) where
  | submit (x : Nat) (request : ActionRequest V)
  | approve (x : Nat) (id : UUID)
  | reject (id : UUID)
  | finish (x : Nat) (outcome : Outcome V)

def calls (call : Option (Execution V)) : List Entry :=
  call.toList.map fun e => .called e.request.id

/-- A request that is answered with an error changes nothing. -/
def next (w : World V) : Event V → Option (World V)
  | .submit x request =>
    if (w.executions x).isSome then none
    else
      let (store, call) := submitAction w.store request
      some ⟨store, Function.update w.executions x call, w.log ++ calls call⟩
  | .approve x id =>
    if (w.executions x).isSome then none
    else match approveAction w.store id with
      | .error _ => some w
      | .ok (store, call) =>
        some ⟨store, Function.update w.executions x call, w.log ++ .approved id :: calls call⟩
  | .reject id =>
    match rejectAction w.store id with
    | .error _ => some w
    | .ok store => some { w with store := store, log := w.log ++ [.rejected id] }
  | .finish x outcome =>
    (w.executions x).map fun e =>
      ⟨finishAction w.store e outcome, Function.update w.executions x none, w.log⟩

/-- The service starts without records. -/
def actions : System (World V) (Event V) where
  start w := w.store = ⟨fun _ => none, []⟩ ∧ (∀ x, w.executions x = none) ∧ w.log = []
  next := next

def current (w : World V) (id : UUID) : Option (ActionRecord V) :=
  (w.store.lookup id).map Prod.snd

def Terminal (status : ActionStatus) : Prop :=
  status = .completed ∨ status = .failed ∨ status = .rejected

/-- Every call of the executor for the id comes after an approval of it, after no rejection
of it and after no other call. -/
def CallsJustified (id : UUID) (log : List Entry) : Prop :=
  ∀ before, before ++ [.called id] <+: log →
    .approved id ∈ before ∧ .rejected id ∉ before ∧ .called id ∉ before

/-- After the step the calls are justified, and a terminal record is still what it was. -/
def Safe (id : UUID) (w : World V) (e : Event V) : Prop :=
  ∀ u, next w e = some u → CallsJustified id u.log ∧
    ∀ record, current w id = some record → Terminal record.status → current u id = some record

/-- The risk of the id requires approval, whatever is submitted under it. -/
def RequiresApproval (id : UUID) : Event V → Prop
  | .submit _ request => request.id = id → request.actionType ∈ approvalRequiredActions
  | _ => True

def InFlight (w : World V) (id : UUID) (x : Nat) : Prop :=
  ∃ e, w.executions x = some e ∧ e.request.id = id

/-- The id is submitted again only while it waits for approval; it is approved, rejected or
submitted only while no execution of it is awaited; it is not rejected once completed or
failed; and its executor comes back with a result that settles the approval. -/
def Careful (id : UUID) (w : World V) : Event V → Prop
  | .submit _ request => request.id = id →
    (∀ x, ¬ InFlight w id x) ∧ ∀ record, current w id = some record →
      record.status = .awaitingApproval
  | .approve _ a => a = id → ∀ x, ¬ InFlight w id x
  | .reject a => a = id → (∀ x, ¬ InFlight w id x) ∧ ∀ record, current w id = some record →
      record.status ≠ .completed ∧ record.status ≠ .failed
  | .finish x outcome => InFlight w id x →
    ∃ status output rollbackData error,
      outcome = .result status output rollbackData error ∧ status ≠ .awaitingApproval

/-- Every id leads to a record of that id. -/
def Named (s : ActionStore V) : Prop :=
  ∀ a r, s.refs a = some r → ∃ record, s.heap[r]? = some record ∧ record.id = a

/-- Every awaited execution holds a record of the id it was called for. -/
def ExecutionsNamed (w : World V) : Prop :=
  ∀ x e, w.executions x = some e →
    ∃ record, w.store.heap[e.ref]? = some record ∧ record.id = e.request.id

/-- No record of the id, or one that waits for approval. -/
def Open (w : World V) (id : UUID) : Prop :=
  ∀ record, current w id = some record → record.status = .awaitingApproval

structure Invariant (id : UUID) (w : World V) : Prop where
  named : Named w.store
  executions_named : ExecutionsNamed w
  awaited : ∀ x e, w.executions x = some e → e.request.id = id →
    e.handler = .approveAction ∧ ∃ record, w.store.lookup id = some (e.ref, record) ∧
      record.status = .awaitingApproval
  alone : ∀ x y, InFlight w id x → InFlight w id y → x = y
  open_uncalled : Open w id → (∀ x, ¬ InFlight w id x) → .called id ∉ w.log
  open_unrejected : Open w id → .rejected id ∉ w.log
  justified : CallsJustified id w.log

theorem callsJustified_concat {id : UUID} {log : List Entry} {entry : Entry} :
    CallsJustified id (log ++ [entry]) ↔ CallsJustified id log ∧
      (entry = .called id → .approved id ∈ log ∧ .rejected id ∉ log ∧ .called id ∉ log) := by
  constructor
  · intro h
    refine ⟨fun before hb => h before (hb.trans (List.prefix_append _ _)), ?_⟩
    rintro rfl
    exact h log List.prefix_rfl
  · rintro ⟨h, hnew⟩ before hb
    rcases List.prefix_concat_iff.mp hb with heq | hb
    · obtain ⟨rfl, hentry⟩ := List.append_inj' heq rfl
      exact hnew (List.singleton_inj.mp hentry).symm
    · exact h before hb

theorem callsJustified_append {id : UUID} {log extra : List Entry} (h : CallsJustified id log)
    (hextra : ∀ entry ∈ extra, entry ≠ .called id) : CallsJustified id (log ++ extra) := by
  induction extra using List.reverseRecOn with
  | nil => simpa using h
  | append_singleton extra entry ih =>
    rw [← List.append_assoc, callsJustified_concat]
    refine ⟨ih fun x hx => hextra x (List.mem_append_left _ hx), fun heq => ?_⟩
    exact (hextra entry (List.mem_append_right _ (List.mem_singleton_self _)) heq).elim

/-- Addresses stay in use for the id they were allocated for. -/
def KeepsIds (s t : ActionStore V) : Prop :=
  ∀ (r : Nat) (record : ActionRecord V), s.heap[r]? = some record →
    ∃ kept : ActionRecord V, t.heap[r]? = some kept ∧ kept.id = record.id

theorem insert_keepsIds (s : ActionStore V) (record : ActionRecord V) :
    KeepsIds s (s.insert record) := fun _ old h => ⟨old, insert_heap_old h record, rfl⟩

theorem write_keepsIds (s : ActionStore V) (r : Nat) {f : ActionRecord V → ActionRecord V}
    (hf : ∀ record, (f record).id = record.id) : KeepsIds s (s.write r f) := by
  intro q record h
  by_cases hq : q = r
  · subst hq
    exact ⟨f record, write_heap_self h f, hf record⟩
  · exact ⟨record, (write_heap_ne hq f).trans h, rfl⟩

theorem KeepsIds.trans {s t u : ActionStore V} (h : KeepsIds s t) (k : KeepsIds t u) :
    KeepsIds s u := by
  intro r record hr
  obtain ⟨mid, hm, hid⟩ := h r record hr
  obtain ⟨last, hl, hid'⟩ := k r mid hm
  exact ⟨last, hl, hid'.trans hid⟩

theorem insert_named {s : ActionStore V} (h : Named s) (record : ActionRecord V) :
    Named (s.insert record) := by
  intro a r hr
  by_cases ha : a = record.id
  · subst ha
    rw [insert_refs_self] at hr
    exact ⟨record, Option.some.inj hr ▸ insert_heap_new s record, rfl⟩
  · rw [insert_refs_ne ha] at hr
    obtain ⟨old, hold, hid⟩ := h a r hr
    exact ⟨old, insert_heap_old hold record, hid⟩

theorem write_named {s : ActionStore V} (h : Named s) (r : Nat)
    {f : ActionRecord V → ActionRecord V} (hf : ∀ record, (f record).id = record.id) :
    Named (s.write r f) := by
  intro a q hq
  obtain ⟨old, hold, hid⟩ := h a q hq
  obtain ⟨record, hrecord, hid'⟩ := write_keepsIds s r hf q old hold
  exact ⟨record, hrecord, hid'.trans hid⟩

theorem lookup_id {s : ActionStore V} (h : Named s) {a : UUID} {r : Nat}
    {record : ActionRecord V} (hl : s.lookup a = some (r, record)) : record.id = a := by
  obtain ⟨hr, hv⟩ := lookup_eq_some.mp hl
  obtain ⟨found, hfound, hid⟩ := h a r hr
  rw [hv] at hfound
  exact Option.some.inj hfound ▸ hid

/-- Writing to the record of another id is not seen under this one. -/
theorem lookup_write_other {s : ActionStore V} (h : Named s) {id : UUID} {r : Nat}
    {record : ActionRecord V} (hr : s.heap[r]? = some record) (hid : record.id ≠ id)
    (f : ActionRecord V → ActionRecord V) : (s.write r f).lookup id = s.lookup id := by
  unfold ActionStore.lookup
  rw [write_refs]
  rcases hq : s.refs id with _ | q
  · rfl
  · obtain ⟨own, hown, hname⟩ := h id q hq
    have hqr : q ≠ r := by
      rintro rfl
      rw [hr] at hown
      exact hid (Option.some.inj hown ▸ hname)
    simp only [Option.bind_some, write_heap_ne hqr]

theorem lookup_insert_other {s : ActionStore V} (h : Named s) {id : UUID}
    {record : ActionRecord V} (hid : id ≠ record.id) :
    (s.insert record).lookup id = s.lookup id := by
  unfold ActionStore.lookup
  rw [insert_refs_ne hid]
  rcases hq : s.refs id with _ | q
  · rfl
  · obtain ⟨own, hown, -⟩ := h id q hq
    simp only [Option.bind_some, insert_heap_old hown, hown]

theorem lookup_write_self {s : ActionStore V} {id : UUID} {r : Nat} {record : ActionRecord V}
    (h : s.lookup id = some (r, record)) (f : ActionRecord V → ActionRecord V) :
    (s.write r f).lookup id = some (r, f record) := by
  obtain ⟨hr, hv⟩ := lookup_eq_some.mp h
  exact lookup_eq_some.mpr ⟨hr, write_heap_self hv f⟩

/-- The step does nothing that concerns the id. -/
structure Untouched (id : UUID) (w u : World V) : Prop where
  lookup_eq : u.store.lookup id = w.store.lookup id
  executions_eq : ∀ x e, e.request.id = id → (u.executions x = some e ↔ w.executions x = some e)
  log_eq : ∃ extra, u.log = w.log ++ extra ∧
    ∀ entry ∈ extra, entry ≠ .called id ∧ entry ≠ .rejected id

theorem Untouched.current_eq {id : UUID} {w u : World V} (h : Untouched id w u) :
    current u id = current w id := congrArg (Option.map Prod.snd) h.lookup_eq

theorem Untouched.inFlight_iff {id : UUID} {w u : World V} (h : Untouched id w u) (x : Nat) :
    InFlight u id x ↔ InFlight w id x := by
  constructor
  · rintro ⟨e, he, hid⟩
    exact ⟨e, (h.executions_eq x e hid).mp he, hid⟩
  · rintro ⟨e, he, hid⟩
    exact ⟨e, (h.executions_eq x e hid).mpr he, hid⟩

theorem Untouched.invariant {id : UUID} {w u : World V} (h : Untouched id w u)
    (hi : Invariant id w) (hn : Named u.store) (hx : ExecutionsNamed u) : Invariant id u := by
  obtain ⟨extra, hlog, hextra⟩ := h.log_eq
  have hopen : Open u id ↔ Open w id := by
    unfold Open
    rw [h.current_eq]
  have notin : ∀ entry : Entry, entry = .called id ∨ entry = .rejected id →
      entry ∉ w.log → entry ∉ u.log := by
    intro entry hentry hw hu
    rw [hlog] at hu
    rcases List.mem_append.mp hu with hu | hu
    · exact hw hu
    · rcases hentry with rfl | rfl
      · exact (hextra _ hu).1 rfl
      · exact (hextra _ hu).2 rfl
  constructor
  · exact hn
  · exact hx
  · intro x e he hid
    rw [h.lookup_eq]
    exact hi.awaited x e ((h.executions_eq x e hid).mp he) hid
  · exact fun x y hx hy => hi.alone x y ((h.inFlight_iff x).mp hx) ((h.inFlight_iff y).mp hy)
  · intro ho hnone
    refine notin _ (Or.inl rfl) (hi.open_uncalled (hopen.mp ho) fun x hx => ?_)
    exact hnone x ((h.inFlight_iff x).mpr hx)
  · exact fun ho => notin _ (Or.inr rfl) (hi.open_unrejected (hopen.mp ho))
  · rw [hlog]
    exact callsJustified_append hi.justified fun entry hentry => (hextra entry hentry).1

/-- A step of another id is safe for this one. -/
theorem Untouched.keeps {id : UUID} {w u : World V} (h : Untouched id w u)
    {record : ActionRecord V} (hr : current w id = some record) : current u id = some record :=
  h.current_eq.trans hr

theorem submitAction_awaiting {s : ActionStore V} {request : ActionRequest V}
    (h : request.actionType ∈ approvalRequiredActions) :
    submitAction s request = (s.insert (submittedRecord request), none) := by
  have hst : (evaluate request).1 ≠ .approved := by
    rw [(evaluate_awaiting_iff request).mpr h]
    decide
  simp [submitAction, hst]

/-- What a submission leaves in the store: its record, possibly already failed. -/
theorem submitAction_store (s : ActionStore V) (request : ActionRequest V) :
    (∃ f : ActionRecord V → ActionRecord V, (∀ record, (f record).id = record.id) ∧
      (submitAction s request).1 = (s.insert (submittedRecord request)).write s.heap.length f) ∧
    ∀ e, (submitAction s request).2 = some e → e.request = request ∧ e.ref = s.heap.length := by
  have hid : (s.insert (submittedRecord request)).write s.heap.length id =
      s.insert (submittedRecord request) := by
    simp [ActionStore.write]
  unfold submitAction
  dsimp only
  split
  · split
    · exact ⟨⟨id, fun _ => rfl, hid.symm⟩, by rintro e ⟨⟩; exact ⟨rfl, rfl⟩⟩
    · exact ⟨⟨setFailed _, fun _ => rfl, rfl⟩, by rintro e ⟨⟩⟩
  · exact ⟨⟨id, fun _ => rfl, hid.symm⟩, by rintro e ⟨⟩⟩

/-- What an accepted approval does: it calls the executor and leaves the store, or fails the
record where no executor is registered. -/
theorem approveAction_ok {s t : ActionStore V} {a : UUID} {call : Option (Execution V)}
    (h : approveAction s a = .ok (t, call)) :
    ∃ r record, s.lookup a = some (r, record) ∧ record.status = .awaitingApproval ∧
      ((executorRegistered record.actionType = true ∧ t = s ∧
          call = some ⟨.approveAction, r, rebuildRequest record⟩) ∨
        (t = s.write r (setFailed "No executor available") ∧ call = none)) := by
  unfold approveAction at h
  split at h
  · cases h
  rename_i r record hl
  split at h
  · cases h
  rename_i hst
  rw [not_not] at hst
  refine ⟨r, record, hl, hst, ?_⟩
  split at h
  · rename_i hreg
    cases h
    exact Or.inl ⟨hreg, rfl, rfl⟩
  · cases h
    exact Or.inr ⟨rfl, rfl⟩

theorem rejectAction_ok {s t : ActionStore V} {a : UUID} (h : rejectAction s a = .ok t) :
    ∃ r record, s.lookup a = some (r, record) ∧
      t = s.write r fun record => { record with status := .rejected } := by
  unfold rejectAction at h
  split at h
  · cases h
  rename_i r record hl
  cases h
  exact ⟨r, record, hl, rfl⟩

/-- A store that keeps the addresses keeps the executions named; a new one must be. -/
theorem executionsNamed_update {w : World V} (h : ExecutionsNamed w) {t : ActionStore V}
    (hk : KeepsIds w.store t) (x : Nat) (call : Option (Execution V)) (log : List Entry)
    (hcall : ∀ e, call = some e →
      ∃ record, t.heap[e.ref]? = some record ∧ record.id = e.request.id) :
    ExecutionsNamed ⟨t, Function.update w.executions x call, log⟩ := by
  intro y e he
  by_cases hy : y = x
  · subst hy
    exact hcall e (by simpa using he)
  · obtain ⟨record, hrecord, hid⟩ := h y e (by simpa [hy] using he)
    obtain ⟨kept, hkept, hid'⟩ := hk e.ref record hrecord
    exact ⟨kept, hkept, hid'.trans hid⟩

theorem next_named {w u : World V} {e : Event V} (hn : Named w.store) (hx : ExecutionsNamed w)
    (h : next w e = some u) : Named u.store ∧ ExecutionsNamed u := by
  cases e with
  | submit x request =>
    simp only [next] at h
    split at h
    · cases h
    cases Option.some.inj h
    obtain ⟨⟨f, hf, hstore⟩, hcall⟩ := submitAction_store w.store request
    have hkeep : KeepsIds w.store (submitAction w.store request).1 := by
      rw [hstore]
      exact (insert_keepsIds _ _).trans (write_keepsIds _ _ hf)
    refine ⟨by rw [hstore]; exact write_named (insert_named hn _) _ hf,
      executionsNamed_update hx hkeep x _ _ fun e he => ?_⟩
    obtain ⟨hreq, href⟩ := hcall e he
    refine ⟨f (submittedRecord request), ?_, ?_⟩
    · rw [hstore, href]
      exact write_heap_self (insert_heap_new _ _) f
    · rw [hf, hreq]
      rfl
  | approve x a =>
    simp only [next] at h
    split at h
    · cases h
    split at h
    · cases Option.some.inj h
      exact ⟨hn, hx⟩
    · rename_i t call hok
      cases Option.some.inj h
      obtain ⟨r, record, hl, -, ⟨-, rfl, rfl⟩ | ⟨rfl, rfl⟩⟩ := approveAction_ok hok
      · refine ⟨hn, executionsNamed_update hx (fun r record hr => ⟨record, hr, rfl⟩) x _ _ ?_⟩
        rintro e ⟨⟩
        exact ⟨record, (lookup_eq_some.mp hl).2, rfl⟩
      · refine ⟨write_named hn r fun _ => rfl, executionsNamed_update hx
          (write_keepsIds _ r (f := setFailed _) fun _ => rfl) x none _ fun _ hnone => nomatch hnone⟩
  | reject a =>
    simp only [next] at h
    split at h
    · cases Option.some.inj h
      exact ⟨hn, hx⟩
    · rename_i t hok
      cases Option.some.inj h
      obtain ⟨r, record, -, rfl⟩ := rejectAction_ok hok
      refine ⟨write_named hn r fun _ => rfl, fun y e he => ?_⟩
      obtain ⟨old, hold, hid⟩ := hx y e he
      obtain ⟨kept, hkept, hid'⟩ := write_keepsIds w.store r
        (f := fun record => { record with status := .rejected }) (fun _ => rfl) e.ref old hold
      exact ⟨kept, hkept, hid'.trans hid⟩
  | finish x outcome =>
    obtain ⟨e, he, rfl⟩ := Option.map_eq_some_iff.mp h
    have hid := applyOutcome_id e.handler outcome
    exact ⟨write_named hn e.ref hid,
      executionsNamed_update hx (write_keepsIds _ _ hid) x none _ fun _ hnone => nomatch hnone⟩

theorem start_invariant {w : World V} (h : (actions (V := V)).start w) (id : UUID) :
    Invariant id w := by
  obtain ⟨hstore, hexec, hlog⟩ := h
  have hflight : ∀ x, ¬ InFlight w id x := by
    rintro x ⟨e, he, -⟩
    rw [hexec x] at he
    cases he
  constructor
  · intro a r hr
    rw [hstore] at hr
    cases hr
  · intro x e he
    rw [hexec x] at he
    cases he
  · intro x e he
    rw [hexec x] at he
    cases he
  · exact fun x y hx => (hflight x hx).elim
  · simp [hlog]
  · simp [hlog]
  · intro before hb
    rw [hlog, List.prefix_nil] at hb
    simp at hb

/-- Requests for other ids. -/
def Concerns (id : UUID) (w : World V) : Event V → Prop
  | .submit _ request => request.id = id
  | .approve _ a => a = id
  | .reject a => a = id
  | .finish x _ => InFlight w id x

theorem next_untouched {id : UUID} {w u : World V} {e : Event V} (hi : Invariant id w)
    (hc : ¬ Concerns id w e) (h : next w e = some u) : Untouched id w u := by
  have same : Untouched id w w :=
    ⟨rfl, fun _ _ _ => Iff.rfl, [], by simp, by simp⟩
  have updated : ∀ (x : Nat) (call : Option (Execution V)),
      (∀ e, w.executions x = some e → e.request.id ≠ id) →
      (∀ e, call = some e → e.request.id ≠ id) → ∀ y e, e.request.id = id →
      (Function.update w.executions x call y = some e ↔ w.executions y = some e) := by
    intro x call hold hnew y e he
    by_cases hy : y = x
    · subst hy
      rw [Function.update_self]
      exact ⟨fun hcall => (hnew e hcall he).elim, fun hcall => (hold e hcall he).elim⟩
    · rw [Function.update_of_ne hy]
  cases e with
  | submit x request =>
    have hne : request.id ≠ id := hc
    simp only [next] at h
    split at h
    · cases h
    rename_i hidle
    cases Option.some.inj h
    obtain ⟨⟨f, hf, hstore⟩, hcall⟩ := submitAction_store w.store request
    refine ⟨?_, updated x _ (fun e he => ?_) (fun e he => ?_), calls _, rfl, ?_⟩
    · dsimp only
      rw [hstore, lookup_write_other (insert_named hi.named _) (insert_heap_new _ _) hne f,
        lookup_insert_other hi.named fun heq => hne heq.symm]
    · simp [he] at hidle
    · rw [(hcall e he).1]
      exact hne
    · intro entry hentry
      obtain ⟨e, he, rfl⟩ := List.mem_map.mp hentry
      rw [(hcall e (Option.mem_toList.mp he)).1]
      simpa using hne
  | approve x a =>
    have hne : a ≠ id := hc
    simp only [next] at h
    split at h
    · cases h
    rename_i hidle
    split at h
    · cases Option.some.inj h
      exact same
    · rename_i t call hok
      cases Option.some.inj h
      have hidle' : ∀ e, w.executions x = some e → e.request.id ≠ id := by
        intro e he
        simp [he] at hidle
      obtain ⟨r, record, hl, -, ⟨-, rfl, rfl⟩ | ⟨rfl, rfl⟩⟩ := approveAction_ok hok
      · have hid := lookup_id hi.named hl
        have hreq : (rebuildRequest record).id ≠ id := fun heq => hne (hid.symm.trans heq)
        refine ⟨rfl, updated x _ hidle' (by rintro e ⟨⟩; exact hreq), _, rfl, ?_⟩
        simpa [calls] using hreq
      · have hid := lookup_id hi.named hl
        refine ⟨lookup_write_other hi.named (lookup_eq_some.mp hl).2
          (fun heq => hne (hid.symm.trans heq)) _, updated x _ hidle' (by rintro e ⟨⟩), _, rfl, ?_⟩
        simp [calls]
  | reject a =>
    have hne : a ≠ id := hc
    simp only [next] at h
    split at h
    · cases Option.some.inj h
      exact same
    · rename_i t hok
      cases Option.some.inj h
      obtain ⟨r, record, hl, rfl⟩ := rejectAction_ok hok
      have hid := lookup_id hi.named hl
      refine ⟨lookup_write_other hi.named (lookup_eq_some.mp hl).2
        (fun heq => hne (hid.symm.trans heq)) _, fun _ _ _ => Iff.rfl, _, rfl, ?_⟩
      simpa using hne
  | finish x outcome =>
    obtain ⟨e, he, rfl⟩ := Option.map_eq_some_iff.mp h
    have hne : e.request.id ≠ id := fun heq => hc ⟨e, he, heq⟩
    obtain ⟨record, hrecord, hid⟩ := hi.executions_named x e he
    refine ⟨lookup_write_other hi.named hrecord (fun heq => hne (hid.symm.trans heq)) _,
      updated x none (fun f hf => ?_) (by rintro f ⟨⟩), [], by simp, by simp⟩
    rw [he] at hf
    exact Option.some.inj hf ▸ hne

theorem current_of_lookup {w : World V} {id : UUID} {r : Nat} {record : ActionRecord V}
    (h : w.store.lookup id = some (r, record)) : current w id = some record := by
  simp [current, h]

theorem Terminal.ne_awaiting {status : ActionStatus} (h : Terminal status) :
    status ≠ .awaitingApproval := by
  rintro rfl
  rcases h with h | h | h <;> cases h

/-- Where the step leaves a record of the id that does not wait for approval and nothing in
flight, little remains to be shown. -/
theorem settled_invariant {id : UUID} {u : World V} (hn : Named u.store) (hx : ExecutionsNamed u)
    {record : ActionRecord V} (hr : current u id = some record)
    (hst : record.status ≠ .awaitingApproval) (hnone : ∀ x, ¬ InFlight u id x)
    (hj : CallsJustified id u.log) : Invariant id u where
  named := hn
  executions_named := hx
  awaited x e he hid := (hnone x ⟨e, he, hid⟩).elim
  alone x _ hx := (hnone x hx).elim
  open_uncalled ho := (hst (ho record hr)).elim
  open_unrejected ho := (hst (ho record hr)).elim
  justified := hj

theorem submit_step {id : UUID} {w u : World V} {x : Nat} {request : ActionRequest V}
    (hi : Invariant id w) (hid : request.id = id)
    (hrisk : request.actionType ∈ approvalRequiredActions)
    (hg : Careful id w (.submit x request)) (h : next w (.submit x request) = some u) :
    Invariant id u ∧ ∀ record, current w id = some record → Terminal record.status →
      current u id = some record := by
  obtain ⟨hn, hx⟩ := next_named hi.named hi.executions_named h
  obtain ⟨hnone, hopen⟩ := hg hid
  simp only [next, submitAction_awaiting hrisk] at h
  split at h
  · cases h
  rename_i hidle
  have hidle : w.executions x = none := by simpa using hidle
  have hexec : Function.update w.executions x none = w.executions := by
    rw [← hidle, Function.update_eq_self]
  cases Option.some.inj h
  have hflight : ∀ y, ¬ InFlight (World.mk (w.store.insert (submittedRecord request))
      (Function.update w.executions x none) (w.log ++ calls (none : Option (Execution V)))) id y := by
    rintro y ⟨e, he, hreq⟩
    exact hnone y ⟨e, by simpa [hexec] using he, hreq⟩
  refine ⟨⟨hn, hx, fun y e he hreq => (hflight y ⟨e, he, hreq⟩).elim,
    fun y _ hy => (hflight y hy).elim, fun _ _ => ?_, fun _ => ?_, ?_⟩, fun record hr ht => ?_⟩
  · simpa [calls] using hi.open_uncalled hopen hnone
  · simpa [calls] using hi.open_unrejected hopen
  · simpa [calls] using hi.justified
  · exact (ht.ne_awaiting (hopen record hr)).elim

theorem approve_step {id : UUID} {w u : World V} {x : Nat} (hi : Invariant id w)
    (hg : Careful id w (.approve x id)) (h : next w (.approve x id) = some u) :
    Invariant id u ∧ ∀ record, current w id = some record → Terminal record.status →
      current u id = some record := by
  obtain ⟨hn, hx⟩ := next_named hi.named hi.executions_named h
  have hnone := hg rfl
  simp only [next] at h
  split at h
  · cases h
  rename_i hidle
  split at h
  · cases Option.some.inj h
    exact ⟨hi, fun _ hr _ => hr⟩
  rename_i t call hok
  obtain ⟨r, record, hl, hst, hcase⟩ := approveAction_ok hok
  have hid := lookup_id hi.named hl
  have hcur := current_of_lookup hl
  have hopen : Open w id := by
    intro other hother
    rw [hcur] at hother
    exact Option.some.inj hother ▸ hst
  have hrejected := hi.open_unrejected hopen
  have hcalled := hi.open_uncalled hopen hnone
  have happroved : CallsJustified id (w.log ++ [.approved id]) :=
    callsJustified_concat.mpr ⟨hi.justified, by rintro ⟨⟩⟩
  have hterm : ∀ other, current w id = some other → ¬ Terminal other.status :=
    fun other hother ht => ht.ne_awaiting (hopen other hother)
  refine ⟨?_, fun other hother ht => (hterm other hother ht).elim⟩
  rcases hcase with ⟨-, rfl, rfl⟩ | ⟨rfl, rfl⟩
  · cases Option.some.inj h
    have hlog : w.log ++ .approved id :: calls
        (some (⟨.approveAction, r, rebuildRequest record⟩ : Execution V)) =
        (w.log ++ [.approved id]) ++ [.called id] := by
      simp [calls, rebuildRequest, hid]
    have hflight : ∀ y, (∃ e, Function.update w.executions x
        (some ⟨.approveAction, r, rebuildRequest record⟩) y = some e ∧ e.request.id = id) →
        y = x := by
      rintro y ⟨e, he, hreq⟩
      by_contra hy
      exact hnone y ⟨e, by simpa [hy] using he, hreq⟩
    have hmine : InFlight (World.mk w.store (Function.update w.executions x
        (some ⟨.approveAction, r, rebuildRequest record⟩)) (w.log ++ .approved id :: calls
        (some ⟨.approveAction, r, rebuildRequest record⟩))) id x :=
      ⟨_, Function.update_self _ _ _, hid⟩
    refine ⟨hn, hx, fun y e he hreq => ?_, fun y z hy hz => (hflight y hy).trans (hflight z hz).symm,
      fun _ hfree => (hfree x hmine).elim, fun _ => ?_, ?_⟩
    · obtain rfl := hflight y ⟨e, he, hreq⟩
      dsimp only at he
      rw [Function.update_self] at he
      cases he
      exact ⟨rfl, record, hl, hst⟩
    · dsimp only
      rw [hlog]
      simp [hrejected]
    · dsimp only
      rw [hlog]
      refine callsJustified_concat.mpr ⟨happroved, fun _ => ?_⟩
      simp [hrejected, hcalled]
  · cases Option.some.inj h
    refine settled_invariant hn hx (current_of_lookup (lookup_write_self hl _)) ?_ ?_ ?_
    · simp [setFailed]
    · rintro y ⟨e, he, hreq⟩
      by_cases hy : y = x
      · subst hy
        simp at he
      · exact hnone y ⟨e, by simpa [hy] using he, hreq⟩
    · simpa [calls] using happroved

theorem reject_step {id : UUID} {w u : World V} (hi : Invariant id w)
    (hg : Careful id w (.reject id)) (h : next w (.reject id) = some u) :
    Invariant id u ∧ ∀ record, current w id = some record → Terminal record.status →
      current u id = some record := by
  obtain ⟨hn, hx⟩ := next_named hi.named hi.executions_named h
  obtain ⟨hnone, hsettled⟩ := hg rfl
  simp only [next] at h
  split at h
  · cases Option.some.inj h
    exact ⟨hi, fun _ hr _ => hr⟩
  rename_i t hok
  obtain ⟨r, record, hl, rfl⟩ := rejectAction_ok hok
  cases Option.some.inj h
  have hcur := current_of_lookup hl
  have hafter := lookup_write_self hl fun record => { record with status := .rejected }
  refine ⟨settled_invariant hn hx (current_of_lookup hafter) (by simp) hnone ?_, ?_⟩
  · exact callsJustified_concat.mpr ⟨hi.justified, by rintro ⟨⟩⟩
  · intro other hother ht
    rw [hcur] at hother
    cases hother
    obtain ⟨hcompleted, hfailed⟩ := hsettled record hcur
    have hrejected : record.status = .rejected := by
      rcases ht with ht | ht | ht
      · exact (hcompleted ht).elim
      · exact (hfailed ht).elim
      · exact ht
    rw [current_of_lookup hafter, ← hrejected]

theorem finish_step {id : UUID} {w u : World V} {x : Nat} {outcome : Outcome V}
    (hi : Invariant id w) (hflight : InFlight w id x)
    (hg : Careful id w (.finish x outcome)) (h : next w (.finish x outcome) = some u) :
    Invariant id u ∧ ∀ record, current w id = some record → Terminal record.status →
      current u id = some record := by
  obtain ⟨hn, hx⟩ := next_named hi.named hi.executions_named h
  obtain ⟨status, output, rollbackData, error, rfl, hst⟩ := hg hflight
  obtain ⟨e, he, rfl⟩ := Option.map_eq_some_iff.mp h
  have hid : e.request.id = id := by
    obtain ⟨f, hf, hid⟩ := hflight
    rw [he] at hf
    exact Option.some.inj hf ▸ hid
  obtain ⟨hhandler, record, hl, hawait⟩ := hi.awaited x e he hid
  have hafter := lookup_write_self hl
    (applyOutcome e.handler (.result status output rollbackData error))
  refine ⟨settled_invariant hn hx (current_of_lookup hafter) ?_ ?_ hi.justified, ?_⟩
  · rw [hhandler]
    exact hst
  · rintro y ⟨f, hf, hreq⟩
    by_cases hy : y = x
    · subst hy
      simp at hf
    · dsimp only at hf
      rw [Function.update_of_ne hy] at hf
      exact hy (hi.alone y x ⟨f, hf, hreq⟩ hflight)
  · intro other hother ht
    rw [current_of_lookup hl] at hother
    cases hother
    exact (ht.ne_awaiting hawait).elim

theorem next_careful {id : UUID} {w u : World V} {e : Event V} (hi : Invariant id w)
    (hg : RequiresApproval id e ∧ Careful id w e) (h : next w e = some u) :
    Invariant id u ∧ ∀ record, current w id = some record → Terminal record.status →
      current u id = some record := by
  by_cases hc : Concerns id w e
  · cases e with
    | submit x request => exact submit_step hi hc (hg.1 hc) hg.2 h
    | approve x a =>
      have hid : a = id := hc
      subst hid
      exact approve_step hi hg.2 h
    | reject a =>
      have hid : a = id := hc
      subst hid
      exact reject_step hi hg.2 h
    | finish x outcome => exact finish_step hi hc hg.2 h
  · have hu := next_untouched hi hc h
    obtain ⟨hn, hx⟩ := next_named hi.named hi.executions_named h
    exact ⟨hu.invariant hi hn hx, fun _ hr _ => hu.keeps hr⟩

/-- In every run whose requests for the id are careful, its executor is called at most once,
after an approval and after no rejection, and its terminal record never changes. -/
theorem careful_runs_safe {w : World V} (hw : (actions (V := V)).start w) (id : UUID)
    {es : List (Event V)} (hrisk : ∀ e ∈ es, RequiresApproval id e)
    (hg : GuardedTrace actions (Careful id) w es) : GuardedTrace actions (Safe id) w es := by
  refine TransitionSystem.guardedTrace_imp (I := Invariant id)
    (fun _ _ _ hi hg hn => (next_careful hi hg hn).1) (fun w e hi hg u hn => ?_)
    (start_invariant hw id) (hg.and_events hrisk)
  obtain ⟨hiu, hterm⟩ := next_careful hi hg hn
  exact ⟨hiu.justified, hterm⟩

def isolation : ActionRequest Unit where
  id := 7
  incidentId := 1
  tenantId := 1
  actionType := .isolateHost
  target := "host-1"
  parameters := []
  requestedBy := "agent"
  rationale := "beaconing"
  autoRollback := false
  rollbackAfterSeconds := none

def idle : World Unit := ⟨⟨fun _ => none, []⟩, fun _ => none, []⟩

theorem idle_start : (actions (V := Unit)).start idle := ⟨rfl, fun _ => rfl, rfl⟩

/-- A result settles the approval before the next request for it. -/
theorem one_approval_runs_safe : GuardedTrace actions (Safe 7) idle
    [.submit 0 isolation, .approve 1 7, .finish 1 (.result .completed [] [] none),
      .approve 2 7] := by
  refine careful_runs_safe idle_start 7 ?_ ⟨?_, ?_⟩
  · simp [RequiresApproval, isolation, approvalRequiredActions]
  · refine fun _ => ⟨?_, ?_⟩
    · rintro x ⟨e, he, -⟩
      cases he
    · rintro record hr
      cases hr
  rintro - ⟨⟩
  refine ⟨fun _ x hx => ?_, ?_⟩
  · obtain ⟨e, he, -⟩ := hx
    simp [idle] at he
  rintro - ⟨⟩
  refine ⟨fun _ => ⟨_, _, _, _, rfl, by decide⟩, ?_⟩
  rintro - ⟨⟩
  refine ⟨fun _ x hx => ?_, fun _ _ => trivial⟩
  obtain ⟨e, he, -⟩ := hx
  by_cases h1 : x = 1
  · subst h1
    simp at he
  · simp [h1, idle, isolation] at he

/-- The status is checked before the awaited execution and written after it, so a second
approval finds the record still waiting. -/
theorem second_approval_calls_again : ¬ ∀ (w : World Unit) (id : UUID) (es : List (Event Unit)),
    (actions (V := Unit)).start w → (∀ e ∈ es, RequiresApproval id e) →
      GuardedTrace actions (Safe id) w es := by
  intro h
  have hsafe := h idle 7 [.submit 0 isolation, .approve 1 7, .approve 2 7] idle_start
    (by simp [RequiresApproval, isolation, approvalRequiredActions])
  obtain ⟨hcalls, -⟩ := ((hsafe.2 _ rfl).2 _ rfl).1 _ rfl
  exact (hcalls [.approved 7, .called 7, .approved 7] List.prefix_rfl).2.2 (by decide)

end ActionApproval
