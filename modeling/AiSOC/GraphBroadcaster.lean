import Mathlib.Data.List.Perm.Basic
import AiSOC.TransitionSystem

/-! # Graph update broadcaster

Subscribers with bounded channels, and any number of calls that subscribe, unsubscribe,
dispatch and stop. A dispatch copies its targets under the lock and sends to them one by one
outside of it; an unsubscription takes the subscriber out under the lock and closes its
channel afterwards; a stop looks at the stop channel and closes it in two steps. What Go
panics on is recorded as a fault. -/
namespace GraphBroadcaster

open TransitionSystem (System Reachable anyStep anyStep_guarded guardedTrace_cons runTrace)

variable {E : Type}

/-- `E` is the payload; an empty tenant is everybody's. -/
structure Envelope (E : Type) where
  tenantID : String
  payload : E
  deriving DecidableEq, Repr

/-- The channel of one subscriber and what its client has read from it. -/
structure Subscriber (E : Type) where
  tenantID : String
  capacity : Nat
  buffer : List (Envelope E)
  received : List (Envelope E)
  closed : Bool
  deriving DecidableEq, Repr

structure Dispatch (E : Type) where
  env : Envelope E
  targets : List Nat
  deriving DecidableEq, Repr

inductive Fault where
  | sendOnClosed (id : Nat)
  | closeOfClosed (id : Nat)
  | stopClosedTwice
  deriving DecidableEq, Repr

/-- `registered` are the keys of the subscriber map, `closing` the subscribers that were
taken out of it and are about to be closed, `stopping` the stops that found the stop channel
open. -/
structure World (E : Type) where
  subscribers : Nat → Option (Subscriber E)
  registered : List Nat
  nextID : Nat
  dropped : Nat
  dispatches : Nat → Option (Dispatch E)
  closing : Nat → Option Nat
  stopping : Nat → Bool
  stopped : Bool
  faults : List Fault

/-- Calls are named by their first argument. Go's map order is arbitrary, so a dispatch says
in which order it found its targets. -/
inductive Event (E : Type) where
  | subscribe (tenantID : String) (buf : Int)
  | unsubscribe (u id : Nat)
  | close (u : Nat)
  | dispatch (d : Nat) (env : Envelope E) (targets : List Nat)
  | send (d : Nat)
  | receive (id : Nat)
  | stopCheck (s : Nat)
  | stopClose (s : Nat)

/-- The subscriber sees the envelope. -/
def inScope (sub : Subscriber E) (env : Envelope E) : Bool :=
  ! (sub.tenantID ≠ "" && env.tenantID ≠ "" && sub.tenantID ≠ env.tenantID)

def targets (w : World E) (env : Envelope E) : List Nat :=
  w.registered.filter fun id => (w.subscribers id).any fun sub => inScope sub env

def setSubscriber (w : World E) (id : Nat) (sub : Subscriber E) : World E :=
  { w with subscribers := Function.update w.subscribers id (some sub) }

def subscribeWithBuffer (bufferSize : Nat) (w : World E) (tenantID : String) (buf : Int) :
    World E :=
  let id := w.nextID + 1
  { setSubscriber w id ⟨tenantID, if buf ≤ 0 then bufferSize else buf.toNat, [], [], false⟩ with
    nextID := id
    registered := id :: w.registered }

/-- One round of the send loop: a full buffer drops the envelope, a closed channel panics. -/
def sendTo (w : World E) (env : Envelope E) (id : Nat) : World E :=
  match w.subscribers id with
  | none => w
  | some sub =>
    if sub.closed then { w with faults := .sendOnClosed id :: w.faults }
    else if sub.buffer.length < sub.capacity then
      setSubscriber w id { sub with buffer := sub.buffer ++ [env] }
    else { w with dropped := w.dropped + 1 }

def closeUpdates (w : World E) (id : Nat) : World E :=
  match w.subscribers id with
  | none => w
  | some sub =>
    if sub.closed then { w with faults := .closeOfClosed id :: w.faults }
    else setSubscriber w id { sub with closed := true }

def next (bufferSize : Nat) (w : World E) : Event E → Option (World E)
  | .subscribe tenantID buf => some (subscribeWithBuffer bufferSize w tenantID buf)
  | .unsubscribe u id =>
    if (w.closing u).isSome then none
    else if id ∈ w.registered then
      some { w with
        registered := w.registered.erase id
        closing := Function.update w.closing u (some id) }
    else some w
  | .close u =>
    (w.closing u).map fun id =>
      { closeUpdates w id with closing := Function.update w.closing u none }
  | .dispatch d env order =>
    if (w.dispatches d).isNone ∧ order.Perm (targets w env) then
      some { w with dispatches := Function.update w.dispatches d (some ⟨env, order⟩) }
    else none
  | .send d =>
    match w.dispatches d with
    | some ⟨env, id :: rest⟩ =>
      some { sendTo w env id with
        dispatches := Function.update w.dispatches d (some ⟨env, rest⟩) }
    | _ => none
  | .receive id =>
    match w.subscribers id with
    | some sub =>
      match sub.buffer with
      | env :: rest =>
        some (setSubscriber w id
          { sub with buffer := rest, received := sub.received ++ [env] })
      | [] => none
    | none => none
  | .stopCheck s =>
    if w.stopping s then none
    else if w.stopped then some w
    else some { w with stopping := Function.update w.stopping s true }
  | .stopClose s =>
    if w.stopping s then
      let w := { w with stopping := Function.update w.stopping s false }
      if w.stopped then some { w with faults := .stopClosedTwice :: w.faults }
      else some { w with stopped := true }
    else none

/-- A broadcaster as `New` makes it. -/
def broadcaster (bufferSize : Nat) : System (World E) (Event E) where
  start w := (∀ id, w.subscribers id = none) ∧ w.registered = [] ∧ w.nextID = 0 ∧
    w.dropped = 0 ∧ (∀ d, w.dispatches d = none) ∧ (∀ u, w.closing u = none) ∧
    (∀ s, w.stopping s = false) ∧ w.stopped = false ∧ w.faults = []
  next := next bufferSize

/-- No channel is closed while a dispatch has it on its list, and no stop looks at the stop
channel while another one is about to close it. -/
def Orderly (w : World E) : Event E → Prop
  | .close u => ∀ id, w.closing u = some id → ∀ d t, w.dispatches d = some t → id ∉ t.targets
  | .stopCheck _ => ∀ s, w.stopping s = false
  | _ => True

def Live (w : World E) (id : Nat) : Prop :=
  ∃ sub, w.subscribers id = some sub ∧ sub.closed = false

structure Invariant (w : World E) : Prop where
  known : ∀ id sub, w.subscribers id = some sub → id ≤ w.nextID
  registered_live : ∀ id ∈ w.registered, Live w id
  registered_nodup : w.registered.Nodup
  targets_live : ∀ d t, w.dispatches d = some t → ∀ id ∈ t.targets, Live w id
  closing_live : ∀ u id, w.closing u = some id → Live w id ∧ id ∉ w.registered
  closing_once : ∀ u v id, w.closing u = some id → w.closing v = some id → u = v
  one_stop : ∀ r s, w.stopping r = true → w.stopping s = true → r = s
  stopping_open : ∀ s, w.stopping s = true → w.stopped = false
  faultless : w.faults = []

theorem Live.le_nextID {w : World E} (h : Invariant w) {id : Nat} (hl : Live w id) :
    id ≤ w.nextID := by
  obtain ⟨sub, hsub, -⟩ := hl
  exact h.known id sub hsub

theorem Live.setSubscriber {w : World E} {id k : Nat} {sub : Subscriber E} (h : Live w k)
    (hsub : k = id → sub.closed = false) : Live (setSubscriber w id sub) k := by
  by_cases hk : k = id
  · subst hk
    exact ⟨sub, Function.update_self .., hsub rfl⟩
  · obtain ⟨old, hold, hclosed⟩ := h
    exact ⟨old, (Function.update_of_ne hk ..).trans hold, hclosed⟩

theorem start_invariant {bufferSize : Nat} {w : World E} (h : (broadcaster bufferSize).start w) :
    Invariant w := by
  obtain ⟨hsubs, hreg, -, -, hdispatches, hclosing, hstopping, -, hfaults⟩ := h
  constructor <;> simp_all

theorem subscribe_invariant {bufferSize : Nat} {w : World E} (h : Invariant w)
    (tenantID : String) (buf : Int) :
    Invariant (subscribeWithBuffer bufferSize w tenantID buf) := by
  have keep : ∀ {id}, Live w id → Live (subscribeWithBuffer bufferSize w tenantID buf) id :=
    fun hl => hl.setSubscriber fun _ => rfl
  have fresh : ∀ {id}, Live w id → id ≠ w.nextID + 1 := by
    intro id hl
    have := hl.le_nextID h
    omega
  constructor
  · intro id sub hsub
    by_cases hid : id = w.nextID + 1
    · exact Nat.le_of_eq hid
    · have hold : w.subscribers id = some sub := by
        simpa [subscribeWithBuffer, setSubscriber, hid] using hsub
      exact Nat.le_succ_of_le (h.known id sub hold)
  · intro id hid
    rcases List.mem_cons.mp hid with rfl | hid
    · exact ⟨_, Function.update_self .., rfl⟩
    · exact keep (h.registered_live id hid)
  · exact List.nodup_cons.mpr
      ⟨fun hmem => fresh (h.registered_live _ hmem) rfl, h.registered_nodup⟩
  · exact fun d t ht id hid => keep (h.targets_live d t ht id hid)
  · intro u id hu
    obtain ⟨hl, hnot⟩ := h.closing_live u id hu
    refine ⟨keep hl, fun hmem => ?_⟩
    rcases List.mem_cons.mp hmem with hid | hmem
    · exact fresh hl hid
    · exact hnot hmem
  · exact h.closing_once
  · exact h.one_stop
  · exact h.stopping_open
  · exact h.faultless

theorem unsubscribe_invariant {w : World E} (h : Invariant w) {u id : Nat}
    (hid : id ∈ w.registered) :
    Invariant { w with
      registered := w.registered.erase id
      closing := Function.update w.closing u (some id) } := by
  have hgone : id ∉ w.registered.erase id := h.registered_nodup.not_mem_erase
  have holder : ∀ v k, w.closing v = some k → k ≠ id := by
    rintro v k hv rfl
    exact (h.closing_live v k hv).2 hid
  constructor
  · exact h.known
  · exact fun k hk => h.registered_live k (List.mem_of_mem_erase hk)
  · exact h.registered_nodup.erase id
  · exact h.targets_live
  · intro v k hv
    by_cases hvu : v = u
    · subst hvu
      obtain rfl : id = k := by simpa using hv
      exact ⟨h.registered_live id hid, hgone⟩
    · have hv : w.closing v = some k := by simpa [hvu] using hv
      obtain ⟨hl, hnot⟩ := h.closing_live v k hv
      exact ⟨hl, fun hmem => hnot (List.mem_of_mem_erase hmem)⟩
  · intro v v' k hv hv'
    by_cases hvu : v = u <;> by_cases hvu' : v' = u
    · exact hvu.trans hvu'.symm
    · subst hvu
      obtain rfl : id = k := by simpa using hv
      exact (holder v' id (by simpa [hvu'] using hv') rfl).elim
    · subst hvu'
      obtain rfl : id = k := by simpa using hv'
      exact (holder v id (by simpa [hvu] using hv) rfl).elim
    · exact h.closing_once v v' k (by simpa [hvu] using hv) (by simpa [hvu'] using hv')
  · exact h.one_stop
  · exact h.stopping_open
  · exact h.faultless

/-- Closing a channel that no dispatch has on its list. -/
theorem close_invariant {w : World E} (h : Invariant w) {u id : Nat} (hu : w.closing u = some id)
    (hfree : ∀ d t, w.dispatches d = some t → id ∉ t.targets) :
    Invariant { closeUpdates w id with closing := Function.update w.closing u none } := by
  obtain ⟨⟨sub, hsub, hopen⟩, hnot⟩ := h.closing_live u id hu
  have hclose : closeUpdates w id = setSubscriber w id { sub with closed := true } := by
    simp [closeUpdates, hsub, hopen]
  rw [hclose]
  have keep : ∀ {k}, Live w k → k ≠ id →
      Live (setSubscriber w id { sub with closed := true }) k :=
    fun hl hk => hl.setSubscriber fun heq => (hk heq).elim
  have others : ∀ {v k}, Function.update w.closing u none v = some k →
      v ≠ u ∧ w.closing v = some k := by
    intro v k hv
    by_cases hvu : v = u
    · subst hvu
      simp at hv
    · exact ⟨hvu, by simpa [hvu] using hv⟩
  constructor
  · intro k s hk
    by_cases hkid : k = id
    · exact hkid ▸ h.known id sub hsub
    · exact h.known k s (by simpa [setSubscriber, hkid] using hk)
  · exact fun k hk => keep (h.registered_live k hk) fun heq => hnot (heq ▸ hk)
  · exact h.registered_nodup
  · exact fun d t ht k hk => keep (h.targets_live d t ht k hk) fun heq => hfree d t ht (heq ▸ hk)
  · intro v k hv
    obtain ⟨hvu, hold⟩ := others hv
    obtain ⟨hl, hk⟩ := h.closing_live v k hold
    refine ⟨keep hl fun heq => ?_, hk⟩
    subst heq
    exact hvu (h.closing_once v u k hold hu)
  · exact fun v v' k hv hv' => h.closing_once v v' k (others hv).2 (others hv').2
  · exact h.one_stop
  · exact h.stopping_open
  · exact h.faultless

/-- The channels may change, as long as none is closed and none appears. -/
theorem Invariant.subscribers {w : World E} (h : Invariant w) {id : Nat} {old sub : Subscriber E}
    (hold : w.subscribers id = some old) (hclosed : sub.closed = old.closed) :
    Invariant (setSubscriber w id sub) := by
  have keep : ∀ {k}, Live w k → Live (setSubscriber w id sub) k := by
    intro k hl
    refine hl.setSubscriber fun hk => ?_
    obtain ⟨s, hs, hopen⟩ := hl
    subst hk
    cases hold.symm.trans hs
    exact hclosed.trans hopen
  constructor
  · intro k s hk
    by_cases hkid : k = id
    · exact hkid ▸ h.known id old hold
    · exact h.known k s (by simpa [setSubscriber, hkid] using hk)
  · exact fun k hk => keep (h.registered_live k hk)
  · exact h.registered_nodup
  · exact fun d t ht k hk => keep (h.targets_live d t ht k hk)
  · exact fun u k hu => ⟨keep (h.closing_live u k hu).1, (h.closing_live u k hu).2⟩
  · exact h.closing_once
  · exact h.one_stop
  · exact h.stopping_open
  · exact h.faultless

/-- A dispatch may go on with any list of live targets. -/
theorem Invariant.dispatches {w : World E} (h : Invariant w) (d : Nat) (t : Dispatch E)
    (ht : ∀ id ∈ t.targets, Live w id) :
    Invariant { w with dispatches := Function.update w.dispatches d (some t) } := by
  refine ⟨h.known, h.registered_live, h.registered_nodup, fun c s hc => ?_, h.closing_live,
    h.closing_once, h.one_stop, h.stopping_open, h.faultless⟩
  by_cases hcd : c = d
  · subst hcd
    cases (Function.update_self ..).symm.trans hc
    exact ht
  · exact h.targets_live c s (by simpa [hcd] using hc)

theorem sendTo_invariant {w : World E} (h : Invariant w) (env : Envelope E) {id : Nat}
    (hl : Live w id) : Invariant (sendTo w env id) := by
  obtain ⟨sub, hsub, hopen⟩ := hl
  unfold sendTo
  rw [hsub]
  dsimp only
  split
  · simp_all
  · split
    · exact h.subscribers hsub rfl
    · exact ⟨h.known, h.registered_live, h.registered_nodup, h.targets_live, h.closing_live,
        h.closing_once, h.one_stop, h.stopping_open, h.faultless⟩

theorem sendTo_dispatches (w : World E) (env : Envelope E) (id : Nat) :
    (sendTo w env id).dispatches = w.dispatches := by
  unfold sendTo
  split
  · rfl
  · split
    · rfl
    · split <;> rfl

theorem next_invariant {bufferSize : Nat} {w u : World E} {e : Event E} (h : Invariant w)
    (hg : Orderly w e) (hn : next bufferSize w e = some u) : Invariant u := by
  cases e with
  | subscribe tenantID buf =>
    cases Option.some.inj hn
    exact subscribe_invariant h tenantID buf
  | unsubscribe v id =>
    simp only [next] at hn
    split at hn
    · cases hn
    split at hn
    · rename_i hid
      cases Option.some.inj hn
      exact unsubscribe_invariant h hid
    · cases Option.some.inj hn
      exact h
  | close v =>
    obtain ⟨id, hv, rfl⟩ := Option.map_eq_some_iff.mp hn
    exact close_invariant h hv (hg id hv)
  | dispatch d env order =>
    simp only [next, Option.ite_none_right_eq_some, Option.some.injEq] at hn
    obtain ⟨⟨-, horder⟩, rfl⟩ := hn
    refine h.dispatches d ⟨env, order⟩ fun id hid => h.registered_live id ?_
    exact (List.mem_filter.mp (horder.mem_iff.mp hid)).1
  | send d =>
    simp only [next] at hn
    split at hn
    · rename_i env id rest hd
      cases Option.some.inj hn
      have hlive := h.targets_live d _ hd
      have hsent := sendTo_invariant h env (hlive id List.mem_cons_self)
      have hrest : ∀ k ∈ rest, Live (sendTo w env id) k := fun k hk =>
        hsent.targets_live d ⟨env, id :: rest⟩ (by rw [sendTo_dispatches]; exact hd) k
          (List.mem_cons_of_mem id hk)
      rw [← sendTo_dispatches w env id]
      exact hsent.dispatches d ⟨env, rest⟩ hrest
    · cases hn
  | receive id =>
    simp only [next] at hn
    split at hn
    · rename_i sub hsub
      split at hn
      · cases Option.some.inj hn
        exact h.subscribers hsub rfl
      · cases hn
    · cases hn
  | stopCheck s =>
    simp only [next] at hn
    split at hn
    · cases hn
    split at hn
    · cases Option.some.inj hn
      exact h
    · rename_i hopen
      cases Option.some.inj hn
      refine ⟨h.known, h.registered_live, h.registered_nodup, h.targets_live, h.closing_live,
        h.closing_once, fun r q hr hq => ?_, fun _ _ => by simpa using hopen, h.faultless⟩
      have only : ∀ r, Function.update w.stopping s true r = true → r = s := by
        intro r hr
        by_contra hne
        rw [Function.update_of_ne hne, hg r] at hr
        cases hr
      exact (only r hr).trans (only q hq).symm
  | stopClose s =>
    simp only [next] at hn
    split at hn
    · rename_i hs
      rw [if_neg (by simp [h.stopping_open s hs])] at hn
      cases Option.some.inj hn
      have none_left : ∀ r, Function.update w.stopping s false r = false := by
        intro r
        by_cases hr : r = s
        · subst hr
          exact Function.update_self ..
        · rw [Function.update_of_ne hr, Bool.eq_false_iff]
          exact fun hr' => hr (h.one_stop r s hr' hs)
      refine ⟨h.known, h.registered_live, h.registered_nodup, h.targets_live, h.closing_live,
        h.closing_once, fun r q hr => ?_, fun r hr => ?_, h.faultless⟩
      · cases (none_left r).symm.trans hr
      · cases (none_left r).symm.trans hr
    · cases hn

/-- Nothing is sent on a closed channel and nothing is closed twice in orderly runs. -/
theorem orderly_runs_faultless {bufferSize : Nat} {w : World E}
    (h : Reachable (broadcaster bufferSize) Orderly w) : w.faults = [] :=
  (Reachable.invariant (P := Invariant) (fun _ => start_invariant)
    (fun _ _ _ => next_invariant) h).faultless

def newBroadcaster : World Unit :=
  ⟨fun _ => none, [], 0, 0, fun _ => none, fun _ => none, fun _ => false, false, []⟩

theorem newBroadcaster_start (bufferSize : Nat) :
    (broadcaster (E := Unit) bufferSize).start newBroadcaster :=
  ⟨fun _ => rfl, rfl, rfl, rfl, fun _ => rfl, fun _ => rfl, fun _ => rfl, rfl, rfl⟩

/-- The subscriber leaves after the dispatch has sent to it. -/
def sendThenClose : List (Event Unit) :=
  [.subscribe "tenant-a" 1, .dispatch 0 ⟨"tenant-a", ()⟩ [1], .send 0, .unsubscribe 0 1, .close 0]

theorem send_then_close_faultless : ∃ w,
    runTrace (broadcaster 256) newBroadcaster sendThenClose = some w ∧ w.faults = [] := by
  have hrun : ∃ w, runTrace (broadcaster 256) newBroadcaster sendThenClose = some w := ⟨_, rfl⟩
  obtain ⟨w, hw⟩ := hrun
  refine ⟨w, hw, orderly_runs_faultless
    (Reachable.runTrace (.start (newBroadcaster_start 256)) ?_ hw)⟩
  refine guardedTrace_cons trivial rfl ?_
  refine guardedTrace_cons trivial rfl ?_
  refine guardedTrace_cons trivial rfl ?_
  refine guardedTrace_cons trivial rfl ?_
  refine guardedTrace_cons ?_ rfl trivial
  intro id _ d t ht
  by_cases hd : d = 0
  · subst hd
    cases ht
    exact List.not_mem_nil
  · simp [subscribeWithBuffer, setSubscriber, newBroadcaster, hd] at ht

/-- A subscriber leaves between the snapshot of a dispatch and the send to it. -/
theorem send_after_close : ¬ ∀ (bufferSize : Nat) (w : World Unit),
    Reachable (broadcaster bufferSize) anyStep w → w.faults = [] := by
  intro h
  have hrun : ∃ w, runTrace (broadcaster 256) newBroadcaster
      [.subscribe "tenant-a" 1, .dispatch 0 ⟨"tenant-a", ()⟩ [1], .unsubscribe 0 1, .close 0,
        .send 0] = some w ∧ w.faults = [.sendOnClosed 1] := ⟨_, rfl, rfl⟩
  obtain ⟨w, hw, hfaults⟩ := hrun
  have hreach : Reachable (broadcaster 256) anyStep w :=
    Reachable.runTrace (.start (newBroadcaster_start 256))
      (anyStep_guarded _ _) hw
  rw [h 256 w hreach] at hfaults
  cases hfaults

end GraphBroadcaster
