import Mathlib.Data.List.Nodup
import AiSOC.TransitionSystem

/-! # The queue in front of the graph writer

`WriteEvent` calls and `Close` calls race with the flush loop over a bounded channel. A
select is one step, in which Go picks any case that is ready and the default case only when
none is. A flush is one step of the loop: what is sent while it runs stands in the queue
before the loop's next step. -/
namespace GraphWriterQueue

open TransitionSystem (System Reachable anyStep anyStep_guarded guardedTrace_cons runTrace)

variable {E : Type}

/-- What one `WriteEvent` call has put into the queue. -/
structure Entry (E : Type) where
  call : Nat
  event : E
  deriving DecidableEq, Repr

inductive Phase where
  | running | draining | done
  deriving DecidableEq, Repr

/-- Where a `Close` call is: before it, past its check, waiting for the loop, returned. -/
inductive Closer where
  | idle | checked | waiting | returned | panicked
  deriving DecidableEq, Repr

/-- `accepted` and `dropped` are the calls that the two counters count, `flushed` the
arguments of `FlushBatch`. -/
structure World (E : Type) where
  calls : Nat
  queue : List (Entry E)
  batch : List (Entry E)
  phase : Phase
  closed : Bool
  closers : Nat → Closer
  flushed : List (List (Entry E))
  accepted : List (Entry E)
  dropped : List (Entry E)

/-- The cases of `WriteEvent`'s select, of the loop's and of the drain's, and the steps of a
`Close` call. -/
inductive Event (E : Type) where
  | send (event : E)
  | refuse (event : E)
  | drop (event : E)
  | receive
  | tick
  | seeClosed
  | drainReceive
  | drainEnd
  | closeCheck (k : Nat)
  | closeDo (k : Nat)
  | closeReturn (k : Nat)

def flush (w : World E) : World E :=
  match w.batch with
  | [] => w
  | batch => { w with flushed := w.flushed ++ [batch], batch := [] }

def append (batchSize : Nat) (w : World E) (e : Entry E) : World E :=
  let w := { w with batch := w.batch ++ [e] }
  if batchSize ≤ w.batch.length then flush w else w

def setCloser (w : World E) (k : Nat) (c : Closer) : World E :=
  { w with closers := Function.update w.closers k c }

def next (queueSize batchSize : Nat) (w : World E) : Event E → Option (World E)
  | .send event =>
    if w.queue.length < queueSize then
      some { w with
        calls := w.calls + 1
        queue := w.queue ++ [⟨w.calls, event⟩]
        accepted := w.accepted ++ [⟨w.calls, event⟩] }
    else none
  | .refuse _ => if w.closed then some { w with calls := w.calls + 1 } else none
  | .drop event =>
    if w.closed = false ∧ queueSize ≤ w.queue.length then
      some { w with calls := w.calls + 1, dropped := w.dropped ++ [⟨w.calls, event⟩] }
    else none
  | .receive =>
    match w.phase, w.queue with
    | .running, e :: rest => some (append batchSize { w with queue := rest } e)
    | _, _ => none
  | .tick => if w.phase = .running then some (flush w) else none
  | .seeClosed =>
    if w.phase = .running ∧ w.closed then some { w with phase := .draining } else none
  | .drainReceive =>
    match w.phase, w.queue with
    | .draining, e :: rest => some (append batchSize { w with queue := rest } e)
    | _, _ => none
  | .drainEnd =>
    match w.phase, w.queue with
    | .draining, [] => some { flush w with phase := .done }
    | _, _ => none
  | .closeCheck k =>
    match w.closers k with
    | .idle => some (setCloser w k (if w.closed then .returned else .checked))
    | _ => none
  | .closeDo k =>
    match w.closers k with
    | .checked =>
      if w.closed then some (setCloser w k .panicked)
      else some (setCloser { w with closed := true } k .waiting)
    | _ => none
  | .closeReturn k =>
    match w.closers k, w.phase with
    | .waiting, .done => some (setCloser w k .returned)
    | _, _ => none

def writer (queueSize batchSize : Nat) : System (World E) (Event E) where
  start w := w.calls = 0 ∧ w.queue = [] ∧ w.batch = [] ∧ w.phase = .running ∧
    w.closed = false ∧ (∀ k, w.closers k = .idle) ∧ w.flushed = [] ∧ w.accepted = [] ∧
    w.dropped = []
  next := next queueSize batchSize

/-- The call returned nil. -/
def ReturnedNil (w : World E) (call : Nat) : Prop :=
  call ∈ (w.accepted ++ w.dropped).map Entry.call

/-- The call found the queue full, which is logged and counted as a drop. -/
def Dropped (w : World E) (call : Nat) : Prop := call ∈ w.dropped.map Entry.call

/-- The number of `FlushBatch` calls that have the call's event in their argument. -/
def flushCalls (w : World E) (call : Nat) : Nat :=
  w.flushed.countP fun batch => call ∈ batch.map Entry.call

/-- When a `Close` has returned, what was accepted has been flushed once. -/
def FlushedOnce (w : World E) : Prop :=
  ∀ k, w.closers k = .returned → ∀ call, ReturnedNil w call → ¬ Dropped w call →
    flushCalls w call = 1

/-- Nothing is sent after the drain has found the queue empty, and no `Close` begins while
another one is on its way. -/
def Orderly (w : World E) : Event E → Prop
  | .send _ => w.phase ≠ .done
  | .closeCheck _ => ∀ k, w.closers k = .idle ∨ w.closers k = .returned
  | _ => True

/-- The queue is first in, first out, and so are the batches. -/
structure Invariant (w : World E) : Prop where
  accounted : w.flushed.flatten ++ w.batch ++ w.queue = w.accepted
  known : ∀ e ∈ w.accepted, e.call < w.calls
  once : (w.accepted.map Entry.call).Nodup
  drained : w.phase = .done → w.queue = [] ∧ w.batch = []
  returned_done : ∀ k, w.closers k = .returned → w.phase = .done
  closing : w.closed = true → (∃ k, w.closers k = .waiting) ∨ w.phase = .done

theorem start_invariant {queueSize batchSize : Nat} {w : World E}
    (h : (writer queueSize batchSize).start w) : Invariant w := by
  obtain ⟨-, hqueue, hbatch, hphase, hclosed, hidle, hflushed, haccepted, -⟩ := h
  constructor <;> simp_all

theorem flush_flatten (w : World E) :
    (flush w).flushed.flatten ++ (flush w).batch = w.flushed.flatten ++ w.batch := by
  unfold flush
  split
  · rfl
  · simp

@[simp] theorem flush_batch (w : World E) : (flush w).batch = [] := by
  unfold flush
  split
  · assumption
  · rfl

/-- A flush touches the batch and the flushed batches only. -/
theorem flush_eq (w : World E) :
    flush w = { w with flushed := (flush w).flushed, batch := [] } := by
  unfold flush
  split
  · rename_i h
    rw [← h]
  · rfl

theorem flush_invariant {w : World E} (h : Invariant w) : Invariant (flush w) := by
  have hflat := flush_flatten w
  rw [flush_batch, List.append_nil] at hflat
  rw [flush_eq]
  refine ⟨?_, h.known, h.once, fun hdone => ⟨(h.drained hdone).1, rfl⟩, h.returned_done,
    h.closing⟩
  rw [List.append_nil, hflat]
  exact h.accounted

/-- The loop takes the oldest entry of the queue. -/
theorem append_invariant {batchSize : Nat} {w : World E} (h : Invariant w) {e : Entry E}
    {rest : List (Entry E)} (hqueue : w.queue = e :: rest) :
    Invariant (append batchSize { w with queue := rest } e) := by
  have hmoved : Invariant { w with queue := rest, batch := w.batch ++ [e] } := by
    refine ⟨?_, h.known, h.once, fun hdone => ?_, h.returned_done, h.closing⟩
    · rw [← h.accounted, hqueue]
      simp
    · rw [(h.drained hdone).1] at hqueue
      cases hqueue
  unfold append
  dsimp only
  split
  · exact flush_invariant hmoved
  · exact hmoved

theorem send_invariant {w : World E} (h : Invariant w) (hopen : w.phase ≠ .done) (event : E) :
    Invariant { w with
      calls := w.calls + 1
      queue := w.queue ++ [⟨w.calls, event⟩]
      accepted := w.accepted ++ [⟨w.calls, event⟩] } := by
  constructor
  · rw [← List.append_assoc, h.accounted]
  · intro e he
    rcases List.mem_append.mp he with he | he
    · exact Nat.lt_succ_of_lt (h.known e he)
    · rw [List.mem_singleton.mp he]
      exact Nat.lt_succ_self w.calls
  · rw [List.map_append, List.nodup_append]
    refine ⟨h.once, List.nodup_singleton _, ?_⟩
    intro a ha b hb
    obtain ⟨e, he, rfl⟩ := List.mem_map.mp ha
    have hlt := h.known e he
    have hb : b = w.calls := by simpa using hb
    omega
  · exact fun hdone => (hopen hdone).elim
  · exact h.returned_done
  · exact h.closing

/-- A `Close` call moves on. -/
theorem setCloser_invariant {w : World E} (h : Invariant w) {k : Nat} {c : Closer}
    (hreturned : c = .returned → w.phase = .done)
    (hkept : w.closed = true → w.closers k = .waiting → w.phase = .done) :
    Invariant (setCloser w k c) := by
  refine ⟨h.accounted, h.known, h.once, h.drained, fun j hj => ?_, fun hclosed => ?_⟩
  · by_cases hjk : j = k
    · subst hjk
      exact hreturned ((Function.update_self ..).symm.trans hj)
    · exact h.returned_done j ((Function.update_of_ne hjk ..).symm.trans hj)
  · rcases h.closing hclosed with ⟨j, hj⟩ | hdone
    · by_cases hjk : j = k
      · subst hjk
        exact Or.inr (hkept hclosed hj)
      · exact Or.inl ⟨j, (Function.update_of_ne hjk ..).trans hj⟩
    · exact Or.inr hdone

theorem next_invariant {queueSize batchSize : Nat} {w u : World E} {e : Event E}
    (h : Invariant w) (hg : Orderly w e) (hn : next queueSize batchSize w e = some u) :
    Invariant u := by
  cases e with
  | send event =>
    simp only [next, Option.ite_none_right_eq_some, Option.some.injEq] at hn
    obtain ⟨-, rfl⟩ := hn
    exact send_invariant h hg event
  | refuse event =>
    simp only [next, Option.ite_none_right_eq_some, Option.some.injEq] at hn
    obtain ⟨-, rfl⟩ := hn
    exact ⟨h.accounted, fun e he => Nat.lt_succ_of_lt (h.known e he), h.once, h.drained,
      h.returned_done, h.closing⟩
  | drop event =>
    simp only [next, Option.ite_none_right_eq_some, Option.some.injEq] at hn
    obtain ⟨-, rfl⟩ := hn
    exact ⟨h.accounted, fun e he => Nat.lt_succ_of_lt (h.known e he), h.once, h.drained,
      h.returned_done, h.closing⟩
  | receive =>
    simp only [next] at hn
    split at hn
    · rename_i hqueue
      cases Option.some.inj hn
      exact append_invariant h hqueue
    · cases hn
  | tick =>
    simp only [next, Option.ite_none_right_eq_some, Option.some.injEq] at hn
    obtain ⟨-, rfl⟩ := hn
    exact flush_invariant h
  | seeClosed =>
    simp only [next, Option.ite_none_right_eq_some, Option.some.injEq] at hn
    obtain ⟨⟨hrunning, -⟩, rfl⟩ := hn
    refine ⟨h.accounted, h.known, h.once, nofun, fun k hk => ?_, fun hclosed => ?_⟩
    · cases hrunning.symm.trans (h.returned_done k hk)
    · rcases h.closing hclosed with hwaiting | hdone
      · exact Or.inl hwaiting
      · cases hrunning.symm.trans hdone
  | drainReceive =>
    simp only [next] at hn
    split at hn
    · rename_i hqueue
      cases Option.some.inj hn
      exact append_invariant h hqueue
    · cases hn
  | drainEnd =>
    simp only [next] at hn
    split at hn
    · rename_i hempty
      cases Option.some.inj hn
      have hflushed := flush_invariant h
      have hqueue : (flush w).queue = [] := by
        rw [flush_eq]
        exact hempty
      exact ⟨hflushed.accounted, hflushed.known, hflushed.once,
        fun _ => ⟨hqueue, flush_batch w⟩, fun _ _ => rfl, fun _ => Or.inr rfl⟩
    · cases hn
  | closeCheck k =>
    simp only [next] at hn
    split at hn
    · rename_i hidle
      cases Option.some.inj hn
      refine setCloser_invariant h (fun hreturned => ?_) fun _ hwaiting => ?_
      · split at hreturned
        · rename_i hclosed
          rcases h.closing hclosed with ⟨j, hj⟩ | hdone
          · rcases hg j with hother | hother <;> cases hj.symm.trans hother
          · exact hdone
        · cases hreturned
      · cases hidle.symm.trans hwaiting
    · cases hn
  | closeDo k =>
    simp only [next] at hn
    split at hn
    · rename_i hchecked
      split at hn
      · cases Option.some.inj hn
        exact setCloser_invariant h nofun fun _ hwaiting => by
          cases hchecked.symm.trans hwaiting
      · cases Option.some.inj hn
        refine ⟨h.accounted, h.known, h.once, h.drained, fun j hj => ?_,
          fun _ => Or.inl ⟨k, Function.update_self ..⟩⟩
        by_cases hjk : j = k
        · subst hjk
          cases (Function.update_self ..).symm.trans hj
        · exact h.returned_done j ((Function.update_of_ne hjk ..).symm.trans hj)
    · cases hn
  | closeReturn k =>
    simp only [next] at hn
    split at hn
    · rename_i hdone
      cases Option.some.inj hn
      exact setCloser_invariant h (fun _ => hdone) fun _ _ => hdone
    · cases hn

/-- What a list of lists without repetitions holds, one of them holds. -/
theorem countP_eq_one {batches : List (List (Entry E))} {call : Nat}
    (hnodup : (batches.flatten.map Entry.call).Nodup)
    (hmem : call ∈ batches.flatten.map Entry.call) :
    batches.countP (fun batch => call ∈ batch.map Entry.call) = 1 := by
  induction batches with
  | nil => cases hmem
  | cons batch batches ih =>
    rw [List.flatten_cons, List.map_append, List.nodup_append] at hnodup
    obtain ⟨-, hrest, hdisjoint⟩ := hnodup
    rw [List.flatten_cons, List.map_append, List.mem_append] at hmem
    by_cases hhere : call ∈ batch.map Entry.call
    · have hnot : call ∉ batches.flatten.map Entry.call :=
        fun hlater => hdisjoint call hhere call hlater rfl
      rw [List.countP_cons_of_pos (by simpa using hhere), List.countP_eq_zero.mpr]
      intro later hlater hcall
      obtain ⟨e, he, hcall⟩ := List.mem_map.mp (of_decide_eq_true hcall)
      exact hnot (List.mem_map.mpr ⟨e, List.mem_flatten.mpr ⟨later, hlater, he⟩, hcall⟩)
    · rw [List.countP_cons_of_neg (by simpa using hhere)]
      exact ih hrest (hmem.resolve_left hhere)

theorem Invariant.flushedOnce {w : World E} (h : Invariant w) : FlushedOnce w := by
  intro k hk call hnil hkept
  obtain ⟨hqueue, hbatch⟩ := h.drained (h.returned_done k hk)
  have hflushed : w.flushed.flatten = w.accepted := by
    simpa [hqueue, hbatch] using h.accounted
  have haccepted : call ∈ w.accepted.map Entry.call := by
    rw [ReturnedNil, List.map_append, List.mem_append] at hnil
    exact hnil.resolve_right hkept
  rw [← hflushed] at haccepted
  exact countP_eq_one (hflushed ▸ h.once) haccepted

/-- In orderly runs every accepted event is in the argument of exactly one flush by the time
a `Close` has returned. -/
theorem accepted_flushed_once {queueSize batchSize : Nat} {w : World E}
    (h : Reachable (writer queueSize batchSize) Orderly w) : FlushedOnce w :=
  (Reachable.invariant (P := Invariant) (fun _ => start_invariant)
    (fun _ _ _ => next_invariant) h).flushedOnce

def newWriter : World Unit := ⟨0, [], [], .running, false, fun _ => .idle, [], [], []⟩

theorem newWriter_start (queueSize batchSize : Nat) :
    (writer (E := Unit) queueSize batchSize).start newWriter :=
  ⟨rfl, rfl, rfl, rfl, rfl, fun _ => rfl, rfl, rfl, rfl⟩

/-- The event is still in the queue when the writer is closed. -/
def sendThenClose : List (Event Unit) :=
  [.send (), .closeCheck 0, .closeDo 0, .seeClosed, .drainReceive, .drainEnd, .closeReturn 0]

theorem send_then_close_flushed : ∃ w,
    runTrace (writer 2048 100) newWriter sendThenClose = some w ∧ FlushedOnce w := by
  have hrun : ∃ w, runTrace (writer 2048 100) newWriter sendThenClose = some w := ⟨_, rfl⟩
  obtain ⟨w, hw⟩ := hrun
  refine ⟨w, hw, accepted_flushed_once
    (Reachable.runTrace (.start (newWriter_start 2048 100)) ?_ hw)⟩
  refine guardedTrace_cons nofun rfl ?_
  refine guardedTrace_cons (fun _ => Or.inl rfl) rfl ?_
  refine guardedTrace_cons trivial rfl ?_
  refine guardedTrace_cons trivial rfl ?_
  refine guardedTrace_cons trivial rfl ?_
  refine guardedTrace_cons trivial rfl ?_
  exact guardedTrace_cons trivial rfl trivial

/-- The select of `WriteEvent` takes the queue's side of a closed writer whose loop has
ended. -/
theorem send_after_drain_lost : ¬ ∀ (queueSize batchSize : Nat) (w : World Unit),
    Reachable (writer queueSize batchSize) anyStep w → FlushedOnce w := by
  intro h
  have hrun : ∃ w, runTrace (writer 2048 100) newWriter
      [.closeCheck 0, .closeDo 0, .seeClosed, .drainEnd, .send (), .closeReturn 0] = some w ∧
      w.closers 0 = .returned ∧ w.accepted = [⟨0, ()⟩] ∧ w.dropped = [] ∧ w.flushed = [] :=
    ⟨_, rfl, rfl, rfl, rfl, rfl⟩
  obtain ⟨w, hw, hreturned, haccepted, hdropped, hflushed⟩ := hrun
  have hreach : Reachable (writer 2048 100) anyStep w :=
    Reachable.runTrace (.start (newWriter_start 2048 100))
      (anyStep_guarded _ _) hw
  have honce := h 2048 100 w hreach 0 hreturned 0 (by simp [ReturnedNil, haccepted])
    (by simp [Dropped, hdropped])
  simp [flushCalls, hflushed] at honce

end GraphWriterQueue
