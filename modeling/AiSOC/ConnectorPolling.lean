import Mathlib.Order.Lattice
import AiSOC.TransitionSystem

/-! # Coverage of connector polling

The polls of one connector, one after the other: what each asks the source for, the outage
bookkeeping on the connector's row, and the one backfill that a recovery makes. Times count
microseconds. A poll is one step with its backfill; the clock readings in between are part of
the attempt, and a write to the row may fail. -/
namespace ConnectorPolling

open TransitionSystem (System Reachable anyStep anyStep_guarded guardedTrace_cons runTrace)

def second : Int := 1000000

def defaultPollInterval : Int := 300
def minPollInterval : Int := 30
def maxPollInterval : Int := 86400
def backfillOutageThreshold : Int := 30 * 60
def backfillFlapWindow : Int := 10 * 60
def maxBackfillLookback : Int := 24 * 60 * 60
def backfillLookbackBuffer : Int := 5 * 60

/-- `none` is a setting that is absent or not a number. -/
def coercePollInterval (raw : Option Int) : Int :=
  match raw with
  | none => defaultPollInterval
  | some seconds =>
    if seconds < minPollInterval then minPollInterval
    else if maxPollInterval < seconds then maxPollInterval
    else seconds

structure Row where
  lastOutageAt : Option Int
  lastBackfillAt : Option Int
  deriving DecidableEq, Repr

/-- The writes; `none` and `false` are writes that the database refused, which is logged. -/
def recordPollFailure (at_ : Option Int) (row : Row) : Row :=
  match at_ with
  | none => row
  | some now => { row with lastOutageAt := row.lastOutageAt.or (some now) }

def recordPollSuccess (stored : Bool) (row : Row) : Row :=
  if stored then { row with lastOutageAt := none } else row

def recordBackfillRun (at_ : Option Int) (row : Row) : Row :=
  match at_ with
  | none => row
  | some now => { row with lastBackfillAt := some now }

/-- How a call of the poll function ends: before the fetch without a trace, with a recorded
failure (of the configuration, the fetch or the ingestion), or well. -/
inductive Outcome where
  | skipped
  | failed (recordedAt : Option Int)
  | succeeded (stored : Bool)
  deriving DecidableEq, Repr

/-- `startedAt` is the time the connector counts its lookback from. -/
structure Fetch where
  startedAt : Int
  outcome : Outcome
  deriving DecidableEq, Repr

/-- One poll: the interval of its configuration, its fetch, the clock readings of the recovery
check, the time at which the backfill is stamped, and the backfill if it comes to one. -/
structure Attempt where
  pollInterval : Option Int
  fetch : Fetch
  checkedAt : Int
  flapCheckedAt : Int
  stampedAt : Option Int
  backfill : Fetch
  overAt : Int
  deriving DecidableEq, Repr

structure Window where
  since : Int
  upTo : Int
  deriving DecidableEq, Repr

def window (now sinceSeconds : Int) : Window := ⟨now - sinceSeconds * second, now⟩

/-- The last successful poll, with the window of its backfill if that succeeded. -/
structure Success where
  startedAt : Int
  backfill : Option Window
  overAt : Int
  deriving DecidableEq, Repr

/-- `windows` are those of the successful fetches, `first` is the start of the first successful
poll. -/
structure World where
  row : Row
  windows : List Window
  first : Option Int
  last : Option Success
  now : Int
  deriving DecidableEq, Repr

/-- The recovery check of a successful poll: the seconds that its backfill is to look back. -/
def backfillWindowSeconds (row : Row) (a : Attempt) : Option Int :=
  match row.lastOutageAt with
  | none => none
  | some outage =>
    let duration := a.checkedAt - outage
    let flapOk := match row.lastBackfillAt with
      | none => true
      | some ran => decide (backfillFlapWindow * second ≤ a.flapCheckedAt - ran)
    if backfillOutageThreshold * second ≤ duration ∧ flapOk = true then
      some (min (duration / second + backfillLookbackBuffer) maxBackfillLookback)
    else none

def backfillSince (backfillSeconds : Int) : Int := max 1 (min backfillSeconds maxBackfillLookback)

def pollWindow (a : Attempt) : Window := window a.fetch.startedAt (coercePollInterval a.pollInterval)

/-- The window of the backfill, if there is one and it succeeds. -/
def backfillWindow (row : Row) (a : Attempt) : Option Window :=
  (backfillWindowSeconds row a).bind fun seconds =>
    match a.backfill.outcome with
    | .succeeded _ => some (window a.backfill.startedAt (backfillSince seconds))
    | _ => none

/-- What the recovery's backfill makes of the row. -/
def backfillRow (row : Row) (a : Attempt) : Row :=
  let row := recordBackfillRun a.stampedAt row
  match a.backfill.outcome with
  | .skipped => row
  | .failed recordedAt => recordPollFailure recordedAt row
  | .succeeded stored => recordPollSuccess stored row

def pollOne (w : World) (a : Attempt) : World :=
  match a.fetch.outcome with
  | .skipped => { w with now := a.overAt }
  | .failed recordedAt => { w with row := recordPollFailure recordedAt w.row, now := a.overAt }
  | .succeeded stored =>
    let row := recordPollSuccess stored w.row
    { row := if (backfillWindowSeconds w.row a).isSome then backfillRow row a else row
      windows := (backfillWindow w.row a).toList ++ pollWindow a :: w.windows
      first := w.first.or (some a.fetch.startedAt)
      last := some ⟨a.fetch.startedAt, backfillWindow w.row a, a.overAt⟩
      now := a.overAt }

/-- A failure is recorded between the start of the fetch and the end of the attempt. -/
def Fetch.recordedBy (f : Fetch) (limit : Int) : Bool :=
  match f.outcome with
  | .failed (some at_) => f.startedAt ≤ at_ ∧ at_ ≤ limit
  | _ => true

def stampedBetween (a : Attempt) : Bool :=
  match a.stampedAt with
  | some at_ => a.flapCheckedAt ≤ at_ ∧ at_ ≤ a.backfill.startedAt
  | none => true

/-- The clock goes forward. -/
def inOrder (w : World) (a : Attempt) : Bool :=
  w.now ≤ a.fetch.startedAt ∧ a.fetch.startedAt ≤ a.checkedAt ∧ a.checkedAt ≤ a.flapCheckedAt ∧
    a.flapCheckedAt ≤ a.backfill.startedAt ∧ a.backfill.startedAt ≤ a.overAt ∧
    a.fetch.recordedBy a.overAt ∧ a.backfill.recordedBy a.overAt ∧ stampedBetween a

/-- The poll attempts of a connector that has not been polled before. -/
def polling : System World Attempt where
  start w := w.row = ⟨none, none⟩ ∧ w.windows = [] ∧ w.first = none ∧ w.last = none
  next w a := if inOrder w a then some (pollOne w a) else none

def Covered (w : World) (x : Int) : Prop := ∃ win ∈ w.windows, win.since ≤ x ∧ x ≤ win.upTo

/-- After a successful poll, every instant from the start of the first one to the start of
this one lies in the window of a successful fetch unless it is older than the maximum
lookback. -/
def NoGap (w : World) : Prop :=
  ∀ first l, w.first = some first → w.last = some l → ∀ x, first ≤ x → x ≤ l.startedAt →
    l.overAt - maxBackfillLookback * second ≤ x → Covered w x

/-- The end of the stretch that the poll and its backfill cover: a backfill that does not reach
back to the poll does not prolong it. -/
def Success.coveredTo (l : Success) : Int :=
  match l.backfill with
  | some b => if b.since ≤ l.startedAt then b.upTo else l.startedAt
  | none => l.startedAt

/-- How far back a successful poll looks, by itself or by its backfill. -/
def reach (row : Row) (a : Attempt) : Int :=
  match backfillWindow row a with
  | some b => min b.since (pollWindow a).since
  | none => (pollWindow a).since

/-- A successful poll looks back to what the last one has covered, or as far as the maximum
lookback, with its own window or with that of a backfill that it makes and that succeeds. -/
def ReachesBack (w : World) (a : Attempt) : Prop :=
  ∀ l stored, w.last = some l → a.fetch.outcome = .succeeded stored →
    let oldest := max l.coveredTo (a.overAt - maxBackfillLookback * second)
    a.fetch.startedAt - coercePollInterval a.pollInterval * second ≤ oldest ∨
      ∃ seconds written, backfillWindowSeconds w.row a = some seconds ∧
        a.backfill.outcome = .succeeded written ∧
        a.backfill.startedAt - backfillSince seconds * second ≤ oldest

structure Invariant (w : World) : Prop where
  both : w.last = none → w.first = none
  ahead : ∀ l, w.last = some l → l.startedAt ≤ l.coveredTo
  ended : ∀ l, w.last = some l → l.overAt ≤ w.now
  covered : ∀ first l, w.first = some first → w.last = some l → ∀ x, first ≤ x →
    x ≤ l.coveredTo → l.overAt - maxBackfillLookback * second ≤ x → Covered w x

theorem start_invariant {w : World} (h : polling.start w) : Invariant w := by
  obtain ⟨-, -, hfirst, hlast⟩ := h
  constructor <;> simp [hfirst, hlast]

theorem coercePollInterval_pos (raw : Option Int) : 0 ≤ coercePollInterval raw := by
  unfold coercePollInterval defaultPollInterval minPollInterval maxPollInterval
  split
  · decide
  · split
    · decide
    · split
      · decide
      · omega

theorem pollWindow_since_le (a : Attempt) : (pollWindow a).since ≤ (pollWindow a).upTo := by
  have hinterval := coercePollInterval_pos a.pollInterval
  simp only [pollWindow, window, second]
  omega

theorem backfillWindow_upTo {row : Row} {a : Attempt} {b : Window}
    (h : backfillWindow row a = some b) : b.upTo = a.backfill.startedAt := by
  obtain ⟨seconds, -, h⟩ := Option.bind_eq_some_iff.mp h
  split at h
  · cases h
    rfl
  · cases h

/-- What a successful poll covers by itself: from as far as it looks back to where it ends. -/
theorem success_covers {w : World} {a : Attempt} {stored : Bool}
    (ha : a.fetch.outcome = .succeeded stored) {x : Int} (hlow : reach w.row a ≤ x)
    (hhigh : x ≤ Success.coveredTo ⟨a.fetch.startedAt, backfillWindow w.row a, a.overAt⟩) :
    Covered (pollOne w a) x := by
  have hwindows : (pollOne w a).windows =
      (backfillWindow w.row a).toList ++ pollWindow a :: w.windows := by
    simp only [pollOne, ha]
  have hpoll : (pollWindow a).since ≤ x → x ≤ a.fetch.startedAt → Covered (pollOne w a) x := by
    intro hsince hupTo
    refine ⟨pollWindow a, ?_, hsince, hupTo⟩
    rw [hwindows]
    exact List.mem_append_right _ List.mem_cons_self
  cases hb : backfillWindow w.row a with
  | none =>
    simp only [reach, hb, Success.coveredTo] at hlow hhigh
    exact hpoll hlow hhigh
  | some b =>
    simp only [reach, hb, Success.coveredTo] at hlow hhigh
    have hbackfill : b.since ≤ x → x ≤ b.upTo → Covered (pollOne w a) x := by
      intro hsince hupTo
      refine ⟨b, ?_, hsince, hupTo⟩
      rw [hwindows, hb]
      exact List.mem_cons_self
    by_cases hback : b.since ≤ a.fetch.startedAt
    · rw [if_pos hback] at hhigh
      by_cases hx : b.since ≤ x
      · exact hbackfill hx hhigh
      · apply hpoll <;> omega
    · rw [if_neg hback] at hhigh
      apply hpoll <;> omega

theorem covered_mono {w : World} {a : Attempt} {x : Int} (h : Covered w x) :
    Covered (pollOne w a) x := by
  obtain ⟨win, hwin, hx⟩ := h
  refine ⟨win, ?_, hx⟩
  unfold pollOne
  split
  · exact hwin
  · exact hwin
  · exact List.mem_append_right _ (List.mem_cons_of_mem _ hwin)

theorem reach_le_pollWindow (row : Row) (a : Attempt) : reach row a ≤ (pollWindow a).since := by
  simp only [reach]
  split
  · exact min_le_right _ _
  · exact le_refl _

theorem reach_le {w : World} {a : Attempt} {l : Success} {stored : Bool}
    (hreach : ReachesBack w a) (hl : w.last = some l) (ha : a.fetch.outcome = .succeeded stored) :
    reach w.row a ≤ max l.coveredTo (a.overAt - maxBackfillLookback * second) := by
  rcases hreach l stored hl ha with hpoll | ⟨seconds, written, hseconds, hbackfill, hsince⟩
  · exact (reach_le_pollWindow w.row a).trans hpoll
  · have hwindow : backfillWindow w.row a =
        some (window a.backfill.startedAt (backfillSince seconds)) := by
      simp only [backfillWindow, hseconds, Option.bind_some, hbackfill]
    have hmin : reach w.row a ≤ a.backfill.startedAt - backfillSince seconds * second := by
      simp only [reach, hwindow]
      exact min_le_left _ _
    exact hmin.trans hsince

/-- A successful poll that reaches back keeps the stretch covered: what is no later than what
the last one covered is covered by the invariant, the rest by its own windows. -/
theorem success_invariant {w : World} (h : Invariant w) {a : Attempt} {stored : Bool}
    (horder : inOrder w a = true) (ha : a.fetch.outcome = .succeeded stored)
    (hreach : ReachesBack w a) : Invariant (pollOne w a) := by
  simp only [inOrder, decide_eq_true_eq] at horder
  obtain ⟨hnow, hchecked, hflap, hbackfill, hover, -⟩ := horder
  have hahead : a.fetch.startedAt ≤
      Success.coveredTo ⟨a.fetch.startedAt, backfillWindow w.row a, a.overAt⟩ := by
    cases hb : backfillWindow w.row a with
    | none => exact le_refl _
    | some b =>
      have hupTo := backfillWindow_upTo hb
      simp only [Success.coveredTo]
      split <;> omega
  have hlast : (pollOne w a).last =
      some ⟨a.fetch.startedAt, backfillWindow w.row a, a.overAt⟩ := by
    simp only [pollOne, ha]
  have hfirst : (pollOne w a).first = w.first.or (some a.fetch.startedAt) := by
    simp only [pollOne, ha]
  have hnow' : (pollOne w a).now = a.overAt := by
    simp only [pollOne, ha]
  refine ⟨?_, ?_, ?_, ?_⟩
  · intro hnone
    rw [hlast] at hnone
    cases hnone
  · intro l hl
    rw [hlast] at hl
    cases hl
    exact hahead
  · intro l hl
    rw [hlast] at hl
    cases hl
    exact le_of_eq hnow'.symm
  · intro first l hf hl x hlow hhigh hage
    rw [hlast] at hl
    cases hl
    cases hold : w.last with
    | none =>
      rw [hfirst, h.both hold] at hf
      cases hf
      have hsince := (reach_le_pollWindow w.row a).trans (pollWindow_since_le a)
      exact success_covers ha (hsince.trans hlow) hhigh
    | some l =>
      have hreach' := reach_le hreach hold ha
      have hl := h.ended l hold
      by_cases hx : x ≤ l.coveredTo
      · cases hf' : w.first with
        | none =>
          rw [hfirst, hf'] at hf
          cases hf
          exact success_covers ha
            (((reach_le_pollWindow w.row a).trans (pollWindow_since_le a)).trans hlow) hhigh
        | some start =>
          rw [hfirst, hf'] at hf
          cases hf
          apply covered_mono
          apply h.covered first l hf' hold x hlow hx
          simp only at hage
          omega
      · apply success_covers ha _ hhigh
        simp only at hage
        omega

/-- A call that fetches nothing leaves the windows and the stretch they cover as they are. -/
theorem quiet_invariant {w w' : World} (h : Invariant w) (hwindows : w'.windows = w.windows)
    (hfirst : w'.first = w.first) (hlast : w'.last = w.last) (hnow : w.now ≤ w'.now) :
    Invariant w' := by
  refine ⟨?_, ?_, ?_, ?_⟩
  · rw [hlast, hfirst]
    exact h.both
  · rw [hlast]
    exact h.ahead
  · intro l hl
    rw [hlast] at hl
    exact (h.ended l hl).trans hnow
  · intro first l hf hl x hlow hhigh hage
    rw [hfirst] at hf
    rw [hlast] at hl
    obtain ⟨win, hwin, hx⟩ := h.covered first l hf hl x hlow hhigh hage
    exact ⟨win, hwindows ▸ hwin, hx⟩

theorem next_invariant {w w' : World} (h : Invariant w) {a : Attempt} (hreach : ReachesBack w a)
    (hnext : polling.next w a = some w') : Invariant w' := by
  simp only [polling] at hnext
  split at hnext
  · rename_i horder
    cases hnext
    cases ha : a.fetch.outcome with
    | succeeded stored => exact success_invariant h horder ha hreach
    | skipped =>
      simp only [inOrder, decide_eq_true_eq] at horder
      apply quiet_invariant h <;> simp only [pollOne, ha]
      omega
    | failed recordedAt =>
      simp only [inOrder, decide_eq_true_eq] at horder
      apply quiet_invariant h <;> simp only [pollOne, ha]
      omega
  · cases hnext

theorem reachable_invariant {w : World} (h : Reachable polling ReachesBack w) : Invariant w :=
  h.invariant (fun _ => start_invariant) fun _ _ _ hw hguard hnext =>
    next_invariant hw hguard hnext

/-- In runs whose successful polls all look far enough back there is no gap. -/
theorem reaching_back_no_gap {w : World} (h : Reachable polling ReachesBack w) : NoGap w := by
  intro first l hfirst hlast x hlow hhigh hage
  have hinv := reachable_invariant h
  exact hinv.covered first l hfirst hlast x hlow (hhigh.trans (hinv.ahead l hlast)) hage

def newConnector : World := ⟨⟨none, none⟩, [], none, none, 0⟩

theorem newConnector_start : polling.start newConnector := ⟨rfl, rfl, rfl, rfl⟩

/-- An attempt without delays: every clock reading is the time of the fetch. -/
def promptAttempt (pollInterval : Option Int) (startedAt : Int) (outcome : Outcome) : Attempt :=
  ⟨pollInterval, ⟨startedAt, outcome⟩, startedAt, startedAt, none, ⟨startedAt, .skipped⟩,
    startedAt⟩

theorem polls_on_schedule_no_gap : ∃ w,
    runTrace polling newConnector [promptAttempt none 0 (.succeeded true),
      promptAttempt none (300 * second) (.succeeded true)] = some w ∧ NoGap w := by
  have hrun : ∃ w, runTrace polling newConnector [promptAttempt none 0 (.succeeded true),
      promptAttempt none (300 * second) (.succeeded true)] = some w := ⟨_, rfl⟩
  obtain ⟨w, hw⟩ := hrun
  refine ⟨w, hw, reaching_back_no_gap (Reachable.runTrace (.start newConnector_start) ?_ hw)⟩
  refine guardedTrace_cons ?_ rfl (guardedTrace_cons ?_ rfl trivial)
  · intro l stored hl
    cases hl
  · intro l stored hl hfetch
    cases hl
    left
    decide

/-- An hourly connector misses one poll: its outage is recorded at the poll that fails, and the
backfill reaches back no further than five minutes before that. -/
def hourlyOutage : List Attempt :=
  [promptAttempt (some 3600) 0 (.succeeded true),
    promptAttempt (some 3600) (3600 * second) (.failed (some (3600 * second))),
    { promptAttempt (some 3600) (7200 * second) (.succeeded true) with
      stampedAt := some (7200 * second)
      backfill := ⟨7201 * second, .succeeded true⟩
      overAt := 7201 * second }]

theorem hourly_outage_gap : ¬ ∀ w, Reachable polling anyStep w → NoGap w := by
  intro h
  have hrun : ∃ w, runTrace polling newConnector hourlyOutage = some w ∧
      w.windows = [⟨3301 * second, 7201 * second⟩, ⟨3600 * second, 7200 * second⟩,
        ⟨-3600 * second, 0⟩] ∧
      w.first = some 0 ∧ w.last = some ⟨7200 * second,
        some ⟨3301 * second, 7201 * second⟩, 7201 * second⟩ := ⟨_, rfl, rfl, rfl, rfl⟩
  obtain ⟨w, hw, hwindows, hfirst, hlast⟩ := hrun
  have hreach : Reachable polling anyStep w :=
    Reachable.runTrace (.start newConnector_start) (anyStep_guarded _ _) hw
  obtain ⟨win, hwin, hsince, hupTo⟩ := h w hreach 0 _ hfirst hlast (1000 * second) (by decide)
    (by decide) (by decide)
  rw [hwindows] at hwin
  simp only [List.mem_cons, List.not_mem_nil, or_false] at hwin
  rcases hwin with rfl | rfl | rfl
  · exact absurd hsince (by decide)
  · exact absurd hsince (by decide)
  · exact absurd hupTo (by decide)

end ConnectorPolling
