import Mathlib.Data.List.Basic
import Mathlib.Logic.Function.Basic
import AiSOC.TransitionSystem

/-! # Approval timeouts

Every timer is a task that is split at its awaits: the sleep, the call of the fallback and the
audit. A request to cancel a task is a mark on it, which takes effect when it runs next. -/
namespace ApprovalTimeout

open TransitionSystem (System Reachable runTrace)

inductive SafeDefault where
  | rejected
  | approved
  deriving DecidableEq

/-- The error that the fallback ended with, if it did, is kept over the audit. -/
inductive Phase where
  | created
  | sleeping
  | calling
  | auditing (error : Option String)
  | done
  deriving DecidableEq

structure ApprovalAuditEvent where
  caseId : String
  actionId : String
  approverId : String
  decision : String
  channel : Option String
  source : String
  error : Option String
  safeDefault : SafeDefault
  deriving DecidableEq

structure Schedule where
  actionId : String
  safeDefault : SafeDefault
  caseId : String
  channel : Option String
  approverId : String
  deriving DecidableEq

/-- With a log: the fallbacks that were called, the records that were written, and whether a
cancel of this timer returned true. -/
structure Timer where
  args : Schedule
  phase : Phase
  cancelRequested : Bool
  calls : List SafeDefault
  records : List ApprovalAuditEvent
  reported : Bool
  deriving DecidableEq

def fallbackEvent (args : Schedule) (error : Option String) : ApprovalAuditEvent where
  caseId := args.caseId
  actionId := args.actionId
  approverId := args.approverId
  decision := "timeout_fallback"
  channel := args.channel
  source := "scheduler"
  error := error
  safeDefault := args.safeDefault

/-- How the fallback ends. The last way is an exception that is no `Exception`, as the one of a
cancelled task. -/
inductive CallEnd where
  | returned
  | failed (error : String)
  | escaped
  deriving DecidableEq

inductive TimerStep where
  | start
  | wake
  | endCall (how : CallEnd)
  | endAudit (written : Bool)
  deriving DecidableEq

/-- A sink writes what it is given, unless it is cancelled. -/
@[grind =]
def advance (t : Timer) : TimerStep → Option Timer
  | .start =>
    if t.phase = .created then
      some { t with phase := if t.cancelRequested then .done else .sleeping }
    else none
  | .wake =>
    if t.phase = .sleeping then
      if t.cancelRequested then some { t with phase := .done }
      else some { t with phase := .calling, calls := t.calls ++ [t.args.safeDefault] }
    else none
  | .endCall how =>
    if t.phase = .calling then
      match how with
      | .returned => some { t with phase := .auditing none }
      | .failed error => some { t with phase := .auditing (some error) }
      | .escaped => some { t with phase := .done }
    else none
  | .endAudit written =>
    match t.phase with
    | .auditing error =>
      if written then
        some { t with phase := .done, records := t.records ++ [fallbackEvent t.args error] }
      else if t.cancelRequested then some { t with phase := .done }
      else none
    | _ => none

structure State where
  tasks : List Timer
  timers : String → Option ℕ

def armed (args : Schedule) : Timer := ⟨args, .created, false, [], [], false⟩

/-- The timer of an action that is not done. -/
def pending (s : State) (actionId : String) : Option ℕ :=
  (s.timers actionId).filter fun i => (s.tasks[i]?).any fun t => t.phase ≠ .done

def requestCancel (t : Timer) : Timer := { t with cancelRequested := true }

/-- `reported` when the cancel of the scheduler returns true. -/
def reportCancel (t : Timer) : Timer := { t with cancelRequested := true, reported := true }

@[grind =]
def updateTask (f : Timer → Timer) (tasks : List Timer) : Option ℕ → List Timer
  | some i => tasks.modify i f
  | none => tasks

def schedule (s : State) (args : Schedule) : State where
  tasks := updateTask requestCancel s.tasks (pending s args.actionId) ++ [armed args]
  timers := Function.update s.timers args.actionId (some s.tasks.length)

def cancel (s : State) (actionId : String) : State × Bool :=
  (⟨updateTask reportCancel s.tasks (pending s actionId),
    Function.update s.timers actionId none⟩, (pending s actionId).isSome)

inductive Event where
  | schedule (args : Schedule)
  | cancel (actionId : String)
  | step (i : ℕ) (st : TimerStep)
  deriving DecidableEq

def next (s : State) : Event → Option State
  | .schedule args => some (schedule s args)
  | .cancel actionId => some (cancel s actionId).1
  | .step i st => do
    let t ← s.tasks[i]?
    let t' ← advance t st
    some { s with tasks := s.tasks.set i t' }

def empty : State := ⟨[], fun _ => none⟩

def system : System State Event where
  start s := s = empty
  next := next

/-- How far a task is from its end. -/
def distance : Phase → ℕ
  | .created => 4
  | .sleeping => 3
  | .calling => 2
  | .auditing _ => 1
  | .done => 0

/-- Every call has one record, or has none yet and is on the way to it. -/
def Audited (t : Timer) : Prop :=
  t.calls = [] ∧ t.records = [] ∨
    t.calls = [t.args.safeDefault] ∧
      ((t.phase = .done ∧ ∃ error, t.records = [fallbackEvent t.args error]) ∨
        t.phase ≠ .done ∧ t.records = [])

structure Respects (s : State) : Prop where
  cancelled : ∀ t ∈ s.tasks, t.reported = true → t.calls = []
  single : ∀ (i j : ℕ) (t u : Timer), s.tasks[i]? = some t → s.tasks[j]? = some u →
    t.phase = .calling → u.phase = .calling → t.args.actionId = u.args.actionId → i = j
  audited : ∀ t ∈ s.tasks, Audited t
  proceeds : ∀ t ∈ s.tasks, t.phase ≠ .done → ∃ st t', advance t st = some t' ∧
    distance t'.phase < distance t.phase

/-- The fallback was called and its record is not written yet. -/
def InCall (t : Timer) : Prop := t.phase = .calling ∨ ∃ error, t.phase = .auditing error

/-- No timer is cancelled or replaced in its call, and calls end by `Exception`s if they raise. -/
def Keeps (s : State) : Event → Prop
  | .schedule args => ∀ i t, s.timers args.actionId = some i → s.tasks[i]? = some t → ¬InCall t
  | .cancel actionId => ∀ i t, s.timers actionId = some i → s.tasks[i]? = some t → ¬InCall t
  | .step _ st => st ≠ .endCall .escaped

variable {s : State} {t t' : Timer} {i : ℕ} {st : TimerStep} {e : Event} {args : Schedule}
  {actionId : String}

/-! ## One timer -/

/-- What holds of a timer by itself. -/
structure Good (t : Timer) : Prop where
  reported : t.reported = true → t.cancelRequested = true
  waiting : t.phase = .created ∨ t.phase = .sleeping → t.calls = [] ∧ t.records = []
  inCall : InCall t → t.cancelRequested = false ∧ t.calls = [t.args.safeDefault] ∧ t.records = []
  done : t.phase = .done → (t.calls = [] ∧ t.records = []) ∨ t.reported = false ∧
    t.calls = [t.args.safeDefault] ∧ ∃ error, t.records = [fallbackEvent t.args error]

theorem phase_cases (t : Timer) :
    (t.phase = .created ∨ t.phase = .sleeping) ∨ InCall t ∨ t.phase = .done := by
  cases h : t.phase with
  | created => exact Or.inl (Or.inl rfl)
  | sleeping => exact Or.inl (Or.inr rfl)
  | calling => exact Or.inr (Or.inl (Or.inl h))
  | auditing error => exact Or.inr (Or.inl (Or.inr ⟨error, h⟩))
  | done => exact Or.inr (Or.inr rfl)

theorem InCall.ne_done (h : InCall t) : t.phase ≠ .done := by
  rcases h with h | ⟨error, h⟩
  · rw [h]
    exact nofun
  · rw [h]
    exact nofun

theorem Good.audited (h : Good t) : Audited t := by
  rcases phase_cases t with hwait | hcall | hdone
  · exact Or.inl (h.waiting hwait)
  · obtain ⟨-, hcalls, hrecords⟩ := h.inCall hcall
    exact Or.inr ⟨hcalls, Or.inr ⟨hcall.ne_done, hrecords⟩⟩
  · rcases h.done hdone with hnone | ⟨-, hcalls, hrecords⟩
    · exact Or.inl hnone
    · exact Or.inr ⟨hcalls, Or.inl ⟨hdone, hrecords⟩⟩

theorem Good.calls_of_reported (h : Good t) (hr : t.reported = true) : t.calls = [] := by
  rcases phase_cases t with hwait | hcall | hdone
  · exact (h.waiting hwait).1
  · have hcancel := (h.inCall hcall).1
    exact absurd ((h.reported hr).symm.trans hcancel) nofun
  · rcases h.done hdone with hnone | ⟨hnot, -⟩
    · exact hnone.1
    · exact absurd (hr.symm.trans hnot) nofun

theorem good_of_not_inCall (hreported : t.reported = true → t.cancelRequested = true)
    (hcalls : t.calls = []) (hrecords : t.records = []) (h : ¬InCall t) : Good t :=
  ⟨hreported, fun _ => ⟨hcalls, hrecords⟩, fun hin => absurd hin h,
    fun _ => Or.inl ⟨hcalls, hrecords⟩⟩

theorem not_inCall (h : t.phase = .created ∨ t.phase = .sleeping ∨ t.phase = .done) :
    ¬InCall t := by
  rintro (hin | ⟨error, hin⟩)
  · rw [hin] at h
    simp at h
  · rw [hin] at h
    simp at h

theorem good_armed (args : Schedule) : Good (armed args) :=
  good_of_not_inCall nofun rfl rfl (not_inCall (Or.inl rfl))

/-- A request that does not come in the call is kept to. -/
theorem Good.requestCancel (h : Good t) (hcall : ¬InCall t) : Good (requestCancel t) :=
  ⟨fun _ => rfl, h.waiting, fun hin => absurd hin hcall, h.done⟩

theorem Good.reportCancel (h : Good t) (hcall : ¬InCall t) (hdone : t.phase ≠ .done) :
    Good (reportCancel t) :=
  ⟨fun _ => rfl, h.waiting, fun hin => absurd hin hcall, fun hd => absurd hd hdone⟩

/-- A step is one of a timer that is not done; its mark and its arguments stay. -/
theorem advance_frame (h : advance t st = some t') :
    t.phase ≠ .done ∧ t'.cancelRequested = t.cancelRequested ∧ t'.args = t.args := by
  cases st with
  | start =>
    simp only [advance] at h
    split_ifs at h with hphase
    all_goals
      cases h
      have hrunning : t.phase ≠ .done := by
        rw [hphase]
        exact nofun
      exact ⟨hrunning, rfl, rfl⟩
  | wake =>
    simp only [advance] at h
    split_ifs at h with hphase
    all_goals
      cases h
      have hrunning : t.phase ≠ .done := by
        rw [hphase]
        exact nofun
      exact ⟨hrunning, rfl, rfl⟩
  | endCall how =>
    simp only [advance] at h
    split_ifs at h with hphase
    have hrunning : t.phase ≠ .done := by
      rw [hphase]
      exact nofun
    cases how with
    | returned =>
      cases h
      exact ⟨hrunning, rfl, rfl⟩
    | failed error =>
      cases h
      exact ⟨hrunning, rfl, rfl⟩
    | escaped =>
      cases h
      exact ⟨hrunning, rfl, rfl⟩
  | endAudit written =>
    simp only [advance] at h
    split at h
    · rename_i error hphase
      have hrunning : t.phase ≠ .done := by
        rw [hphase]
        exact nofun
      split_ifs at h
      all_goals
        cases h
        exact ⟨hrunning, rfl, rfl⟩
    · cases h

theorem Good.advance (h : Good t) (hst : st ≠ .endCall .escaped) (hnext : advance t st = some t') :
    Good t' := by
  cases st with
  | start =>
    simp only [ApprovalTimeout.advance] at hnext
    split_ifs at hnext with hphase hc
    · cases hnext
      obtain ⟨hcalls, hrecords⟩ := h.waiting (Or.inl hphase)
      exact good_of_not_inCall h.reported hcalls hrecords (not_inCall (Or.inr (Or.inr rfl)))
    · cases hnext
      obtain ⟨hcalls, hrecords⟩ := h.waiting (Or.inl hphase)
      exact good_of_not_inCall h.reported hcalls hrecords (not_inCall (Or.inr (Or.inl rfl)))
  | wake =>
    simp only [ApprovalTimeout.advance] at hnext
    split_ifs at hnext with hphase hc
    · cases hnext
      obtain ⟨hcalls, hrecords⟩ := h.waiting (Or.inr hphase)
      exact good_of_not_inCall h.reported hcalls hrecords (not_inCall (Or.inr (Or.inr rfl)))
    · cases hnext
      obtain ⟨hcalls, hrecords⟩ := h.waiting (Or.inr hphase)
      have hcancel : t.cancelRequested = false := by simpa using hc
      refine ⟨h.reported, fun hw => by simp at hw, fun _ => ⟨hcancel, ?_, hrecords⟩, nofun⟩
      simp only [hcalls, List.nil_append]
  | endCall how =>
    simp only [ApprovalTimeout.advance] at hnext
    split_ifs at hnext with hphase
    have hin : InCall t := Or.inl hphase
    cases how with
    | returned =>
      cases hnext
      exact ⟨h.reported, fun hw => by simp at hw, fun _ => h.inCall hin, nofun⟩
    | failed error =>
      cases hnext
      exact ⟨h.reported, fun hw => by simp at hw, fun _ => h.inCall hin, nofun⟩
    | escaped => exact absurd rfl hst
  | endAudit written =>
    simp only [ApprovalTimeout.advance] at hnext
    split at hnext
    · rename_i error hphase
      obtain ⟨hcancel, hcalls, hrecords⟩ := h.inCall (Or.inr ⟨error, hphase⟩)
      split_ifs at hnext with hw hc
      · cases hnext
        have hreported : t.reported = false := by
          by_contra hr
          exact absurd ((h.reported (by simpa using hr)).symm.trans hcancel) nofun
        refine ⟨h.reported, fun hw => by simp at hw, fun hin => by simp [InCall] at hin, ?_⟩
        intro _
        refine Or.inr ⟨hreported, hcalls, error, ?_⟩
        simp only [hrecords, List.nil_append]
      · exact absurd (hc.symm.trans hcancel) nofun
    · cases hnext

/-- A timer that is not done has a step of its own. -/
theorem exists_advance (hdone : t.phase ≠ .done) : ∃ st t', advance t st = some t' ∧
    distance t'.phase < distance t.phase := by
  cases hphase : t.phase with
  | created =>
    refine ⟨.start, _, if_pos hphase, ?_⟩
    cases t.cancelRequested with
    | true => exact Nat.succ_pos 3
    | false => exact Nat.lt_succ_self 3
  | sleeping =>
    cases hc : t.cancelRequested with
    | true => exact ⟨.wake, _, (if_pos hphase).trans (if_pos hc), Nat.succ_pos 2⟩
    | false =>
      refine ⟨.wake, _, (if_pos hphase).trans (if_neg ?_), Nat.lt_succ_self 2⟩
      rw [hc]
      exact nofun
  | calling => exact ⟨.endCall .returned, _, if_pos hphase, Nat.lt_succ_self 1⟩
  | auditing error =>
    have hnext : advance t (.endAudit true) =
        some { t with phase := .done, records := t.records ++ [fallbackEvent t.args error] } := by
      simp only [advance, hphase, if_true]
    exact ⟨.endAudit true, _, hnext, Nat.lt_succ_self 0⟩
  | done => exact absurd hphase hdone

/-! ## Every run -/

structure Invariant (s : State) : Prop where
  good : ∀ t ∈ s.tasks, Good t
  named : ∀ actionId i, s.timers actionId = some i → ∃ t, s.tasks[i]? = some t ∧
    t.args.actionId = actionId
  armed : ∀ (i : ℕ) (t : Timer), s.tasks[i]? = some t → t.phase ≠ .done →
    t.cancelRequested = false → s.timers t.args.actionId = some i

theorem pending_eq_some : pending s actionId = some i ↔
    s.timers actionId = some i ∧ ∃ t, s.tasks[i]? = some t ∧ t.phase ≠ .done := by
  rw [pending, Option.filter_eq_some_iff, Option.any_eq_true]
  simp only [decide_eq_true_eq]

/-- The timers but the one of an action are as before, and that one was changed by `f`. -/
theorem getElem?_updateTask {f : Timer → Timer} {j : ℕ}
    (h : (updateTask f s.tasks (pending s actionId))[j]? = some t) :
    s.tasks[j]? = some t ∧ pending s actionId ≠ some j ∨
      pending s actionId = some j ∧ ∃ u, s.tasks[j]? = some u ∧ u.phase ≠ .done ∧ t = f u := by
  cases hp : pending s actionId with
  | none =>
    rw [hp] at h
    exact Or.inl ⟨h, nofun⟩
  | some i =>
    rw [hp] at h
    rw [updateTask, List.getElem?_modify] at h
    by_cases hij : i = j
    · subst hij
      obtain ⟨-, u, hu, hdone⟩ := pending_eq_some.mp hp
      simp only [hu, if_true, Option.map_eq_map, Option.map_some, Option.some.injEq] at h
      exact Or.inr ⟨rfl, u, hu, hdone, h.symm⟩
    · simp only [if_neg hij, id_map'] at h
      exact Or.inl ⟨h, fun heq => hij (Option.some.inj heq)⟩

/-- Cancels and replacements: what is left of the timer of an action is its request. -/
theorem Invariant.interrupt (h : Invariant s) {f : Timer → Timer}
    (hkeeps : ∀ i t, s.timers actionId = some i → s.tasks[i]? = some t → ¬InCall t)
    (hf : ∀ u, Good u → ¬InCall u → u.phase ≠ .done → Good (f u) ∧ (f u).args = u.args ∧
      (f u).cancelRequested = true) {j : ℕ}
    (ht : (updateTask f s.tasks (pending s actionId))[j]? = some t) :
    Good t ∧ (∃ u, s.tasks[j]? = some u ∧ u.args = t.args) ∧
      (t.phase ≠ .done → t.cancelRequested = false →
        t.args.actionId ≠ actionId ∧ s.timers t.args.actionId = some j) := by
  rcases getElem?_updateTask ht with ⟨hj, hnot⟩ | ⟨hpending, u, hu, hdone, rfl⟩
  · refine ⟨h.good t (List.mem_of_getElem? hj), ⟨t, hj, rfl⟩, ?_⟩
    intro hdone hcancel
    have harmed := h.armed j t hj hdone hcancel
    refine ⟨?_, harmed⟩
    rintro rfl
    exact hnot (pending_eq_some.mpr ⟨harmed, t, hj, hdone⟩)
  · have htimer := (pending_eq_some.mp hpending).1
    obtain ⟨hgood, hargs, hcancel⟩ := hf u (h.good u (List.mem_of_getElem? hu))
      (hkeeps j u htimer hu) hdone
    exact ⟨hgood, ⟨u, hu, hargs.symm⟩, fun _ hnot => absurd (hcancel.symm.trans hnot) nofun⟩

theorem length_updateTask {f : Timer → Timer} {tasks : List Timer} {o : Option ℕ} :
    (updateTask f tasks o).length = tasks.length := by
  cases o with
  | none => rfl
  | some i => rw [updateTask, List.length_modify]

theorem getElem?_updateTask_of_some {f : Timer → Timer} (hf : ∀ u, (f u).args = u.args) {j : ℕ}
    {tasks : List Timer} {o : Option ℕ} (h : tasks[j]? = some t) :
    ∃ u, (updateTask f tasks o)[j]? = some u ∧ u.args = t.args := by
  cases o with
  | none => exact ⟨t, h, rfl⟩
  | some i =>
    rw [updateTask, List.getElem?_modify, h]
    by_cases hij : i = j
    · exact ⟨f t, by simp [hij], hf t⟩
    · exact ⟨t, by simp [hij], rfl⟩

theorem schedule_tasks : (schedule s args).tasks =
    updateTask requestCancel s.tasks (pending s args.actionId) ++ [armed args] := rfl

theorem schedule_timers : (schedule s args).timers =
    Function.update s.timers args.actionId (some s.tasks.length) := rfl

theorem cancel_timers : (cancel s actionId).1.timers =
    Function.update s.timers actionId none := rfl

theorem Invariant.schedule (h : Invariant s) (hkeeps : Keeps s (.schedule args)) :
    Invariant (schedule s args) := by
  have hf : ∀ u, Good u → ¬InCall u → u.phase ≠ .done → Good (ApprovalTimeout.requestCancel u) ∧
      (ApprovalTimeout.requestCancel u).args = u.args ∧
        (ApprovalTimeout.requestCancel u).cancelRequested = true :=
    fun u hu hcall _ => ⟨hu.requestCancel hcall, rfl, rfl⟩
  have hold := fun {t} {j : ℕ} => h.interrupt (t := t) (j := j) hkeeps hf
  have htasks : ∀ (j : ℕ) (t : Timer), (ApprovalTimeout.schedule s args).tasks[j]? = some t →
      (updateTask ApprovalTimeout.requestCancel s.tasks (pending s args.actionId))[j]? = some t ∨
        j = s.tasks.length ∧ t = ApprovalTimeout.armed args := by
    intro j t ht
    rw [schedule_tasks, List.getElem?_append, length_updateTask] at ht
    split_ifs at ht with hj
    · exact Or.inl ht
    · obtain ⟨hzero, htail⟩ := List.getElem?_eq_some_iff.mp ht
      rw [List.length_singleton] at hzero
      refine Or.inr ⟨by omega, ?_⟩
      rw [← htail, List.getElem_singleton]
  constructor
  case good =>
    intro t ht
    obtain ⟨j, hj⟩ := List.mem_iff_getElem?.mp ht
    rcases htasks j t hj with hj | ⟨-, rfl⟩
    · exact (hold hj).1
    · exact good_armed args
  case named =>
    intro actionId i hi
    rw [schedule_timers, Function.update_apply] at hi
    split_ifs at hi with heq
    · obtain rfl := Option.some.inj hi
      refine ⟨ApprovalTimeout.armed args, ?_, heq.symm⟩
      have hlength : (updateTask requestCancel s.tasks (pending s args.actionId)).length =
          s.tasks.length := length_updateTask
      rw [schedule_tasks, List.getElem?_append_right (Nat.le_of_eq hlength), hlength, Nat.sub_self]
      rfl
    · obtain ⟨t, ht, hname⟩ := h.named actionId i hi
      obtain ⟨u, hu, hargs⟩ := getElem?_updateTask_of_some (f := ApprovalTimeout.requestCancel)
        (o := pending s args.actionId) (fun _ => rfl) ht
      refine ⟨u, ?_, by rw [hargs, hname]⟩
      rw [schedule_tasks, List.getElem?_append_left, hu]
      exact (List.getElem?_eq_some_iff.mp hu).1
  case armed =>
    intro j t hj hdone hcancel
    rw [schedule_timers, Function.update_apply]
    rcases htasks j t hj with hj | ⟨rfl, rfl⟩
    · obtain ⟨hne, harmed⟩ := (hold hj).2.2 hdone hcancel
      rw [if_neg hne, harmed]
    · exact if_pos rfl

theorem Invariant.cancel (h : Invariant s) (hkeeps : Keeps s (.cancel actionId)) :
    Invariant (cancel s actionId).1 := by
  have hf : ∀ u, Good u → ¬InCall u → u.phase ≠ .done → Good (reportCancel u) ∧
      (reportCancel u).args = u.args ∧ (reportCancel u).cancelRequested = true :=
    fun u hu hcall hdone => ⟨hu.reportCancel hcall hdone, rfl, rfl⟩
  have hold := fun {t} {j : ℕ} => h.interrupt (t := t) (j := j) hkeeps hf
  constructor
  case good =>
    intro t ht
    obtain ⟨j, hj⟩ := List.mem_iff_getElem?.mp ht
    exact (hold hj).1
  case named =>
    intro name i hi
    rw [cancel_timers, Function.update_apply] at hi
    split_ifs at hi with heq
    obtain ⟨t, ht, hname⟩ := h.named name i hi
    obtain ⟨u, hu, hargs⟩ := getElem?_updateTask_of_some (f := reportCancel)
      (o := pending s actionId) (fun _ => rfl) ht
    exact ⟨u, hu, by rw [hargs, hname]⟩
  case armed =>
    intro j t hj hdone hcancel
    obtain ⟨hne, harmed⟩ := (hold hj).2.2 hdone hcancel
    rw [cancel_timers, Function.update_apply, if_neg hne, harmed]

/-- A timer keeps its place and its action as it moves on. -/
theorem Invariant.step (h : Invariant s) (ht : s.tasks[i]? = some t)
    (hst : st ≠ .endCall .escaped) (hnext : advance t st = some t') :
    Invariant { s with tasks := s.tasks.set i t' } := by
  have hgood := h.good t (List.mem_of_getElem? ht)
  obtain ⟨hi, -⟩ := List.getElem?_eq_some_iff.mp ht
  constructor
  case good =>
    intro u hu
    rcases List.mem_or_eq_of_mem_set hu with hu | rfl
    · exact h.good u hu
    · exact hgood.advance hst hnext
  case named =>
    intro actionId j hj
    obtain ⟨u, hu, hname⟩ := h.named actionId j hj
    by_cases hij : i = j
    · subst hij
      obtain rfl := Option.some.inj (ht.symm.trans hu)
      exact ⟨t', List.getElem?_set_self hi, by rw [(advance_frame hnext).2.2, hname]⟩
    · exact ⟨u, (List.getElem?_set_ne hij).trans hu, hname⟩
  case armed =>
    intro j u hu hdone hcancel
    by_cases hij : i = j
    · subst hij
      rw [List.getElem?_set_self hi, Option.some.injEq] at hu
      subst hu
      obtain ⟨hbefore, hsame, hargs⟩ := advance_frame hnext
      rw [hargs]
      exact h.armed i t ht hbefore (hsame.symm.trans hcancel)
    · exact h.armed j u ((List.getElem?_set_ne hij).symm.trans hu) hdone hcancel

theorem Invariant.next {s' : State} (h : Invariant s) (hkeeps : Keeps s e)
    (hnext : next s e = some s') : Invariant s' := by
  cases e with
  | schedule args =>
    cases hnext
    exact h.schedule hkeeps
  | cancel actionId =>
    cases hnext
    exact h.cancel hkeeps
  | step i st =>
    obtain ⟨t, ht, hnext⟩ := Option.bind_eq_some_iff.mp hnext
    obtain ⟨t', ht', hnext⟩ := Option.bind_eq_some_iff.mp hnext
    cases hnext
    exact h.step ht hkeeps ht'

/-- The timer that is in its call is the one that is armed for its action. -/
theorem Invariant.respects (h : Invariant s) : Respects s := by
  have harmed : ∀ (i : ℕ) (t : Timer), s.tasks[i]? = some t → t.phase = .calling →
      s.timers t.args.actionId = some i := by
    intro i t ht hcall
    have hcancel := ((h.good t (List.mem_of_getElem? ht)).inCall (Or.inl hcall)).1
    exact h.armed i t ht (by rw [hcall]; exact nofun) hcancel
  constructor
  case cancelled => exact fun t ht hr => (h.good t ht).calls_of_reported hr
  case single =>
    intro i j t u ht hu hcall hcall' hname
    have hi := harmed i t ht hcall
    have hj := harmed j u hu hcall'
    rw [hname, hj] at hi
    exact (Option.some.inj hi).symm
  case audited => exact fun t ht => (h.good t ht).audited
  case proceeds => exact fun t _ hdone => exists_advance hdone

def denial : Schedule := ⟨"action-1", .rejected, "case-1", none, "scheduler"⟩

end ApprovalTimeout
