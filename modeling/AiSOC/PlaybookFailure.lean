import AiSOC.PlaybookEngine

/-! # Failure policy of playbook runs

The engine ends a run at a failed step only where `on_failure` is `abort`. A step with `retry`
gets the retries that every step gets, and what is left of its policy then is `continue`. -/
namespace PlaybookFailure

open TransitionSystem (Reachable anyStep)
open PlaybookEngine

/-- The step of the record failed, with another policy than `continue`. -/
def Broken (p : Playbook) (entry : Nat × StepResult) : Prop :=
  entry.2.status = .failed ∧
    ∃ step, p.steps[entry.1]? = some step ∧ step.onFailure ≠ .continue

/-- A broken step is the last that is executed, and fails the run. -/
def KeepsPolicy (p : Playbook) (r : PlaybookRun) : Prop :=
  ∀ (i : Nat) (entry : Nat × StepResult), r.stepResults[i]? = some entry → Broken p entry →
    (∀ (j : Nat) (later : Nat × StepResult), i < j → r.stepResults[j]? = some later →
      later.2.status = .skipped) ∧ r.status = .failed

/-- However the run ends. -/
structure Obeyed (env : Environment) (p : Playbook) (triggerContext : Dict) (dryRun : Bool) :
    Prop where
  returned : ∀ r, run env p triggerContext dryRun = some (.returned r) → KeepsPolicy p r
  raised : ∀ r text, run env p triggerContext dryRun = some (.raised r text) → KeepsPolicy p r

/-- The round does not execute a step with `retry` whose attempts all raise. -/
def RetryHolds (env : Environment) (p : Playbook) (dryRun : Bool) (s : Loop) : Prop :=
  ∀ step, p.steps[s.currentIdx]? = some step → step.id ∉ s.visited →
    gate env step s.run.context = .ok true → step.type ≠ .condition →
      step.onFailure = .retry →
        (attempts env dryRun step s.run.context 1 step.retryMax).1 ≠ .failed

variable {env : Environment} {p : Playbook} {triggerContext : Dict} {dryRun : Bool}
variable {s t : Loop} {r : PlaybookRun} {step : PlaybookStep} {result : StepResult}

/-- Only an executed step can have failed. -/
theorem failed_executed (h : Settled env dryRun step s.run.context result)
    (hfailed : result.status = .failed) : gate env step s.run.context = .ok true ∧
      step.type ≠ .condition ∧
      (attempts env dryRun step s.run.context 1 step.retryMax).1 = .failed := by
  cases h with
  | skipped _ => cases hfailed
  | branched _ _ => cases hfailed
  | executed hgate htype => exact ⟨hgate, htype, hfailed⟩

/-- A round that goes on has broken no step. -/
theorem not_broken (hround : RetryHolds env p dryRun s)
    (hstep : p.steps[s.currentIdx]? = some step) (hnew : step.id ∉ s.visited)
    (hsettled : Settled env dryRun step s.run.context result)
    (habort : result.status = .failed → step.onFailure ≠ .abort) :
    ¬ Broken p (s.currentIdx, result) := by
  rintro ⟨hfailed, other, hother, hpolicy⟩
  obtain rfl := Option.some.inj (hstep.symm.trans hother)
  obtain ⟨hgate, htype, hattempts⟩ := failed_executed hsettled hfailed
  cases hretry : step.onFailure with
  | abort => exact habort hfailed hretry
  | «continue» => exact hpolicy hretry
  | retry => exact hround step hstep hnew hgate htype hretry hattempts

/-- While the run goes on, no step is broken. -/
theorem reachable_unbroken
    (h : ∀ s, Reachable (rounds env p triggerContext dryRun) anyStep s → RetryHolds env p dryRun s)
    (hs : Reachable (rounds env p triggerContext dryRun) anyStep s) :
    ∀ entry ∈ s.run.stepResults, ¬ Broken p entry := by
  induction hs with
  | start hs =>
    cases hs
    exact fun entry hentry => (List.not_mem_nil hentry).elim
  | step hs _ hn ih =>
    obtain ⟨step, result, hstep, hnew, hsettled, habort, -, hresults, -⟩ :=
      iteration_next (rounds_next.mp hn)
    intro entry hentry
    rw [hresults] at hentry
    rcases List.mem_append.mp hentry with hentry | hentry
    · exact ih entry hentry
    · rw [List.mem_singleton.mp hentry]
      exact not_broken (h _ hs) hstep hnew hsettled habort

theorem keepsPolicy_of_unbroken (h : ∀ entry ∈ r.stepResults, ¬ Broken p entry) :
    KeepsPolicy p r := by
  intro i entry hentry hbroken
  exact (h entry (List.mem_of_getElem? hentry) hbroken).elim

/-- The one record that may be broken is the last. -/
theorem keepsPolicy_concat {results : List (Nat × StepResult)} {entry : Nat × StepResult}
    (h : ∀ entry ∈ results, ¬ Broken p entry) (hresults : r.stepResults = results ++ [entry])
    (hstatus : r.status = .failed) : KeepsPolicy p r := by
  intro i broken hbroken hb
  refine ⟨?_, hstatus⟩
  intro j later hij hlater
  rw [hresults] at hbroken hlater
  have hj : j < (results ++ [entry]).length := (List.getElem?_eq_some_iff.mp hlater).1
  rw [List.length_append, List.length_singleton] at hj
  rw [List.getElem?_append_left (by omega)] at hbroken
  exact (h broken (List.mem_of_getElem? hbroken) hb).elim

theorem returned_keepsPolicy
    (h : ∀ s, Reachable (rounds env p triggerContext dryRun) anyStep s → RetryHolds env p dryRun s)
    (hr : run env p triggerContext dryRun = some (.returned r)) : KeepsPolicy p r := by
  obtain ⟨s, hs, hfinished⟩ := loop_returned (.start rfl) hr
  have hall := reachable_unbroken h hs
  obtain ⟨-, hresults, -⟩ | ⟨_, -, -, hresults, -⟩ |
    ⟨step, result, -, -, -, -, -, hresults, hstatus⟩ := iteration_finished hfinished
  · apply keepsPolicy_of_unbroken
    rw [hresults]
    exact hall
  · apply keepsPolicy_of_unbroken
    rw [hresults]
    exact hall
  · exact keepsPolicy_concat hall hresults hstatus

/-- A run that raises out of a condition has the records of a round that it has reached. -/
theorem loop_raised {fuel : Nat} {text : String}
    (hs : Reachable (rounds env p triggerContext dryRun) anyStep s)
    (h : loop env p dryRun fuel s = some (.raised r text)) :
    ∃ t, Reachable (rounds env p triggerContext dryRun) anyStep t ∧ r = t.run := by
  induction fuel generalizing s with
  | zero => cases h
  | succ fuel ih =>
    unfold loop at h
    split at h
    · rename_i t hnext
      exact ih (hs.step trivial (rounds_next.mpr hnext)) h
    · cases h
    · rename_i run message hraised
      cases h
      refine ⟨s, hs, ?_⟩
      unfold iteration at hraised
      split at hraised
      · cases hraised
      split at hraised
      · cases hraised
      split at hraised
      · cases hraised
        rfl
      · cases hraised
      · split at hraised
        · cases hraised
        · unfold execute at hraised
          dsimp only at hraised
          split at hraised <;> cases hraised

/-- After a failed step with `retry` the run goes on. -/
theorem iteration_retry (hstep : p.steps[s.currentIdx]? = some step) (hnew : step.id ∉ s.visited)
    (hgate : gate env step s.run.context = .ok true) (htype : step.type ≠ .condition)
    (hretry : step.onFailure = .retry)
    (hfailed : (attempts env dryRun step s.run.context 1 step.retryMax).1 = .failed) :
    ∃ t result, iteration env p dryRun s = .next t ∧
      t.run.stepResults = s.run.stepResults ++ [(s.currentIdx, result)] ∧
      Broken p (s.currentIdx, result) := by
  have hpolicy : ¬ ((attempts env dryRun step s.run.context 1 step.retryMax).1 = .failed ∧
      step.onFailure = .abort) := by
    rintro ⟨-, habort⟩
    rw [hretry] at habort
    cases habort
  unfold iteration
  rw [hstep]
  dsimp only
  rw [if_neg hnew, hgate]
  dsimp only
  rw [if_neg htype, execute]
  dsimp only
  rw [if_neg hpolicy]
  refine ⟨_, _, rfl, rfl, hfailed, step, hstep, ?_⟩
  rw [hretry]
  decide

/-- The policy is obeyed wherever no round fails a step with `retry`; a completed run obeys it
nowhere else. -/
theorem obeyed_where_retry_holds (env : Environment) (p : Playbook) (triggerContext : Dict)
    (dryRun : Bool) :
    ((∀ s, Reachable (rounds env p triggerContext dryRun) anyStep s →
        RetryHolds env p dryRun s) → Obeyed env p triggerContext dryRun) ∧
    ∀ r, run env p triggerContext dryRun = some (.returned r) → r.status = .completed →
      Obeyed env p triggerContext dryRun →
        ∀ s, Reachable (rounds env p triggerContext dryRun) anyStep s →
          RetryHolds env p dryRun s := by
  constructor
  · intro h
    constructor
    · intro r hr
      exact returned_keepsPolicy h hr
    · intro r text hr
      obtain ⟨s, hs, rfl⟩ := loop_raised (.start rfl) hr
      exact keepsPolicy_of_unbroken (reachable_unbroken h hs)
  · intro r hr hcompleted hobeyed s hs step hstep hnew hgate htype hretry hfailed
    obtain ⟨t, result, hnext, hresults, hbroken⟩ :=
      iteration_retry hstep hnew hgate htype hretry hfailed
    obtain ⟨fuel, hloop⟩ := loop_of_reachable hr (hs.step trivial (rounds_next.mpr hnext))
    have hmem : (s.currentIdx, result) ∈ r.stepResults := by
      apply (loop_keeps_results hloop).subset
      rw [hresults]
      exact List.mem_append_right _ List.mem_cons_self
    obtain ⟨i, hi⟩ := List.mem_iff_getElem?.mp hmem
    have hstatus := (hobeyed.returned r hr i _ hi hbroken).2
    rw [hcompleted] at hstatus
    cases hstatus

/-- Conditions hold, and every handler but the lookup raises. -/
def unavailable : Environment where
  evaluateCondition _ _ := .ok true
  handle handler _ _ _ := if handler = .enrich then .ok [] else .error "unavailable"
  elapsedMs _ _ := 0

def lookThenTell : Playbook where
  id := "tell"
  name := "Look up and tell"
  steps :=
    [⟨"look", "Look up", .enrich, [], none, .retry, 1, 30, none, none⟩,
      ⟨"tell", "Tell the team", .notify, [], none, .abort, 1, 30, none, none⟩,
      ⟨"close", "Close", .closeCase, [], none, .abort, 0, 30, none, none⟩]

/-- The notification fails twice and aborts the run. -/
theorem lookThenTell_obeyed : Obeyed unavailable lookThenTell [] false := by
  refine (obeyed_where_retry_holds unavailable lookThenTell [] false).1 ?_
  intro s _ step hstep _ _ _ hretry
  have hlook : ∀ step ∈ lookThenTell.steps, step.onFailure = .retry → step.type = .enrich := by
    decide
  have htype := hlook step (List.mem_of_getElem? hstep) hretry
  unfold attempts attempt
  rw [htype]
  rintro ⟨⟩

def tellThenClose : Playbook where
  id := "close"
  name := "Tell and close"
  steps :=
    [⟨"tell", "Tell the team", .notify, [], none, .retry, 1, 30, none, none⟩,
      ⟨"look", "Look up", .enrich, [], none, .abort, 0, 30, none, none⟩]

/-- Both attempts fail, the next step is executed and the run is completed. -/
theorem failed_retry_completes : ¬ ∀ (env : Environment) (p : Playbook) (triggerContext : Dict)
    (dryRun : Bool), Obeyed env p triggerContext dryRun := by
  intro h
  have hpolicy := (h unavailable tellThenClose [] false).returned _ rfl
  have hbroken := hpolicy 0 _ rfl ⟨rfl, _, rfl, by decide⟩
  exact absurd hbroken.2 (by decide)

end PlaybookFailure
