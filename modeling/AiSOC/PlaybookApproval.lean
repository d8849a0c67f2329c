import AiSOC.PlaybookEngine

/-! # Approval steps of a playbook

The table of handlers has no entry for approval steps. The engine does nothing for such a
step, as for every other type without an entry, records a success and goes on. -/
namespace PlaybookApproval

open TransitionSystem (Reachable anyStep)
open PlaybookEngine

/-- A step whose condition does not hold is not executed. -/
def Executed (result : StepResult) : Prop := result.status ≠ .skipped

instance (result : StepResult) : Decidable (Executed result) :=
  inferInstanceAs (Decidable (result.status ≠ .skipped))

/-- An approval can only have come from a handler that was asked for it. -/
def ApprovalObtained (step : PlaybookStep) (result : StepResult) : Prop :=
  (handlers step.type).isSome ∧ result.status = .success

/-- Nothing is executed after an approval step that asked in vain. -/
def ApprovalsRespected (p : Playbook) (results : List (Nat × StepResult)) : Prop :=
  ∀ (i j : Nat) (asked later : Nat × StepResult) (step : PlaybookStep), i < j →
    results[i]? = some asked → results[j]? = some later → p.steps[asked.1]? = some step →
      step.type = .approval → Executed asked.2 → Executed later.2 →
        ApprovalObtained step asked.2

/-- A completed run has no success for a step that nothing was done for. -/
def HonestlyCompleted (p : Playbook) (r : PlaybookRun) : Prop :=
  r.status = .completed → ∀ entry ∈ r.stepResults, ∀ step, p.steps[entry.1]? = some step →
    Unhandled step.type → entry.2.status ≠ .success

/-- The round does not take up a step whose type has no handler. -/
def TakesHandled (env : Environment) (p : Playbook) (s : Loop) : Prop :=
  ∀ step, p.steps[s.currentIdx]? = some step → step.id ∉ s.visited →
    gate env step s.run.context = .ok true → ¬ Unhandled step.type

def AllHandled (p : Playbook) (results : List (Nat × StepResult)) : Prop :=
  ∀ entry ∈ results, ∀ step, p.steps[entry.1]? = some step → Executed entry.2 →
    ¬ Unhandled step.type

variable {env : Environment} {p : Playbook} {triggerContext : Dict} {dryRun : Bool}
variable {s t : Loop} {r : PlaybookRun}

theorem approval_unhandled : Unhandled .approval := ⟨rfl, by decide⟩

theorem AllHandled.approvalsRespected {results : List (Nat × StepResult)}
    (h : AllHandled p results) : ApprovalsRespected p results := by
  intro i j asked later step _ hi _ hstep happroval hasked _
  refine (h asked (List.mem_of_getElem? hi) step hstep hasked ?_).elim
  exact happroval ▸ approval_unhandled

theorem AllHandled.honestlyCompleted (h : AllHandled p r.stepResults) :
    HonestlyCompleted p r := by
  intro _ entry hentry step hstep hun hsuccess
  refine h entry hentry step hstep ?_ hun
  rw [Executed, hsuccess]
  decide

theorem AllHandled.concat {results : List (Nat × StepResult)} (h : AllHandled p results)
    {idx : Nat} {step : PlaybookStep} {result : StepResult} (hstep : p.steps[idx]? = some step)
    (hnew : Executed result → ¬ Unhandled step.type) :
    AllHandled p (results ++ [(idx, result)]) := by
  intro entry hentry other hother hexecuted
  rcases List.mem_append.mp hentry with hentry | hentry
  · exact h entry hentry other hother hexecuted
  · cases List.mem_singleton.mp hentry
    rw [hstep] at hother
    cases hother
    exact hnew hexecuted

/-- A step is executed only where its gate lets it through. -/
theorem gate_of_executed {step : PlaybookStep} {context : Dict} {result : StepResult}
    (h : Settled env dryRun step context result) (hx : Executed result) :
    gate env step context = .ok true := by
  cases h with
  | skipped _ => exact (hx rfl).elim
  | branched hgate _ => exact hgate
  | executed hgate _ => exact hgate

theorem reachable_allHandled
    (h : ∀ s, Reachable (rounds env p triggerContext dryRun) anyStep s → TakesHandled env p s)
    (hs : Reachable (rounds env p triggerContext dryRun) anyStep s) :
    AllHandled p s.run.stepResults := by
  induction hs with
  | start hs =>
    cases hs
    exact fun entry hentry => (List.not_mem_nil hentry).elim
  | step hs _ hn ih =>
    obtain ⟨step, result, hstep, hnew, hsettled, -, -, hresults, -⟩ :=
      iteration_next (rounds_next.mp hn)
    rw [hresults]
    exact ih.concat hstep fun hx => h _ hs step hstep hnew (gate_of_executed hsettled hx)

theorem returned_allHandled
    (h : ∀ s, Reachable (rounds env p triggerContext dryRun) anyStep s → TakesHandled env p s)
    (hr : run env p triggerContext dryRun = some (.returned r)) :
    AllHandled p r.stepResults := by
  obtain ⟨s, hs, hfinished⟩ := loop_returned (.start rfl) hr
  have hall := reachable_allHandled h hs
  obtain ⟨-, hresults, -⟩ | ⟨_, -, -, hresults, -⟩ |
    ⟨step, result, hstep, hnew, hsettled, -, -, hresults, -⟩ := iteration_finished hfinished
  · exact hresults ▸ hall
  · exact hresults ▸ hall
  · rw [hresults]
    exact hall.concat hstep fun hx => h s hs step hstep hnew (gate_of_executed hsettled hx)

/-- Taking up a step without a handler goes on to the next round with a success. -/
theorem iteration_unhandled {step : PlaybookStep} (hstep : p.steps[s.currentIdx]? = some step)
    (hnew : step.id ∉ s.visited) (hgate : gate env step s.run.context = .ok true)
    (hun : Unhandled step.type) : ∃ t result, iteration env p false s = .next t ∧
      t.run.stepResults = s.run.stepResults ++ [(s.currentIdx, result)] ∧
      result.status = .success := by
  unfold iteration
  rw [hstep]
  dsimp only
  rw [if_neg hnew, hgate]
  dsimp only
  rw [if_neg hun.2, execute, attempts_unhandled hun.1]
  exact ⟨_, _, rfl, rfl, rfl⟩

/-- A completed run is honest exactly when no round took up a step without a handler. -/
theorem completed_honest_iff
    (hr : run env p triggerContext false = some (.returned r)) (hc : r.status = .completed) :
    HonestlyCompleted p r ↔
      ∀ s, Reachable (rounds env p triggerContext false) anyStep s → TakesHandled env p s := by
  refine ⟨fun hhonest s hs step hstep hnew hgate hun => ?_,
    fun h => (returned_allHandled h hr).honestlyCompleted⟩
  obtain ⟨t, result, hnext, hresults, hsuccess⟩ := iteration_unhandled hstep hnew hgate hun
  obtain ⟨fuel, hloop⟩ := loop_of_reachable hr (hs.step trivial (rounds_next.mpr hnext))
  have hmem : (s.currentIdx, result) ∈ r.stepResults :=
    (loop_keeps_results hloop).subset (hresults ▸ by simp)
  exact hhonest hc _ hmem step hstep hun hsuccess

/-- At every round and in the report of the run. -/
structure Gated (env : Environment) (p : Playbook) (triggerContext : Dict) : Prop where
  rounds_respected : ∀ s, Reachable (rounds env p triggerContext false) anyStep s →
    ApprovalsRespected p s.run.stepResults
  returned_respected : ∀ r, run env p triggerContext false = some (.returned r) →
    ApprovalsRespected p r.stepResults
  returned_honest : ∀ r, run env p triggerContext false = some (.returned r) →
    HonestlyCompleted p r

/-- Approvals are respected and completed runs are honest wherever no round takes up a step
without a handler; a completed run is honest nowhere else. -/
theorem gated_where_handled (env : Environment) (p : Playbook) (triggerContext : Dict) :
    ((∀ s, Reachable (rounds env p triggerContext false) anyStep s → TakesHandled env p s) →
      Gated env p triggerContext) ∧
    ∀ r, run env p triggerContext false = some (.returned r) → r.status = .completed →
      Gated env p triggerContext →
        ∀ s, Reachable (rounds env p triggerContext false) anyStep s → TakesHandled env p s := by
  constructor
  · intro h
    constructor
    · intro s hs
      exact (reachable_allHandled h hs).approvalsRespected
    · intro r hr
      exact (returned_allHandled h hr).approvalsRespected
    · intro r hr
      exact (returned_allHandled h hr).honestlyCompleted
  · intro r hr hc hgated
    exact (completed_honest_iff hr hc).mp (hgated.returned_honest r hr)

def containment : Playbook where
  id := "contain"
  name := "Contain host"
  steps :=
    [⟨"ask", "Ask the analyst", .approval, [], none, .abort, 0, 30, none, none⟩,
      ⟨"isolate", "Isolate", .isolateHost, [], none, .abort, 0, 30, none, none⟩]

/-- Conditions hold and handlers answer at once. -/
def obliging : Environment where
  evaluateCondition _ _ := .ok true
  handle _ _ _ _ := .ok []
  elapsedMs _ _ := 0

def triage : Playbook where
  id := "triage"
  name := "Triage"
  steps :=
    [⟨"look", "Look up", .enrich, [], none, .continue, 1, 30, none, none⟩,
      ⟨"tell", "Tell the team", .notify, [], none, .abort, 0, 30, some "look", none⟩]

theorem triage_gated : Gated obliging triage [] := by
  refine (gated_where_handled obliging triage []).1 fun s _ step hstep _ _ hun => ?_
  have hhandled : ∀ step ∈ triage.steps, (handlers step.type).isSome := by decide
  simpa [hun.1] using hhandled step (List.mem_of_getElem? hstep)

/-- The host is isolated although nobody approved it, and the run reports two successes. -/
theorem isolation_without_approval : ¬ ∀ (env : Environment) (p : Playbook)
    (triggerContext : Dict), Gated env p triggerContext := by
  intro h
  have hrespected := (h obliging containment []).returned_respected _ rfl
  have hobtained := hrespected 0 1 _ _ _ (by decide) rfl rfl rfl rfl (by decide) (by decide)
  exact absurd hobtained.1 (by decide)

end PlaybookApproval
