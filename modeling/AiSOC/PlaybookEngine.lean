import Mathlib.Data.List.Perm.Subperm
import AiSOC.TransitionSystem

/-! # Playbook engine

The run of a playbook: a loop over an index that branches jump with, a gate in front of
every step, a table of handlers with retries, and the context that results are merged into.
Handlers answer from outside, so what they return is a parameter, as is the evaluation of a
condition. A run that a condition's evaluation raises out of reports nothing. -/
namespace PlaybookEngine

open TransitionSystem (System Reachable anyStep)

/-- JSON values; a float is its exact value. -/
inductive Value where
  | null
  | bool (b : Bool)
  | int (n : Int)
  | float (q : Rat)
  | str (s : String)
  | list (vs : List Value)
  | dict (kvs : List (String × Value))

abbrev Dict := List (String × Value)

/-- A key that is there keeps its place. -/
def Dict.set (d : Dict) (key : String) (value : Value) : Dict :=
  if d.any fun kv => kv.1 = key then d.map fun kv => if kv.1 = key then (key, value) else kv
  else d ++ [(key, value)]

inductive StepType where
  | enrich | investigate | notify | blockIp | blockIoc | isolateHost | createTicket | closeCase
  | http | condition | osqueryLiveQuery | approval | disableUser | resetPassword | revokeSession
  | forceMfa | killProcess | quarantineFile | runAvScan | runScript | searchSiem
  | createNotableEvent
  deriving DecidableEq, Repr

/-- The members as a format string renders them. -/
def StepType.text : StepType → String
  | .enrich => "StepType.ENRICH"
  | .investigate => "StepType.INVESTIGATE"
  | .notify => "StepType.NOTIFY"
  | .blockIp => "StepType.BLOCK_IP"
  | .blockIoc => "StepType.BLOCK_IOC"
  | .isolateHost => "StepType.ISOLATE_HOST"
  | .createTicket => "StepType.CREATE_TICKET"
  | .closeCase => "StepType.CLOSE_CASE"
  | .http => "StepType.HTTP"
  | .condition => "StepType.CONDITION"
  | .osqueryLiveQuery => "StepType.OSQUERY_LIVE_QUERY"
  | .approval => "StepType.APPROVAL"
  | .disableUser => "StepType.DISABLE_USER"
  | .resetPassword => "StepType.RESET_PASSWORD"
  | .revokeSession => "StepType.REVOKE_SESSION"
  | .forceMfa => "StepType.FORCE_MFA"
  | .killProcess => "StepType.KILL_PROCESS"
  | .quarantineFile => "StepType.QUARANTINE_FILE"
  | .runAvScan => "StepType.RUN_AV_SCAN"
  | .runScript => "StepType.RUN_SCRIPT"
  | .searchSiem => "StepType.SEARCH_SIEM"
  | .createNotableEvent => "StepType.CREATE_NOTABLE_EVENT"

inductive Operator where
  | eq | ne | gt | lt | contains | exists
  deriving DecidableEq, Repr

structure StepCondition where
  field : String
  operator : Operator
  value : Value
  expression : Option String

inductive OnFailure where
  | abort | continue | retry
  deriving DecidableEq, Repr

structure PlaybookStep where
  id : String
  name : String
  type : StepType
  params : Dict
  condition : Option StepCondition
  onFailure : OnFailure
  retryMax : Nat
  timeoutSeconds : Nat
  nextTrue : Option String
  nextFalse : Option String

structure Playbook where
  id : String
  name : String
  steps : List PlaybookStep

inductive RunStatus where
  | pending | running | completed | failed | cancelled
  deriving DecidableEq, Repr

inductive StepStatus where
  | pending | skipped | running | success | failed
  deriving DecidableEq, Repr

inductive Handler where
  | enrich | investigate | notify | http | blockIp | isolateHost | createTicket | closeCase
  | osqueryLiveQuery
  deriving DecidableEq, Repr

def handlers : StepType → Option Handler
  | .enrich => some .enrich
  | .investigate => some .investigate
  | .notify => some .notify
  | .http => some .http
  | .blockIp => some .blockIp
  | .isolateHost => some .isolateHost
  | .createTicket => some .createTicket
  | .closeCase => some .closeCase
  | .osqueryLiveQuery => some .osqueryLiveQuery
  | _ => none

/-- What a step's record holds next to its status. -/
inductive Payload where
  | none
  | branch (branchId : Option String)
  | result (result : Dict)

structure StepResult where
  stepId : String
  name : String
  status : StepStatus
  payload : Payload

/-- Each record is kept with the index of the step it is of. -/
structure PlaybookRun where
  playbookId : String
  playbookName : String
  status : RunStatus
  triggerContext : Dict
  context : Dict
  stepResults : List (Nat × StepResult)
  error : Option String

/-- What the engine is answered: the value of a condition, a handler's result at each
attempt or the text of what it raises, and the clock. -/
structure Environment where
  evaluateCondition : StepCondition → Dict → Except String Bool
  handle : Handler → PlaybookStep → Dict → Nat → Except String Dict
  elapsedMs : PlaybookStep → Nat → Int

/-- The last step of an id counts. -/
def stepIndex (p : Playbook) (id : String) : Option Nat :=
  ((p.steps.map PlaybookStep.id).zipIdx.reverse).lookup id

def advance (p : Playbook) (currentIdx : Nat) (target : Option String) : Nat :=
  ((target.filter fun id => id ≠ "").bind (stepIndex p)).getD (currentIdx + 1)

def gate (env : Environment) (step : PlaybookStep) (context : Dict) : Except String Bool :=
  match step.condition with
  | none => .ok true
  | some condition => env.evaluateCondition condition context

def attempt (env : Environment) (dryRun : Bool) (step : PlaybookStep) (context : Dict)
    (n : Nat) : Except String Dict :=
  if dryRun then .ok [("dry_run", .bool true), ("step", .str step.name)]
  else match handlers step.type with
    | some handler => env.handle handler step context n
    | none => .ok [("skipped", .bool true), ("reason", .str ("no handler for " ++ step.type.text))]

/-- From attempt `n` on, with so many retries left. -/
def attempts (env : Environment) (dryRun : Bool) (step : PlaybookStep) (context : Dict) :
    Nat → Nat → StepStatus × Dict
  | n, retries =>
    match attempt env dryRun step context n with
    | .ok result => (.success, Dict.set result "_elapsed_ms" (.int (env.elapsedMs step n)))
    | .error text =>
      match retries with
      | 0 => (.failed, [("error", .str text), ("_elapsed_ms", .int (env.elapsedMs step n))])
      | retries + 1 => attempts env dryRun step context (n + 1) retries

/-- Keys that start with an underscore are the engine's own. -/
def reserved (key : String) : Bool := key.toList.head? = some '_'

def mergeResult (context : Dict) (step : PlaybookStep) (result : Dict) : Dict :=
  result.foldl (fun context kv => if reserved kv.1 then context else Dict.set context kv.1 kv.2)
    (Dict.set context ("_step_" ++ step.id) (.dict result))

structure Loop where
  currentIdx : Nat
  visited : List String
  run : PlaybookRun

inductive Progress where
  | next (s : Loop)
  | finished (run : PlaybookRun)
  | raised (run : PlaybookRun) (text : String)

def PlaybookRun.record (r : PlaybookRun) (idx : Nat) (result : StepResult) : PlaybookRun :=
  { r with stepResults := r.stepResults ++ [(idx, result)] }

/-- The step's action, its record and the failure policy. -/
def execute (env : Environment) (p : Playbook) (dryRun : Bool) (s : Loop)
    (step : PlaybookStep) : Progress :=
  let (status, result) := attempts env dryRun step s.run.context 1 step.retryMax
  let run := s.run.record s.currentIdx ⟨step.id, step.name, status, .result result⟩
  let run := { run with context := mergeResult run.context step result }
  if status = .failed ∧ step.onFailure = .abort then
    .finished { run with status := .failed, error := some ("step '" ++ step.name ++ "' failed") }
  else
    let target := if status = .success then step.nextTrue else none
    .next ⟨advance p s.currentIdx target, step.id :: s.visited, run⟩

/-- One round of the loop. -/
def iteration (env : Environment) (p : Playbook) (dryRun : Bool) (s : Loop) : Progress :=
  match p.steps[s.currentIdx]? with
  | none =>
    .finished { s.run with status := if s.run.status = .running then .completed else s.run.status }
  | some step =>
    if step.id ∈ s.visited then
      .finished { s.run with status := .failed, error := some ("cycle at step " ++ step.id) }
    else match gate env step s.run.context with
      | .error text => .raised s.run text
      | .ok false =>
        .next ⟨advance p s.currentIdx step.nextFalse, step.id :: s.visited,
          s.run.record s.currentIdx ⟨step.id, step.name, .skipped, .none⟩⟩
      | .ok true =>
        if step.type = .condition then
          .next ⟨advance p s.currentIdx step.nextTrue, step.id :: s.visited,
            s.run.record s.currentIdx ⟨step.id, step.name, .success, .branch step.nextTrue⟩⟩
        else execute env p dryRun s step

inductive Outcome where
  | returned (run : PlaybookRun)
  | raised (run : PlaybookRun) (text : String)

def loop (env : Environment) (p : Playbook) (dryRun : Bool) : Nat → Loop → Option Outcome
  | 0, _ => none
  | fuel + 1, s =>
    match iteration env p dryRun s with
    | .next t => loop env p dryRun fuel t
    | .finished run => some (.returned run)
    | .raised run text => some (.raised run text)

def begin (p : Playbook) (triggerContext : Dict) : Loop where
  currentIdx := 0
  visited := []
  run :=
    { playbookId := p.id, playbookName := p.name, status := .running,
      triggerContext := triggerContext, context := triggerContext, stepResults := [],
      error := none }

/-- One round more than there are steps is always enough. -/
def run (env : Environment) (p : Playbook) (triggerContext : Dict) (dryRun : Bool) :
    Option Outcome :=
  loop env p dryRun (p.steps.length + 1) (begin p triggerContext)

/-- The rounds of a run, for as long as it goes on. -/
def rounds (env : Environment) (p : Playbook) (triggerContext : Dict) (dryRun : Bool) :
    System Loop Unit where
  start s := s = begin p triggerContext
  next s _ := match iteration env p dryRun s with
    | .next t => some t
    | _ => none

/-- What a round makes of a step. -/
inductive Settled (env : Environment) (dryRun : Bool) (step : PlaybookStep) (context : Dict) :
    StepResult → Prop where
  | skipped : gate env step context = .ok false →
    Settled env dryRun step context ⟨step.id, step.name, .skipped, .none⟩
  | branched : gate env step context = .ok true → step.type = .condition →
    Settled env dryRun step context ⟨step.id, step.name, .success, .branch step.nextTrue⟩
  | executed : gate env step context = .ok true → step.type ≠ .condition →
    Settled env dryRun step context ⟨step.id, step.name,
      (attempts env dryRun step context 1 step.retryMax).1,
      .result (attempts env dryRun step context 1 step.retryMax).2⟩

variable {env : Environment} {p : Playbook} {dryRun : Bool} {s t : Loop} {r : PlaybookRun}

/-- A type that neither the table nor the loop itself takes care of. -/
def Unhandled (type : StepType) : Prop := handlers type = none ∧ type ≠ .condition

/-- Without a handler nothing is done, and it counts as a success at once. -/
theorem attempts_unhandled {step : PlaybookStep} (h : handlers step.type = none) (context : Dict)
    (n retries : Nat) : attempts env false step context n retries = (.success,
      [("skipped", .bool true), ("reason", .str ("no handler for " ++ step.type.text)),
        ("_elapsed_ms", .int (env.elapsedMs step n))]) := by
  unfold attempts
  simp [attempt, h, Dict.set]

theorem execute_next {step : PlaybookStep} (h : execute env p dryRun s step = .next t) :
    let (status, result) := attempts env dryRun step s.run.context 1 step.retryMax
    (status = .failed → step.onFailure ≠ .abort) ∧ t.visited = step.id :: s.visited ∧
      t.run.stepResults = s.run.stepResults ++
        [(s.currentIdx, ⟨step.id, step.name, status, .result result⟩)] ∧
      t.run.status = s.run.status := by
  unfold execute at h
  dsimp only at h ⊢
  split at h
  · cases h
  · rename_i hpolicy
    cases h
    exact ⟨fun hf ha => hpolicy ⟨hf, ha⟩, rfl, rfl, rfl⟩

theorem execute_finished {step : PlaybookStep} (h : execute env p dryRun s step = .finished r) :
    let (status, result) := attempts env dryRun step s.run.context 1 step.retryMax
    status = .failed ∧ step.onFailure = .abort ∧
      r.stepResults = s.run.stepResults ++
        [(s.currentIdx, ⟨step.id, step.name, status, .result result⟩)] ∧
      r.status = .failed := by
  unfold execute at h
  dsimp only at h ⊢
  split at h
  · rename_i hpolicy
    cases h
    exact ⟨hpolicy.1, hpolicy.2, rfl, rfl⟩
  · cases h

/-- A round that goes on has recorded one step it had not visited. -/
theorem iteration_next (h : iteration env p dryRun s = .next t) :
    ∃ step result, p.steps[s.currentIdx]? = some step ∧ step.id ∉ s.visited ∧
      Settled env dryRun step s.run.context result ∧
      (result.status = .failed → step.onFailure ≠ .abort) ∧
      t.visited = step.id :: s.visited ∧
      t.run.stepResults = s.run.stepResults ++ [(s.currentIdx, result)] ∧
      t.run.status = s.run.status := by
  unfold iteration at h
  split at h
  · cases h
  rename_i step hstep
  split at h
  · cases h
  rename_i hnew
  split at h
  · cases h
  · rename_i hgate
    cases h
    exact ⟨step, _, hstep, hnew, .skipped hgate, nofun, rfl, rfl, rfl⟩
  rename_i hgate
  split at h
  · rename_i hcondition
    cases h
    exact ⟨step, _, hstep, hnew, .branched hgate hcondition, nofun, rfl, rfl, rfl⟩
  · rename_i hcondition
    obtain ⟨hpolicy, hvisited, hresults, hstatus⟩ := execute_next h
    exact ⟨step, _, hstep, hnew, .executed hgate hcondition, hpolicy, hvisited, hresults, hstatus⟩

/-- The run ends past the last step, at a cycle, or at a failure that aborts it. -/
theorem iteration_finished (h : iteration env p dryRun s = .finished r) :
    (p.steps[s.currentIdx]? = none ∧ r.stepResults = s.run.stepResults ∧
      r.status = if s.run.status = .running then .completed else s.run.status) ∨
    (∃ step, p.steps[s.currentIdx]? = some step ∧ step.id ∈ s.visited ∧
      r.stepResults = s.run.stepResults ∧ r.status = .failed) ∨
    (∃ step result, p.steps[s.currentIdx]? = some step ∧ step.id ∉ s.visited ∧
      Settled env dryRun step s.run.context result ∧ result.status = .failed ∧
      step.onFailure = .abort ∧
      r.stepResults = s.run.stepResults ++ [(s.currentIdx, result)] ∧ r.status = .failed) := by
  unfold iteration at h
  split at h
  · rename_i hend
    cases h
    exact Or.inl ⟨hend, rfl, rfl⟩
  rename_i step hstep
  split at h
  · rename_i hcycle
    cases h
    exact Or.inr (Or.inl ⟨step, hstep, hcycle, rfl, rfl⟩)
  rename_i hnew
  split at h
  · cases h
  · cases h
  rename_i hgate
  split at h
  · cases h
  · rename_i hcondition
    obtain ⟨hfailed, habort, hresults, hstatus⟩ := execute_finished h
    exact Or.inr (Or.inr ⟨step, _, hstep, hnew, .executed hgate hcondition, hfailed, habort,
      hresults, hstatus⟩)

/-- Every round visits a new step, so there are no more rounds than steps. -/
theorem loop_isSome {fuel : Nat} (hnodup : s.visited.Nodup)
    (hids : s.visited ⊆ p.steps.map PlaybookStep.id)
    (hfuel : p.steps.length < fuel + s.visited.length) :
    (loop env p dryRun fuel s).isSome := by
  induction fuel generalizing s with
  | zero =>
    have hle : s.visited.length ≤ p.steps.length := by
      simpa using (List.subperm_of_subset hnodup hids).length_le
    omega
  | succ fuel ih =>
    unfold loop
    split
    · rename_i t hnext
      obtain ⟨step, result, hstep, hnew, -, -, hvisited, -⟩ := iteration_next hnext
      refine ih ?_ ?_ ?_
      · rw [hvisited]
        exact List.nodup_cons.mpr ⟨hnew, hnodup⟩
      · rw [hvisited]
        exact List.cons_subset.mpr
          ⟨List.mem_map_of_mem (List.mem_of_getElem? hstep), hids⟩
      · rw [hvisited, List.length_cons]
        omega
    · rfl
    · rfl

theorem run_isSome (env : Environment) (p : Playbook) (triggerContext : Dict) (dryRun : Bool) :
    (run env p triggerContext dryRun).isSome :=
  loop_isSome List.nodup_nil (List.nil_subset _) (by simp [begin])

theorem rounds_next {triggerContext : Dict} :
    (rounds env p triggerContext dryRun).next s () = some t ↔
      iteration env p dryRun s = .next t := by
  unfold rounds
  dsimp only
  split <;> simp_all

/-- A run that returns does so in a round that it has reached. -/
theorem loop_returned {triggerContext : Dict} {fuel : Nat}
    (hs : Reachable (rounds env p triggerContext dryRun) anyStep s)
    (h : loop env p dryRun fuel s = some (.returned r)) :
    ∃ t, Reachable (rounds env p triggerContext dryRun) anyStep t ∧
      iteration env p dryRun t = .finished r := by
  induction fuel generalizing s with
  | zero => cases h
  | succ fuel ih =>
    unfold loop at h
    split at h
    · rename_i t hnext
      exact ih (hs.step trivial (rounds_next.mpr hnext)) h
    · rename_i run hfinished
      cases h
      exact ⟨s, hs, hfinished⟩
    · cases h

/-- Every round reached is one of the run's. -/
theorem loop_of_reachable {triggerContext : Dict} {o : Outcome}
    (h : run env p triggerContext dryRun = some o)
    (ht : Reachable (rounds env p triggerContext dryRun) anyStep t) :
    ∃ fuel, loop env p dryRun fuel t = some o := by
  induction ht with
  | start hs =>
    cases hs
    exact ⟨_, h⟩
  | step _ _ hn ih =>
    obtain ⟨fuel, hloop⟩ := ih
    cases fuel with
    | zero => cases hloop
    | succ fuel =>
      refine ⟨fuel, ?_⟩
      unfold loop at hloop
      rwa [rounds_next.mp hn] at hloop

/-- Records are never taken back. -/
theorem loop_keeps_results {fuel : Nat} (h : loop env p dryRun fuel s = some (.returned r)) :
    s.run.stepResults <+: r.stepResults := by
  induction fuel generalizing s with
  | zero => cases h
  | succ fuel ih =>
    unfold loop at h
    split at h
    · rename_i t hnext
      obtain ⟨_, _, -, -, -, -, -, hresults, -⟩ := iteration_next hnext
      exact (hresults ▸ List.prefix_append _ _).trans (ih h)
    · rename_i run hfinished
      cases h
      obtain ⟨-, hresults, -⟩ | ⟨_, -, -, hresults, -⟩ | ⟨_, _, -, -, -, -, -, hresults, -⟩ :=
        iteration_finished hfinished
      · exact hresults ▸ List.prefix_rfl
      · exact hresults ▸ List.prefix_rfl
      · exact hresults ▸ List.prefix_append _ _
    · cases h

end PlaybookEngine
