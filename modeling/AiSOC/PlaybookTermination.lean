import AiSOC.PlaybookEngine

/-! # Termination of playbook runs

Branch targets form an arbitrary graph. A body of the loop either takes on a step whose id
was not visited before or finds a visited one and ends the run, so there is at most one body
more than there are steps. -/
namespace PlaybookTermination

open PlaybookEngine

variable {env : Environment} {p : Playbook} {dryRun : Bool} {s t : Loop} {o : Outcome}

/-- The indices at which the body of the loop is entered, in order. -/
def entered (env : Environment) (p : Playbook) (dryRun : Bool) : Nat → Loop → List Nat
  | 0, _ => []
  | fuel + 1, s =>
    if s.currentIdx < p.steps.length then
      s.currentIdx :: match iteration env p dryRun s with
        | .next t => entered env p dryRun fuel t
        | _ => []
    else []

/-- The step at the index is there and is not one that was visited. -/
def takesOn (p : Playbook) (s : Loop) : Bool :=
  p.steps[s.currentIdx]?.any fun step => step.id ∉ s.visited

/-- The indices of the steps that the loop takes on, in order. -/
def executed (env : Environment) (p : Playbook) (dryRun : Bool) : Nat → Loop → List Nat
  | 0, _ => []
  | fuel + 1, s =>
    if takesOn p s then
      s.currentIdx :: match iteration env p dryRun s with
        | .next t => executed env p dryRun fuel t
        | _ => []
    else []

/-- The step at the index has one of the ids, or the id of a step at one of the indices. -/
def Repeats (p : Playbook) (ids : List String) (indices : List Nat) (i : Nat) : Prop :=
  ∃ step, p.steps[i]? = some step ∧
    (step.id ∈ ids ∨ ∃ j ∈ indices, ∃ other, p.steps[j]? = some other ∧ other.id = step.id)

def Terminal (status : RunStatus) : Prop := status = .completed ∨ status = .failed

/-- The record names the step at its index. -/
def RecordOf (p : Playbook) (k : Nat × StepResult) : Prop :=
  ∃ step, p.steps[k.1]? = some step ∧ k.2.stepId = step.id ∧ k.2.name = step.name

/-- How a loop that was entered at `s` ends: the bodies `ins`, the steps taken on `done`. -/
structure Ends (env : Environment) (p : Playbook) (s : Loop) (ins done : List Nat)
    (o : Outcome) : Prop where
  fresh : ∀ i ∈ done, ∃ step, p.steps[i]? = some step ∧ step.id ∉ s.visited
  nodup : done.Nodup
  bodies : ins = done ∨ ∃ i r, ins = done ++ [i] ∧ Repeats p s.visited done i ∧
    o = .returned r ∧ r.status = .failed
  returned : ∀ r, o = .returned r → Terminal r.status ∧
    ∃ results, r.stepResults = s.run.stepResults ++ results ∧ results.map Prod.fst = done ∧
      ∀ k ∈ results, RecordOf p k
  raised : ∀ r text, o = .raised r text →
    ∃ condition context, env.evaluateCondition condition context = .error text

theorem takesOn_eq_true {step : PlaybookStep} (hstep : p.steps[s.currentIdx]? = some step)
    (hnew : step.id ∉ s.visited) : takesOn p s = true := by
  simp [takesOn, hstep, hnew]

theorem takesOn_eq_false {step : PlaybookStep} (hstep : p.steps[s.currentIdx]? = some step)
    (hold : step.id ∈ s.visited) : takesOn p s = false := by
  simp [takesOn, hstep, hold]

theorem settled_names {step : PlaybookStep} {context : Dict} {result : StepResult}
    (h : Settled env dryRun step context result) :
    result.stepId = step.id ∧ result.name = step.name := by
  cases h <;> exact ⟨rfl, rfl⟩

/-- Only the gate of a step raises out of a round. -/
theorem iteration_raised {r : PlaybookRun} {text : String}
    (h : iteration env p dryRun s = .raised r text) :
    ∃ step condition, p.steps[s.currentIdx]? = some step ∧ step.id ∉ s.visited ∧
      env.evaluateCondition condition s.run.context = .error text := by
  unfold iteration at h
  split at h
  · cases h
  rename_i step hstep
  split at h
  · cases h
  rename_i hnew
  split at h
  · rename_i hgate
    cases h
    unfold gate at hgate
    split at hgate
    · cases hgate
    · exact ⟨step, _, hstep, hnew, hgate⟩
  · cases h
  · split at h
    · cases h
    · unfold execute at h
      dsimp only at h
      split at h <;> cases h

/-- A round that takes on a step, in front of a loop that ends. -/
theorem Ends.cons {step : PlaybookStep} {result : StepResult} {ins done : List Nat}
    (hstep : p.steps[s.currentIdx]? = some step) (hnew : step.id ∉ s.visited)
    (hnames : result.stepId = step.id ∧ result.name = step.name)
    (hvisited : t.visited = step.id :: s.visited)
    (hresults : t.run.stepResults = s.run.stepResults ++ [(s.currentIdx, result)])
    (h : Ends env p t ins done o) :
    Ends env p s (s.currentIdx :: ins) (s.currentIdx :: done) o := by
  constructor
  · intro i hi
    rcases List.mem_cons.mp hi with rfl | hi
    · exact ⟨step, hstep, hnew⟩
    · obtain ⟨other, hother, hfresh⟩ := h.fresh i hi
      rw [hvisited] at hfresh
      exact ⟨other, hother, fun hmem => hfresh (List.mem_cons_of_mem _ hmem)⟩
  · refine List.nodup_cons.mpr ⟨fun hmem => ?_, h.nodup⟩
    obtain ⟨other, hother, hfresh⟩ := h.fresh _ hmem
    cases hstep.symm.trans hother
    exact hfresh (hvisited ▸ List.mem_cons_self)
  · rcases h.bodies with hins | ⟨i, r, hins, ⟨other, hother, hrepeats⟩, hr⟩
    · exact Or.inl (congrArg _ hins)
    · refine Or.inr ⟨i, r, congrArg _ hins, ⟨other, hother, ?_⟩, hr⟩
      rcases hrepeats with hmem | ⟨j, hj, hsame⟩
      · rw [hvisited] at hmem
        rcases List.mem_cons.mp hmem with heq | hmem
        · exact Or.inr ⟨s.currentIdx, List.mem_cons_self, step, hstep, heq.symm⟩
        · exact Or.inl hmem
      · exact Or.inr ⟨j, List.mem_cons_of_mem _ hj, hsame⟩
  · intro r hr
    obtain ⟨hterminal, results, hmore, hdone, hrecords⟩ := h.returned r hr
    refine ⟨hterminal, (s.currentIdx, result) :: results, ?_, by simp [hdone], ?_⟩
    · rw [hmore, hresults, List.append_assoc]
      rfl
    · intro k hk
      rcases List.mem_cons.mp hk with rfl | hk
      · exact ⟨step, hstep, hnames⟩
      · exact hrecords k hk
  · exact h.raised

theorem loop_ends {fuel : Nat} (hrunning : s.run.status = .running)
    (h : loop env p dryRun fuel s = some o) :
    Ends env p s (entered env p dryRun fuel s) (executed env p dryRun fuel s) o := by
  induction fuel generalizing s with
  | zero => cases h
  | succ fuel ih =>
    unfold loop at h
    unfold entered executed
    split at h
    · rename_i t hnext
      obtain ⟨step, result, hstep, hnew, hsettled, -, hvisited, hresults, hstatus⟩ :=
        iteration_next hnext
      rw [if_pos (List.getElem?_eq_some_iff.mp hstep).1, if_pos (takesOn_eq_true hstep hnew),
        hnext]
      exact .cons hstep hnew (settled_names hsettled) hvisited hresults
        (ih (hstatus.trans hrunning) h)
    · rename_i r hfinished
      cases Option.some.inj h
      obtain ⟨hend, hresults, hstatus⟩ | ⟨step, hstep, hold, hresults, hstatus⟩ |
        ⟨step, result, hstep, hnew, hsettled, -, -, hresults, hstatus⟩ :=
        iteration_finished hfinished
      · have hpast : ¬ s.currentIdx < p.steps.length := by
          simpa [List.getElem?_eq_none_iff] using hend
        rw [if_neg hpast, if_neg (by simp [takesOn, hend])]
        rw [if_pos hrunning] at hstatus
        exact ⟨by simp, List.nodup_nil, Or.inl rfl,
          fun q hq => by cases hq; exact ⟨Or.inl hstatus, [], by simp [hresults], rfl, by simp⟩,
          nofun⟩
      · rw [if_pos (List.getElem?_eq_some_iff.mp hstep).1,
          if_neg (by simp [takesOn_eq_false hstep hold]), hfinished]
        exact ⟨by simp, List.nodup_nil,
          Or.inr ⟨s.currentIdx, r, rfl, ⟨step, hstep, Or.inl hold⟩, rfl, hstatus⟩,
          fun q hq => by cases hq; exact ⟨Or.inr hstatus, [], by simp [hresults], rfl, by simp⟩,
          nofun⟩
      · rw [if_pos (List.getElem?_eq_some_iff.mp hstep).1, if_pos (takesOn_eq_true hstep hnew),
          hfinished]
        refine ⟨by simpa using ⟨step, hstep, hnew⟩, by simp, Or.inl rfl, fun q hq => ?_, nofun⟩
        cases hq
        exact ⟨Or.inr hstatus, [(s.currentIdx, result)], hresults, rfl,
          by simpa [RecordOf] using ⟨step, hstep, settled_names hsettled⟩⟩
    · rename_i r text hraised
      cases Option.some.inj h
      obtain ⟨step, condition, hstep, hnew, herror⟩ := iteration_raised hraised
      rw [if_pos (List.getElem?_eq_some_iff.mp hstep).1, if_pos (takesOn_eq_true hstep hnew),
        hraised]
      refine ⟨by simpa using ⟨step, hstep, hnew⟩, by simp, Or.inl rfl, nofun, fun q x hq => ?_⟩
      cases hq
      exact ⟨condition, s.run.context, herror⟩

/-- What is asked of a run: bodies `ins`, steps taken on `done`. -/
structure Terminates (env : Environment) (p : Playbook) (ins done : List Nat)
    (o : Outcome) : Prop where
  once : done.Nodup
  done_le : done.length ≤ p.steps.length
  ins_le : ins.length ≤ p.steps.length + 1
  bodies : ins = done ∨ ∃ i r, ins = done ++ [i] ∧ Repeats p [] done i ∧
    o = .returned r ∧ r.status = .failed
  returned : ∀ r, o = .returned r → Terminal r.status ∧
    r.stepResults.map Prod.fst = done ∧ ∀ k ∈ r.stepResults, RecordOf p k
  raised : ∀ r text, o = .raised r text →
    ∃ condition context, env.evaluateCondition condition context = .error text

theorem length_le_of_indices {done : List Nat} (hnodup : done.Nodup)
    (h : ∀ i ∈ done, i < p.steps.length) : done.length ≤ p.steps.length := by
  have hsub : done ⊆ List.range p.steps.length := fun i hi => List.mem_range.mpr (h i hi)
  simpa using (List.subperm_of_subset hnodup hsub).length_le

/-- Every run ends, whatever the branch targets are and whatever the steps do. One body of
the loop may come on top of one for each step: the one that finds a visited step. -/
theorem run_terminates (env : Environment) (p : Playbook) (triggerContext : Dict)
    (dryRun : Bool) :
    ∃ o, run env p triggerContext dryRun = some o ∧
      Terminates env p
        (entered env p dryRun (p.steps.length + 1) (begin p triggerContext))
        (executed env p dryRun (p.steps.length + 1) (begin p triggerContext)) o := by
  obtain ⟨o, ho⟩ := Option.isSome_iff_exists.mp (run_isSome env p triggerContext dryRun)
  refine ⟨o, ho, ?_⟩
  have h := loop_ends rfl ho
  have hle := length_le_of_indices h.nodup fun i hi => by
    obtain ⟨step, hstep, -⟩ := h.fresh i hi
    exact (List.getElem?_eq_some_iff.mp hstep).1
  refine ⟨h.nodup, hle, ?_, h.bodies, fun r hr => ?_, h.raised⟩
  · rcases h.bodies with hins | ⟨i, r, hins, -⟩
    · rw [hins]
      omega
    · rw [hins, List.length_append, List.length_singleton]
      omega
  · obtain ⟨hterminal, results, hresults, hdone, hrecords⟩ := h.returned r hr
    obtain rfl : r.stepResults = results := by simpa [begin] using hresults
    exact ⟨hterminal, hdone, hrecords⟩

def quiet : Environment := ⟨fun _ _ => .ok true, fun _ _ _ _ => .ok [], fun _ _ => 0⟩

/-- A branch to itself. -/
def selfLoop : Playbook :=
  ⟨"pb", "pb", [⟨"a", "a", .condition, [], none, .abort, 0, 30, some "a", none⟩]⟩

/-- One step takes two bodies of the loop: the second one finds the cycle. -/
theorem self_loop_needs_two : ¬ ∀ (env : Environment) (p : Playbook) (triggerContext : Dict)
    (dryRun : Bool),
    (entered env p dryRun (p.steps.length + 1) (begin p triggerContext)).length ≤
      p.steps.length := by
  intro h
  have hle := h quiet selfLoop [] false
  have htwo : (entered quiet selfLoop false 2 (begin selfLoop [])).length = 2 := by decide
  rw [show selfLoop.steps.length + 1 = 2 from rfl, htwo] at hle
  exact absurd hle (by decide)

end PlaybookTermination
