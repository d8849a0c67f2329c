import AiSOC.EvalGate
import AiSOC.TransitionSystem

/-! # One detection proposal and the calls on it

A call reads the proposal and checks it, may read once more, and commits. Other calls come in
between at these points; nothing locks the row, and a commit writes only the columns that the
call changed. -/
namespace DetectionProposals

open EvalGate (Numbers Members Verdict evaluateReport passes Trustworthy)
open TransitionSystem (System Reachable runTrace)

inductive Status where
  | proposed
  | inReview
  | evalPassed
  | evalFailed
  | approved
  | rejected
  | promoted
  deriving DecidableEq

/-- With what the verdict was computed from. -/
structure Evaluation where
  verdict : Verdict
  report : Members
  baselineScore : Option Float
  maxRegressionPp : Float

/-- Without a tenant the proposal is everyone's. -/
structure Proposal where
  tenantId : Option ℕ
  baseRuleId : Option ℕ
  status : Status
  evaluation : Option Evaluation
  promotedRuleId : Option ℕ

inductive Call where
  | comment
  | attach (report : Members) (maxRegressionPp : Float)
  | decide (approve : Bool)
  | promote

/-- What the second read of a call gave. -/
inductive Second where
  | baseline (score : Option Float)
  | baseRule

/-- A call under way, with the proposal as it read it. -/
structure Session where
  tenantId : ℕ
  call : Call
  loaded : Proposal
  second : Option Second

/-- `history` tells the committed statuses and evaluations, the last one first. -/
structure World where
  proposal : Option Proposal
  sessions : ℕ → Option Session
  activeBaseline : ℕ → Option Float
  created : ℕ
  history : List (Status × Option Evaluation)

def isFinal (status : Status) : Bool := status = .promoted ∨ status = .rejected

def visible (p : Proposal) (tenantId : ℕ) : Bool := p.tenantId.all (· = tenantId)

/-- What the endpoints check of the request and of the proposal that they read. -/
def allowed (p : Proposal) : Call → Bool
  | .comment => !isFinal p.status
  | .attach _ limit => !isFinal p.status && decide (0 ≤ limit ∧ limit ≤ 50)
  | .decide approve =>
    !isFinal p.status && (!approve || p.evaluation.any fun ev => ev.verdict.passed)
  | .promote => p.status = .approved

/-- A status that the call did not change is not written. -/
def written (loaded new current : Status) : Status := if new = loaded then current else new

def verdictStatus (v : Verdict) : Status := if v.passed then .evalPassed else .evalFailed

/-- The row after the commit, and how many rules are inserted; `none` if the call raises. A verdict
has the time it was made at, so that it is always another one than before. -/
def commitRow (n : Numbers) (s : Session) (p : Proposal) (now : String) (newRuleId : ℕ) :
    Option (Proposal × ℕ) :=
  match s.call, s.second with
  | .comment, _ =>
    some ({ p with status := if s.loaded.status = .proposed then .inReview else p.status }, 0)
  | .attach report limit, some (.baseline score) => do
    let v ← evaluateReport n report score limit now
    if v.storable then
      some ({ p with
        evaluation := some ⟨v, report, score, limit⟩
        status := written s.loaded.status (verdictStatus v) p.status }, 0)
    else none
  | .attach _ _, _ => none
  | .decide approve, _ =>
    let status := if approve then Status.approved else Status.rejected
    some ({ p with status := written s.loaded.status status p.status }, 0)
  | .promote, second =>
    match s.loaded.baseRuleId, second with
    | some id, some .baseRule =>
      some ({ p with status := .promoted, promotedRuleId := some id }, 0)
    | some _, _ => none
    | none, _ => some ({ p with status := .promoted, promotedRuleId := some newRuleId }, 1)

inductive Event where
  | create (tenantId : Option ℕ) (baseRuleId : Option ℕ)
  | start (i tenantId : ℕ) (call : Call)
  | readSecond (i : ℕ) (ruleExists : Bool)
  | commit (i : ℕ) (now : String) (newRuleId : ℕ)
  | abort (i : ℕ)
  | setBaselines (activeBaseline : ℕ → Option Float)

def store (w : World) (p : Proposal) (rules : ℕ) : World :=
  { w with
    proposal := some p
    created := w.created + rules
    history := (p.status, p.evaluation) :: w.history }

def setSession (w : World) (i : ℕ) (s : Option Session) : World :=
  { w with sessions := Function.update w.sessions i s }

/-- A call whose checks fail ends at once. -/
def start (w : World) (i tenantId : ℕ) (call : Call) : World :=
  match w.proposal with
  | some p =>
    if visible p tenantId && allowed p call then setSession w i (some ⟨tenantId, call, p, none⟩)
    else w
  | none => w

def readSecond (w : World) (i : ℕ) (s : Session) (ruleExists : Bool) : World :=
  match s.call with
  | .attach _ _ =>
    setSession w i (some { s with second := some (.baseline (w.activeBaseline s.tenantId)) })
  | .promote =>
    if ruleExists then setSession w i (some { s with second := some .baseRule })
    else setSession w i none
  | _ => w

def commit (n : Numbers) (w : World) (i : ℕ) (s : Session) (now : String) (newRuleId : ℕ) :
    World :=
  match w.proposal.bind fun p => commitRow n s p now newRuleId with
  | some (p, rules) => store (setSession w i none) p rules
  | none => setSession w i none

/-- Later creations are those of other proposals. -/
def next (n : Numbers) (w : World) : Event → Option World
  | .create tenantId baseRuleId =>
    match w.proposal with
    | none => some (store w ⟨tenantId, baseRuleId, .proposed, none, none⟩ 0)
    | some _ => some w
  | .start i tenantId call =>
    match w.sessions i with
    | none => some (start w i tenantId call)
    | some _ => none
  | .readSecond i ruleExists => (w.sessions i).map fun s => readSecond w i s ruleExists
  | .commit i now newRuleId => (w.sessions i).map fun s => commit n w i s now newRuleId
  | .abort i => some (setSession w i none)
  | .setBaselines activeBaseline => some { w with activeBaseline := activeBaseline }

def empty : World := ⟨none, fun _ => none, fun _ => none, 0, []⟩

def system (n : Numbers) : System World Event where
  start w := w = empty
  next := next n

structure Gated (n : Numbers) (w : World) : Prop where
  promoted : ∀ p, w.proposal = some p → p.status = .promoted →
    (∃ evaluation, (.approved, evaluation) ∈ w.history) ∧ ∃ ev, p.evaluation = some ev ∧
      ev.verdict.passed = true ∧ passes n ev.report ev.baselineScore ev.maxRegressionPp = true
  created : w.created ≤ 1
  current : ∀ p, w.proposal = some p → w.history.head? = some (p.status, p.evaluation)
  frozen : w.history.Pairwise fun later earlier => isFinal earlier.1 = true → later = earlier

/-- What a call read of the status and the evaluation is still there when it commits, and the
reports that are attached can be trusted. -/
def Keeps (n : Numbers) (w : World) : Event → Prop
  | .commit i _ _ => ∀ s p, w.sessions i = some s → w.proposal = some p →
      p.status = s.loaded.status ∧ p.evaluation = s.loaded.evaluation ∧
        ∀ report limit score, s.call = .attach report limit →
          s.second = some (.baseline score) → Trustworthy n report score limit
  | _ => True

/-- What a commit can do while nothing came in between. -/
inductive Transition (n : Numbers) (p p' : Proposal) : ℕ → Prop where
  | comment (h : isFinal p.status = false) (hstatus : p'.status = p.status ∨ p'.status = .inReview)
    (hevaluation : p'.evaluation = p.evaluation) : Transition n p p' 0
  | attach (h : isFinal p.status = false) (ev : Evaluation)
    (hstatus : p'.status = .evalPassed ∨ p'.status = .evalFailed)
    (hevaluation : p'.evaluation = some ev)
    (hpasses : ev.verdict.passed = true →
      passes n ev.report ev.baselineScore ev.maxRegressionPp = true) :
    Transition n p p' 0
  | approve (h : isFinal p.status = false) (ev : Evaluation) (hev : p.evaluation = some ev)
    (hpassed : ev.verdict.passed = true) (hstatus : p'.status = .approved)
    (hevaluation : p'.evaluation = p.evaluation) : Transition n p p' 0
  | reject (h : isFinal p.status = false) (hstatus : p'.status = .rejected)
    (hevaluation : p'.evaluation = p.evaluation) : Transition n p p' 0
  | promote (rules : ℕ) (h : p.status = .approved) (hrules : rules ≤ 1)
    (hstatus : p'.status = .promoted) (hevaluation : p'.evaluation = p.evaluation) :
    Transition n p p' rules

variable {n : Numbers} {w : World} {e : Event} {s : Session} {p p' : Proposal} {i rules : ℕ}
  {now : String} {newRuleId : ℕ} {call : Call}

theorem written_of_eq (loaded new : Status) : written loaded new loaded = new := by
  rw [written]
  split_ifs with h
  · exact h.symm
  · rfl

theorem transition_of_commitRow (hallowed : allowed s.loaded s.call = true)
    (hstatus : p.status = s.loaded.status) (hevaluation : p.evaluation = s.loaded.evaluation)
    (htrust : ∀ report limit score, s.call = .attach report limit →
      s.second = some (.baseline score) → Trustworthy n report score limit)
    (h : commitRow n s p now newRuleId = some (p', rules)) : Transition n p p' rules := by
  rw [commitRow] at h
  split at h
  · rename_i hcall
    cases h
    have hopen : isFinal p.status = false := by
      rw [hcall] at hallowed
      simpa [hstatus, allowed] using hallowed
    refine .comment hopen ?_ rfl
    split_ifs
    · exact Or.inr rfl
    · exact Or.inl rfl
  · rename_i report limit score hcall hsecond
    obtain ⟨v, hv, h⟩ := Option.bind_eq_some_iff.mp h
    split_ifs at h
    cases h
    have hopen : isFinal p.status = false := by
      rw [hcall, allowed, Bool.and_eq_true, Bool.not_eq_true'] at hallowed
      rw [hstatus]
      exact hallowed.1
    refine .attach hopen ⟨v, report, score, limit⟩ ?_ rfl ?_
    · simp only [hstatus, written_of_eq, verdictStatus]
      cases v.passed with
      | true => exact Or.inl rfl
      | false => exact Or.inr rfl
    · exact EvalGate.passes_of_verdict (htrust report limit score hcall hsecond) hv
  · cases h
  · rename_i approve hcall
    cases h
    rw [hcall, allowed, Bool.and_eq_true, Bool.not_eq_true', ← hstatus, ← hevaluation] at hallowed
    cases approve with
    | true =>
      obtain ⟨ev, hev, hpassed⟩ := (Option.any_eq_true _ _).mp hallowed.2
      refine .approve hallowed.1 ev hev hpassed ?_ rfl
      rw [hstatus]
      exact written_of_eq _ _
    | false =>
      refine .reject hallowed.1 ?_ rfl
      rw [hstatus]
      exact written_of_eq _ _
  · rename_i hcall
    have hopen : p.status = .approved := by
      rw [hcall, allowed, decide_eq_true_eq] at hallowed
      rw [hstatus, hallowed]
    split at h
    · cases h
      exact .promote 0 hopen (Nat.zero_le 1) rfl rfl
    · cases h
    · cases h
      exact .promote 1 hopen (Nat.le_refl 1) rfl rfl

structure Invariant (n : Numbers) (w : World) : Prop where
  sessions : ∀ i s, w.sessions i = some s → allowed s.loaded s.call = true
  absent : w.proposal = none → w.created = 0 ∧ w.history = []
  sound : ∀ p ev, w.proposal = some p → p.evaluation = some ev → ev.verdict.passed = true →
    passes n ev.report ev.baselineScore ev.maxRegressionPp = true
  evaluated : ∀ p, w.proposal = some p → p.status = .approved ∨ p.status = .promoted →
    ∃ ev, p.evaluation = some ev ∧ ev.verdict.passed = true
  approved : ∀ p, w.proposal = some p → p.status = .promoted →
    ∃ evaluation, (.approved, evaluation) ∈ w.history
  uncreated : ∀ p, w.proposal = some p → p.status ≠ .promoted → w.created = 0
  created : w.created ≤ 1
  current : ∀ p, w.proposal = some p → w.history.head? = some (p.status, p.evaluation)
  frozen : w.history.Pairwise fun later earlier => isFinal earlier.1 = true → later = earlier

theorem Transition.open (h : Transition n p p' rules) : isFinal p.status = false := by
  cases h with
  | comment h => exact h
  | attach h => exact h
  | approve h => exact h
  | reject h => exact h
  | promote _ h =>
    rw [h]
    rfl

/-- While the proposal is open, no status was final. -/
theorem Invariant.open_history (h : Invariant n w) (hp : w.proposal = some p)
    (hopen : isFinal p.status = false) : ∀ entry ∈ w.history, isFinal entry.1 = false := by
  intro entry hentry
  obtain ⟨rest, hrest⟩ := List.head?_eq_some_iff.mp (h.current p hp)
  have hpairs := h.frozen
  rw [hrest] at hpairs hentry
  rcases List.mem_cons.mp hentry with rfl | hmem
  · exact hopen
  · by_contra hfinal
    rw [Bool.not_eq_false] at hfinal
    have heq := (List.pairwise_cons.mp hpairs).1 entry hmem hfinal
    rw [← heq, hopen] at hfinal
    cases hfinal

theorem eq_of_store {q : Proposal} (h : (store w p rules).proposal = some q) : p = q :=
  Option.some.inj h

theorem Invariant.store (h : Invariant n w) (hp : w.proposal = some p)
    (hstep : Transition n p p' rules) : Invariant n (store w p' rules) := by
  have hopen := hstep.open
  have hold : p.status ≠ .promoted := by
    intro heq
    rw [heq] at hopen
    cases hopen
  have hcreated := h.uncreated p hp hold
  have hkept : ∀ ev, p'.evaluation = some ev → p'.evaluation = p.evaluation →
      ev.verdict.passed = true → passes n ev.report ev.baselineScore ev.maxRegressionPp = true :=
    fun ev hev heq => h.sound p ev hp (heq.symm.trans hev)
  constructor
  case sessions => exact h.sessions
  case absent =>
    intro hnone
    cases hnone
  case sound =>
    intro q ev hq hev hpassed
    obtain rfl := eq_of_store hq
    cases hstep with
    | comment _ _ he => exact hkept ev hev he hpassed
    | attach _ ev' _ he hpasses =>
      obtain rfl := Option.some.inj (he.symm.trans hev)
      exact hpasses hpassed
    | approve _ _ _ _ _ he => exact hkept ev hev he hpassed
    | reject _ _ he => exact hkept ev hev he hpassed
    | promote _ _ _ _ he => exact hkept ev hev he hpassed
  case evaluated =>
    intro q hq hstatus
    obtain rfl := eq_of_store hq
    cases hstep with
    | comment _ hs he =>
      rcases hs with hs | hs
      · rw [hs] at hstatus
        rw [he]
        exact h.evaluated p hp hstatus
      · rw [hs] at hstatus
        exact absurd hstatus (by decide)
    | attach _ _ hs =>
      rcases hs with hs | hs
      · rw [hs] at hstatus
        exact absurd hstatus (by decide)
      · rw [hs] at hstatus
        exact absurd hstatus (by decide)
    | approve _ ev hev hpassed _ he => exact ⟨ev, he.trans hev, hpassed⟩
    | reject _ hs =>
      rw [hs] at hstatus
      exact absurd hstatus (by decide)
    | promote _ hs _ _ he =>
      rw [he]
      exact h.evaluated p hp (Or.inl hs)
  case approved =>
    intro q hq hstatus
    obtain rfl := eq_of_store hq
    cases hstep with
    | comment _ hs =>
      rcases hs with hs | hs
      · exact absurd (hs.symm.trans hstatus) hold
      · exact absurd (hs.symm.trans hstatus) (by decide)
    | attach _ _ hs =>
      rcases hs with hs | hs
      · exact absurd (hs.symm.trans hstatus) (by decide)
      · exact absurd (hs.symm.trans hstatus) (by decide)
    | approve _ _ _ _ hs => exact absurd (hs.symm.trans hstatus) (by decide)
    | reject _ hs => exact absurd (hs.symm.trans hstatus) (by decide)
    | promote _ hs =>
      refine ⟨p.evaluation, List.mem_cons_of_mem _ ?_⟩
      rw [← hs]
      exact List.mem_of_head? (h.current p hp)
  case uncreated =>
    intro q hq hstatus
    obtain rfl := eq_of_store hq
    cases hstep with
    | promote _ _ _ hs => exact absurd hs hstatus
    | _ => exact hcreated
  case created =>
    change w.created + rules ≤ 1
    rw [hcreated, Nat.zero_add]
    cases hstep with
    | promote _ _ hrules => exact hrules
    | _ => exact Nat.zero_le 1
  case current =>
    intro q hq
    obtain rfl := eq_of_store hq
    rfl
  case frozen =>
    refine List.pairwise_cons.mpr ⟨?_, h.frozen⟩
    intro entry hentry hfinal
    have hnot := h.open_history hp hopen entry hentry
    rw [hnot] at hfinal
    cases hfinal

/-- Only the calls under way change: what they read was allowed. -/
theorem Invariant.setSession (h : Invariant n w) {o : Option Session}
    (ho : ∀ s, o = some s → allowed s.loaded s.call = true) : Invariant n (setSession w i o) := by
  refine ⟨?_, h.absent, h.sound, h.evaluated, h.approved, h.uncreated, h.created, h.current,
    h.frozen⟩
  intro j s hs
  simp only [DetectionProposals.setSession, Function.update_apply] at hs
  split_ifs at hs
  · exact ho s hs
  · exact h.sessions j s hs

theorem Invariant.endSession (h : Invariant n w) (i : ℕ) :
    Invariant n (DetectionProposals.setSession w i none) := by
  apply h.setSession
  intro s hs
  cases hs

theorem Invariant.start (h : Invariant n w) (tenantId : ℕ) (call : Call) :
    Invariant n (start w i tenantId call) := by
  rw [DetectionProposals.start]
  split
  · rename_i p hp
    split_ifs with hallowed
    · rw [Bool.and_eq_true] at hallowed
      apply h.setSession
      rintro s hs
      cases hs
      exact hallowed.2
    · exact h
  · exact h

theorem Invariant.readSecond (h : Invariant n w) (hs : w.sessions i = some s) (ruleExists : Bool) :
    Invariant n (readSecond w i s ruleExists) := by
  have hallowed := h.sessions i s hs
  rw [DetectionProposals.readSecond]
  split
  · apply h.setSession
    rintro s' hs'
    cases hs'
    exact hallowed
  · split_ifs
    · apply h.setSession
      rintro s' hs'
      cases hs'
      exact hallowed
    · exact h.endSession i
  · exact h

theorem Invariant.commit (h : Invariant n w) (hs : w.sessions i = some s)
    (hkeeps : Keeps n w (.commit i now newRuleId)) :
    Invariant n (commit n w i s now newRuleId) := by
  have hend := h.endSession i
  rw [DetectionProposals.commit]
  split
  · rename_i p' rules hrow
    obtain ⟨p, hp, hrow⟩ := Option.bind_eq_some_iff.mp hrow
    obtain ⟨hstatus, hevaluation, htrust⟩ := hkeeps s p hs hp
    have hstep := transition_of_commitRow (h.sessions i s hs) hstatus hevaluation htrust hrow
    exact hend.store hp hstep
  · exact hend

theorem Invariant.create (h : Invariant n w) (hp : w.proposal = none) {tenantId : Option ℕ}
    {baseRuleId : Option ℕ} :
    Invariant n (DetectionProposals.store w ⟨tenantId, baseRuleId, .proposed, none, none⟩ 0) := by
  obtain ⟨hcreated, hhistory⟩ := h.absent hp
  constructor
  case sessions => exact h.sessions
  case absent =>
    intro hnone
    cases hnone
  case sound =>
    intro q ev hq hev
    obtain rfl := eq_of_store hq
    cases hev
  case evaluated =>
    intro q hq hstatus
    obtain rfl := eq_of_store hq
    rcases hstatus with hstatus | hstatus
    · cases hstatus
    · cases hstatus
  case approved =>
    intro q hq hstatus
    obtain rfl := eq_of_store hq
    cases hstatus
  case uncreated => exact fun _ _ _ => hcreated
  case created => exact h.created
  case current =>
    intro q hq
    obtain rfl := eq_of_store hq
    rfl
  case frozen =>
    change List.Pairwise _ (_ :: w.history)
    rw [hhistory]
    exact List.pairwise_singleton _ _

theorem Invariant.next {w' : World} (h : Invariant n w) (hkeeps : Keeps n w e)
    (hnext : next n w e = some w') : Invariant n w' := by
  cases e with
  | create tenantId baseRuleId =>
    rw [DetectionProposals.next] at hnext
    split at hnext
    · rename_i hp
      cases hnext
      exact h.create hp
    · cases hnext
      exact h
  | start i tenantId call =>
    rw [DetectionProposals.next] at hnext
    split at hnext
    · cases hnext
      exact h.start tenantId call
    · cases hnext
  | readSecond i ruleExists =>
    obtain ⟨s, hs, rfl⟩ := Option.map_eq_some_iff.mp hnext
    exact h.readSecond hs ruleExists
  | commit i now newRuleId =>
    obtain ⟨s, hs, rfl⟩ := Option.map_eq_some_iff.mp hnext
    exact h.commit hs hkeeps
  | abort i =>
    cases hnext
    exact h.endSession i
  | setBaselines activeBaseline =>
    cases hnext
    exact ⟨h.sessions, h.absent, h.sound, h.evaluated, h.approved, h.uncreated, h.created,
      h.current, h.frozen⟩

theorem invariant_of_reachable (h : Reachable (system n) (Keeps n) w) : Invariant n w := by
  apply h.invariant
  · rintro w rfl
    have hnone : ∀ {P : Prop} {p : Proposal}, empty.proposal = some p → P :=
      fun h => absurd h.symm (Option.some_ne_none _)
    exact ⟨fun _ _ hs => absurd hs.symm (Option.some_ne_none _), fun _ => ⟨rfl, rfl⟩,
      fun _ _ hp => hnone hp, fun _ hp => hnone hp, fun _ hp => hnone hp, fun _ hp => hnone hp,
      Nat.zero_le 1, fun _ hp => hnone hp, List.Pairwise.nil⟩
  · exact fun w e w' hw hkeeps hnext => hw.next hkeeps hnext

/-- The numbers are floats already, and rounding is left out. -/
def plainNumbers : Numbers where
  toFloat
    | .float x => some x
    | _ => none
  round4 x := x

def scores (value : Float) (rest : Members) : Members :=
  (CodeText.text "all_passed", .bool true) :: (CodeText.text "suites",
    .obj [(CodeText.text "mitre_accuracy", .obj [(CodeText.text "value", .float value)])]) :: rest

/-- The report says that it was compared and did not regress. -/
def hiddenDrop : Members :=
  scores 0 [(CodeText.text "baseline_compare", .obj [(CodeText.text "available", .bool true)])]

def promoting (report : Members) : List Event :=
  [.create (some 1) none, .setBaselines fun _ => some 1,
    .start 0 1 (.attach report 1), .readSecond 0 false, .commit 0 "t1" 0,
    .start 0 1 (.decide true), .commit 0 "t2" 0, .start 0 1 .promote, .commit 0 "t3" 0]

/-- It was promoted although its evaluation does not pass. -/
def promotedWrongly (n : Numbers) (w : World) : Bool :=
  w.proposal.any fun p => p.status = .promoted && p.evaluation.all fun ev =>
    !passes n ev.report ev.baselineScore ev.maxRegressionPp

theorem not_gated (h : promotedWrongly n w = true) : ¬Gated n w := by
  obtain ⟨p, hp, hwrong⟩ := (Option.any_eq_true _ _).mp h
  rw [Bool.and_eq_true, decide_eq_true_eq] at hwrong
  intro hgated
  obtain ⟨-, ev, hev, -, hpasses⟩ := hgated.promoted p hp hwrong.1
  have hnot := hwrong.2
  rw [hev, Option.all_some, hpasses] at hnot
  cases hnot

end DetectionProposals
