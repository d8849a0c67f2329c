import Mathlib.Data.List.Induction
import AiSOC.FloatOrder
import AiSOC.KeyedUnion

/-! # Joining the states of sub-agents

Sub-agents work on copies of an investigation, and their states are folded back into it: findings,
techniques and actions that are new, the worst verdict, and the confidence in it. The parts of a
state that the fold does not read are left out. -/
namespace SubAgentJoin

open KeyedUnion

/-- Between zero and one, which every agent sees to. -/
structure Confidence where
  value : Float
  nonneg : 0 ≤ value
  le_one : value ≤ 1

/-- `P` is the rest of an action. -/
structure ProposedAction (P : Type) where
  actionType : String
  target : String
  rest : P

structure InvestigationState (P : Type) where
  findings : List String
  mitreMappings : List String
  proposedActions : List (ProposedAction P)
  confidence : Confidence
  confidenceBasis : List String
  verdict : Option String
  iterationCount : ℤ

variable {P : Type}

def ProposedAction.key (a : ProposedAction P) : String × String := (a.actionType, a.target)

def verdictRank : Option String → ℤ
  | some "benign" => 0
  | some "false_positive" => 1
  | some "true_positive" => 2
  | _ => -1

/-- The verdict so far, with the confidence in it and what that is based on. -/
structure Leading where
  verdict : Option String
  confidence : Confidence
  confidenceBasis : List String

def InvestigationState.leading (s : InvestigationState P) : Leading :=
  ⟨s.verdict, s.confidence, s.confidenceBasis⟩

def Leading.step (best : Leading) (branch : InvestigationState P) : Leading :=
  if verdictRank best.verdict < verdictRank branch.verdict then branch.leading
  else if branch.verdict = best.verdict ∧ best.confidence.value < branch.confidence.value then
    { branch.leading with verdict := best.verdict }
  else best

/-- What the loop goes on with. -/
structure Merged (P : Type) where
  findings : List String
  mitre : List String
  actions : List (ProposedAction P)
  best : Leading

def Merged.step (m : Merged P) (branch : InvestigationState P) : Merged P where
  findings := addAll id m.findings branch.findings
  mitre := addAll id m.mitre branch.mitreMappings
  actions := addAll ProposedAction.key m.actions branch.proposedActions
  best := m.best.step branch

def joinStates (base : InvestigationState P) (branches : List (InvestigationState P)) :
    InvestigationState P :=
  let m := branches.foldl Merged.step
    ⟨base.findings, base.mitreMappings, base.proposedActions, base.leading⟩
  { findings := m.findings
    mitreMappings := m.mitre
    proposedActions := m.actions
    verdict := m.best.verdict.or base.verdict
    confidence := m.best.confidence
    confidenceBasis := m.best.confidenceBasis
    iterationCount :=
      max ((branches.map InvestigationState.iterationCount).foldl max base.iterationCount) 1 }

/-- A sub-agent that failed leaves a finding in the investigation, the others their states. -/
def runParallel (state : InvestigationState P)
    (results : List (String × Except String (InvestigationState P))) : InvestigationState P :=
  joinStates { state with findings := state.findings ++ results.filterMap failure }
    (results.filterMap fun r => r.2.toOption)
where
  failure : String × Except String (InvestigationState P) → Option String
    | (name, .error e) => some (name ++ " sub-agent failed: " ++ e)
    | (_, .ok _) => none

def Ranked (verdict : Option String) : Prop :=
  verdict = none ∨ verdict = some "benign" ∨ verdict = some "false_positive" ∨
    verdict = some "true_positive"

/-- The elements of all states, those of the base in front, and nothing added twice. -/
structure Collected {α κ : Type} (key : α → κ) (parts : InvestigationState P → List α)
    (base : InvestigationState P) (branches : List (InvestigationState P)) (all : List α) :
    Prop where
  mem_iff : ∀ k, k ∈ all.map key ↔ ∃ s ∈ base :: branches, k ∈ (parts s).map key
  added : ∃ added, all = parts base ++ added ∧ (added.map key).Nodup ∧
    ∀ a ∈ added, key a ∉ (parts base).map key

/-- The worst verdict, and the greatest confidence of those that reached it. -/
structure Best (base : InvestigationState P) (branches : List (InvestigationState P))
    (verdict : Option String) (confidence : Confidence) : Prop where
  worst : ∀ s ∈ base :: branches, verdictRank s.verdict ≤ verdictRank verdict
  of_base : verdictRank verdict ≤ verdictRank base.verdict → verdict = base.verdict
  reached : ∃ s ∈ base :: branches, s.verdict = verdict ∧ s.confidence = confidence
  greatest : ∀ s ∈ base :: branches, s.verdict = verdict →
    s.confidence.value ≤ confidence.value

structure Joined (base : InvestigationState P) (branches : List (InvestigationState P))
    (result : InvestigationState P) : Prop where
  best : Best base branches result.verdict result.confidence
  findings : Collected id InvestigationState.findings base branches result.findings
  techniques : Collected id InvestigationState.mitreMappings base branches result.mitreMappings
  actions : Collected ProposedAction.key InvestigationState.proposedActions base branches
    result.proposedActions

/-- The same verdict, confidence, and sets. -/
structure Alike (s t : InvestigationState P) : Prop where
  verdict : s.verdict = t.verdict
  confidence : (s.confidence.value == t.confidence.value) = true
  findings : ∀ f, f ∈ s.findings ↔ f ∈ t.findings
  techniques : ∀ m, m ∈ s.mitreMappings ↔ m ∈ t.mitreMappings
  actions : ∀ k, k ∈ s.proposedActions.map ProposedAction.key ↔
    k ∈ t.proposedActions.map ProposedAction.key

variable {base : InvestigationState P} {branches branches' : List (InvestigationState P)}
  {branch : InvestigationState P} {best : Leading} {v w : Option String}
  {confidence confidence' : Confidence}

/-! ## The lists -/

theorem foldl_step (m : Merged P) :
    branches.foldl Merged.step m =
      ⟨addAll id m.findings (branches.flatMap InvestigationState.findings),
        addAll id m.mitre (branches.flatMap InvestigationState.mitreMappings),
        addAll ProposedAction.key m.actions
          (branches.flatMap InvestigationState.proposedActions),
        branches.foldl Leading.step m.best⟩ := by
  induction branches generalizing m with
  | nil => rfl
  | cons branch branches ih =>
    rw [List.foldl_cons, ih]
    simp only [List.flatMap_cons, addAll_append]
    rfl

theorem collected_addAll {α κ : Type} [DecidableEq κ] (key : α → κ)
    (parts : InvestigationState P → List α) :
    Collected key parts base branches (addAll key (parts base) (branches.flatMap parts)) where
  mem_iff k := by
    rw [mem_keys_addAll, List.map_flatMap, List.mem_flatMap]
    simp only [List.mem_cons, exists_eq_or_imp]
  added := by
    obtain ⟨added, heq, h⟩ := exists_added key (parts base) (branches.flatMap parts)
    exact ⟨added, heq, h.nodup, h.fresh⟩

theorem Collected.perm {α κ : Type} {key : α → κ} {parts : InvestigationState P → List α}
    {all all' : List α} (h : Collected key parts base branches all)
    (h' : Collected key parts base branches' all') (hperm : branches'.Perm branches) (k : κ) :
    k ∈ all'.map key ↔ k ∈ all.map key := by
  rw [h.mem_iff, h'.mem_iff]
  simp only [List.mem_cons, hperm.mem_iff]

/-! ## The verdict -/

theorem verdictRank_inj (hv : Ranked v) (hw : Ranked w) (h : verdictRank v = verdictRank w) :
    v = w := by
  rcases hv with rfl | rfl | rfl | rfl <;> rcases hw with rfl | rfl | rfl | rfl <;>
    first | rfl | exact absurd h (by decide)

theorem Confidence.isNumber (c : Confidence) : FloatOrder.IsNumber c.value :=
  FloatOrder.isNumber_right c.nonneg

theorem Confidence.le_of_not_lt {c d : Confidence} (h : ¬ c.value < d.value) :
    d.value ≤ c.value :=
  (c.isNumber.lt_or_le d.isNumber).resolve_left h

theorem best_start : Best base [] base.leading.verdict base.leading.confidence where
  worst := by
    intro s hs
    obtain rfl := List.mem_singleton.mp hs
    exact le_refl _
  of_base _ := rfl
  reached := ⟨base, List.mem_cons_self, rfl, rfl⟩
  greatest := by
    intro s hs _
    obtain rfl := List.mem_singleton.mp hs
    exact FloatOrder.le_refl s.confidence.isNumber

theorem mem_snoc {s : InvestigationState P} :
    s ∈ base :: (branches ++ [branch]) ↔ s ∈ base :: branches ∨ s = branch := by
  rw [← List.cons_append, List.mem_append, List.mem_singleton]

/-- A verdict of the same rank is the same one, if it is not that of the base. -/
theorem Best.ranked (h : Best base branches v confidence)
    (hbranches : ∀ b ∈ branches, Ranked b.verdict) : v = base.verdict ∨ Ranked v := by
  obtain ⟨s, hs, rfl, -⟩ := h.reached
  rcases List.mem_cons.mp hs with rfl | hs
  · exact Or.inl rfl
  · exact Or.inr (hbranches s hs)

theorem Best.step (h : Best base branches best.verdict best.confidence)
    (hranked : Ranked branch.verdict) :
    Best base (branches ++ [branch]) (best.step branch).verdict
      (best.step branch).confidence := by
  rw [Leading.step]
  split_ifs with hworse hmore
  · -- a worse verdict: nobody had it before
    constructor
    · intro s hs
      rcases mem_snoc.mp hs with hs | rfl
      · exact (h.worst s hs).trans hworse.le
      · exact le_refl _
    · intro hbase
      have hle := h.worst base List.mem_cons_self
      exact absurd (hworse.trans_le (hbase.trans hle)) (lt_irrefl _)
    · exact ⟨branch, mem_snoc.mpr (Or.inr rfl), rfl, rfl⟩
    · intro s hs heq
      rcases mem_snoc.mp hs with hs | rfl
      · have hle := h.worst s hs
        rw [heq] at hle
        exact absurd (hworse.trans_le hle) (lt_irrefl _)
      · exact FloatOrder.le_refl s.confidence.isNumber
  · obtain ⟨hsame, hlt⟩ := hmore
    constructor
    · intro s hs
      rcases mem_snoc.mp hs with hs | rfl
      · exact h.worst s hs
      · exact not_lt.mp hworse
    · exact h.of_base
    · exact ⟨branch, mem_snoc.mpr (Or.inr rfl), hsame, rfl⟩
    · intro s hs heq
      rcases mem_snoc.mp hs with hs | rfl
      · exact FloatOrder.le_trans (h.greatest s hs heq) (FloatOrder.le_of_lt hlt)
      · exact FloatOrder.le_refl s.confidence.isNumber
  · constructor
    · intro s hs
      rcases mem_snoc.mp hs with hs | rfl
      · exact h.worst s hs
      · exact not_lt.mp hworse
    · exact h.of_base
    · obtain ⟨s, hs, hreached⟩ := h.reached
      exact ⟨s, mem_snoc.mpr (Or.inl hs), hreached⟩
    · intro s hs heq
      rcases mem_snoc.mp hs with hs | rfl
      · exact h.greatest s hs heq
      · exact Confidence.le_of_not_lt fun hlt => hmore ⟨heq, hlt⟩

theorem best_foldl (base : InvestigationState P) (branches : List (InvestigationState P))
    (hranked : ∀ b ∈ branches, Ranked b.verdict) :
    Best base branches (branches.foldl Leading.step base.leading).verdict
      (branches.foldl Leading.step base.leading).confidence := by
  induction branches using List.reverseRecOn with
  | nil => exact best_start
  | append_singleton branches branch ih =>
    rw [List.foldl_append]
    apply Best.step
    · exact ih fun b hb => hranked b (List.mem_append_left _ hb)
    · exact hranked branch (List.mem_append_right _ (List.mem_singleton_self branch))

theorem Best.perm (h : Best base branches v confidence) (h' : Best base branches' w confidence')
    (hranked : ∀ b ∈ branches, Ranked b.verdict) (hperm : branches'.Perm branches) :
    w = v ∧ (confidence'.value == confidence.value) = true := by
  have hmem : ∀ s, s ∈ base :: branches' ↔ s ∈ base :: branches := by
    intro s
    rw [List.mem_cons, List.mem_cons, hperm.mem_iff]
  obtain ⟨s, hs, hsv, hsc⟩ := h.reached
  obtain ⟨t, ht, htw, htc⟩ := h'.reached
  have hrank : verdictRank w = verdictRank v :=
    le_antisymm (htw ▸ h.worst t ((hmem t).mp ht)) (hsv ▸ h'.worst s ((hmem s).mpr hs))
  have heq : w = v := by
    rcases h.ranked hranked with hv | hv
    · rw [hv]
      exact h'.of_base (hv ▸ hrank.le)
    · rcases h'.ranked fun b hb => hranked b (hperm.mem_iff.mp hb) with hw | hw
      · rw [hw]
        exact (h.of_base (hw ▸ hrank.ge)).symm
      · exact verdictRank_inj hw hv hrank
  subst heq
  refine ⟨rfl, FloatOrder.beq_of_le ?_ ?_⟩
  · exact hsc ▸ h'.greatest s ((hmem s).mpr hs) hsv
  · exact htc ▸ h.greatest t ((hmem t).mp ht) htw

/-! ## The joined state -/

theorem neg_one_le_verdictRank (v : Option String) : -1 ≤ verdictRank v := by
  unfold verdictRank
  split <;> decide

/-- The verdict of the base is not overwritten by nothing. -/
theorem Best.or_base (h : Best base branches v confidence) : v.or base.verdict = v := by
  cases v with
  | some v => rfl
  | none => exact (h.of_base (neg_one_le_verdictRank base.verdict)).symm

theorem joined (hranked : ∀ b ∈ branches, Ranked b.verdict) :
    Joined base branches (joinStates base branches) := by
  have hbest := best_foldl base branches hranked
  rw [joinStates, foldl_step]
  refine ⟨?_, collected_addAll id _, collected_addAll id _, collected_addAll _ _⟩
  dsimp only
  rw [hbest.or_base]
  exact hbest

/-- What the sub-agents that failed leave are findings; the others are joined. -/
theorem runParallel_joined {results : List (String × Except String (InvestigationState P))}
    (hranked : ∀ r ∈ results, ∀ b, r.2 = .ok b → Ranked b.verdict) :
    ∃ failures, (∀ r ∈ results, ∀ e, r.2 = .error e →
        r.1 ++ " sub-agent failed: " ++ e ∈ failures) ∧
      Joined { base with findings := base.findings ++ failures }
        (results.filterMap fun r => r.2.toOption) (runParallel base results) := by
  refine ⟨results.filterMap runParallel.failure, ?_, joined ?_⟩
  · rintro ⟨name, outcome⟩ hr e rfl
    exact List.mem_filterMap.mpr ⟨_, hr, rfl⟩
  · intro b hb
    obtain ⟨⟨name, outcome⟩, hr, hok⟩ := List.mem_filterMap.mp hb
    cases outcome with
    | error e => cases hok
    | ok b' =>
      obtain rfl := Option.some.inj hok
      exact hranked _ hr b' rfl

/-- The joined state has everything of the base and the branches, the worst verdict of them all
and the greatest confidence in it, and it is the same in whatever order the branches come. -/
theorem join_order_independent (base : InvestigationState P)
    (branches : List (InvestigationState P)) (hranked : ∀ b ∈ branches, Ranked b.verdict) :
    Joined base branches (joinStates base branches) ∧
      ∀ branches', branches'.Perm branches →
        Alike (joinStates base branches') (joinStates base branches) := by
  have hjoined := @joined _ base branches hranked
  refine ⟨hjoined, fun branches' hperm => ?_⟩
  have hjoined' : Joined base branches' (joinStates base branches') :=
    joined fun b hb => hranked b (hperm.mem_iff.mp hb)
  obtain ⟨hverdict, hconfidence⟩ := hjoined.best.perm hjoined'.best hranked hperm
  refine ⟨hverdict, hconfidence, fun f => ?_, fun m => ?_, ?_⟩
  · have hmem := hjoined.findings.perm hjoined'.findings hperm f
    rwa [List.map_id, List.map_id] at hmem
  · have hmem := hjoined.techniques.perm hjoined'.techniques hperm m
    rwa [List.map_id, List.map_id] at hmem
  · exact hjoined.actions.perm hjoined'.actions hperm

def confident (value : Float) (h : 0 ≤ value ∧ value ≤ 1) (verdict : Option String)
    (findings : List String) : InvestigationState Unit where
  findings := findings
  mitreMappings := ["T1078"]
  proposedActions := [⟨"isolate_host", "ws-1", ()⟩]
  confidence := ⟨value, h.1, h.2⟩
  confidenceBasis := findings
  verdict := verdict
  iterationCount := 1

/-- Two branches agree that the alert is real; the third has no verdict. -/
theorem join_of_three : Alike
    (joinStates (confident 0.5 (by decide) none [])
      [confident 0.75 (by decide) (some "true_positive") ["mailbox rule"],
        confident 1 (by decide) none [],
        confident 0.25 (by decide) (some "true_positive") ["login from two places"]])
    (joinStates (confident 0.5 (by decide) none [])
      [confident 0.25 (by decide) (some "true_positive") ["login from two places"],
        confident 1 (by decide) none [],
        confident 0.75 (by decide) (some "true_positive") ["mailbox rule"]]) := by
  refine (join_order_independent _ _ ?_).2 _ (List.reverse_perm [_, _, _])
  simp [confident, Ranked]

end SubAgentJoin
