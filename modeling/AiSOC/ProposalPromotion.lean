import AiSOC.DetectionProposals

/-! # Promotion of a proposal into the rule table

An approved proposal becomes a new rule of the caller's tenant, or is written over the rule that
it was made for. Whatever raises is rolled back. -/
namespace ProposalPromotion

open DetectionProposals (Status)

/-- What a proposal and a rule have in common. -/
structure Content where
  name : String
  description : Option String
  ruleLanguage : String
  ruleBody : String
  category : String
  severity : String
  confidence : ℤ
  mitreTactics : List String
  mitreTechniques : List String
  tags : List String
  deriving DecidableEq

/-- A rule without a tenant is the platform's. -/
structure Rule where
  tenantId : Option ℕ
  content : Content
  status : String
  isBuiltin : Bool
  version : ℤ
  createdById : Option ℕ
  updatedAt : ℕ
  deriving DecidableEq

structure Proposal where
  tenantId : Option ℕ
  baseRuleId : Option ℕ
  promotedRuleId : Option ℕ
  content : Content
  status : Status
  decidedById : Option ℕ
  decidedAt : Option ℕ
  deriving DecidableEq

structure Database where
  proposals : ℕ → Option Proposal
  rules : ℕ → Option Rule

/-- A user's call, the id that a new rule would get, and whether the database takes what is
written. -/
structure Call where
  tenantId : ℕ
  userId : ℕ
  proposalId : ℕ
  newRuleId : ℕ
  now : ℕ
  commits : Bool

inductive PromoteError where
  | notFound
  | notApproved (status : Status)
  | baseRuleGone
  | database
  deriving DecidableEq

/-- Rows of the tenant and rows without a tenant. -/
def inScope (tenantId : ℕ) (owner : Option ℕ) : Bool := owner = some tenantId || owner = none

def loadProposal (db : Database) (c : Call) : Option Proposal :=
  (db.proposals c.proposalId).filter fun p => inScope c.tenantId p.tenantId

def maxInteger : ℤ := 2147483647

/-- The rule after an edit; the version is a column of 32 bits. -/
def editRule (p : Proposal) (now : ℕ) (r : Rule) : Option Rule :=
  if r.version + 1 ≤ maxInteger then
    some { r with content := p.content, version := r.version + 1, updatedAt := now }
  else none

def newRule (c : Call) (p : Proposal) : Rule where
  tenantId := some c.tenantId
  content := p.content
  status := "testing"
  isBuiltin := false
  version := 1
  createdById := some c.userId
  updatedAt := c.now

/-- The id of the rule that is written, with the rule. -/
def editBase (db : Database) (c : Call) (p : Proposal) (id : ℕ) :
    Except PromoteError (ℕ × Rule) :=
  match (db.rules id).filter fun r => inScope c.tenantId r.tenantId with
  | none => .error .baseRuleGone
  | some existing =>
    match editRule p c.now existing with
    | some r => .ok (id, r)
    | none => .error .database

def insertRule (db : Database) (c : Call) (p : Proposal) : Except PromoteError (ℕ × Rule) :=
  match db.rules c.newRuleId with
  | some _ => .error .database
  | none => .ok (c.newRuleId, newRule c p)

def writeRule (db : Database) (c : Call) (p : Proposal) : Except PromoteError (ℕ × Rule) :=
  match p.baseRuleId with
  | some id => editBase db c p id
  | none => insertRule db c p

def promoted (c : Call) (p : Proposal) (ruleId : ℕ) : Proposal :=
  { p with
    promotedRuleId := some ruleId
    status := .promoted
    decidedAt := p.decidedAt.or (some c.now)
    decidedById := if p.decidedAt = none then some c.userId else p.decidedById }

def promoteProposal (db : Database) (c : Call) : Database × Except PromoteError Proposal :=
  match loadProposal db c with
  | none => (db, .error .notFound)
  | some p =>
    if p.status = .approved then
      match writeRule db c p with
      | .error e => (db, .error e)
      | .ok (id, r) =>
        if c.commits then
          (⟨Function.update db.proposals c.proposalId (some (promoted c p id)),
            Function.update db.rules id (some r)⟩, .ok (promoted c p id))
        else (db, .error .database)
    else (db, .error (.notApproved p.status))

/-- The rules that are not the tenant's. -/
def foreign (tenantId : ℕ) (db : Database) (id : ℕ) : Option Rule :=
  (db.rules id).filter fun r => r.tenantId ≠ some tenantId

/-- The call edits a rule of the platform. -/
def EditsGlobal (db : Database) (c : Call) : Prop :=
  c.commits = true ∧ ∃ p id r, loadProposal db c = some p ∧ p.status = .approved ∧
    p.baseRuleId = some id ∧ db.rules id = some r ∧ r.tenantId = none ∧ r.version < maxInteger

variable {db : Database} {c : Call} {p : Proposal} {r existing : Rule} {id tenantId : ℕ}

/-- A rule that was the tenant's or was not there may be written by it. -/
theorem foreign_update (hold : foreign tenantId db id = none) (hr : r.tenantId = some tenantId)
    (proposals : ℕ → Option Proposal) :
    foreign tenantId ⟨proposals, Function.update db.rules id (some r)⟩ = foreign tenantId db := by
  funext k
  by_cases hk : k = id
  · have hnew : (some r).filter (fun r => r.tenantId ≠ some tenantId) = none :=
      Option.filter_some_neg (by simp [hr])
    simp only [hk, foreign, Function.update_self, hnew]
    exact hold.symm
  · simp only [foreign, Function.update_of_ne hk]

theorem editRule_eq_some : editRule p c.now existing = some r ↔ existing.version < maxInteger ∧
    r = { existing with
      content := p.content, version := existing.version + 1, updatedAt := c.now } := by
  rw [editRule]
  split_ifs with h
  · rw [Option.some.injEq, eq_comm]
    exact (and_iff_right (by omega)).symm
  · simp only [false_iff, not_and]
    intro hlt
    omega

theorem editBase_eq_ok {base : ℕ} : editBase db c p base = .ok (id, r) ↔
    base = id ∧ ∃ existing, db.rules id = some existing ∧
      inScope c.tenantId existing.tenantId = true ∧ editRule p c.now existing = some r := by
  rw [editBase]
  constructor
  · intro h
    split at h
    · cases h
    · rename_i existing hload
      obtain ⟨hexisting, hscope⟩ := Option.filter_eq_some_iff.mp hload
      split at h
      · rename_i edited hedit
        cases h
        exact ⟨rfl, existing, hexisting, hscope, hedit⟩
      · cases h
  · rintro ⟨rfl, existing, hexisting, hscope, hedit⟩
    have hload : (db.rules base).filter (fun r => inScope c.tenantId r.tenantId) = some existing :=
      Option.filter_eq_some_iff.mpr ⟨hexisting, hscope⟩
    simp only [hload, hedit]

theorem insertRule_eq_ok : insertRule db c p = .ok (id, r) ↔
    id = c.newRuleId ∧ db.rules id = none ∧ r = newRule c p := by
  rw [insertRule]
  constructor
  · intro h
    split at h
    · cases h
    · rename_i hnew
      cases h
      exact ⟨rfl, hnew, rfl⟩
  · rintro ⟨rfl, hnew, rfl⟩
    simp only [hnew]

/-- What is written is an edit of a rule in scope, or a rule of a new id. -/
theorem writeRule_eq_ok : writeRule db c p = .ok (id, r) ↔
    (p.baseRuleId = some id ∧ ∃ existing, db.rules id = some existing ∧
      inScope c.tenantId existing.tenantId = true ∧ editRule p c.now existing = some r) ∨
    p.baseRuleId = none ∧ id = c.newRuleId ∧ db.rules id = none ∧ r = newRule c p := by
  rw [writeRule]
  cases p.baseRuleId with
  | none => simp only [insertRule_eq_ok, reduceCtorEq, false_and, false_or, true_and]
  | some base => simp only [editBase_eq_ok, Option.some.injEq, reduceCtorEq, false_and, or_false]

/-- Either nothing is written, or one rule and the proposal. -/
theorem promoteProposal_cases (db : Database) (c : Call) : (promoteProposal db c).1 = db ∨
    ∃ p id r, loadProposal db c = some p ∧ p.status = .approved ∧ c.commits = true ∧
      writeRule db c p = .ok (id, r) ∧ (promoteProposal db c).1 =
        ⟨Function.update db.proposals c.proposalId (some (promoted c p id)),
          Function.update db.rules id (some r)⟩ := by
  rw [promoteProposal]
  cases hload : loadProposal db c with
  | none => exact Or.inl rfl
  | some p =>
    dsimp only
    by_cases hstatus : p.status = .approved
    · rw [if_pos hstatus]
      cases hwrite : writeRule db c p with
      | error e => exact Or.inl rfl
      | ok written =>
        obtain ⟨id, r⟩ := written
        dsimp only
        by_cases hcommits : c.commits = true
        · rw [if_pos hcommits]
          exact Or.inr ⟨p, id, r, rfl, hstatus, hcommits, hwrite, rfl⟩
        · rw [if_neg hcommits]
          exact Or.inl rfl
    · rw [if_neg hstatus]
      exact Or.inl rfl

theorem promoteProposal_of_write (hload : loadProposal db c = some p)
    (hstatus : p.status = .approved) (hcommits : c.commits = true)
    (hwrite : writeRule db c p = .ok (id, r)) :
    (promoteProposal db c).1 =
      ⟨Function.update db.proposals c.proposalId (some (promoted c p id)),
        Function.update db.rules id (some r)⟩ := by
  simp only [promoteProposal, hload, if_pos hstatus, hwrite, if_pos hcommits]

/-- The rules of others and of the platform are left alone unless the proposal is for one of the
platform's. -/
theorem foreign_promote_iff (db : Database) (c : Call) :
    foreign c.tenantId (promoteProposal db c).1 = foreign c.tenantId db ↔ ¬EditsGlobal db c := by
  constructor
  · rintro h ⟨hcommits, p, id, existing, hload, hstatus, hbase, hexisting, hnone, hversion⟩
    have hscope : inScope c.tenantId existing.tenantId = true := by simp [inScope, hnone]
    have hedit := (editRule_eq_some (p := p) (c := c)).mpr ⟨hversion, rfl⟩
    have hwrite := writeRule_eq_ok.mpr (Or.inl ⟨hbase, existing, hexisting, hscope, hedit⟩)
    rw [promoteProposal_of_write hload hstatus hcommits hwrite] at h
    have hrow := congrFun h id
    simp only [foreign, Function.update_self, hexisting] at hrow
    rw [Option.filter_some_pos (by simp [hnone]), Option.filter_some_pos (by simp [hnone])] at hrow
    have hsame := congrArg Rule.version (Option.some.inj hrow)
    dsimp only at hsame
    omega
  · intro hnot
    rcases promoteProposal_cases db c with heq | ⟨p, id, r, hload, hstatus, hcommits, hwrite, heq⟩
    · rw [heq]
    rw [heq]
    rcases writeRule_eq_ok.mp hwrite with ⟨hbase, existing, hexisting, hscope, hedit⟩ |
      ⟨-, -, hnew, rfl⟩
    · obtain ⟨hversion, rfl⟩ := editRule_eq_some.mp hedit
      have hown : existing.tenantId = some c.tenantId := by
        rw [inScope, Bool.or_eq_true, decide_eq_true_eq, decide_eq_true_eq] at hscope
        refine hscope.resolve_right fun hnone => hnot ?_
        exact ⟨hcommits, p, id, existing, hload, hstatus, hbase, hexisting, hnone, hversion⟩
      have hold : foreign c.tenantId db id = none := by
        rw [foreign, hexisting]
        exact Option.filter_some_neg (by simp [hown])
      rw [foreign_update hold]
      exact hown
    · have hold : foreign c.tenantId db id = none := by
        rw [foreign, hnew]
        rfl
      rw [foreign_update hold]
      rfl

def template : Content :=
  ⟨"Beacon", none, "sigma", "title: Beacon", "network", "high", 50, [], [], []⟩

/-- A rule of the platform, and an approved proposal of tenant 1 that names it. -/
def edited : Database where
  proposals := Function.update (fun _ => none) 1
    (some ⟨some 1, some 10, none, { template with severity := "low" }, .approved, none, none⟩)
  rules := Function.update (fun _ => none) 10 (some ⟨none, template, "active", true, 1, none, 0⟩)

theorem platform_rule_edited : ∃ r, edited.rules 10 = some r ∧ r.tenantId = none ∧
    (promoteProposal edited ⟨1, 5, 1, 11, 7, true⟩).1.rules 10 ≠ some r :=
  ⟨⟨none, template, "active", true, 1, none, 0⟩, rfl, rfl, by decide⟩

end ProposalPromotion
