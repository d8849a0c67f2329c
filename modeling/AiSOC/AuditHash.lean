import AiSOC.HashChain

/-! # Audit chain verification

`computeEntryHash` and the replay of `verifyChain`. The digest stands for SHA-256 over the
canonical serialisation of the hashed fields; `J` is the type of redacted change payloads. -/
namespace AuditHash

open HashChain (Digest Block Linked tip)

abbrev UUID := Nat

/-- The headers kept in the `metadata` column. -/
structure Metadata where
  userAgent : Option String
  requestId : Option String
  deriving DecidableEq, Repr

/-- `createdAt` is in microseconds. -/
structure HashedFields (J : Type) where
  id : UUID
  tenantId : UUID
  actorId : Option UUID
  actorEmail : Option String
  actorIp : Option String
  action : String
  resource : Option String
  resourceId : Option String
  changes : Option J
  metadata : Option Metadata
  createdAt : Int
  deriving DecidableEq, Repr

/-- A row of `audit_log`. -/
structure Row (H J : Type) where
  fields : HashedFields J
  prevHash : Option H
  entryHash : Option H
  deriving DecidableEq, Repr

variable {H J : Type} [DecidableEq H] (F : Digest H (HashedFields J))

/-- A missing `prev_hash` is hashed as the empty text. -/
def computeEntryHash (prevHash : Option H) (fields : HashedFields J) : H :=
  F.entry prevHash fields

/-- The loop of `verifyChain` at a row: its index, the running hash, and whether a hashed
row came before. -/
@[grind =]
def verifyFrom : Nat → Option H → Bool → List (Row H J) → Bool × Option Nat × Option String
  | _, _, _, [] => (true, none, none)
  | idx, prevHash, started, row :: rows =>
    match row.entryHash with
    | none =>
      if started then (false, some idx, some "chain interrupted: entry_hash missing")
      else verifyFrom (idx + 1) prevHash started rows
    | some stored =>
      if row.prevHash ≠ prevHash then (false, some idx, some "prev_hash mismatch")
      else if computeEntryHash F prevHash row.fields ≠ stored then
        (false, some idx, some "entry_hash mismatch")
      else verifyFrom (idx + 1) (some (computeEntryHash F prevHash row.fields)) true rows

def verifyChain (rows : List (Row H J)) : Bool × Option Nat × Option String :=
  verifyFrom F 0 none false rows

def Accepted (rows : List (Row H J)) : Prop := verifyChain F rows = (true, none, none)

instance (rows : List (Row H J)) : Decidable (Accepted F rows) :=
  inferInstanceAs (Decidable (verifyChain F rows = (true, none, none)))

@[grind =]
def toRow (b : Block H (HashedFields J)) : Row H J := ⟨b.body, b.prev, some b.hash⟩

/-- Rows without a hash. -/
def Unhashed (rows : List (Row H J)) : Prop := ∀ r ∈ rows, r.entryHash = none

/-- Rows from before the chain, followed by a linked chain from the first hashed row on. -/
def Chained (legacy : List (Row H J)) (blocks : List (Block H (HashedFields J))) : Prop :=
  Unhashed legacy ∧ Linked F none blocks

variable {F}

/-- Behind the first hashed row the replay accepts exactly the linked chains. -/
theorem verifyFrom_started_iff {idx : Nat} {p : Option H} {rows : List (Row H J)} :
    verifyFrom F idx p true rows = (true, none, none) ↔
      ∃ blocks, rows = blocks.map toRow ∧ Linked F p blocks := by
  induction rows generalizing idx p with
  | nil =>
    refine ⟨fun _ => ⟨[], rfl, trivial⟩, fun _ => rfl⟩
  | cons row rows ih =>
    obtain ⟨fields, prevHash, entryHash⟩ := row
    cases entryHash with
    | none =>
      simp only [verifyFrom, if_true, Prod.mk.injEq, Bool.false_eq_true, false_and, false_iff]
      rintro ⟨_ | ⟨b, blocks⟩, hrows, -⟩
      · cases hrows
      · simp [toRow] at hrows
    | some stored =>
      simp only [verifyFrom]
      split
      · rename_i hp
        simp only [Prod.mk.injEq, Bool.false_eq_true, false_and, false_iff]
        rintro ⟨_ | ⟨b, blocks⟩, hrows, hl⟩
        · cases hrows
        · simp only [List.map_cons, List.cons.injEq, toRow, Row.mk.injEq] at hrows
          exact hp (hrows.1.2.1.trans hl.1)
      split
      · rename_i hp hs
        simp only [Prod.mk.injEq, Bool.false_eq_true, false_and, false_iff]
        rintro ⟨_ | ⟨b, blocks⟩, hrows, hl⟩
        · cases hrows
        · simp only [List.map_cons, List.cons.injEq, toRow, Row.mk.injEq,
            Option.some.injEq] at hrows
          refine hs ?_
          rw [computeEntryHash, hrows.1.1, ← hl.2.1, hrows.1.2.2]
      · rename_i hp hs
        rw [not_not] at hp hs
        rw [ih]
        constructor
        · rintro ⟨blocks, rfl, hl⟩
          refine ⟨⟨fields, prevHash, stored⟩ :: blocks, rfl, hp, hs.symm, ?_⟩
          rwa [← hs]
        · rintro ⟨_ | ⟨b, blocks⟩, hrows, hl⟩
          · cases hrows
          · simp only [List.map_cons, List.cons.injEq, toRow, Row.mk.injEq,
              Option.some.injEq] at hrows
            refine ⟨blocks, hrows.2, ?_⟩
            rw [hs, hrows.1.2.2]
            exact hl.2.2

/-- A replay that has not started accepts unhashed rows in front of a linked chain. -/
theorem verifyFrom_fresh_iff {idx : Nat} {rows : List (Row H J)} :
    verifyFrom F idx none false rows = (true, none, none) ↔
      ∃ legacy blocks, rows = legacy ++ blocks.map toRow ∧ Chained F legacy blocks := by
  induction rows generalizing idx with
  | nil =>
    exact ⟨fun _ => ⟨[], [], rfl, fun _ hr => (List.not_mem_nil hr).elim, trivial⟩, fun _ => rfl⟩
  | cons row rows ih =>
    rcases he : row.entryHash with _ | stored
    · have hstep : verifyFrom F idx none false (row :: rows) =
          verifyFrom F (idx + 1) none false rows := by simp [verifyFrom, he]
      rw [hstep, ih]
      constructor
      · rintro ⟨legacy, blocks, rfl, hu, hl⟩
        refine ⟨row :: legacy, blocks, rfl, ?_, hl⟩
        rintro r (_ | ⟨_, hr⟩)
        · exact he
        · exact hu r hr
      · rintro ⟨_ | ⟨r, legacy⟩, blocks, hrows, hu, hl⟩
        · cases blocks with
          | nil => cases hrows
          | cons b blocks =>
            simp only [List.nil_append, List.map_cons, List.cons.injEq] at hrows
            rw [hrows.1] at he
            cases he
        · simp only [List.cons_append, List.cons.injEq] at hrows
          exact ⟨legacy, blocks, hrows.2, fun q hq => hu q (List.mem_cons_of_mem r hq), hl⟩
    · have hstep : verifyFrom F idx none false (row :: rows) =
          verifyFrom F idx none true (row :: rows) := by simp [verifyFrom, he]
      rw [hstep, verifyFrom_started_iff]
      constructor
      · rintro ⟨blocks, hrows, hl⟩
        exact ⟨[], blocks, hrows, fun _ hr => (List.not_mem_nil hr).elim, hl⟩
      · rintro ⟨_ | ⟨r, legacy⟩, blocks, hrows, hu, hl⟩
        · exact ⟨blocks, hrows, hl⟩
        · simp only [List.cons_append, List.cons.injEq] at hrows
          rw [hrows.1, hu r List.mem_cons_self] at he
          cases he

theorem accepted_iff {rows : List (Row H J)} :
    Accepted F rows ↔
      ∃ legacy blocks, rows = legacy ++ blocks.map toRow ∧ Chained F legacy blocks :=
  verifyFrom_fresh_iff

/-- The front of an accepted sequence is accepted. -/
theorem verifyFrom_append_left {idx : Nat} {p : Option H} {started : Bool}
    {a b : List (Row H J)} (h : verifyFrom F idx p started (a ++ b) = (true, none, none)) :
    verifyFrom F idx p started a = (true, none, none) := by
  induction a generalizing idx p started with
  | nil => rfl
  | cons row a ih =>
    simp only [List.cons_append, verifyFrom] at h ⊢
    repeat' split at h
    all_goals simp_all

/-- A rejection points at a row that exists. -/
theorem verifyFrom_reject_index {idx i : Nat} {p : Option H} {started : Bool}
    {rows : List (Row H J)} {reason : String}
    (h : verifyFrom F idx p started rows = (false, some i, some reason)) :
    idx ≤ i ∧ i < idx + rows.length := by
  induction rows generalizing idx p started with
  | nil => simp [verifyFrom] at h
  | cons row rows ih =>
    have here : ∀ {text : String}, (false, some idx, some text) = (false, some i, some reason) →
        idx ≤ i ∧ i < idx + (row :: rows).length := by
      intro text heq
      simp only [Prod.mk.injEq, Option.some.injEq, true_and] at heq
      simp only [List.length_cons]
      omega
    have later : ∀ {q : Option H} {s : Bool},
        verifyFrom F (idx + 1) q s rows = (false, some i, some reason) →
        idx ≤ i ∧ i < idx + (row :: rows).length := by
      intro q s heq
      have := ih heq
      simp only [List.length_cons]
      omega
    simp only [verifyFrom] at h
    repeat' split at h
    all_goals first | exact here h | exact later h

/-- The hash the replay ends with: the last row's. -/
def lastHash (rows : List (Row H J)) : Option H := rows.getLast?.bind Row.entryHash

omit [DecidableEq H] in
theorem lastHash_toRow (blocks : List (Block H (HashedFields J))) :
    lastHash (blocks.map toRow) = tip none blocks := by
  rcases List.eq_nil_or_concat blocks with rfl | ⟨cs, c, rfl⟩
  · rfl
  · simp [lastHash, toRow]

end AuditHash
