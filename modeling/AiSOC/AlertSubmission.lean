import AiSOC.CodeText
import AiSOC.TransitionSystem
import AiSOC.UniqueIndex

/-! # Submitting an alert under an idempotency key

`submit_alert` looks for an alert with the key, inserts one if there is none, and answers with the
row of the winner if another submission was faster. Every statement is a step of its own; the
transaction is committed after the handler. -/
namespace AlertSubmission

open CodeText (Text cp text strip between)
open TransitionSystem (System Reachable runTrace anyStep)
open UniqueIndex (Table)

/-- `C` are the other columns of an alert. -/
structure Alert (C : Type) where
  id : String
  tenantID : String
  idempotencyKey : Option Text
  content : C
  deriving DecidableEq

/-- `P` are the payloads. They are sanitised and made into an alert, unless there are too many
events, which is an error with a text. -/
structure Pipeline (P C : Type) where
  noEvents : P → Bool
  synthesise : P → Except String C

variable {P C : Type}

inductive Response (C : Type) where
  | alert (row : Alert C)
  | failed (status : ℕ) (detail : String)

def keyChar (c : CodeText.CodePoint) : Bool :=
  between 'A' 'Z' c || between 'a' 'z' c || between '0' '9' c || c ∈ text "._:-"

def wellFormedKey (key : Text) : Bool := 8 ≤ key.length && key.length ≤ 128 && key.all keyChar

/-- The header `Idempotency-Key`, if there is one. -/
def checkKey (header : Option Text) : Except (Response C) (Option Text) :=
  match header with
  | none => .ok none
  | some raw =>
    let key := ((strip raw).filter (· ≠ cp '\r')).map fun c => if c = cp '\n' then cp ' ' else c
    if wellFormedKey key then .ok (some key)
    else .error (.failed 400
      "Idempotency-Key must be 8–128 ASCII chars matching [A-Za-z0-9._:-]")

inductive Phase (C : Type) where
  | started
  | checked
  | inserted (row : Alert C)
  | refreshed (row : Alert C)
  | conflicted
  | rolledBack
  | found (row : Alert C)
  | done (response : Response C)

structure Call (P C : Type) where
  tenantID : String
  key : Option Text
  payload : P
  phase : Phase C

/-- What is checked before the first statement. -/
def Pipeline.call (pipeline : Pipeline P C) (tenantID : String) (header : Option Text)
    (payload : P) : Call P C :=
  if pipeline.noEvents payload then
    ⟨tenantID, none, payload, .done (.failed 400 "events must be a non-empty list")⟩
  else
    match checkKey header with
    | .error response => ⟨tenantID, none, payload, .done response⟩
    | .ok none => ⟨tenantID, none, payload, .checked⟩
    | .ok (some key) => ⟨tenantID, some key, payload, .started⟩

/-- The primary key, and the partial unique index of the idempotency keys. -/
def Clash (a b : Alert C) : Prop :=
  a.id = b.id ∨ a.tenantID = b.tenantID ∧ a.idempotencyKey = b.idempotencyKey ∧
    a.idempotencyKey ≠ none

instance : DecidableRel (Clash (C := C)) := fun _ _ => inferInstanceAs (Decidable (_ ∨ _))

/-- The rows that the lookup of a call asks for. -/
def Alert.matches (tenantID : String) (key : Option Text) (row : Alert C) : Bool :=
  row.tenantID = tenantID && row.idempotencyKey = key

structure State (P C : Type) where
  table : Table ℕ (Alert C)
  calls : ℕ → Option (Call P C)

inductive Act (P : Type) where
  | submit (id : ℕ) (tenantID : String) (header : Option Text) (payload : P)
  | select (id : ℕ)
  | insert (id : ℕ) (alertID : String)
  | rollback (id : ℕ)
  | reselect (id : ℕ)
  | refresh (id : ℕ)
  | commit (id : ℕ)

def State.move (s : State P C) (id : ℕ) (call : Call P C) (phase : Phase C) : State P C :=
  { s with calls := Function.update s.calls id (some { call with phase := phase }) }

/-- No row has the id yet. -/
def State.unused (s : State P C) (alertID : String) : Bool :=
  (s.table.rows ++ s.table.pending.map Prod.snd).all fun r => r.id ≠ alertID

def State.next (pipeline : Pipeline P C) (s : State P C) : Act P → Option (State P C)
  | .submit id tenantID header payload =>
    if (s.calls id).isSome then none
    else
      let call := pipeline.call tenantID header payload
      some (s.move id call call.phase)
  | .select id => (s.calls id).bind fun call =>
    match call.phase with
    | .started =>
      match (s.table.visible id).find? (Alert.matches call.tenantID call.key) with
      | some row => some (s.move id call (.found row))
      | none => some (s.move id call .checked)
    | _ => none
  | .insert id alertID => (s.calls id).bind fun call =>
    match call.phase with
    | .checked =>
      match pipeline.synthesise call.payload with
      | .error reason => some (s.move id call (.done (.failed 413 reason)))
      | .ok content =>
        let row : Alert C := ⟨alertID, call.tenantID, call.key, content⟩
        -- a new random id is not in use
        if s.unused alertID then
          match s.table.insert Clash id row with
          | .waits => none
          | .violated => some (s.move id call .conflicted)
          | .done table => some (State.move { s with table := table } id call (.inserted row))
        else none
    | _ => none
  | .rollback id => (s.calls id).bind fun call =>
    match call.phase with
    | .conflicted => some (State.move { s with table := s.table.rollback id } id call
        (if call.key = none then .done (.failed 500 "failed to persist alert") else .rolledBack))
    | _ => none
  | .reselect id => (s.calls id).bind fun call =>
    match call.phase with
    | .rolledBack =>
      match (s.table.visible id).find? (Alert.matches call.tenantID call.key) with
      | some row => some (s.move id call (.found row))
      | none => some (s.move id call (.done (.failed 500 "failed to persist alert")))
    | _ => none
  | .refresh id => (s.calls id).bind fun call =>
    match call.phase with
    | .inserted row =>
      match (s.table.visible id).find? fun r => r.id = row.id with
      | some row => some (s.move id call (.refreshed row))
      | none => some (State.move { s with table := s.table.rollback id } id call
          (.done (.failed 500 "Internal Server Error")))
    | _ => none
  | .commit id => (s.calls id).bind fun call =>
    match call.phase with
    | .found row | .refreshed row =>
      some (State.move { s with table := s.table.commit id } id call (.done (.alert row)))
    | _ => none

def initial (rows : List (Alert C)) : State P C := ⟨⟨rows, []⟩, fun _ => none⟩

/-- The indexes hold of the rows that are there. -/
def system (pipeline : Pipeline P C) : System (State P C) (Act P) where
  start s := ∃ rows : List (Alert C), rows.Pairwise (fun a b => ¬ Clash a b) ∧ s = initial rows
  next := State.next pipeline

/-! ## What a call knows -/

variable {pipeline : Pipeline P C} {s t : State P C} {id : ℕ} {call : Call P C} {phase : Phase C}
  {table table' : Table ℕ (Alert C)}

/-- A submission that failed had no key, or too large a payload. -/
def Call.Knows (pipeline : Pipeline P C) (table : Table ℕ (Alert C)) (id : ℕ)
    (call : Call P C) : Prop :=
  match call.phase with
  | .started | .checked => True
  | .inserted row | .refreshed row =>
    (id, row) ∈ table.pending ∧ row.matches call.tenantID call.key = true
  | .conflicted | .rolledBack =>
    ∃ row ∈ table.rows, row.matches call.tenantID call.key = true
  | .found row | .done (.alert row) =>
    row ∈ table.rows ∧ row.matches call.tenantID call.key = true
  | .done (.failed ..) =>
    call.key = none ∨ ∃ reason, pipeline.synthesise call.payload = .error reason

/-- The row that the call has inserted and not committed. -/
def Phase.open : Phase C → Option (Alert C)
  | .inserted row | .refreshed row => some row
  | _ => none

structure Invariant (pipeline : Pipeline P C) (s : State P C) : Prop where
  unique : s.table.Unique Clash
  owner : ∀ id row, (id, row) ∈ s.table.pending →
    ∃ call, s.calls id = some call ∧ call.phase.open = some row
  knows : ∀ id call, s.calls id = some call → call.Knows pipeline s.table id

theorem Call.Knows.mono (h : call.Knows pipeline table id)
    (hrows : ∀ row ∈ table.rows, row ∈ table'.rows)
    (hpending : ∀ row, (id, row) ∈ table.pending → (id, row) ∈ table'.pending) :
    call.Knows pipeline table' id := by
  rw [Call.Knows] at h ⊢
  split at h
  · trivial
  · trivial
  · exact ⟨hpending _ h.1, h.2⟩
  · exact ⟨hpending _ h.1, h.2⟩
  · obtain ⟨row, hrow, hmatches⟩ := h
    exact ⟨row, hrows row hrow, hmatches⟩
  · obtain ⟨row, hrow, hmatches⟩ := h
    exact ⟨row, hrows row hrow, hmatches⟩
  · exact ⟨hrows _ h.1, h.2⟩
  · exact ⟨hrows _ h.1, h.2⟩
  · exact h

/-- A step of one call, under which committed rows and the open rows of the others stay. -/
theorem Invariant.step (hi : Invariant pipeline s) (hunique : table.Unique Clash)
    (hrows : ∀ row ∈ s.table.rows, row ∈ table.rows)
    (hothers : ∀ j row, j ≠ id → ((j, row) ∈ table.pending ↔ (j, row) ∈ s.table.pending))
    (hown : ∀ row, (id, row) ∈ table.pending → phase.open = some row)
    (hknows : Call.Knows pipeline table id { call with phase := phase }) :
    Invariant pipeline (State.move { s with table := table } id call phase) := by
  constructor
  · exact hunique
  · intro j row hrow
    by_cases hj : j = id
    · rw [hj] at hrow ⊢
      exact ⟨_, Function.update_self _ _ _, hown row hrow⟩
    · obtain ⟨call', hcall', hopen⟩ := hi.owner j row ((hothers j row hj).mp hrow)
      exact ⟨call', (Function.update_of_ne hj _ _).trans hcall', hopen⟩
  · intro j call' hcall'
    simp only [State.move] at hcall' ⊢
    by_cases hj : j = id
    · rw [hj] at hcall' ⊢
      rw [Function.update_self] at hcall'
      rw [← Option.some.inj hcall']
      exact hknows
    · rw [Function.update_of_ne hj] at hcall'
      exact (hi.knows j call' hcall').mono hrows fun row hrow => (hothers j row hj).mpr hrow

/-- A step that does not write. -/
theorem Invariant.stay (hi : Invariant pipeline s)
    (hfree : ∀ row, (id, row) ∈ s.table.pending → phase.open = some row)
    (hknows : Call.Knows pipeline s.table id { call with phase := phase }) :
    Invariant pipeline (s.move id call phase) :=
  hi.step hi.unique (fun _ h => h) (fun _ _ _ => Iff.rfl) hfree hknows

/-- Who has no open row sees what is committed. -/
theorem Invariant.free (hi : Invariant pipeline s) (hcall : s.calls id = some call)
    (hopen : call.phase.open = none) (row : Alert C) : (id, row) ∉ s.table.pending := by
  intro hrow
  obtain ⟨call', hcall', hopen'⟩ := hi.owner id row hrow
  obtain rfl := Option.some.inj (hcall.symm.trans hcall')
  rw [hopen] at hopen'
  cases hopen'

theorem symm_clash (a b : Alert C) (h : Clash a b) : Clash b a := by
  rcases h with h | ⟨htenant, hkey, hsome⟩
  · exact Or.inl h.symm
  · exact Or.inr ⟨htenant.symm, hkey.symm, hkey ▸ hsome⟩

theorem Invariant.rollback (hi : Invariant pipeline s)
    (hknows : Call.Knows pipeline (s.table.rollback id) id { call with phase := phase }) :
    Invariant pipeline (State.move { s with table := s.table.rollback id } id call phase) := by
  refine hi.step (hi.unique.rollback id) (fun _ h => h) ?_ ?_ hknows
  · intro j row hj
    exact UniqueIndex.mem_pending_rollback.trans (and_iff_left hj)
  · intro row hrow
    exact absurd rfl (UniqueIndex.mem_pending_rollback.mp hrow).2

theorem Invariant.commit (hi : Invariant pipeline s)
    (hknows : Call.Knows pipeline (s.table.commit id) id { call with phase := phase }) :
    Invariant pipeline (State.move { s with table := s.table.commit id } id call phase) := by
  refine hi.step (hi.unique.commit symm_clash id) ?_ ?_ ?_ hknows
  · exact fun row hrow => UniqueIndex.mem_rows_commit.mpr (Or.inl hrow)
  · intro j row hj
    exact UniqueIndex.mem_pending_commit.trans (and_iff_left hj)
  · intro row hrow
    exact absurd rfl (UniqueIndex.mem_pending_commit.mp hrow).2

/-- A row that is refused has the key of one that is committed. -/
theorem Invariant.conflict (hi : Invariant pipeline s) (hcall : s.calls id = some call)
    (hopen : call.phase.open = none) {row : Alert C} (hunused : s.unused row.id = true)
    (h : s.table.insert Clash id row = .violated) :
    ∃ row' ∈ s.table.rows, row'.matches row.tenantID row.idempotencyKey = true := by
  obtain ⟨row', hrow', hclash⟩ := UniqueIndex.insert_eq_violated h
  rw [UniqueIndex.visible_of_free (hi.free hcall hopen)] at hrow'
  refine ⟨row', hrow', ?_⟩
  rcases hclash with hid | ⟨htenant, hkey, -⟩
  · have hne := List.all_eq_true.mp hunused row' (List.mem_append_left _ hrow')
    rw [decide_eq_true_eq] at hne
    exact absurd hid hne
  · rw [Alert.matches, htenant, hkey]
    simp only [decide_true, Bool.and_self]

theorem find?_matches {rows : List (Alert C)} {tenantID : String} {key : Option Text}
    {row : Alert C} (h : rows.find? (Alert.matches tenantID key) = some row) :
    row ∈ rows ∧ row.matches tenantID key = true :=
  ⟨List.mem_of_find?_eq_some h, List.find?_some h⟩

theorem Invariant.insert (hi : Invariant pipeline s) (hcall : s.calls id = some call)
    (hopen : call.phase.open = none) {row : Alert C}
    (hmatches : row.matches call.tenantID call.key = true)
    (h : s.table.insert Clash id row = .done table) :
    Invariant pipeline (State.move { s with table := table } id call (.inserted row)) := by
  have hunique := hi.unique.insert h
  obtain ⟨-, -, rfl⟩ := UniqueIndex.insert_eq_done_iff.mp h
  have hfree := hi.free hcall hopen
  refine hi.step hunique (fun _ h => h) ?_ ?_
    ⟨List.mem_append_right _ List.mem_cons_self, hmatches⟩
  · intro j row' hj
    rw [List.mem_append, List.mem_singleton]
    refine or_iff_left ?_
    intro heq
    exact hj (Prod.mk.inj heq).1
  · intro row' hrow'
    rcases List.mem_append.mp hrow' with hold | hnew
    · exact absurd hold (hfree row')
    · rw [(Prod.mk.inj (List.mem_singleton.mp hnew)).2]
      rfl

/-- The refresh finds the row that was inserted. -/
theorem Invariant.refreshed (hi : Invariant pipeline s) {row : Alert C}
    (hrow : (id, row) ∈ s.table.pending) :
    (s.table.visible id).find? (fun r => r.id = row.id) = some row := by
  have hvisible : row ∈ s.table.visible id :=
    List.mem_append_right _ (UniqueIndex.mem_own.mpr hrow)
  rcases hfind : (s.table.visible id).find? (fun r => r.id = row.id) with - | r
  · have hnone := List.find?_eq_none.mp hfind row hvisible
    simp only [decide_true, not_true] at hnone
  · have hid : r.id = row.id :=
      of_decide_eq_true (List.find?_some (p := fun r : Alert C => decide (r.id = row.id)) hfind)
    have heq := hi.unique.eq_of_clash symm_clash
      (UniqueIndex.mem_of_visible (List.mem_of_find?_eq_some hfind))
      (UniqueIndex.mem_of_visible hvisible) (Or.inl hid)
    rw [hfind, heq]

theorem Pipeline.knows_call (pipeline : Pipeline P C) (table : Table ℕ (Alert C)) (id : ℕ)
    (tenantID : String) (header : Option Text) (payload : P) :
    (pipeline.call tenantID header payload).Knows pipeline table id ∧
      (pipeline.call tenantID header payload).phase.open = none := by
  rw [Pipeline.call]
  split
  · exact ⟨Or.inl rfl, rfl⟩
  · split
    · rename_i response hcheck
      rw [checkKey.eq_def] at hcheck
      split at hcheck
      · cases hcheck
      · dsimp only at hcheck
        split_ifs at hcheck
        cases hcheck
        exact ⟨Or.inl rfl, rfl⟩
    · exact ⟨trivial, rfl⟩
    · exact ⟨trivial, rfl⟩

theorem Invariant.next (hi : Invariant pipeline s) {e : Act P} (h : s.next pipeline e = some t) :
    Invariant pipeline t := by
  rw [State.next.eq_def] at h
  cases e with
  | submit id tenantID header payload =>
    dsimp only at h
    split_ifs at h with hnew
    obtain rfl := Option.some.inj h
    obtain ⟨hknows, hopen⟩ := pipeline.knows_call s.table id tenantID header payload
    refine hi.stay ?_ hknows
    intro row hrow
    obtain ⟨call, hcall, -⟩ := hi.owner id row hrow
    exact absurd (Option.isSome_of_eq_some hcall) hnew
  | select id =>
    obtain ⟨call, hcall, h⟩ := Option.bind_eq_some_iff.mp h
    split at h
    · rename_i hphase
      have hfree := hi.free hcall (by rw [hphase]; rfl)
      split at h
      · rename_i row hfind
        obtain rfl := Option.some.inj h
        rw [UniqueIndex.visible_of_free hfree] at hfind
        exact hi.stay (fun row hrow => absurd hrow (hfree row)) (find?_matches hfind)
      · obtain rfl := Option.some.inj h
        exact hi.stay (fun row hrow => absurd hrow (hfree row)) trivial
    · cases h
  | insert id alertID =>
    obtain ⟨call, hcall, h⟩ := Option.bind_eq_some_iff.mp h
    split at h
    · rename_i hphase
      have hopen : call.phase.open = none := by rw [hphase]; rfl
      have hfree := hi.free hcall hopen
      split at h
      · rename_i reason hreason
        obtain rfl := Option.some.inj h
        exact hi.stay (fun row hrow => absurd hrow (hfree row)) (Or.inr ⟨reason, hreason⟩)
      · rename_i content _
        split_ifs at h with hunused
        dsimp only at h
        split at h
        · cases h
        · rename_i hviolated
          obtain rfl := Option.some.inj h
          obtain ⟨row, hrow, hmatches⟩ := hi.conflict hcall hopen hunused hviolated
          exact hi.stay (fun row hrow => absurd hrow (hfree row)) ⟨row, hrow, hmatches⟩
        · rename_i table hinsert
          obtain rfl := Option.some.inj h
          refine hi.insert hcall hopen ?_ hinsert
          simp only [Alert.matches, decide_true, Bool.and_self]
    · cases h
  | rollback id =>
    obtain ⟨call, hcall, h⟩ := Option.bind_eq_some_iff.mp h
    split at h
    · rename_i hphase
      obtain rfl := Option.some.inj h
      have hknows := hi.knows id call hcall
      rw [Call.Knows, hphase] at hknows
      apply hi.rollback
      split_ifs with hkey
      · exact Or.inl hkey
      · exact hknows
    · cases h
  | reselect id =>
    obtain ⟨call, hcall, h⟩ := Option.bind_eq_some_iff.mp h
    split at h
    · rename_i hphase
      have hfree := hi.free hcall (by rw [hphase]; rfl)
      rw [UniqueIndex.visible_of_free hfree] at h
      split at h
      · rename_i row hfind
        obtain rfl := Option.some.inj h
        exact hi.stay (fun row hrow => absurd hrow (hfree row)) (find?_matches hfind)
      · rename_i hfind
        -- the row that the insertion clashed with is there
        have hknows := hi.knows id call hcall
        rw [Call.Knows, hphase] at hknows
        obtain ⟨row, hrow, hmatches⟩ := hknows
        exact absurd hmatches (List.find?_eq_none.mp hfind row hrow)
    · cases h
  | refresh id =>
    obtain ⟨call, hcall, h⟩ := Option.bind_eq_some_iff.mp h
    split at h
    · rename_i row hphase
      have hknows := hi.knows id call hcall
      rw [Call.Knows, hphase] at hknows
      rw [hi.refreshed hknows.1] at h
      obtain rfl := Option.some.inj h
      refine hi.stay ?_ hknows
      intro row' hrow'
      obtain ⟨call', hcall', hopen'⟩ := hi.owner id row' hrow'
      obtain rfl := Option.some.inj (hcall.symm.trans hcall')
      rw [hphase] at hopen'
      exact hopen'
    · cases h
  | commit id =>
    obtain ⟨call, hcall, h⟩ := Option.bind_eq_some_iff.mp h
    have hknows := hi.knows id call hcall
    split at h
    · rename_i row hphase
      obtain rfl := Option.some.inj h
      rw [Call.Knows, hphase] at hknows
      exact hi.commit ⟨UniqueIndex.mem_rows_commit.mpr (Or.inl hknows.1), hknows.2⟩
    · rename_i row hphase
      obtain rfl := Option.some.inj h
      rw [Call.Knows, hphase] at hknows
      exact hi.commit ⟨UniqueIndex.mem_rows_commit.mpr (Or.inr hknows.1), hknows.2⟩
    · cases h

theorem invariant_of_reachable (h : Reachable (system pipeline) anyStep s) :
    Invariant pipeline s := by
  refine h.invariant ?_ fun s e t hi _ hn => hi.next hn
  rintro s ⟨rows, hrows, rfl⟩
  constructor
  · exact List.pairwise_append.mpr ⟨hrows, List.Pairwise.nil, fun _ _ _ h => nomatch h⟩
  · exact fun _ _ h => nomatch h
  · exact fun _ _ h => nomatch h

/-- A statement of a call in flight. -/
def Act.proceeds : Act P → Bool
  | .submit .. => false
  | _ => true

/-- A call that has inserted its row never waits. -/
theorem Invariant.next_of_open (hi : Invariant pipeline s) (hcall : s.calls id = some call)
    {row : Alert C} (hopen : call.phase.open = some row) :
    ∃ e : Act P, (s.next pipeline e).isSome = true ∧ e.proceeds = true := by
  have hknows := hi.knows id call hcall
  rw [Phase.open.eq_def] at hopen
  split at hopen
  · rename_i row' hphase
    rw [Call.Knows, hphase] at hknows
    refine ⟨.refresh id, ?_, rfl⟩
    simp only [State.next, hcall, Option.bind_some, hphase, hi.refreshed hknows.1,
      Option.isSome_some]
  · rename_i row' hphase
    refine ⟨.commit id, ?_, rfl⟩
    simp only [State.next, hcall, Option.bind_some, hphase, Option.isSome_some]
  · cases hopen

/-- While a call is in flight, some call can go on: nobody waits for ever. -/
theorem Invariant.exists_next (hi : Invariant pipeline s) (hcall : s.calls id = some call)
    (hflight : ∀ response, call.phase ≠ .done response) {alertID : String}
    (hunused : s.unused alertID = true) :
    ∃ e : Act P, (s.next pipeline e).isSome = true ∧ e.proceeds = true := by
  rcases hphase : call.phase with - | - | row | row | - | - | row | response
  · refine ⟨.select id, ?_, rfl⟩
    simp only [State.next, hcall, Option.bind_some, hphase]
    split <;> rfl
  · rcases hcontent : pipeline.synthesise call.payload with reason | content
    · refine ⟨.insert id alertID, ?_, rfl⟩
      simp only [State.next, hcall, Option.bind_some, hphase, hcontent, Option.isSome_some]
    · rcases hinsert : s.table.insert Clash id ⟨alertID, call.tenantID, call.key, content⟩ with
        - | - | table
      · -- the one that it waits for can go on
        obtain ⟨⟨id', row⟩, hrow, -, -⟩ := UniqueIndex.insert_eq_waits hinsert
        obtain ⟨call', hcall', hopen⟩ := hi.owner id' row hrow
        exact hi.next_of_open hcall' hopen
      · refine ⟨.insert id alertID, ?_, rfl⟩
        simp only [State.next, hcall, Option.bind_some, hphase, hcontent, hunused, hinsert,
          if_true, Option.isSome_some]
      · refine ⟨.insert id alertID, ?_, rfl⟩
        simp only [State.next, hcall, Option.bind_some, hphase, hcontent, hunused, hinsert,
          if_true, Option.isSome_some]
  · exact hi.next_of_open hcall (by rw [hphase]; rfl)
  · exact hi.next_of_open hcall (by rw [hphase]; rfl)
  · refine ⟨.rollback id, ?_, rfl⟩
    simp only [State.next, hcall, Option.bind_some, hphase, Option.isSome_some]
  · refine ⟨.reselect id, ?_, rfl⟩
    simp only [State.next, hcall, Option.bind_some, hphase]
    split <;> rfl
  · refine ⟨.commit id, ?_, rfl⟩
    simp only [State.next, hcall, Option.bind_some, hphase, Option.isSome_some]
  · exact absurd hphase (hflight response)

/-! ## One alert for a key -/

/-- The call submits under the key. -/
def Call.Carries (call : Call P C) (tenantID : String) (key : Text) : Prop :=
  call.tenantID = tenantID ∧ call.key = some key

/-- Every call that submits a payload within the caps answers with the one row of its key. -/
theorem submissions_agree (pipeline : Pipeline P C) (s : State P C)
    (h : Reachable (system pipeline) anyStep s) (tenantID : String) (key : Text)
    (hsome : ∃ id call, s.calls id = some call ∧ call.Carries tenantID key)
    (hfinished : ∀ id call, s.calls id = some call → call.Carries tenantID key →
      (∃ content, pipeline.synthesise call.payload = .ok content) ∧
        ∃ response, call.phase = .done response) :
    ∃ row, s.table.rows.filter (Alert.matches tenantID (some key)) = [row] ∧
      ∀ id call, s.calls id = some call → call.Carries tenantID key →
        call.phase = .done (.alert row) := by
  have hi := invariant_of_reachable h
  have hanswer : ∀ id call, s.calls id = some call → call.Carries tenantID key →
      ∃ row, call.phase = .done (.alert row) ∧
        s.table.rows.filter (Alert.matches tenantID (some key)) = [row] := by
    rintro id call hcall ⟨htenant, hkey⟩
    obtain ⟨⟨content, hcontent⟩, response, hphase⟩ := hfinished id call hcall ⟨htenant, hkey⟩
    have hknows := hi.knows id call hcall
    rw [Call.Knows, hphase, htenant, hkey] at hknows
    cases response with
    | alert row =>
      refine ⟨row, hphase, hi.unique.filter_eq ?_ hknows.1 hknows.2⟩
      intro a _ b _ ha hb
      simp only [Alert.matches, Bool.and_eq_true, decide_eq_true_eq] at ha hb
      refine Or.inr ⟨ha.1.trans hb.1.symm, ha.2.trans hb.2.symm, ?_⟩
      rw [ha.2]
      exact Option.some_ne_none key
    | failed status detail =>
      rcases hknows with hnone | ⟨reason, hreason⟩
      · cases hnone
      · rw [hcontent] at hreason
        cases hreason
  obtain ⟨id, call, hcall, hcarries⟩ := hsome
  obtain ⟨row, -, hrow⟩ := hanswer id call hcall hcarries
  refine ⟨row, hrow, ?_⟩
  intro id' call' hcall' hcarries'
  obtain ⟨row', hphase', hrow'⟩ := hanswer id' call' hcall' hcarries'
  rw [hrow] at hrow'
  rw [hphase', (List.cons.inj hrow').1]

def sample : Pipeline Unit Unit := ⟨fun _ => false, fun _ => .ok ()⟩

/-- The second submission looks before the first one inserts, and inserts after its commit. -/
def race : List (Act Unit) :=
  [.submit 0 "acme" (some (text "retry-0001")) (), .submit 1 "acme" (some (text "retry-0001")) (),
    .select 0, .select 1, .insert 0 "a", .refresh 0, .commit 0, .insert 1 "b", .rollback 1,
    .reselect 1, .commit 1]

theorem race_agrees : ∃ s row, runTrace (system sample) (initial []) race = some s ∧
    s.table.rows.filter (Alert.matches "acme" (some (text "retry-0001"))) = [row] ∧
      ∀ id call, s.calls id = some call → call.Carries "acme" (text "retry-0001") →
        call.phase = .done (.alert row) := by
  have hstart : Reachable (system sample) anyStep (initial []) :=
    .start ⟨[], List.Pairwise.nil, rfl⟩
  obtain ⟨s, hs⟩ : ∃ s, runTrace (system sample) (initial []) race = some s := ⟨_, rfl⟩
  have hreached := hstart.runTrace (TransitionSystem.anyStep_guarded _ _) hs
  have hcalls : ∀ id call, s.calls id = some call → ∃ response, call.phase = .done response := by
    obtain rfl := Option.some.inj hs
    intro id call hcall
    rcases id with - | - | id
    · obtain rfl := Option.some.inj hcall
      exact ⟨_, rfl⟩
    · obtain rfl := Option.some.inj hcall
      exact ⟨_, rfl⟩
    · cases hcall
  obtain ⟨row, hrow, hall⟩ := submissions_agree sample s hreached "acme" (text "retry-0001")
    (by
      obtain rfl := Option.some.inj hs
      exact ⟨0, _, rfl, rfl, rfl⟩)
    (fun id call hcall _ => ⟨⟨(), rfl⟩, hcalls id call hcall⟩)
  exact ⟨s, row, hs, hrow, hall⟩

end AlertSubmission
