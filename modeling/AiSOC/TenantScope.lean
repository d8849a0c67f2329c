import Mathlib.Logic.Function.Basic
import Mathlib.Tactic.SplitIfs
import AiSOC.TransitionSystem

/-! # The tenant scope of a database session

The session of a request is scoped to a tenant by a setting that lasts until the end of the
transaction. The policies show a row of a table under row-level security where its tenant is the
one of the setting, and every row where there is no setting. -/
namespace TenantScope

open TransitionSystem (System GuardedTrace runTrace runTrace_keeps guardedTrace_iff)

/-- `D` are the columns besides the tenant. -/
structure Row (D : Type) where
  tenantID : Option String
  data : D

/-- `T` are the names of the tables. -/
abbrev Tables (T D : Type) := T → List (Row D)

/-- `tenant_id = current_tenant_id() OR current_tenant_id() IS NULL`. -/
def admits {D : Type} (currentTenantID : Option String) (row : Row D) : Bool :=
  currentTenantID.isNone || currentTenantID = row.tenantID

variable {T D : Type}

/-- The rows of a table that a statement gets to see; `forced` are the tables under row-level
security. -/
def shown (forced : T → Bool) (setting : Option String) (tables : Tables T D) : Tables T D :=
  fun table =>
    if forced table then (tables table).filter (admits setting) else tables table

/-- What a statement reads, with all its joins and conditions. -/
structure Query (T D : Type) where
  rows : Tables T D → List (T × Row D)
  rows_shown : ∀ tables x, x ∈ rows tables → x.2 ∈ tables x.1

/-- A change of one table depends on what the query of the statement reads. -/
inductive Statement (T D : Type) where
  | select (query : Query T D)
  | insert (query : Query T D) (table : T) (values : List (T × Row D) → List (Row D))
  | update (query : Query T D) (table : T) (target : List (T × Row D) → Row D → Bool)
    (set : List (T × Row D) → Row D → Row D)
  | delete (query : Query T D) (table : T) (target : List (T × Row D) → Row D → Bool)

/-- The rows that the statement reads out of what it sees, those it changes or removes
included. -/
def Statement.reads (seen : Tables T D) : Statement T D → List (T × Row D)
  | .select query => query.rows seen
  | .insert query _ _ => query.rows seen
  | .update query table target _ =>
    query.rows seen ++ ((seen table).filter (target (query.rows seen))).map (table, ·)
  | .delete query table target =>
    query.rows seen ++ ((seen table).filter (target (query.rows seen))).map (table, ·)

/-- The rows that the statement writes. -/
def Statement.writes (seen : Tables T D) : Statement T D → List (T × Row D)
  | .select _ => []
  | .insert query table values => (values (query.rows seen)).map (table, ·)
  | .update query table target set =>
    ((seen table).filter (target (query.rows seen))).map fun r => (table, set (query.rows seen) r)
  | .delete .. => []

variable [DecidableEq T]

/-- The tables after the statement; rows that it does not see stay as they are. -/
def Statement.apply (forced : T → Bool) (setting : Option String) (tables : Tables T D)
    (statement : Statement T D) : Tables T D :=
  let seen := shown forced setting tables
  let isSeen (table : T) (r : Row D) : Bool := !forced table || admits setting r
  match statement with
  | .select _ => tables
  | .insert query table values =>
    Function.update tables table (tables table ++ values (query.rows seen))
  | .update query table target set =>
    Function.update tables table ((tables table).map fun r =>
      if isSeen table r && target (query.rows seen) r then set (query.rows seen) r else r)
  | .delete query table target =>
    Function.update tables table ((tables table).filter fun r =>
      !(isSeen table r && target (query.rows seen) r))

/-- The database as the session's transaction sees it, the setting in force, and the rows that the
statements of the request have read and written. -/
structure Session (T D : Type) where
  committed : Tables T D
  tables : Tables T D
  setting : Option String
  aborted : Bool
  touched : List (T × Row D)

/-- The session that a handler gets. -/
def getTenantDb (tenantID : String) (tables : Tables T D) : Session T D :=
  ⟨tables, tables, some tenantID, false, []⟩

/-- `fail` is a statement that the database refuses for a reason of its own; `others` is what
other sessions do to the tables. -/
inductive Act (T D : Type) where
  | execute (statement : Statement T D)
  | fail
  | setRlsContext
  | commit
  | rollback
  | others (committed tables : Tables T D)

/-- The end of a transaction undoes the setting. -/
def Session.endTransaction (s : Session T D) (tables : Tables T D) : Session T D :=
  { s with committed := tables, tables := tables, setting := none, aborted := false }

/-- A row that a statement writes must be admitted as well, or the statement fails. -/
def Session.execute (forced : T → Bool) (s : Session T D) (statement : Statement T D) :
    Session T D :=
  let seen := shown forced s.setting s.tables
  if (statement.writes seen).all fun x => !forced x.1 || admits s.setting x.2 then
    { s with tables := statement.apply forced s.setting s.tables
             touched := s.touched ++ (statement.reads seen ++ statement.writes seen) }
  else { s with aborted := true, touched := s.touched ++ statement.reads seen }

/-- Until it is rolled back, a transaction with an error refuses everything. -/
def Session.next (forced : T → Bool) (tenantID : String) (s : Session T D) :
    Act T D → Session T D
  | .execute statement => if s.aborted then s else s.execute forced statement
  | .fail => { s with aborted := true }
  | .setRlsContext => if s.aborted then s else { s with setting := some tenantID }
  | .commit => s.endTransaction (if s.aborted then s.committed else s.tables)
  | .rollback => s.endTransaction s.committed
  | .others committed tables => { s with committed := committed, tables := tables }

def system (forced : T → Bool) (tenantID : String) : System (Session T D) (Act T D) where
  start s := ∃ tables, s = getTenantDb tenantID tables
  next s e := some (s.next forced tenantID e)

/-! ## Whose rows are touched -/

/-- Rows of tables under row-level security are the tenant's. -/
def Own (forced : T → Bool) (tenantID : String) (rows : List (T × Row D)) : Prop :=
  ∀ x ∈ rows, forced x.1 = true → x.2.tenantID = some tenantID

instance (forced : T → Bool) (tenantID : String) (rows : List (T × Row D)) :
    Decidable (Own forced tenantID rows) := inferInstanceAs (Decidable (∀ x ∈ rows, _))

/-- Without the setting, what a statement reads and writes by its own conditions alone is the
tenant's. -/
def Guard (forced : T → Bool) (tenantID : String) (s : Session T D) : Act T D → Prop
  | .execute statement => s.aborted = false → s.setting = none →
    Own forced tenantID (statement.reads s.tables ++ statement.writes s.tables)
  | _ => True

variable {forced : T → Bool} {tenantID : String} {tables : Tables T D} {s t : Session T D}
  {statement : Statement T D}

omit [DecidableEq T] in
theorem own_append {xs ys : List (T × Row D)} :
    Own forced tenantID (xs ++ ys) ↔ Own forced tenantID xs ∧ Own forced tenantID ys :=
  List.forall_mem_append

omit [DecidableEq T] in
/-- Without a setting every row is shown. -/
theorem shown_none : shown forced none tables = tables := by
  funext table
  rw [shown]
  split_ifs
  · exact List.filter_eq_self.mpr fun _ _ => rfl
  · rfl

omit [DecidableEq T] in
theorem own_of_shown {x : T × Row D} (h : x.2 ∈ shown forced (some tenantID) tables x.1)
    (hforced : forced x.1 = true) : x.2.tenantID = some tenantID := by
  rw [shown, if_pos hforced] at h
  have hadmits := (List.mem_filter.mp h).2
  simp only [admits, Option.isNone_some, Bool.false_or, decide_eq_true_eq] at hadmits
  exact hadmits.symm

omit [DecidableEq T] in
/-- Statements read nothing but what they are shown. -/
theorem reads_shown {seen : Tables T D} {x : T × Row D} (h : x ∈ statement.reads seen) :
    x.2 ∈ seen x.1 := by
  have htarget : ∀ (table : T) (p : Row D → Bool),
      x ∈ ((seen table).filter p).map (table, ·) → x.2 ∈ seen x.1 := by
    intro table p hx
    obtain ⟨r, hr, rfl⟩ := List.mem_map.mp hx
    exact (List.mem_filter.mp hr).1
  cases statement with
  | select query => exact query.rows_shown seen x h
  | insert query table values => exact query.rows_shown seen x h
  | update query table target set =>
    exact (List.mem_append.mp h).elim (query.rows_shown seen x) (htarget table _)
  | delete query table target =>
    exact (List.mem_append.mp h).elim (query.rows_shown seen x) (htarget table _)

/-- Under the setting a statement touches the tenant's rows only. -/
theorem execute_scoped (hsetting : s.setting = some tenantID) :
    Own forced tenantID (s.execute forced statement).touched ↔
      Own forced tenantID s.touched := by
  have hreads : Own forced tenantID
      (statement.reads (shown forced (some tenantID) s.tables)) :=
    fun x hx hforced => own_of_shown (reads_shown hx) hforced
  rw [Session.execute, hsetting]
  split_ifs with hwrites
  · rw [own_append, own_append]
    refine and_iff_left ⟨hreads, ?_⟩
    intro x hx hforced
    have hadmits := List.all_eq_true.mp hwrites x hx
    simp only [hforced, admits, Option.isNone_some, Bool.not_true, Bool.false_or,
      decide_eq_true_eq] at hadmits
    exact hadmits.symm
  · rw [own_append]
    exact and_iff_left hreads

/-- Without it, its own conditions decide. -/
theorem execute_unscoped (hsetting : s.setting = none) :
    Own forced tenantID (s.execute forced statement).touched ↔ Own forced tenantID s.touched ∧
      Own forced tenantID (statement.reads s.tables ++ statement.writes s.tables) := by
  have hadmits : ∀ x ∈ statement.writes s.tables,
      (!forced x.1 || admits none x.2) = true := fun x _ => Bool.or_true _
  rw [Session.execute, hsetting, shown_none]
  rw [if_pos (List.all_eq_true.mpr hadmits), own_append]

theorem execute_setting : (s.execute forced statement).setting = s.setting := by
  rw [Session.execute]
  split_ifs
  · rfl
  · rfl

theorem next_setting (h : s.setting = none ∨ s.setting = some tenantID) (e : Act T D) :
    (s.next forced tenantID e).setting = none ∨
      (s.next forced tenantID e).setting = some tenantID := by
  cases e with
  | execute statement =>
    rw [Session.next]
    split_ifs
    · exact h
    · rw [execute_setting]
      exact h
  | fail => exact h
  | setRlsContext =>
    rw [Session.next]
    split_ifs
    · exact h
    · exact Or.inr rfl
  | commit => exact Or.inl rfl
  | rollback => exact Or.inl rfl
  | others committed tables => exact h

/-- A step touches the tenant's rows only exactly when it meets the guard. -/
theorem next_own (h : s.setting = none ∨ s.setting = some tenantID) (e : Act T D) :
    Own forced tenantID (s.next forced tenantID e).touched ↔
      Own forced tenantID s.touched ∧ Guard forced tenantID s e := by
  cases e with
  | execute statement =>
    rw [Session.next, Guard]
    split_ifs with haborted
    · exact (and_iff_left fun hf => absurd (haborted.symm.trans hf) Bool.noConfusion).symm
    · rcases h with hnone | hsome
      · rw [execute_unscoped hnone, (Bool.not_eq_true _).mp haborted]
        exact and_congr_right fun _ => ⟨fun h _ _ => h, fun h => h rfl hnone⟩
      · rw [execute_scoped hsome, hsome]
        exact (and_iff_left fun _ => nofun).symm
  | setRlsContext =>
    rw [Session.next]
    split_ifs
    · exact (and_iff_left trivial).symm
    · exact (and_iff_left trivial).symm
  | fail => exact (and_iff_left trivial).symm
  | commit => exact (and_iff_left trivial).symm
  | rollback => exact (and_iff_left trivial).symm
  | others committed tables => exact (and_iff_left trivial).symm

/-- A request touches its tenant's rows only exactly when every statement that it issues without
the setting confines itself to them. -/
theorem scoped_iff {forced : T → Bool} {tenantID : String} {es : List (Act T D)}
    {s t : Session T D} (hs : (system forced tenantID).start s)
    (hr : runTrace (system forced tenantID) s es = some t) :
    GuardedTrace (system forced tenantID) (Guard forced tenantID) s es ↔
      Own forced tenantID t.touched := by
  obtain ⟨tables, rfl⟩ := hs
  have hall := guardedTrace_iff (M := system forced tenantID) (G := Guard forced tenantID)
    (P := fun s => Own forced tenantID s.touched)
    (I := fun s => s.setting = none ∨ s.setting = some tenantID)
    (fun s e t hi h => Option.some.inj h ▸ next_setting hi e)
    (fun s e t hi h => Option.some.inj h ▸ next_own hi e) (Or.inr rfl) hr
  rw [hall]
  exact (and_iff_right (List.forall_mem_nil _)).symm

/-! Until its first commit or rollback a request is confined by the policies alone. -/

def Act.Ends : Act T D → Prop
  | .commit | .rollback => True
  | _ => False

theorem first_transaction_scoped {es : List (Act T D)} (hes : ∀ e ∈ es, ¬e.Ends)
    (hr : runTrace (system forced tenantID) (getTenantDb tenantID tables) es = some t) :
    Own forced tenantID t.touched := by
  have hstart : Own forced tenantID (getTenantDb tenantID tables).touched :=
    List.forall_mem_nil _
  refine (runTrace_keeps (P := fun s => s.setting = some tenantID ∧
    Own forced tenantID s.touched) (Q := fun e => ¬e.Ends) ?_ ⟨rfl, hstart⟩ hes hr).2
  rintro s e t ⟨hsetting, hown⟩ he h
  obtain rfl := Option.some.inj h
  cases e with
  | execute statement =>
    rw [Session.next]
    split_ifs
    · exact ⟨hsetting, hown⟩
    · exact ⟨execute_setting.trans hsetting, (execute_scoped hsetting).mpr hown⟩
  | setRlsContext =>
    rw [Session.next]
    split_ifs
    · exact ⟨hsetting, hown⟩
    · exact ⟨rfl, hown⟩
  | fail => exact ⟨hsetting, hown⟩
  | commit => exact absurd trivial he
  | rollback => exact absurd trivial he
  | others committed tables => exact ⟨hsetting, hown⟩

/-- The tables of the migration. -/
def underRls (table : String) : Bool :=
  ["cases", "alerts", "connectors", "detection_rules", "api_keys", "playbooks",
    "audit_log"].contains table

/-- `SELECT * FROM table WHERE condition`. -/
def selectWhere (table : String) (condition : Row String → Bool) : Statement String String :=
  .select {
    rows := fun tables => ((tables table).filter condition).map (table, ·)
    rows_shown := by
      intro tables x hx
      obtain ⟨r, hr, rfl⟩ := List.mem_map.mp hx
      exact (List.mem_filter.mp hr).1 }

/-- Two tenants with a case each. -/
def twoTenants (table : String) : List (Row String) :=
  if table = "cases" then [⟨some "acme", "phishing"⟩, ⟨some "globex", "ransomware"⟩] else []

/-- A request that commits and then lists the cases gets those of the other tenant. -/
theorem commit_unscopes : ∃ t, runTrace (system underRls "acme") (getTenantDb "acme" twoTenants)
    [.commit, .execute (selectWhere "cases" fun _ => true)] = some t ∧
      ¬Own underRls "acme" t.touched :=
  ⟨_, rfl, by decide +kernel⟩

/-- A condition on the tenant confines the statement after the commit. -/
theorem condition_scopes : ∃ t, runTrace (system underRls "acme") (getTenantDb "acme" twoTenants)
    [.execute (selectWhere "cases" fun _ => true), .commit,
      .execute (selectWhere "cases" fun r => r.tenantID = some "acme")] = some t ∧
      Own underRls "acme" t.touched := by
  have hguard : GuardedTrace (system underRls "acme") (Guard underRls "acme")
      (getTenantDb "acme" twoTenants) [.execute (selectWhere "cases" fun _ => true), .commit,
        .execute (selectWhere "cases" fun r => r.tenantID = some "acme")] := by
    refine ⟨nofun, ?_⟩
    rintro _ ⟨⟩
    refine ⟨trivial, ?_⟩
    rintro _ ⟨⟩
    exact ⟨fun _ _ => by decide +kernel, fun _ _ => trivial⟩
  exact ⟨_, rfl, (scoped_iff ⟨twoTenants, rfl⟩ rfl).mp hguard⟩

end TenantScope
