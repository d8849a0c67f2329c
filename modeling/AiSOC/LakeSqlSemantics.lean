import AiSOC.LakeSqlTree

/-! # What lake queries mean

Evaluation of a query over a database, lexically scoped as in SQL: a name without a schema is
the innermost CTE in scope of that name and else a table of the lake; a column belongs to the
innermost query that has it and must be unambiguous there. Functions, set operations, the
clauses after WHERE and the joins that select among their matches are left to an engine. A
name that cannot be resolved fails the query; expressions themselves do not fail. -/
namespace LakeSqlSemantics

open LakeSqlTree
open RelationalJoin (JoinKind joinRows)

abbrev Row := String → Value

structure Relation where
  columns : List String
  rows : List Row

/-- The rows of every table by its qualified name, in lower case. -/
abbrev Database := String → List Row

/-- A row under its name in a FROM clause: of a base table or of a query's result, or the
null row of an outer join. -/
structure Binding where
  name : String
  columns : List String
  isBase : Bool
  row : Option Row

abbrev Frame := List Binding

def Binding.value (b : Binding) (column : String) : Value :=
  match b.row with
  | none => .null
  | some row => row column

/-- The rows of a FROM clause and its null row, which has the clause's names and columns. -/
structure Source where
  null : Frame
  frames : List Frame

structure Engine where
  columns : String → List String
  func : String → List Value → Value
  queryOp : String → List Value → Relation → Value
  setOp : String → Relation → Relation → Relation
  /-- From the working table to the result, for a recursive CTE. -/
  recursive : (Relation → Option Relation) → Option Relation
  /-- Which rows of the right side a row of the left is paired with, by position; none is the
  null row. -/
  strictLeft : Strictness → Frame → List Frame → (Frame → Bool) → List (Option Nat)
  /-- Which rows of the two sides are paired. -/
  strictJoin : Strictness → JoinKind → List Frame → List Frame → (Frame → Frame → Bool) →
    List (Option Nat × Option Nat)
  /-- The result from the null row and the rows that pass, with the values of the projections
  and the other clauses at each. -/
  finish : String → (Frame × List Value) → List (Frame × List Value) → Relation
  limitRows : String → List Row → List Row

/-- The CTEs in scope and the rows of the enclosing queries, innermost first. -/
structure Context where
  ctes : List (String × Relation)
  frames : List Frame

def Context.push (c : Context) (f : Frame) : Context := { c with frames := f :: c.frames }

def Context.bindRelation (c : Context) (name : String) (r : Relation) : Context :=
  { c with ctes := (name, r) :: c.ctes }

def Context.bindValue (c : Context) (name : String) (v : Value) : Context :=
  c.push [⟨name, [name], false, some fun _ => v⟩]

/-- The bindings that a column may belong to. -/
def candidates (f : Frame) (table column : String) : List Binding :=
  f.filter fun b => (table = "" || b.name = table) && b.columns.contains column

def resolveColumn : List Frame → String → String → Option Value
  | [], _, _ => none
  | f :: fs, table, column =>
    match candidates f table column with
    | [] => resolveColumn fs table column
    | [b] => some (b.value column)
    | _ => none

/-- Null equals nothing. -/
def equals : Value → Value → Value
  | .null, _ => .null
  | _, .null => .null
  | v, w => .bool (v = w)

def truthy (v : Value) : Bool := v = .bool true

def lowerName (s : String) : String := String.ofList (s.toList.map Char.toLower)

def lakeSchema : String := "aisoc"

def tableKey (table : Table) : String :=
  lowerName (if table.db = "" then lakeSchema else table.db) ++ "." ++ lowerName table.name

/-- A relation of the lake, or the CTE in scope, with whether it is of the lake. -/
def lookupTable (e : Engine) (db : Database) (c : Context) (table : Table) : Relation × Bool :=
  match if table.db = "" then c.ctes.lookup table.name else none with
  | some r => (r, false)
  | none => (⟨e.columns (tableKey table), db (tableKey table)⟩, true)

def Source.ofRelation (name : String) (r : Relation) (isBase : Bool) : Source where
  null := [⟨name, r.columns, isBase, none⟩]
  frames := r.rows.map fun row => [⟨name, r.columns, isBase, some row⟩]

def bindingName (table : Table) : String :=
  if table.aliasName = "" then table.name else table.aliasName

def Source.pick (s : Source) (i : Option Nat) : Frame := (i.bind (s.frames[·]?)).getD s.null

def joinSources (e : Engine) (kind : JoinKind) (strictness : Option Strictness)
    (left right : Source) (on : Frame → Bool) : Source where
  null := left.null ++ right.null
  frames := match strictness, kind with
    | none, kind => (joinRows kind left.null right.null left.frames right.frames
        fun l r => on (l ++ r)).map fun x => x.1 ++ x.2
    | some strictness, .left => left.frames.flatMap fun l =>
        (e.strictLeft strictness l right.frames fun r => on (l ++ r)).map fun i =>
          l ++ right.pick i
    | some strictness, kind => (e.strictJoin strictness kind left.frames right.frames
        fun l r => on (l ++ r)).map fun x => left.pick x.1 ++ right.pick x.2

def limitRelation (e : Engine) (limit : Option Limit) (r : Relation) : Relation :=
  match limit with
  | none => r
  | some (.literal n) => { r with rows := r.rows.take n }
  | some (.expression text) => { r with rows := e.limitRows text r.rows }

/-- All conditions are true. -/
def holds (values : Option (List Value)) : Bool := values.any fun vs => vs.all truthy

/-- WHERE and what comes after it. The null row tells whether the names resolve. -/
def finishSelect (e : Engine) (tail : String) (limit : Option Limit) (source : Source)
    (filter outputs : Frame → Option (List Value)) : Option Relation := do
  let _ ← filter source.null
  let nullValues ← outputs source.null
  let passed := source.frames.filter fun f => holds (filter f)
  return limitRelation e limit (e.finish tail (source.null, nullValues)
    (passed.map fun f => (f, (outputs f).getD [])))

mutual

def evalQuery (e : Engine) (db : Database) (c : Context) : Query → Option Relation
  | .select ctes item joins filter projections clauses tail limit => do
    let c ← evalCtes e db c ctes
    let source ← evalItem e db c item
    let source ← evalJoins e db c source joins
    finishSelect e tail limit source (fun f => evalExprs e db (c.push f) filter) fun f => do
      let values ← evalExprs e db (c.push f) projections
      let more ← evalExprs e db (c.push f) clauses
      return values ++ more
  | .setOp ctes kind left right limit => do
    let c ← evalCtes e db c ctes
    let l ← evalQuery e db c left
    let r ← evalQuery e db c right
    return limitRelation e limit (e.setOp kind l r)
  | .subquery ctes query => do
    let c ← evalCtes e db c ctes
    evalQuery e db c query

/-- A CTE is in scope after it and, when recursive, in itself. -/
def evalCtes (e : Engine) (db : Database) (c : Context) : List Cte → Option Context
  | [] => some c
  | .query aliasName isRecursive query :: ctes =>
    (if isRecursive then e.recursive fun r => evalQuery e db (c.bindRelation aliasName r) query
      else evalQuery e db c query).bind fun r => evalCtes e db (c.bindRelation aliasName r) ctes
  | .scalar aliasName value :: ctes => do
    let v ← evalExpr e db c value
    evalCtes e db (c.bindValue aliasName v) ctes

def evalItem (e : Engine) (db : Database) (c : Context) : FromItem → Option Source
  | .empty => some ⟨[], [[]]⟩
  | .table table joins =>
    let (r, isBase) := lookupTable e db c table
    evalJoins e db c (.ofRelation (bindingName table) r isBase) joins
  | .derived query aliasName joins => do
    let r ← evalQuery e db c query
    evalJoins e db c (.ofRelation aliasName r false) joins
  | .paren item => evalItem e db c item

def evalJoins (e : Engine) (db : Database) (c : Context) (source : Source) :
    List Join → Option Source
  | [] => some source
  | .mk kind strictness item on :: joins => do
    let right ← evalItem e db c item
    let _ ← evalExpr e db (c.push (source.null ++ right.null)) on
    evalJoins e db c (joinSources e kind strictness source right fun f =>
      (evalExpr e db (c.push f) on).any truthy) joins

def evalExpr (e : Engine) (db : Database) (c : Context) : Expr → Option Value
  | .column table name => resolveColumn c.frames table name
  | .literal value => some value
  | .eq left right => do
    let v ← evalExpr e db c left
    let w ← evalExpr e db c right
    return equals v w
  | .func name args => do
    let vs ← evalExprs e db c args
    return e.func name vs
  | .query op args query => do
    let vs ← evalExprs e db c args
    let r ← evalQuery e db c query
    return e.queryOp op vs r
  | .inTable operand table => do
    let v ← evalExpr e db c operand
    return e.queryOp "in" [v] (lookupTable e db c table).1

def evalExprs (e : Engine) (db : Database) (c : Context) : List Expr → Option (List Value)
  | [] => some []
  | x :: xs => do
    let v ← evalExpr e db c x
    let vs ← evalExprs e db c xs
    return v :: vs

end

/-- The result of a statement. -/
def evaluate (e : Engine) (db : Database) (query : Query) : Option Relation :=
  evalQuery e db ⟨[], []⟩ query

/-- The databases have the same rows of the tenant. -/
def SameTenantRows (tenantId : String) (db₁ db₂ : Database) : Prop :=
  ∀ table, (db₁ table).filter (fun row => row "tenant_id" = .str tenantId) =
    (db₂ table).filter (fun row => row "tenant_id" = .str tenantId)

/-- The names of the CTEs in scope. -/
def Context.names (c : Context) : List String := c.ctes.map Prod.fst

variable {e : Engine} {db : Database} {c : Context} {f : Frame}

theorem lookup_isSome {α : Type} {xs : List (String × α)} {name : String}
    (h : name ∈ xs.map Prod.fst) : ∃ v, xs.lookup name = some v := by
  induction xs with
  | nil => exact (List.not_mem_nil h).elim
  | cons x xs ih =>
    rcases x with ⟨key, v⟩
    by_cases hkey : name = key
    · exact ⟨v, by simp [hkey]⟩
    · have hbeq : (name == key) = false := beq_eq_false_iff_ne.mpr hkey
      have hmem : name ∈ xs.map Prod.fst := by simpa [hkey] using h
      obtain ⟨w, hw⟩ := ih hmem
      exact ⟨w, by simpa [List.lookup_cons, hbeq] using hw⟩

/-- A CTE in scope is what an unqualified name stands for. -/
theorem lookupTable_cte {table : Table} (hdb : table.db = "")
    (hscope : table.name ∈ c.names) :
    ∃ r, ∀ db, lookupTable e db c table = (r, false) := by
  obtain ⟨r, hr⟩ := lookup_isSome hscope
  exact ⟨r, fun db => by simp [lookupTable, hdb, hr]⟩

theorem lookupTable_lake {table : Table} (hdb : table.db ≠ "") (db : Database) :
    lookupTable e db c table = (⟨e.columns (tableKey table), db (tableKey table)⟩, true) := by
  simp [lookupTable, hdb]

theorem evalExprs_append (xs ys : List Expr) : evalExprs e db c (xs ++ ys) =
    (evalExprs e db c xs).bind fun vs => (evalExprs e db c ys).map (vs ++ ·) := by
  induction xs with
  | nil => simp [evalExprs]
  | cons x xs ih =>
    rw [List.cons_append, evalExprs, evalExprs, ih]
    rcases evalExpr e db c x with _ | v
    · rfl
    rcases evalExprs e db c xs with _ | vs
    · rfl
    rcases evalExprs e db c ys with _ | ws
    · rfl
    rfl

theorem holds_append {xs ys : List Expr} (h : holds (evalExprs e db c (xs ++ ys)) = true) :
    holds (evalExprs e db c ys) = true := by
  rw [evalExprs_append] at h
  rcases hx : evalExprs e db c xs with _ | vs
  · simp [hx, holds] at h
  rcases hy : evalExprs e db c ys with _ | ws
  · simp [hx, hy, holds] at h
  · simp only [hx, hy, holds, Option.bind_some, Option.map_some, Option.any_some,
      List.all_append, Bool.and_eq_true] at h
    exact h.2

theorem holds_mem {xs : List Expr} (h : holds (evalExprs e db c xs) = true) {x : Expr}
    (hx : x ∈ xs) : ∃ v, evalExpr e db c x = some v ∧ truthy v = true := by
  induction xs with
  | nil => exact (List.not_mem_nil hx).elim
  | cons y ys ih =>
    rw [evalExprs] at h
    rcases hy : evalExpr e db c y with _ | v
    · simp [hy, holds] at h
    rcases hys : evalExprs e db c ys with _ | vs
    · simp [hy, hys, holds] at h
    have hall : truthy v = true ∧ vs.all truthy = true := by
      simpa [hy, hys, holds] using h
    rcases List.mem_cons.mp hx with rfl | hx
    · exact ⟨v, hy, hall.1⟩
    · exact ih (by simpa [hys, holds] using hall.2) hx

theorem eq_of_truthy_equals {v : Value} {text : String}
    (h : truthy (equals v (.str text)) = true) : v = .str text := by
  cases v with
  | null => cases h
  | bool b => simp [equals, truthy] at h
  | int n => simp [equals, truthy] at h
  | str s => simpa [equals, truthy] using h

theorem mem_candidates {b : Binding} (hb : b ∈ f) (hcolumn : "tenant_id" ∈ b.columns)
    {tableName : String} (hname : tableName = "" ∨ b.name = tableName) :
    b ∈ candidates f tableName "tenant_id" := by
  refine List.mem_filter.mpr ⟨hb, ?_⟩
  simpa [hcolumn] using hname

end LakeSqlSemantics
