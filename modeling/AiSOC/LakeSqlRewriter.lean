import Mathlib.Data.List.Dedup
import AiSOC.LakeSqlTree

/-! # Rewriting lake queries for a tenant

The policy in front of the lake: one statement, a query, over allowlisted tables only, with a
tenant predicate appended to every SELECT that reads one and the outer limit clamped. The
checks of all SELECTs come first here; the source checks and rewrites them one by one, which
differs only in which of several violations is reported. -/
namespace LakeSqlRewriter

open LakeSqlTree

inductive LakeSqlError where
  | syntaxError (text : String)
  | forbidden (text : String)
  deriving DecidableEq, Repr

/-- What the parser makes of a statement, with the class of a node that is no query. -/
inductive Statement where
  | query (query : Query)
  | forbiddenRoot (className : String)
  | other (className : String)

def lower (s : String) : String := String.ofList (s.toList.map Char.toLower)

def upper (s : String) : String := String.ofList (s.toList.map Char.toUpper)

def defaultSchema : String := "aisoc"

def allowedTables : List String :=
  ["aisoc.raw_events", "aisoc.alert_metrics", "aisoc.ioc_enrichments"]

def defaultRowCap : Nat := 10000

def maxRowCap : Nat := 100000

def resolveRowCap : Option Int → Nat
  | none => defaultRowCap
  | some rowCap => if rowCap < 1 then 1 else if rowCap > maxRowCap then maxRowCap else rowCap.toNat

def qualifiedName (table : Table) : String :=
  lower (if table.db = "" then defaultSchema else table.db) ++ "." ++ lower table.name

/-- A name that some CTE of the tree has is neither checked nor filtered. -/
def isCteReference (cteAliases : List String) (table : Table) : Bool :=
  table.db = "" && cteAliases.contains table.name

def checkTable (cteAliases : List String) (table : Table) : Except LakeSqlError Unit :=
  if table.isFunction then
    .error (.forbidden "ClickHouse table functions are not allowed in lake queries")
  else if table.name = "" then .error (.forbidden "unrecognised table reference in FROM/JOIN")
  else if isCteReference cteAliases table then .ok ()
  else if qualifiedName table ∉ allowedTables then
    .error (.forbidden ("table '" ++ qualifiedName table ++ "' is not in the lake allowlist"))
  else .ok ()

/-- The tables among these that are filtered. -/
def realTables (cteAliases : List String) (tables : List Table) : List Table :=
  tables.filter fun table => !isCteReference cteAliases table

def tenantPredicate (tableName tenantId : String) : Expr :=
  .eq (.column tableName "tenant_id") (.literal (.str tenantId))

/-- One table is filtered without a qualifier; of several, each that has an alias under its
alias, and the others together without one. -/
def tenantPredicates (tenantId : String) (real : List Table) : List Expr :=
  let aliased := real.filter fun table => table.aliasName ≠ ""
  if real = [] then []
  else if real.length = 1 ∨ aliased = [] then [tenantPredicate "" tenantId]
  else aliased.map (fun table => tenantPredicate table.aliasName tenantId) ++
    if real.length = aliased.length then [] else [tenantPredicate "" tenantId]

def backfillSchema (cteAliases : List String) (table : Table) : Table :=
  if !isCteReference cteAliases table && table.db = "" then { table with db := defaultSchema }
  else table

mutual

def rewriteQuery (cteAliases : List String) (tenantId : String) : Query → Query
  | .select ctes item joins filter projections clauses tail limit =>
    .select (rewriteCtes cteAliases tenantId ctes) (rewriteItem cteAliases tenantId true item)
      (rewriteJoins cteAliases tenantId true joins)
      (rewriteExprs cteAliases tenantId filter ++ tenantPredicates tenantId
        (realTables cteAliases (item.directTables ++ joinsDirectTables joins)))
      (rewriteExprs cteAliases tenantId projections) (rewriteExprs cteAliases tenantId clauses)
      tail limit
  | .setOp ctes kind left right limit =>
    .setOp (rewriteCtes cteAliases tenantId ctes) kind (rewriteQuery cteAliases tenantId left)
      (rewriteQuery cteAliases tenantId right) limit
  | .subquery ctes query =>
    .subquery (rewriteCtes cteAliases tenantId ctes) (rewriteQuery cteAliases tenantId query)

def rewriteCtes (cteAliases : List String) (tenantId : String) : List Cte → List Cte
  | [] => []
  | .query aliasName isRecursive query :: ctes =>
    .query aliasName isRecursive (rewriteQuery cteAliases tenantId query) ::
      rewriteCtes cteAliases tenantId ctes
  | .scalar aliasName value :: ctes =>
    .scalar aliasName (rewriteExpr cteAliases tenantId value) ::
      rewriteCtes cteAliases tenantId ctes

/-- `visible` is whether the walk of the enclosing SELECT gets to the item. -/
def rewriteItem (cteAliases : List String) (tenantId : String) (visible : Bool) :
    FromItem → FromItem
  | .empty => .empty
  | .table table joins =>
    .table (if visible then backfillSchema cteAliases table else table)
      (rewriteJoins cteAliases tenantId false joins)
  | .derived query aliasName joins =>
    .derived (rewriteQuery cteAliases tenantId query) aliasName
      (rewriteJoins cteAliases tenantId visible joins)
  | .paren item => .paren (rewriteItem cteAliases tenantId visible item)

def rewriteJoins (cteAliases : List String) (tenantId : String) (visible : Bool) :
    List Join → List Join
  | [] => []
  | .mk kind strictness item on :: joins =>
    .mk kind strictness (rewriteItem cteAliases tenantId visible item)
      (rewriteExpr cteAliases tenantId on) :: rewriteJoins cteAliases tenantId visible joins

def rewriteExpr (cteAliases : List String) (tenantId : String) : Expr → Expr
  | .column table name => .column table name
  | .literal value => .literal value
  | .eq left right =>
    .eq (rewriteExpr cteAliases tenantId left) (rewriteExpr cteAliases tenantId right)
  | .func name args => .func name (rewriteExprs cteAliases tenantId args)
  | .query op args query =>
    .query op (rewriteExprs cteAliases tenantId args) (rewriteQuery cteAliases tenantId query)
  | .inTable operand table => .inTable (rewriteExpr cteAliases tenantId operand) table

def rewriteExprs (cteAliases : List String) (tenantId : String) : List Expr → List Expr
  | [] => []
  | e :: es => rewriteExpr cteAliases tenantId e :: rewriteExprs cteAliases tenantId es

end

/-- A literal limit within the cap stays; every other limit, and none, becomes the cap. -/
def clampLimit (cap : Nat) : Option Limit → Option Limit
  | some (.literal n) => if n ≤ cap then some (.literal n) else some (.literal cap)
  | _ => some (.literal cap)

def clampOuterLimit (cap : Nat) : Query → Query
  | .select ctes item joins filter projections clauses tail limit =>
    .select ctes item joins filter projections clauses tail (clampLimit cap limit)
  | .setOp ctes kind left right limit => .setOp ctes kind left right (clampLimit cap limit)
  | .subquery ctes query => .subquery ctes query

structure RewriteResult where
  tree : Query
  rowCap : Nat
  referencedTables : List String

def expectedQuery (className : String) : LakeSqlError :=
  .syntaxError ("expected a SELECT / WITH / UNION statement; got " ++ className)

def checkSelects (cteAliases : List String) (selects : List Select) :
    Except LakeSqlError Unit := do
  if selects.any fun select => select.projections.isEmpty then
    throw (.syntaxError "SELECT clause has no projection expressions")
  forM selects fun select => forM select.directTables (checkTable cteAliases)

/-- The rewritten tree; `root` is the query under a pair of parentheses. -/
def rewriteTree (tenantId : String) (cap : Nat) (tree : Query) : Query :=
  match rewriteQuery tree.cteAliases tenantId tree with
  | .subquery ctes root => .subquery ctes (clampOuterLimit cap root)
  | root => clampOuterLimit cap root

def rewriteForTenant (statements : List Statement) (tenantId : String)
    (rowCap : Option Int) : Except LakeSqlError RewriteResult :=
  match statements with
  | [] => .error (.syntaxError "empty SQL statement")
  | [.forbiddenRoot className] =>
    .error (.forbidden ("only SELECT statements are allowed (got " ++ upper className ++ ")"))
  | [.other className] => .error (expectedQuery className)
  | [.query (.subquery _ (.subquery _ _))] => .error (expectedQuery "Subquery")
  | [.query tree] => do
    checkSelects tree.cteAliases tree.selects
    let cap := resolveRowCap rowCap
    let real := tree.selects.flatMap fun select =>
      realTables tree.cteAliases select.directTables
    return ⟨rewriteTree tenantId cap tree, cap, (real.map qualifiedName).dedup⟩
  | _ => .error (.forbidden "only a single statement is allowed per request")

/-- What an accepted query passed, and what became of it. -/
theorem rewriteForTenant_ok {tree : Query} {tenantId : String} {rowCap : Option Int}
    {result : RewriteResult} (h : rewriteForTenant [.query tree] tenantId rowCap = .ok result) :
    checkSelects tree.cteAliases tree.selects = .ok () ∧
      result.tree = rewriteTree tenantId (resolveRowCap rowCap) tree := by
  unfold rewriteForTenant at h
  split at h
  · rename_i heq
    cases heq
  · rename_i heq
    cases heq
  · rename_i heq
    cases heq
  · cases h
  · rename_i heq
    cases heq
    rcases hcheck : checkSelects tree.cteAliases tree.selects with error | ⟨⟩
    · rw [hcheck] at h
      cases h
    · rw [hcheck] at h
      cases h
      exact ⟨rfl, rfl⟩
  · cases h

end LakeSqlRewriter
