import AiSOC.RelationalJoin

/-! # Parse trees of lake queries

The nodes of a parsed query that the rewriter looks at: queries with their common table
expressions, the items of a FROM clause with the joins that hang below them, and expressions
with the queries inside them. A join in parentheses hangs below the item it starts with. What
no policy depends on (grouping, ordering, windows) is kept as text beside its expressions. -/
namespace LakeSqlTree

open RelationalJoin (JoinKind)

inductive Value where
  | null
  | bool (b : Bool)
  | int (n : Int)
  | str (s : String)
  deriving DecidableEq, Repr

/-- Joins whose result is not the matching pairs alone. -/
inductive Strictness where
  | any | asof | semi | anti
  deriving DecidableEq, Repr

/-- Empty where the text has no such part. -/
structure Table where
  db : String
  name : String
  aliasName : String
  isFunction : Bool
  deriving DecidableEq, Repr

inductive Limit where
  | literal (n : Nat)
  | expression (text : String)
  deriving DecidableEq, Repr

mutual

/-- `clauses` are the expressions after WHERE, `tail` is the text that puts them together. -/
inductive Query where
  | select (ctes : List Cte) (item : FromItem) (joins : List Join) (filter : List Expr)
      (projections clauses : List Expr) (tail : String) (limit : Option Limit)
  | setOp (ctes : List Cte) (kind : String) (left right : Query) (limit : Option Limit)
  | subquery (ctes : List Cte) (query : Query)

/-- A CTE names a query, or a value. -/
inductive Cte where
  | query (aliasName : String) (isRecursive : Bool) (query : Query)
  | scalar (aliasName : String) (value : Expr)

/-- `empty` is the item of a query without FROM. -/
inductive FromItem where
  | empty
  | table (table : Table) (joins : List Join)
  | derived (query : Query) (aliasName : String) (joins : List Join)
  | paren (item : FromItem)

inductive Join where
  | mk (kind : JoinKind) (strictness : Option Strictness) (item : FromItem) (on : Expr)

/-- An `inTable` names a table in the place of a list of values. -/
inductive Expr where
  | column (table name : String)
  | literal (value : Value)
  | eq (left right : Expr)
  | func (name : String) (args : List Expr)
  | query (op : String) (args : List Expr) (query : Query)
  | inTable (operand : Expr) (table : Table)

end

mutual

/-- The aliases of the CTEs anywhere in the tree. -/
def Query.cteAliases : Query → List String
  | .select ctes item joins filter projections clauses _ _ =>
    ctesAliases ctes ++ item.cteAliases ++ joinsAliases joins ++ exprsAliases filter ++
      exprsAliases projections ++ exprsAliases clauses
  | .setOp ctes _ left right _ => ctesAliases ctes ++ left.cteAliases ++ right.cteAliases
  | .subquery ctes query => ctesAliases ctes ++ query.cteAliases

def ctesAliases : List Cte → List String
  | [] => []
  | .query aliasName _ query :: ctes => aliasName :: query.cteAliases ++ ctesAliases ctes
  | .scalar aliasName value :: ctes => aliasName :: value.cteAliases ++ ctesAliases ctes

def FromItem.cteAliases : FromItem → List String
  | .empty => []
  | .table _ joins => joinsAliases joins
  | .derived query _ joins => query.cteAliases ++ joinsAliases joins
  | .paren item => item.cteAliases

def joinsAliases : List Join → List String
  | [] => []
  | .mk _ _ item on :: joins => item.cteAliases ++ on.cteAliases ++ joinsAliases joins

def Expr.cteAliases : Expr → List String
  | .column _ _ => []
  | .literal _ => []
  | .eq left right => left.cteAliases ++ right.cteAliases
  | .func _ args => exprsAliases args
  | .query _ args query => exprsAliases args ++ query.cteAliases
  | .inTable operand _ => operand.cteAliases

def exprsAliases : List Expr → List String
  | [] => []
  | e :: es => e.cteAliases ++ exprsAliases es

end

/-- What the policy checks of one SELECT. -/
structure Select where
  item : FromItem
  joins : List Join
  projections : List Expr

mutual

/-- The SELECTs anywhere in the tree. -/
def Query.selects : Query → List Select
  | .select ctes item joins filter projections clauses _ _ =>
    ⟨item, joins, projections⟩ :: ctesSelects ctes ++ item.selects ++ joinsSelects joins ++
      exprsSelects filter ++ exprsSelects projections ++ exprsSelects clauses
  | .setOp ctes _ left right _ => ctesSelects ctes ++ left.selects ++ right.selects
  | .subquery ctes query => ctesSelects ctes ++ query.selects

def ctesSelects : List Cte → List Select
  | [] => []
  | .query _ _ query :: ctes => query.selects ++ ctesSelects ctes
  | .scalar _ value :: ctes => value.selects ++ ctesSelects ctes

def FromItem.selects : FromItem → List Select
  | .empty => []
  | .table _ joins => joinsSelects joins
  | .derived query _ joins => query.selects ++ joinsSelects joins
  | .paren item => item.selects

def joinsSelects : List Join → List Select
  | [] => []
  | .mk _ _ item on :: joins => item.selects ++ on.selects ++ joinsSelects joins

def Expr.selects : Expr → List Select
  | .column _ _ => []
  | .literal _ => []
  | .eq left right => left.selects ++ right.selects
  | .func _ args => exprsSelects args
  | .query _ args query => exprsSelects args ++ query.selects
  | .inTable operand _ => operand.selects

def exprsSelects : List Expr → List Select
  | [] => []
  | e :: es => e.selects ++ exprsSelects es

end

mutual

/-- The walk stops at a table, so it does not see the joins that hang below one. -/
def FromItem.directTables : FromItem → List Table
  | .empty => []
  | .table table _ => [table]
  | .derived _ _ joins => joinsDirectTables joins
  | .paren item => item.directTables

def joinsDirectTables : List Join → List Table
  | [] => []
  | .mk _ _ item _ :: joins => item.directTables ++ joinsDirectTables joins

end

/-- The tables in the FROM and JOIN clauses of a SELECT, as far as the walk sees them. -/
def Select.directTables (select : Select) : List Table :=
  select.item.directTables ++ joinsDirectTables select.joins

end LakeSqlTree
