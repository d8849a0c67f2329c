import AiSOC.LakeSqlRewriter

/-! # Contained queries

Which queries the predicates of the rewriter contain: every name it takes for a CTE is one in
scope, its walk gets to every base table, and no join selects among the rows of one before
they are filtered. -/
namespace LakeSqlContainment

open LakeSqlTree LakeSqlRewriter

/-- The names in scope after the CTEs. -/
def ctesScope : List String → List Cte → List String
  | scope, [] => scope
  | scope, .query aliasName _ _ :: ctes => ctesScope (aliasName :: scope) ctes
  | scope, .scalar _ _ :: ctes => ctesScope scope ctes

/-- A table that the rewriter takes for a CTE is one in scope; every other table is where the
rewriter's walk gets to it. -/
def tableContained (cteAliases scope : List String) (visible : Bool) (table : Table) : Bool :=
  if isCteReference cteAliases table then scope.contains table.name else visible

/-- Nothing of the item is a base table. -/
def isBaseFree (cteAliases : List String) (item : FromItem) : Bool :=
  (realTables cteAliases item.directTables).isEmpty

mutual

def queryContained (cteAliases scope : List String) : Query → Bool
  | .select ctes item joins filter projections clauses _ _ =>
    ctesContained cteAliases scope ctes &&
      itemContained cteAliases (ctesScope scope ctes) true item &&
      joinsContained cteAliases (ctesScope scope ctes) true (isBaseFree cteAliases item) joins &&
      exprsContained cteAliases (ctesScope scope ctes) filter &&
      exprsContained cteAliases (ctesScope scope ctes) projections &&
      exprsContained cteAliases (ctesScope scope ctes) clauses
  | .setOp ctes _ left right _ =>
    ctesContained cteAliases scope ctes &&
      queryContained cteAliases (ctesScope scope ctes) left &&
      queryContained cteAliases (ctesScope scope ctes) right
  | .subquery ctes query =>
    ctesContained cteAliases scope ctes && queryContained cteAliases (ctesScope scope ctes) query

def ctesContained (cteAliases scope : List String) : List Cte → Bool
  | [] => true
  | .query aliasName isRecursive query :: ctes =>
    queryContained cteAliases (if isRecursive then aliasName :: scope else scope) query &&
      ctesContained cteAliases (aliasName :: scope) ctes
  | .scalar _ value :: ctes =>
    exprContained cteAliases scope value && ctesContained cteAliases scope ctes

def itemContained (cteAliases scope : List String) (visible : Bool) : FromItem → Bool
  | .empty => true
  | .table table joins =>
    tableContained cteAliases scope visible table &&
      joinsContained cteAliases scope false (isCteReference cteAliases table) joins
  | .derived query _ joins =>
    queryContained cteAliases scope query && joinsContained cteAliases scope visible true joins
  | .paren item => itemContained cteAliases scope visible item

/-- A join that selects among its matches selects from no base table, and a left join is the
only one with a base table to select for; `free` says that none is on its left. -/
def joinsContained (cteAliases scope : List String) (visible free : Bool) : List Join → Bool
  | [] => true
  | .mk kind strictness item on :: joins =>
    itemContained cteAliases scope visible item && exprContained cteAliases scope on &&
      (strictness.isNone || isBaseFree cteAliases item && (free || kind = .left)) &&
      joinsContained cteAliases scope visible (free && isBaseFree cteAliases item) joins

def exprContained (cteAliases scope : List String) : Expr → Bool
  | .column _ _ => true
  | .literal _ => true
  | .eq left right =>
    exprContained cteAliases scope left && exprContained cteAliases scope right
  | .func _ args => exprsContained cteAliases scope args
  | .query _ args query =>
    exprsContained cteAliases scope args && queryContained cteAliases scope query
  | .inTable operand table =>
    exprContained cteAliases scope operand && table.db = "" && scope.contains table.name

def exprsContained (cteAliases scope : List String) : List Expr → Bool
  | [] => true
  | e :: es => exprContained cteAliases scope e && exprsContained cteAliases scope es

end

variable {cteAliases : List String} {tenantId : String}

theorem realTables_append (xs ys : List Table) :
    realTables cteAliases (xs ++ ys) = realTables cteAliases xs ++ realTables cteAliases ys :=
  List.filter_append xs ys

mutual

/-- What the walk does not get to has no base table. -/
theorem item_hidden {scope : List String} : ∀ item : FromItem,
    itemContained cteAliases scope false item = true →
      realTables cteAliases item.directTables = []
  | .empty, _ => rfl
  | .table table joins, h => by
    simp only [itemContained, Bool.and_eq_true] at h
    by_cases href : isCteReference cteAliases table = true
    · simp [FromItem.directTables, realTables, href]
    · simp [tableContained, href] at h
  | .derived query aliasName joins, h => by
    simp only [itemContained, Bool.and_eq_true] at h
    exact joins_hidden joins h.2
  | .paren item, h => by
    rw [itemContained] at h
    exact item_hidden item h

theorem joins_hidden {scope : List String} {free : Bool} : ∀ joins : List Join,
    joinsContained cteAliases scope false free joins = true →
      realTables cteAliases (joinsDirectTables joins) = []
  | [], _ => rfl
  | .mk kind strictness item on :: joins, h => by
    simp only [joinsContained, Bool.and_eq_true] at h
    rw [joinsDirectTables, realTables_append, item_hidden item h.1.1.1, joins_hidden joins h.2]
    rfl

end

theorem isBaseFree_iff {item : FromItem} :
    isBaseFree cteAliases item = true ↔ realTables cteAliases item.directTables = [] :=
  List.isEmpty_iff

theorem ctesScope_rewrite (scope : List String) (ctes : List Cte) :
    ctesScope scope (rewriteCtes cteAliases tenantId ctes) = ctesScope scope ctes := by
  induction ctes generalizing scope with
  | nil => rw [rewriteCtes]
  | cons cte ctes ih =>
    cases cte with
    | query aliasName isRecursive query => rw [rewriteCtes, ctesScope, ctesScope, ih]
    | scalar aliasName value => rw [rewriteCtes, ctesScope, ctesScope, ih]

/-- The tables that are filtered are all on the allowlist. -/
def Allowed (cteAliases : List String) (tables : List Table) : Prop :=
  ∀ table ∈ realTables cteAliases tables, qualifiedName table ∈ allowedTables

/-- The policy's check of every SELECT of a part of the tree. -/
def AllowedSelects (cteAliases : List String) (selects : List Select) : Prop :=
  ∀ select ∈ selects, Allowed cteAliases select.directTables

theorem AllowedSelects.append {xs ys : List Select} :
    AllowedSelects cteAliases (xs ++ ys) ↔
      AllowedSelects cteAliases xs ∧ AllowedSelects cteAliases ys :=
  List.forall_mem_append

theorem AllowedSelects.cons {select : Select} {xs : List Select} :
    AllowedSelects cteAliases (select :: xs) ↔
      Allowed cteAliases select.directTables ∧ AllowedSelects cteAliases xs :=
  List.forall_mem_cons

theorem Allowed.append {xs ys : List Table} : Allowed cteAliases (xs ++ ys) ↔
    Allowed cteAliases xs ∧ Allowed cteAliases ys := by
  unfold Allowed
  rw [realTables_append, List.forall_mem_append]

/-- A part that the walk does not get to has nothing to check. -/
theorem allowed_of_hidden {tables : List Table} (h : realTables cteAliases tables = []) :
    Allowed cteAliases tables := by
  intro table htable
  rw [h] at htable
  cases htable

theorem forM_ok {α ε : Type} {f : α → Except ε Unit} {xs : List α}
    (h : forM xs f = .ok ()) : ∀ x ∈ xs, f x = .ok () := by
  induction xs with
  | nil => exact fun x hx => (List.not_mem_nil hx).elim
  | cons y ys ih =>
    rw [List.forM_cons] at h
    rcases hy : f y with error | ⟨⟩
    · rw [hy] at h
      cases h
    · rw [hy] at h
      exact List.forall_mem_cons.mpr ⟨hy, ih h⟩

theorem allowed_of_check {tables : List Table}
    (h : ∀ table ∈ tables, checkTable cteAliases table = .ok ()) :
    Allowed cteAliases tables := by
  intro table htable
  obtain ⟨hmem, hreal⟩ := List.mem_filter.mp htable
  have hcheck := h table hmem
  have href : isCteReference cteAliases table = false := by simpa using hreal
  unfold checkTable at hcheck
  split at hcheck
  · cases hcheck
  split at hcheck
  · cases hcheck
  rw [if_neg (by simp [href])] at hcheck
  split at hcheck
  · cases hcheck
  · rename_i hallowed
    exact not_not.mp hallowed

theorem allowedSelects_of_check {selects : List Select}
    (h : checkSelects cteAliases selects = .ok ()) : AllowedSelects cteAliases selects := by
  unfold checkSelects at h
  split at h
  · cases h
  intro select hselect
  exact allowed_of_check (forM_ok (forM_ok h select hselect))

/-- The limit is clamped on the query under the parentheses. -/
def clampTree (cap : Nat) : Query → Query
  | .subquery ctes root => .subquery ctes (clampOuterLimit cap root)
  | root => clampOuterLimit cap root

theorem rewriteQuery_clamp (cap : Nat) (query : Query) :
    rewriteQuery cteAliases tenantId (clampOuterLimit cap query) =
      clampOuterLimit cap (rewriteQuery cteAliases tenantId query) := by
  cases query <;> simp only [clampOuterLimit, rewriteQuery]

theorem rewriteTree_eq (cap : Nat) (tree : Query) : rewriteTree tenantId cap tree =
    rewriteQuery tree.cteAliases tenantId (clampTree cap tree) := by
  cases tree with
  | select => simp only [rewriteTree, clampTree, rewriteQuery, clampOuterLimit]
  | setOp => simp only [rewriteTree, clampTree, rewriteQuery, clampOuterLimit]
  | subquery ctes root =>
    simp only [rewriteTree, clampTree, rewriteQuery, rewriteQuery_clamp]

theorem clampOuterLimit_checks (cteAliases scope : List String) (cap : Nat) (query : Query) :
    queryContained cteAliases scope (clampOuterLimit cap query) =
      queryContained cteAliases scope query ∧
    (clampOuterLimit cap query).selects = query.selects := by
  cases query <;> simp only [clampOuterLimit, queryContained, Query.selects, and_self]

/-- Limits play no part in the checks. -/
theorem clampTree_checks (cteAliases scope : List String) (cap : Nat) (tree : Query) :
    queryContained cteAliases scope (clampTree cap tree) =
      queryContained cteAliases scope tree ∧ (clampTree cap tree).selects = tree.selects := by
  cases tree with
  | select =>
    rw [clampTree]
    exact clampOuterLimit_checks cteAliases scope cap _
    nofun
  | setOp =>
    rw [clampTree]
    exact clampOuterLimit_checks cteAliases scope cap _
    nofun
  | subquery ctes root =>
    obtain ⟨hcontained, hselects⟩ := clampOuterLimit_checks cteAliases
      (ctesScope scope ctes) cap root
    simp only [clampTree, queryContained, Query.selects, hcontained, hselects, and_self]

end LakeSqlContainment
