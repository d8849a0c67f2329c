import AiSOC.LakeSqlContainment

/-! # Tables on the allowlist

Every place of a query at which a table can stand, with the names in scope there and whether
the rewriter's walk gets to it. The rewriter keeps the places. -/
namespace LakeSqlAllowlist

open LakeSqlTree LakeSqlRewriter LakeSqlContainment

structure Occurrence where
  scope : List String
  visible : Bool
  table : Table
  deriving DecidableEq, Repr

mutual

/-- The tables anywhere in the tree; those named by IN are out of sight of the walk. -/
def queryTables (scope : List String) : Query → List Occurrence
  | .select ctes item joins filter projections clauses _ _ =>
    ctesTables scope ctes ++ itemTables (ctesScope scope ctes) true item ++
      joinsTables (ctesScope scope ctes) true joins ++ exprsTables (ctesScope scope ctes) filter ++
      exprsTables (ctesScope scope ctes) projections ++ exprsTables (ctesScope scope ctes) clauses
  | .setOp ctes _ left right _ =>
    ctesTables scope ctes ++ queryTables (ctesScope scope ctes) left ++
      queryTables (ctesScope scope ctes) right
  | .subquery ctes query => ctesTables scope ctes ++ queryTables (ctesScope scope ctes) query

def ctesTables (scope : List String) : List Cte → List Occurrence
  | [] => []
  | .query aliasName isRecursive query :: ctes =>
    queryTables (if isRecursive then aliasName :: scope else scope) query ++
      ctesTables (aliasName :: scope) ctes
  | .scalar _ value :: ctes => exprTables scope value ++ ctesTables scope ctes

def itemTables (scope : List String) (visible : Bool) : FromItem → List Occurrence
  | .empty => []
  | .table table joins => ⟨scope, visible, table⟩ :: joinsTables scope false joins
  | .derived query _ joins => queryTables scope query ++ joinsTables scope visible joins
  | .paren item => itemTables scope visible item

def joinsTables (scope : List String) (visible : Bool) : List Join → List Occurrence
  | [] => []
  | .mk _ _ item on :: joins =>
    itemTables scope visible item ++ exprTables scope on ++ joinsTables scope visible joins

def exprTables (scope : List String) : Expr → List Occurrence
  | .column _ _ => []
  | .literal _ => []
  | .eq left right => exprTables scope left ++ exprTables scope right
  | .func _ args => exprsTables scope args
  | .query _ args query => exprsTables scope args ++ queryTables scope query
  | .inTable operand table => exprTables scope operand ++ [⟨scope, false, table⟩]

def exprsTables (scope : List String) : List Expr → List Occurrence
  | [] => []
  | e :: es => exprTables scope e ++ exprsTables scope es

end

def Occurrence.denotesCte (o : Occurrence) : Bool :=
  o.table.db = "" && o.scope.contains o.table.name

def Allowlisted (table : Table) : Prop :=
  qualifiedName table ∈ allowedTables ∧ table.isFunction = false

instance (table : Table) : Decidable (Allowlisted table) := inferInstanceAs (Decidable (_ ∧ _))

/-- Every table of the tree that is no CTE in scope is on the list. -/
def AllAllowlisted (tree : Query) : Prop :=
  ∀ o ∈ queryTables [] tree, o.denotesCte = false → Allowlisted o.table

instance (tree : Query) : Decidable (AllAllowlisted tree) :=
  inferInstanceAs (Decidable (∀ o ∈ queryTables [] tree, _ → _))

/-- The policy does not look at the table: the walk does not get to it, or takes it for a CTE. -/
def Occurrence.unchecked (cteAliases : List String) (o : Occurrence) : Bool :=
  !o.visible || isCteReference cteAliases o.table

variable {cteAliases scope : List String} {tenantId : String} {visible : Bool}

def rewriteOccurrence (cteAliases : List String) (o : Occurrence) : Occurrence :=
  { o with table := if o.visible then backfillSchema cteAliases o.table else o.table }

theorem exprsTables_append (xs ys : List Expr) :
    exprsTables scope (xs ++ ys) = exprsTables scope xs ++ exprsTables scope ys := by
  induction xs with
  | nil => rfl
  | cons x xs ih => simp only [List.cons_append, exprsTables, ih, List.append_assoc]

/-- The predicates name no tables. -/
theorem tenantPredicates_tables (real : List Table) :
    exprsTables scope (tenantPredicates tenantId real) = [] := by
  have hone (tableName : String) : exprTables scope (tenantPredicate tableName tenantId) = [] := by
    simp only [tenantPredicate, exprTables, List.append_nil]
  have hmap (tables : List Table) :
      exprsTables scope (tables.map fun t => tenantPredicate t.aliasName tenantId) = [] := by
    induction tables with
    | nil => rfl
    | cons t ts ih => rw [List.map_cons, exprsTables, hone, ih, List.append_nil]
  unfold tenantPredicates
  dsimp only
  split_ifs
  · rfl
  · rw [exprsTables, hone, exprsTables, List.append_nil]
  · rw [exprsTables_append, hmap]
    rfl
  · rw [exprsTables_append, hmap, exprsTables, hone]
    rfl

mutual

/-- The rewriter keeps every table in its place. -/
theorem rewriteQuery_tables (scope : List String) : ∀ query : Query,
    queryTables scope (rewriteQuery cteAliases tenantId query) =
      (queryTables scope query).map (rewriteOccurrence cteAliases)
  | .select ctes item joins filter projections clauses tail limit => by
    simp only [rewriteQuery, queryTables, ctesScope_rewrite, exprsTables_append,
      tenantPredicates_tables, List.append_nil, List.map_append, rewriteCtes_tables,
      rewriteItem_tables, rewriteJoins_tables, rewriteExprs_tables]
  | .setOp ctes kind left right limit => by
    simp only [rewriteQuery, queryTables, ctesScope_rewrite, List.map_append, rewriteCtes_tables,
      rewriteQuery_tables]
  | .subquery ctes query => by
    simp only [rewriteQuery, queryTables, ctesScope_rewrite, List.map_append, rewriteCtes_tables,
      rewriteQuery_tables]

theorem rewriteCtes_tables (scope : List String) : ∀ ctes : List Cte,
    ctesTables scope (rewriteCtes cteAliases tenantId ctes) =
      (ctesTables scope ctes).map (rewriteOccurrence cteAliases)
  | [] => by simp only [rewriteCtes, ctesTables, List.map_nil]
  | .query aliasName isRecursive query :: ctes => by
    simp only [rewriteCtes, ctesTables, List.map_append, rewriteQuery_tables, rewriteCtes_tables]
  | .scalar aliasName value :: ctes => by
    simp only [rewriteCtes, ctesTables, List.map_append, rewriteExpr_tables, rewriteCtes_tables]

theorem rewriteItem_tables (scope : List String) (visible : Bool) : ∀ item : FromItem,
    itemTables scope visible (rewriteItem cteAliases tenantId visible item) =
      (itemTables scope visible item).map (rewriteOccurrence cteAliases)
  | .empty => by simp only [rewriteItem, itemTables, List.map_nil]
  | .table table joins => by
    simp only [rewriteItem, itemTables, List.map_cons, rewriteJoins_tables, rewriteOccurrence]
  | .derived query aliasName joins => by
    simp only [rewriteItem, itemTables, List.map_append, rewriteQuery_tables,
      rewriteJoins_tables]
  | .paren item => by simp only [rewriteItem, itemTables, rewriteItem_tables]

theorem rewriteJoins_tables (scope : List String) (visible : Bool) : ∀ joins : List Join,
    joinsTables scope visible (rewriteJoins cteAliases tenantId visible joins) =
      (joinsTables scope visible joins).map (rewriteOccurrence cteAliases)
  | [] => by simp only [rewriteJoins, joinsTables, List.map_nil]
  | .mk kind strictness item on :: joins => by
    simp only [rewriteJoins, joinsTables, List.map_append, rewriteItem_tables, rewriteExpr_tables,
      rewriteJoins_tables]

theorem rewriteExpr_tables (scope : List String) : ∀ e : Expr,
    exprTables scope (rewriteExpr cteAliases tenantId e) =
      (exprTables scope e).map (rewriteOccurrence cteAliases)
  | .column table name => by simp only [rewriteExpr, exprTables, List.map_nil]
  | .literal value => by simp only [rewriteExpr, exprTables, List.map_nil]
  | .eq left right => by
    simp only [rewriteExpr, exprTables, List.map_append, rewriteExpr_tables]
  | .func name args => by simp only [rewriteExpr, exprTables, rewriteExprs_tables]
  | .query op args query => by
    simp only [rewriteExpr, exprTables, List.map_append, rewriteExprs_tables, rewriteQuery_tables]
  | .inTable operand table => by
    simp only [rewriteExpr, exprTables, List.map_append, rewriteExpr_tables]
    rfl

theorem rewriteExprs_tables (scope : List String) : ∀ es : List Expr,
    exprsTables scope (rewriteExprs cteAliases tenantId es) =
      (exprsTables scope es).map (rewriteOccurrence cteAliases)
  | [] => by simp only [rewriteExprs, exprsTables, List.map_nil]
  | e :: es => by
    simp only [rewriteExprs, exprsTables, List.map_append, rewriteExpr_tables,
      rewriteExprs_tables]

end

/-- The names in scope are aliases of the tree. -/
def ScopeWithin (names : List String) (occurrences : List Occurrence) : Prop :=
  ∀ o ∈ occurrences, o.scope ⊆ names

theorem ScopeWithin.append {names : List String} {xs ys : List Occurrence} :
    ScopeWithin names (xs ++ ys) ↔ ScopeWithin names xs ∧ ScopeWithin names ys :=
  List.forall_mem_append

theorem ctesScope_subset (scope : List String) (ctes : List Cte) {names : List String}
    (hscope : scope ⊆ names) (hctes : ctesAliases ctes ⊆ names) : ctesScope scope ctes ⊆ names := by
  induction ctes generalizing scope with
  | nil => exact hscope
  | cons cte ctes ih =>
    cases cte with
    | query aliasName isRecursive query =>
      simp only [ctesAliases, List.cons_append, List.cons_subset, List.append_subset] at hctes
      exact ih (aliasName :: scope) (List.cons_subset.mpr ⟨hctes.1, hscope⟩) hctes.2.2
    | scalar aliasName value =>
      simp only [ctesAliases, List.cons_append, List.cons_subset, List.append_subset] at hctes
      exact ih scope hscope hctes.2.2

mutual

theorem queryTables_scope {names scope : List String} (hscope : scope ⊆ names) : ∀ query : Query,
    query.cteAliases ⊆ names → ScopeWithin names (queryTables scope query)
  | .select ctes item joins filter projections clauses tail limit, h => by
    simp only [Query.cteAliases, List.append_subset] at h
    have hinner := ctesScope_subset scope ctes hscope h.1.1.1.1.1
    simp only [queryTables, ScopeWithin.append]
    exact ⟨⟨⟨⟨⟨ctesTables_scope hscope ctes h.1.1.1.1.1,
      itemTables_scope hinner true item h.1.1.1.1.2⟩,
      joinsTables_scope hinner true joins h.1.1.1.2⟩, exprsTables_scope hinner filter h.1.1.2⟩,
      exprsTables_scope hinner projections h.1.2⟩, exprsTables_scope hinner clauses h.2⟩
  | .setOp ctes kind left right limit, h => by
    simp only [Query.cteAliases, List.append_subset] at h
    have hinner := ctesScope_subset scope ctes hscope h.1.1
    simp only [queryTables, ScopeWithin.append]
    exact ⟨⟨ctesTables_scope hscope ctes h.1.1, queryTables_scope hinner left h.1.2⟩,
      queryTables_scope hinner right h.2⟩
  | .subquery ctes query, h => by
    simp only [Query.cteAliases, List.append_subset] at h
    simp only [queryTables, ScopeWithin.append]
    exact ⟨ctesTables_scope hscope ctes h.1,
      queryTables_scope (ctesScope_subset scope ctes hscope h.1) query h.2⟩

theorem ctesTables_scope {names scope : List String} (hscope : scope ⊆ names) : ∀ ctes : List Cte,
    ctesAliases ctes ⊆ names → ScopeWithin names (ctesTables scope ctes)
  | [], _ => nofun
  | .query aliasName isRecursive query :: ctes, h => by
    simp only [ctesAliases, List.cons_append, List.cons_subset, List.append_subset] at h
    have hcons : aliasName :: scope ⊆ names := List.cons_subset.mpr ⟨h.1, hscope⟩
    have hbody : (if isRecursive then aliasName :: scope else scope) ⊆ names := by
      cases isRecursive
      · exact hscope
      · exact hcons
    simp only [ctesTables, ScopeWithin.append]
    exact ⟨queryTables_scope hbody query h.2.1, ctesTables_scope hcons ctes h.2.2⟩
  | .scalar aliasName value :: ctes, h => by
    simp only [ctesAliases, List.cons_append, List.cons_subset, List.append_subset] at h
    simp only [ctesTables, ScopeWithin.append]
    exact ⟨exprTables_scope hscope value h.2.1, ctesTables_scope hscope ctes h.2.2⟩

theorem itemTables_scope {names scope : List String} (hscope : scope ⊆ names) (visible : Bool) :
    ∀ item : FromItem, item.cteAliases ⊆ names → ScopeWithin names (itemTables scope visible item)
  | .empty, _ => by
    simp only [itemTables]
    exact nofun
  | .table table joins, h => by
    simp only [FromItem.cteAliases] at h
    simp only [itemTables]
    exact List.forall_mem_cons.mpr ⟨hscope, joinsTables_scope hscope false joins h⟩
  | .derived query aliasName joins, h => by
    simp only [FromItem.cteAliases, List.append_subset] at h
    simp only [itemTables, ScopeWithin.append]
    exact ⟨queryTables_scope hscope query h.1, joinsTables_scope hscope visible joins h.2⟩
  | .paren item, h => by
    simp only [FromItem.cteAliases] at h
    simp only [itemTables]
    exact itemTables_scope hscope visible item h

theorem joinsTables_scope {names scope : List String} (hscope : scope ⊆ names) (visible : Bool) :
    ∀ joins : List Join, joinsAliases joins ⊆ names →
      ScopeWithin names (joinsTables scope visible joins)
  | [], _ => nofun
  | .mk kind strictness item on :: joins, h => by
    simp only [joinsAliases, List.append_subset] at h
    simp only [joinsTables, ScopeWithin.append]
    exact ⟨⟨itemTables_scope hscope visible item h.1.1, exprTables_scope hscope on h.1.2⟩,
      joinsTables_scope hscope visible joins h.2⟩

theorem exprTables_scope {names scope : List String} (hscope : scope ⊆ names) : ∀ e : Expr,
    e.cteAliases ⊆ names → ScopeWithin names (exprTables scope e)
  | .column table name, _ => by
    simp only [exprTables]
    exact nofun
  | .literal value, _ => by
    simp only [exprTables]
    exact nofun
  | .eq left right, h => by
    simp only [Expr.cteAliases, List.append_subset] at h
    simp only [exprTables, ScopeWithin.append]
    exact ⟨exprTables_scope hscope left h.1, exprTables_scope hscope right h.2⟩
  | .func name args, h => by
    simp only [Expr.cteAliases] at h
    simp only [exprTables]
    exact exprsTables_scope hscope args h
  | .query op args query, h => by
    simp only [Expr.cteAliases, List.append_subset] at h
    simp only [exprTables, ScopeWithin.append]
    exact ⟨exprsTables_scope hscope args h.1, queryTables_scope hscope query h.2⟩
  | .inTable operand table, h => by
    simp only [Expr.cteAliases] at h
    simp only [exprTables, ScopeWithin.append]
    exact ⟨exprTables_scope hscope operand h, by simpa [ScopeWithin] using hscope⟩

theorem exprsTables_scope {names scope : List String} (hscope : scope ⊆ names) :
    ∀ es : List Expr, exprsAliases es ⊆ names → ScopeWithin names (exprsTables scope es)
  | [], _ => nofun
  | e :: es, h => by
    simp only [exprsAliases, List.append_subset] at h
    simp only [exprsTables, ScopeWithin.append]
    exact ⟨exprTables_scope hscope e h.1, exprsTables_scope hscope es h.2⟩

end

/-- What the walk gets to is among the tables given or those of one of the SELECTs. -/
def Seen (tables : List Table) (selects : List Select) (occurrences : List Occurrence) : Prop :=
  ∀ o ∈ occurrences, o.visible = true →
    o.table ∈ tables ∨ ∃ select ∈ selects, o.table ∈ select.directTables

theorem Seen.append {tables : List Table} {selects : List Select} {xs ys : List Occurrence} :
    Seen tables selects (xs ++ ys) ↔ Seen tables selects xs ∧ Seen tables selects ys :=
  List.forall_mem_append

theorem Seen.mono {tables tables' : List Table} {selects selects' : List Select}
    {occurrences : List Occurrence} (h : Seen tables selects occurrences)
    (htables : tables ⊆ tables') (hselects : selects ⊆ selects') :
    Seen tables' selects' occurrences := by
  intro o ho hv
  rcases h o ho hv with hmem | ⟨select, hselect, hmem⟩
  · exact Or.inl (htables hmem)
  · exact Or.inr ⟨select, hselects hselect, hmem⟩

/-- The tables of a FROM clause are those of its SELECT. -/
theorem Seen.ofSelect {tables : List Table} {selects selects' : List Select} {select : Select}
    {occurrences : List Occurrence} (h : Seen tables selects occurrences)
    (htables : tables ⊆ select.directTables) (hselect : select ∈ selects')
    (hselects : selects ⊆ selects') : Seen [] selects' occurrences := by
  intro o ho hv
  rcases h o ho hv with hmem | ⟨other, hother, hmem⟩
  · exact Or.inr ⟨select, hselect, htables hmem⟩
  · exact Or.inr ⟨other, hselects hother, hmem⟩

def tablesIf (visible : Bool) (tables : List Table) : List Table := if visible then tables else []

mutual

theorem queryTables_seen (scope : List String) : ∀ query : Query,
    Seen [] query.selects (queryTables scope query)
  | .select ctes item joins filter projections clauses tail limit => by
    simp only [queryTables, Seen.append, Query.selects]
    refine ⟨⟨⟨⟨⟨?_, ?_⟩, ?_⟩, ?_⟩, ?_⟩, ?_⟩
    · exact (ctesTables_seen scope ctes).mono (List.Subset.refl _) (by intro s hs; simp [hs])
    · exact (itemTables_seen _ true item).ofSelect (List.subset_append_left _ _)
        List.mem_cons_self (by intro s hs; simp [hs])
    · exact (joinsTables_seen _ true joins).ofSelect (List.subset_append_right _ _)
        List.mem_cons_self (by intro s hs; simp [hs])
    · exact (exprsTables_seen _ filter).mono (List.Subset.refl _) (by intro s hs; simp [hs])
    · exact (exprsTables_seen _ projections).mono (List.Subset.refl _) (by intro s hs; simp [hs])
    · exact (exprsTables_seen _ clauses).mono (List.Subset.refl _) (by intro s hs; simp [hs])
  | .setOp ctes kind left right limit => by
    simp only [queryTables, Seen.append, Query.selects]
    refine ⟨⟨?_, ?_⟩, ?_⟩
    · exact (ctesTables_seen scope ctes).mono (List.Subset.refl _) (by intro s hs; simp [hs])
    · exact (queryTables_seen _ left).mono (List.Subset.refl _) (by intro s hs; simp [hs])
    · exact (queryTables_seen _ right).mono (List.Subset.refl _) (by intro s hs; simp [hs])
  | .subquery ctes query => by
    simp only [queryTables, Seen.append, Query.selects]
    exact ⟨(ctesTables_seen scope ctes).mono (List.Subset.refl _) (List.subset_append_left _ _),
      (queryTables_seen _ query).mono (List.Subset.refl _) (List.subset_append_right _ _)⟩

theorem ctesTables_seen (scope : List String) : ∀ ctes : List Cte,
    Seen [] (ctesSelects ctes) (ctesTables scope ctes)
  | [] => nofun
  | .query aliasName isRecursive query :: ctes => by
    simp only [ctesTables, Seen.append, ctesSelects]
    exact ⟨(queryTables_seen _ query).mono (List.Subset.refl _) (List.subset_append_left _ _),
      (ctesTables_seen _ ctes).mono (List.Subset.refl _) (List.subset_append_right _ _)⟩
  | .scalar aliasName value :: ctes => by
    simp only [ctesTables, Seen.append, ctesSelects]
    exact ⟨(exprTables_seen _ value).mono (List.Subset.refl _) (List.subset_append_left _ _),
      (ctesTables_seen _ ctes).mono (List.Subset.refl _) (List.subset_append_right _ _)⟩

theorem itemTables_seen (scope : List String) (visible : Bool) : ∀ item : FromItem,
    Seen (tablesIf visible item.directTables) item.selects (itemTables scope visible item)
  | .empty => by
    simp only [itemTables]
    exact nofun
  | .table table joins => by
    simp only [itemTables, FromItem.directTables, FromItem.selects]
    refine List.forall_mem_cons.mpr ⟨?_, ?_⟩
    · intro hv
      left
      obtain rfl : visible = true := hv
      exact List.mem_cons_self
    · exact (joinsTables_seen scope false joins).mono (List.nil_subset _) (List.Subset.refl _)
  | .derived query aliasName joins => by
    simp only [itemTables, Seen.append, FromItem.directTables, FromItem.selects]
    exact ⟨(queryTables_seen _ query).mono (List.nil_subset _) (List.subset_append_left _ _),
      (joinsTables_seen _ visible joins).mono (List.Subset.refl _)
        (List.subset_append_right _ _)⟩
  | .paren item => by
    simp only [itemTables, FromItem.directTables, FromItem.selects]
    exact itemTables_seen scope visible item

theorem joinsTables_seen (scope : List String) (visible : Bool) : ∀ joins : List Join,
    Seen (tablesIf visible (joinsDirectTables joins)) (joinsSelects joins)
      (joinsTables scope visible joins)
  | [] => nofun
  | .mk kind strictness item on :: joins => by
    simp only [joinsTables, Seen.append, joinsDirectTables, joinsSelects]
    refine ⟨⟨?_, ?_⟩, ?_⟩
    · refine (itemTables_seen scope visible item).mono ?_ (by intro s hs; simp [hs])
      cases visible
      · exact List.nil_subset _
      · exact List.subset_append_left _ _
    · exact (exprTables_seen scope on).mono (List.nil_subset _) (by intro s hs; simp [hs])
    · refine (joinsTables_seen scope visible joins).mono ?_ (by intro s hs; simp [hs])
      cases visible
      · exact List.nil_subset _
      · exact List.subset_append_right _ _

theorem exprTables_seen (scope : List String) : ∀ e : Expr,
    Seen [] e.selects (exprTables scope e)
  | .column table name => by
    simp only [exprTables]
    exact nofun
  | .literal value => by
    simp only [exprTables]
    exact nofun
  | .eq left right => by
    simp only [exprTables, Seen.append, Expr.selects]
    exact ⟨(exprTables_seen _ left).mono (List.Subset.refl _) (List.subset_append_left _ _),
      (exprTables_seen _ right).mono (List.Subset.refl _) (List.subset_append_right _ _)⟩
  | .func name args => by
    simp only [exprTables, Expr.selects]
    exact exprsTables_seen scope args
  | .query op args query => by
    simp only [exprTables, Seen.append, Expr.selects]
    exact ⟨(exprsTables_seen _ args).mono (List.Subset.refl _) (List.subset_append_left _ _),
      (queryTables_seen _ query).mono (List.Subset.refl _) (List.subset_append_right _ _)⟩
  | .inTable operand table => by
    simp only [exprTables, Seen.append, Expr.selects]
    exact ⟨exprTables_seen scope operand, by simp [Seen]⟩

theorem exprsTables_seen (scope : List String) : ∀ es : List Expr,
    Seen [] (exprsSelects es) (exprsTables scope es)
  | [] => nofun
  | e :: es => by
    simp only [exprsTables, Seen.append, exprsSelects]
    exact ⟨(exprTables_seen _ e).mono (List.Subset.refl _) (List.subset_append_left _ _),
      (exprsTables_seen _ es).mono (List.Subset.refl _) (List.subset_append_right _ _)⟩

end

/-- What the policy looks at and accepts is on the list. -/
theorem allowlisted_of_check {table : Table} (h : checkTable cteAliases table = .ok ())
    (href : isCteReference cteAliases table = false) : Allowlisted table := by
  unfold checkTable at h
  split at h
  · cases h
  rename_i hfunction
  split at h
  · cases h
  rw [if_neg (by simp [href])] at h
  split at h
  · cases h
  · rename_i hallowed
    exact ⟨not_not.mp hallowed, Bool.not_eq_true _ ▸ hfunction⟩

theorem allowlisted_of_seen {tree : Query} (h : checkSelects cteAliases tree.selects = .ok ())
    {o : Occurrence} (ho : o ∈ queryTables scope tree) (hchecked : o.unchecked cteAliases = false) :
    Allowlisted o.table := by
  unfold checkSelects at h
  split at h
  · cases h
  simp only [Occurrence.unchecked, Bool.or_eq_false_iff, Bool.not_eq_false'] at hchecked
  obtain ⟨hvisible, href⟩ := hchecked
  rcases queryTables_seen scope tree o ho hvisible with hmem | ⟨select, hselect, hmem⟩
  · cases hmem
  · exact allowlisted_of_check (forM_ok (forM_ok h select hselect) o.table hmem) href

/-- Filling in the schema changes neither what a table is nor what it stands for. -/
theorem backfillSchema_same (table : Table) :
    qualifiedName (backfillSchema cteAliases table) = qualifiedName table ∧
      (backfillSchema cteAliases table).isFunction = table.isFunction ∧
      (backfillSchema cteAliases table).name = table.name := by
  unfold backfillSchema
  split_ifs with hfill
  · have hdb : table.db = "" := by simpa using (Bool.and_eq_true_iff.mp hfill).2
    refine ⟨?_, rfl, rfl⟩
    unfold qualifiedName
    have hdefault : defaultSchema ≠ "" := by decide
    rw [hdb, if_pos rfl, if_neg hdefault]
  · exact ⟨rfl, rfl, rfl⟩

theorem rewriteOccurrence_allowlisted (o : Occurrence) :
    Allowlisted (rewriteOccurrence cteAliases o).table ↔ Allowlisted o.table := by
  obtain ⟨hname, hfunction, -⟩ := @backfillSchema_same cteAliases o.table
  unfold rewriteOccurrence Allowlisted
  cases o.visible
  · exact Iff.rfl
  · simp only [if_true, hname, hfunction]

/-- A table that gets a schema is named as no CTE of the tree, so as none in scope. -/
theorem rewriteOccurrence_denotesCte {o : Occurrence} (hscope : o.scope ⊆ cteAliases) :
    (rewriteOccurrence cteAliases o).denotesCte = o.denotesCte := by
  unfold rewriteOccurrence Occurrence.denotesCte
  cases o.visible
  · rfl
  simp only [if_true]
  unfold backfillSchema
  split_ifs with hfill
  · simp only [isCteReference, Bool.and_eq_true, Bool.not_eq_true', decide_eq_true_eq] at hfill
    obtain ⟨href, hdb⟩ := hfill
    have hout : o.table.name ∉ o.scope := by
      intro hmem
      have hname : cteAliases.contains o.table.name = true :=
        List.contains_iff_mem.mpr (hscope hmem)
      rw [hdb, hname] at href
      cases href
    have hcontains : o.scope.contains o.table.name = false := by simpa using hout
    simp only [hcontains, Bool.and_false]
  · rfl

/-- Limits read no tables. -/
theorem clampOuterLimit_tables (cap : Nat) (query : Query) :
    queryTables scope (clampOuterLimit cap query) = queryTables scope query := by
  cases query <;> simp only [clampOuterLimit, queryTables]

theorem clampTree_tables (cap : Nat) (tree : Query) :
    queryTables scope (clampTree cap tree) = queryTables scope tree := by
  cases tree with
  | select =>
    rw [clampTree]
    exact clampOuterLimit_tables cap _
    rintro ctes root ⟨⟩
  | setOp =>
    rw [clampTree]
    exact clampOuterLimit_tables cap _
    rintro ctes root ⟨⟩
  | subquery ctes root => simp only [clampTree, queryTables, clampOuterLimit_tables]

/-- The tables of the rewritten tree are those of the query, in their places. -/
theorem rewriteTree_tables (tenantId : String) (cap : Nat) (tree : Query) :
    queryTables [] (rewriteTree tenantId cap tree) =
      (queryTables [] tree).map (rewriteOccurrence tree.cteAliases) := by
  rw [rewriteTree_eq, rewriteQuery_tables, clampTree_tables]

theorem rewriteTree_allowlisted (tenantId : String) (cap : Nat) (tree : Query) :
    AllAllowlisted (rewriteTree tenantId cap tree) ↔ AllAllowlisted tree := by
  have hscope := queryTables_scope (List.nil_subset _) tree (List.Subset.refl _)
  unfold AllAllowlisted
  rw [rewriteTree_tables, List.forall_mem_map]
  apply forall_congr'
  intro o
  apply forall_congr'
  intro ho
  rw [rewriteOccurrence_denotesCte (hscope o ho), rewriteOccurrence_allowlisted]

/-- An accepted query reads tables of the list alone if, and only if, this is so of the tables
that the policy does not look at. -/
theorem all_allowlisted_iff {tree : Query} {tenantId : String} {rowCap : Option Int}
    {result : RewriteResult} (h : rewriteForTenant [.query tree] tenantId rowCap = .ok result) :
    AllAllowlisted result.tree ↔ ∀ o ∈ queryTables [] tree,
      o.unchecked tree.cteAliases = true → o.denotesCte = false → Allowlisted o.table := by
  obtain ⟨hcheck, htree⟩ := rewriteForTenant_ok h
  rw [htree, rewriteTree_allowlisted]
  constructor
  · intro hall o ho _ hcte
    exact hall o ho hcte
  · intro hunchecked o ho hcte
    rcases hseen : o.unchecked tree.cteAliases with _ | _
    · exact allowlisted_of_seen hcheck ho hseen
    · exact hunchecked o ho hseen hcte

def rawEvents (joins : List Join) : FromItem :=
  .table { db := "", name := "raw_events", aliasName := "", isFunction := false } joins

def joinOf (db name : String) : Join :=
  .mk .inner none (.table { db, name, aliasName := "", isFunction := false } [])
    (.eq (.literal (.int 1)) (.literal (.int 1)))

def selectFrom (item : FromItem) (joins : List Join) : Query :=
  .select [] item joins [] [.column "" "payload"] [] "" none

def joinedQuery : Query := selectFrom (rawEvents []) [joinOf "aisoc" "ioc_enrichments"]

/-- Two tables of the list. -/
theorem joined_allowlisted : ∃ result, rewriteForTenant [.query joinedQuery] "t1" none = .ok result ∧
    AllAllowlisted result.tree := by
  have hok : rewriteForTenant [.query joinedQuery] "t1" none =
      .ok ⟨rewriteTree "t1" 10000 joinedQuery, 10000, ["aisoc.raw_events", "aisoc.ioc_enrichments"]⟩ := rfl
  refine ⟨_, hok, (all_allowlisted_iff hok).mpr ?_⟩
  decide

/-- `SELECT payload FROM (raw_events JOIN system.users ON 1 = 1)` -/
def hiddenJoin : Query := selectFrom (.paren (rawEvents [joinOf "system" "users"])) []

/-- A join in parentheses hangs below its first table, where the walk does not get to. -/
theorem hidden_join_accepted : ∃ result, rewriteForTenant [.query hiddenJoin] "t1" none = .ok result ∧
    ¬ AllAllowlisted result.tree :=
  ⟨_, rfl, by decide⟩

end LakeSqlAllowlist
