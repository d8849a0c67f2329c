import AiSOC.LakeSqlContainment
import AiSOC.LakeSqlSources

/-! # Tenant isolation of rewritten lake queries

The result of a contained query depends on no row of another tenant, by induction over the
tree with the CTEs in scope and the rows of the enclosing queries fixed. -/
namespace LakeSqlIsolation

open LakeSqlTree LakeSqlRewriter LakeSqlSemantics LakeSqlContainment LakeSqlSources

variable {e : Engine} {db db₁ db₂ : Database} {c : Context} {tenantId : String}
variable {cteAliases : List String} {visible : Bool}

def tableSource (e : Engine) (db : Database) (c : Context) (table : Table) : Source :=
  .ofRelation (bindingName table) (lookupTable e db c table).1 (lookupTable e db c table).2

/-- The engine's tables on the allowlist have a tenant column. -/
def TenantColumns (e : Engine) : Prop := ∀ key ∈ allowedTables, "tenant_id" ∈ e.columns key

theorem table_facts (hcolumns : TenantColumns e) (hrows : SameTenantRows tenantId db₁ db₂)
    {table : Table} (hc : tableContained cteAliases c.names visible table = true)
    (ha : Allowed cteAliases [table]) :
    Facts tenantId (realTables cteAliases [table])
      (tableSource e db₁ c (if visible then backfillSchema cteAliases table else table))
      (tableSource e db₂ c (if visible then backfillSchema cteAliases table else table)) := by
  by_cases href : isCteReference cteAliases table = true
  · have hdb : table.db = "" := by
      simp only [isCteReference, Bool.and_eq_true, decide_eq_true_eq] at href
      exact href.1
    have hscope : table.name ∈ c.names := by
      simpa [tableContained, href] using hc
    have hsame : (if visible then backfillSchema cteAliases table else table) = table := by
      simp [backfillSchema, href]
    have hreal : realTables cteAliases [table] = [] := by simp [realTables, href]
    obtain ⟨r, hr⟩ := lookupTable_cte (e := e) hdb hscope
    rw [hsame, hreal, tableSource, tableSource, hr, hr]
    exact facts_ofRelation _ r
  · have hvisible : visible = true := by simpa [tableContained, href] using hc
    have hreal : realTables cteAliases [table] = [table] := by simp [realTables, href]
    have hname : bindingName (backfillSchema cteAliases table) = bindingName table := by
      unfold backfillSchema
      split
      · rfl
      · rfl
    have hdb : (backfillSchema cteAliases table).db ≠ "" := by
      unfold backfillSchema
      split
      · exact (by decide : defaultSchema ≠ "")
      · rename_i h
        simpa [href] using h
    have hkey : tableKey (backfillSchema cteAliases table) = qualifiedName table := by
      unfold backfillSchema
      split
      · rename_i h
        have hempty : table.db = "" := by
          simp only [Bool.and_eq_true, decide_eq_true_eq] at h
          exact h.2
        simp [tableKey, qualifiedName, hempty, defaultSchema, lower, lowerName]
      · rfl
    rw [if_pos hvisible, hreal, tableSource, tableSource, lookupTable_lake hdb,
      lookupTable_lake hdb, hname, hkey]
    exact facts_ofBase table (hcolumns _ (ha table (by rw [hreal]; exact List.mem_singleton_self _)))
      (hrows _)

theorem evalCtes_names {ctes : List Cte} {c' : Context}
    (h : evalCtes e db c ctes = some c') : c'.names = ctesScope c.names ctes := by
  induction ctes generalizing c with
  | nil =>
    rw [evalCtes] at h
    cases h
    rfl
  | cons cte ctes ih =>
    cases cte with
    | query aliasName isRecursive query =>
      rw [evalCtes] at h
      obtain ⟨r, -, h⟩ := Option.bind_eq_some_iff.mp h
      have hnames := ih h
      exact hnames
    | scalar aliasName value =>
      rw [evalCtes] at h
      obtain ⟨v, -, h⟩ := Option.bind_eq_some_iff.mp h
      have hnames := ih h
      exact hnames

/-- The rewritten CTEs put the names in scope that the CTEs do. -/
theorem evalCtes_rewrite_names {ctes : List Cte} {c' : Context}
    (h : evalCtes e db c (rewriteCtes cteAliases tenantId ctes) = some c') :
    c'.names = ctesScope c.names ctes :=
  (evalCtes_names h).trans (ctesScope_rewrite _ ctes)

/-- Both evaluations fail, or both give a source and these have the facts in common. -/
def Alike (tenantId : String) (real : List Table) (x y : Option Source) : Prop :=
  (x = none ∧ y = none) ∨
    ∃ s₁ s₂, x = some s₁ ∧ y = some s₂ ∧ Facts tenantId real s₁ s₂

mutual

theorem query_agree (hcolumns : TenantColumns e) (hrows : SameTenantRows tenantId db₁ db₂)
    (c : Context) : ∀ query : Query,
    queryContained cteAliases c.names query = true →
      AllowedSelects cteAliases query.selects →
        evalQuery e db₁ c (rewriteQuery cteAliases tenantId query) =
          evalQuery e db₂ c (rewriteQuery cteAliases tenantId query)
  | .select ctes item joins filter projections clauses tail limit, hc, ha => by
    simp only [queryContained, Bool.and_eq_true] at hc
    obtain ⟨⟨⟨⟨⟨hctes, hitem⟩, hjoins⟩, hfilter⟩, hprojections⟩, hclauses⟩ := hc
    simp only [Query.selects, AllowedSelects.append, AllowedSelects.cons,
      Select.directTables, Allowed.append] at ha
    obtain ⟨⟨⟨⟨⟨⟨⟨hti, htj⟩, hsc⟩, hsi⟩, hsj⟩, hsf⟩, hsp⟩, hsl⟩ := ha
    rw [rewriteQuery, evalQuery, evalQuery,
      ctes_agree hcolumns hrows c ctes hctes hsc]
    rcases hctx : evalCtes e db₂ c (rewriteCtes cteAliases tenantId ctes) with _ | c'
    · rfl
    have hnames := evalCtes_rewrite_names hctx
    rw [← hnames] at hitem hjoins hfilter hprojections hclauses
    simp only [Option.bind_eq_bind, Option.bind_some]
    rcases item_agree hcolumns hrows c' true item hitem hti hsi with ⟨h₁, h₂⟩ | ⟨s₁, s₂, h₁, h₂, hs⟩
    · rw [h₁, h₂]
      rfl
    rw [h₁, h₂]
    simp only [Option.bind_some]
    rcases joins_agree hcolumns hrows c' true _ joins hjoins htj hsj hs isBaseFree_iff.mp with
      ⟨h₁, h₂⟩ | ⟨t₁, t₂, h₁, h₂, ht⟩
    · rw [h₁, h₂]
      rfl
    rw [h₁, h₂]
    simp only [Option.bind_some]
    rw [← realTables_append] at ht
    have hwhere : ∀ f, evalExprs e db₁ (c'.push f) (rewriteExprs cteAliases tenantId filter ++
        tenantPredicates tenantId
          (realTables cteAliases (item.directTables ++ joinsDirectTables joins))) =
        evalExprs e db₂ (c'.push f) (rewriteExprs cteAliases tenantId filter ++
          tenantPredicates tenantId
            (realTables cteAliases (item.directTables ++ joinsDirectTables joins))) := by
      intro f
      rw [evalExprs_append, evalExprs_append, exprs_agree hcolumns hrows (c'.push f) filter hfilter hsf,
        evalExprs_predicates db₁ db₂]
    have houtputs : ∀ f, evalExprs e db₁ (c'.push f) (rewriteExprs cteAliases tenantId projections) =
        evalExprs e db₂ (c'.push f) (rewriteExprs cteAliases tenantId projections) ∧
        evalExprs e db₁ (c'.push f) (rewriteExprs cteAliases tenantId clauses) =
          evalExprs e db₂ (c'.push f) (rewriteExprs cteAliases tenantId clauses) := fun f =>
      ⟨exprs_agree hcolumns hrows (c'.push f) projections hprojections hsp,
        exprs_agree hcolumns hrows (c'.push f) clauses hclauses hsl⟩
    simp only [hwhere, (houtputs _).1, (houtputs _).2]
    exact finishSelect_agree ht tail limit _ ht.holds_owned.1 ht.holds_owned.2
  | .setOp ctes kind left right limit, hc, ha => by
    simp only [queryContained, Bool.and_eq_true] at hc
    obtain ⟨⟨hctes, hleft⟩, hright⟩ := hc
    simp only [Query.selects, AllowedSelects.append] at ha
    obtain ⟨⟨hsc, hsl⟩, hsr⟩ := ha
    rw [rewriteQuery, evalQuery, evalQuery, ctes_agree hcolumns hrows c ctes hctes hsc]
    rcases hctx : evalCtes e db₂ c (rewriteCtes cteAliases tenantId ctes) with _ | c'
    · rfl
    have hnames := evalCtes_rewrite_names hctx
    rw [← hnames] at hleft hright
    simp only [Option.bind_eq_bind, Option.bind_some]
    rw [query_agree hcolumns hrows c' left hleft hsl,
      query_agree hcolumns hrows c' right hright hsr]
  | .subquery ctes query, hc, ha => by
    simp only [queryContained, Bool.and_eq_true] at hc
    simp only [Query.selects, AllowedSelects.append] at ha
    rw [rewriteQuery, evalQuery, evalQuery, ctes_agree hcolumns hrows c ctes hc.1 ha.1]
    rcases hctx : evalCtes e db₂ c (rewriteCtes cteAliases tenantId ctes) with _ | c'
    · rfl
    have hnames := evalCtes_rewrite_names hctx
    have hquery := hc.2
    rw [← hnames] at hquery
    exact query_agree hcolumns hrows c' query hquery ha.2

theorem ctes_agree (hcolumns : TenantColumns e) (hrows : SameTenantRows tenantId db₁ db₂)
    (c : Context) : ∀ ctes : List Cte,
    ctesContained cteAliases c.names ctes = true →
      AllowedSelects cteAliases (ctesSelects ctes) →
        evalCtes e db₁ c (rewriteCtes cteAliases tenantId ctes) =
          evalCtes e db₂ c (rewriteCtes cteAliases tenantId ctes)
  | [], _, _ => by rw [rewriteCtes, evalCtes, evalCtes]
  | .query aliasName isRecursive query :: ctes, hc, ha => by
    simp only [ctesContained, Bool.and_eq_true] at hc
    simp only [ctesSelects, AllowedSelects.append] at ha
    rw [rewriteCtes, evalCtes, evalCtes]
    have hrest : ∀ r, evalCtes e db₁ (c.bindRelation aliasName r)
        (rewriteCtes cteAliases tenantId ctes) =
        evalCtes e db₂ (c.bindRelation aliasName r) (rewriteCtes cteAliases tenantId ctes) :=
      fun r => ctes_agree hcolumns hrows (c.bindRelation aliasName r) ctes hc.2 ha.2
    simp only [hrest]
    cases isRecursive with
    | false =>
      have hquery : queryContained cteAliases c.names query = true := by simpa using hc.1
      simp only [query_agree hcolumns hrows c query hquery ha.1, Bool.false_eq_true, if_false]
    | true =>
      have hinside : queryContained cteAliases (aliasName :: c.names) query = true := by
        simpa using hc.1
      have hquery : ∀ r, evalQuery e db₁ (c.bindRelation aliasName r)
          (rewriteQuery cteAliases tenantId query) =
          evalQuery e db₂ (c.bindRelation aliasName r) (rewriteQuery cteAliases tenantId query) :=
        fun r => query_agree hcolumns hrows (c.bindRelation aliasName r) query hinside ha.1
      simp only [hquery, if_true]
  | .scalar aliasName value :: ctes, hc, ha => by
    simp only [ctesContained, Bool.and_eq_true] at hc
    simp only [ctesSelects, AllowedSelects.append] at ha
    rw [rewriteCtes, evalCtes, evalCtes, expr_agree hcolumns hrows c value hc.1 ha.1]
    have hrest : ∀ v, evalCtes e db₁ (c.bindValue aliasName v)
        (rewriteCtes cteAliases tenantId ctes) =
        evalCtes e db₂ (c.bindValue aliasName v) (rewriteCtes cteAliases tenantId ctes) :=
      fun v => ctes_agree hcolumns hrows (c.bindValue aliasName v) ctes hc.2 ha.2
    simp only [hrest]

theorem item_agree (hcolumns : TenantColumns e) (hrows : SameTenantRows tenantId db₁ db₂)
    (c : Context) (visible : Bool) : ∀ item : FromItem,
    itemContained cteAliases c.names visible item = true →
      Allowed cteAliases item.directTables → AllowedSelects cteAliases item.selects →
        Alike tenantId (realTables cteAliases item.directTables)
          (evalItem e db₁ c (rewriteItem cteAliases tenantId visible item))
          (evalItem e db₂ c (rewriteItem cteAliases tenantId visible item))
  | .empty, _, _, _ => by
    rw [rewriteItem, evalItem, evalItem]
    refine Or.inr ⟨_, _, rfl, rfl, ⟨rfl, ⟨rfl, Or.inr rfl⟩, ?_, ?_, rfl, ?_⟩⟩
    · exact ⟨rfl, by simp⟩
    · exact ⟨rfl, by simp⟩
    · simp
  | .table table joins, hc, ht, ha => by
    simp only [itemContained, Bool.and_eq_true] at hc
    obtain ⟨htable, hjoins⟩ := hc
    have hhidden := joins_hidden joins hjoins
    have hfacts := table_facts hcolumns hrows htable ht
    have hfree : isCteReference cteAliases table = true →
        realTables cteAliases [table] = [] := fun href => by simp [realTables, href]
    rw [rewriteItem, evalItem, evalItem]
    have hall := joins_agree hcolumns hrows c false _ joins hjoins (allowed_of_hidden hhidden) ha
      hfacts hfree
    rw [hhidden, List.append_nil] at hall
    exact hall
  | .derived query aliasName joins, hc, ht, ha => by
    simp only [itemContained, Bool.and_eq_true] at hc
    simp only [FromItem.selects, AllowedSelects.append] at ha
    rw [rewriteItem, evalItem, evalItem, query_agree hcolumns hrows c query hc.1 ha.1]
    rcases evalQuery e db₂ c (rewriteQuery cteAliases tenantId query) with _ | r
    · exact Or.inl ⟨rfl, rfl⟩
    · exact joins_agree hcolumns hrows c visible true joins hc.2 ht ha.2
        (facts_ofRelation aliasName r) fun _ => rfl
  | .paren item, hc, ht, ha => by
    rw [rewriteItem, evalItem, evalItem]
    rw [itemContained] at hc
    exact item_agree hcolumns hrows c visible item hc ht ha

theorem joins_agree (hcolumns : TenantColumns e) (hrows : SameTenantRows tenantId db₁ db₂)
    (c : Context) (visible free : Bool) {real : List Table} {s₁ s₂ : Source} :
    ∀ joins : List Join,
    joinsContained cteAliases c.names visible free joins = true →
      Allowed cteAliases (joinsDirectTables joins) →
        AllowedSelects cteAliases (joinsSelects joins) →
          Facts tenantId real s₁ s₂ → (free = true → real = []) →
            Alike tenantId (real ++ realTables cteAliases (joinsDirectTables joins))
              (evalJoins e db₁ c s₁ (rewriteJoins cteAliases tenantId visible joins))
              (evalJoins e db₂ c s₂ (rewriteJoins cteAliases tenantId visible joins))
  | [], _, _, _, hs, _ => by
    rw [rewriteJoins, evalJoins, evalJoins, joinsDirectTables]
    refine Or.inr ⟨s₁, s₂, rfl, rfl, ?_⟩
    simpa [realTables] using hs
  | .mk kind strictness item on :: joins, hc, ht, ha, hs, hfree => by
    simp only [joinsContained, Bool.and_eq_true] at hc
    obtain ⟨⟨⟨hitem, hon⟩, hstrict⟩, hjoins⟩ := hc
    simp only [joinsSelects, AllowedSelects.append] at ha
    obtain ⟨⟨hsi, hso⟩, hsj⟩ := ha
    rw [joinsDirectTables, Allowed.append] at ht
    rw [rewriteJoins, evalJoins, evalJoins]
    rcases item_agree hcolumns hrows c visible item hitem ht.1 hsi with
      ⟨h₁, h₂⟩ | ⟨t₁, t₂, h₁, h₂, hfacts⟩
    · rw [h₁, h₂]
      exact Or.inl ⟨rfl, rfl⟩
    have honEq : ∀ f, evalExpr e db₁ (c.push f) (rewriteExpr cteAliases tenantId on) =
        evalExpr e db₂ (c.push f) (rewriteExpr cteAliases tenantId on) :=
      fun f => expr_agree hcolumns hrows (c.push f) on hon hso
    rw [h₁, h₂]
    simp only [Option.bind_eq_bind, Option.bind_some, honEq, hs.null_eq, hfacts.null_eq]
    rcases evalExpr e db₂ (c.push (s₂.null ++ t₂.null)) (rewriteExpr cteAliases tenantId on)
      with _ | v
    · exact Or.inl ⟨rfl, rfl⟩
    simp only [Option.bind_some]
    rw [joinsDirectTables, realTables_append, ← List.append_assoc]
    have hstrict' : strictness = none ∨
        realTables cteAliases item.directTables = [] ∧ (real = [] ∨ kind = .left) := by
      simp only [Bool.or_eq_true, Bool.and_eq_true, Option.isNone_iff_eq_none,
        decide_eq_true_eq] at hstrict
      exact hstrict.imp_right fun h => ⟨isBaseFree_iff.mp h.1, h.2.imp_left hfree⟩
    refine joins_agree hcolumns hrows c visible _ joins hjoins ht.2 hsj
      (hs.join hfacts kind hstrict' _) fun h => ?_
    rw [Bool.and_eq_true] at h
    rw [hfree h.1, isBaseFree_iff.mp h.2]
    rfl

theorem expr_agree (hcolumns : TenantColumns e) (hrows : SameTenantRows tenantId db₁ db₂)
    (c : Context) : ∀ x : Expr,
    exprContained cteAliases c.names x = true →
      AllowedSelects cteAliases x.selects →
        evalExpr e db₁ c (rewriteExpr cteAliases tenantId x) =
          evalExpr e db₂ c (rewriteExpr cteAliases tenantId x)
  | .column table name, _, _ => by rw [rewriteExpr, evalExpr, evalExpr]
  | .literal value, _, _ => by rw [rewriteExpr, evalExpr, evalExpr]
  | .eq left right, hc, ha => by
    simp only [exprContained, Bool.and_eq_true] at hc
    simp only [Expr.selects, AllowedSelects.append] at ha
    rw [rewriteExpr, evalExpr, evalExpr, expr_agree hcolumns hrows c left hc.1 ha.1,
      expr_agree hcolumns hrows c right hc.2 ha.2]
  | .func name args, hc, ha => by
    rw [exprContained] at hc
    rw [rewriteExpr, evalExpr, evalExpr, exprs_agree hcolumns hrows c args hc ha]
  | .query op args query, hc, ha => by
    simp only [exprContained, Bool.and_eq_true] at hc
    simp only [Expr.selects, AllowedSelects.append] at ha
    rw [rewriteExpr, evalExpr, evalExpr, exprs_agree hcolumns hrows c args hc.1 ha.1,
      query_agree hcolumns hrows c query hc.2 ha.2]
  | .inTable operand table, hc, ha => by
    simp only [exprContained, Bool.and_eq_true, decide_eq_true_eq] at hc
    obtain ⟨⟨hoperand, hdb⟩, hscope⟩ := hc
    obtain ⟨r, hr⟩ := lookupTable_cte (e := e) hdb (List.contains_iff_mem.mp hscope)
    rw [rewriteExpr, evalExpr, evalExpr, expr_agree hcolumns hrows c operand hoperand ha]
    simp only [hr]

theorem exprs_agree (hcolumns : TenantColumns e) (hrows : SameTenantRows tenantId db₁ db₂)
    (c : Context) : ∀ xs : List Expr,
    exprsContained cteAliases c.names xs = true →
      AllowedSelects cteAliases (exprsSelects xs) →
        evalExprs e db₁ c (rewriteExprs cteAliases tenantId xs) =
          evalExprs e db₂ c (rewriteExprs cteAliases tenantId xs)
  | [], _, _ => by rw [rewriteExprs, evalExprs, evalExprs]
  | x :: xs, hc, ha => by
    simp only [exprsContained, Bool.and_eq_true] at hc
    simp only [exprsSelects, AllowedSelects.append] at ha
    rw [rewriteExprs, evalExprs, evalExprs, expr_agree hcolumns hrows c x hc.1 ha.1,
      exprs_agree hcolumns hrows c xs hc.2 ha.2]

end

/-- The result of an accepted query that is contained is the same over every two databases
with the same rows of the tenant. -/
theorem contained_result_same (e : Engine) (hcolumns : TenantColumns e) {tree : Query}
    {tenantId : String} {rowCap : Option Int} {result : RewriteResult}
    (h : rewriteForTenant [.query tree] tenantId rowCap = .ok result)
    (hc : queryContained tree.cteAliases [] tree = true) {db₁ db₂ : Database}
    (hrows : SameTenantRows tenantId db₁ db₂) :
    evaluate e db₁ result.tree = evaluate e db₂ result.tree := by
  obtain ⟨hcheck, htree⟩ := rewriteForTenant_ok h
  obtain ⟨hcontained, hselects⟩ := clampTree_checks tree.cteAliases [] (resolveRowCap rowCap)
    tree
  rw [htree, rewriteTree_eq, evaluate, evaluate]
  refine query_agree hcolumns hrows ⟨[], []⟩ _ (hcontained.trans hc) ?_
  rw [hselects]
  exact allowedSelects_of_check hcheck

/-- Selects whole rows of the first table. -/
def plainEngine : Engine where
  columns _ := ["tenant_id", "payload"]
  func _ _ := .null
  queryOp _ _ _ := .null
  setOp _ left _ := left
  recursive step := step ⟨[], []⟩
  strictLeft _ _ _ _ := []
  strictJoin _ _ _ _ _ := []
  finish _ _ rows := ⟨["payload"], rows.map fun x column =>
    (x.1.head?.map fun b => b.value column).getD .null⟩
  limitRows _ rows := rows

theorem plainEngine_columns : TenantColumns plainEngine := fun _ _ => List.mem_cons_self

def tenantRow (tenantId : String) : Row :=
  fun column => if column = "tenant_id" then .str tenantId else .str "event"

/-- One event, of one tenant. -/
def eventOf (tenantId : String) : Database :=
  fun key => if key = "aisoc.raw_events" then [tenantRow tenantId] else []

/-- Neither database has a row of the third tenant. -/
theorem eventOf_same {a b c : String} (ha : a ≠ c) (hb : b ≠ c) :
    SameTenantRows c (eventOf a) (eventOf b) := by
  intro table
  unfold eventOf
  split
  · simp [tenantRow, ha, hb]
  · rfl

def rawEvents (aliasName : String) : FromItem := .table ⟨"", "raw_events", aliasName, false⟩ []

def selectPayload (ctes : List Cte) (item : FromItem) (joins : List Join)
    (tableName : String) : Query :=
  .select ctes item joins [] [.column tableName "payload"] [] "" none

/-- The body of the CTE reads the table of the same name. -/
def shadowing : Query :=
  selectPayload [.query "raw_events" false (selectPayload [] (rawEvents "") [] "")] (rawEvents "")
    [] ""

/-- A name that some CTE has is taken for the CTE also where that CTE is not in scope. -/
theorem shadowed_table_leaks : ¬ ∀ (e : Engine) (tree : Query) (tenantId : String)
    (rowCap : Option Int) (result : RewriteResult) (db₁ db₂ : Database), TenantColumns e →
    rewriteForTenant [.query tree] tenantId rowCap = .ok result →
      SameTenantRows tenantId db₁ db₂ →
        evaluate e db₁ result.tree = evaluate e db₂ result.tree := by
  intro h
  have heq := h plainEngine shadowing "t1" none _ (eventOf "t2") (fun _ => [])
    plainEngine_columns rfl ?_
  · exact absurd (congrArg (Option.map fun r => r.rows.length) heq) (by decide)
  · intro table
    unfold eventOf
    split
    · simp [tenantRow]
    · rfl

def joined : Query :=
  selectPayload [] (rawEvents "r") [.mk .left none
    (.table ⟨"aisoc", "alert_metrics", "m", false⟩ [])
    (.eq (.column "r" "payload") (.column "m" "payload"))] "r"

theorem joined_tables_isolated : ∃ result,
    rewriteForTenant [.query joined] "t1" none = .ok result ∧
      evaluate plainEngine (eventOf "t2") result.tree =
        evaluate plainEngine (eventOf "t3") result.tree := by
  have hok : rewriteForTenant [.query joined] "t1" none = .ok _ := rfl
  have hrows : SameTenantRows "t1" (eventOf "t2") (eventOf "t3") :=
    eventOf_same (by decide) (by decide)
  exact ⟨_, hok, contained_result_same plainEngine plainEngine_columns hok (by decide) hrows⟩

end LakeSqlIsolation
