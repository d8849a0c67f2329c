import AiSOC.LakeSqlRewriter
import AiSOC.LakeSqlSemantics

/-! # Sources under tenant predicates

Two evaluations of a FROM clause, over databases with the same rows of the tenant, agree on
the rows whose base tables' parts all belong to the tenant, and the predicates the rewriter
appends let through no others. -/
namespace LakeSqlSources

open LakeSqlTree LakeSqlRewriter LakeSqlSemantics
open RelationalJoin (Agree both JoinKind)

/-- The part of a base table, where there is one, is a row of the tenant. -/
def owned (tenantId : String) (b : Binding) : Bool :=
  !b.isBase || b.value "tenant_id" = .str tenantId

def frameOwned (tenantId : String) (f : Frame) : Bool := f.all (owned tenantId)

def erase (b : Binding) : Binding := { b with row := none }

/-- Every row has the names and columns of the null row. -/
def Shaped (s : Source) : Prop :=
  s.null.map erase = s.null ∧ ∀ f ∈ s.frames, f.map erase = s.null

/-- What two evaluations of an item with these base tables have in common. -/
structure Facts (tenantId : String) (real : List Table) (s₁ s₂ : Source) : Prop where
  null_eq : s₁.null = s₂.null
  agree : Agree (frameOwned tenantId) s₁.null s₁.frames s₂.frames
  shaped_left : Shaped s₁
  shaped_right : Shaped s₂
  names : (s₁.null.filter Binding.isBase).map Binding.name = real.map bindingName
  columns : ∀ b ∈ s₁.null, b.isBase = true → "tenant_id" ∈ b.columns

variable {e : Engine} {db : Database} {c : Context} {tenantId : String}
variable {real : List Table} {s s₁ s₂ t₁ t₂ : Source} {f : Frame}

theorem frameOwned_append (f g : Frame) :
    frameOwned tenantId (f ++ g) = (frameOwned tenantId f && frameOwned tenantId g) :=
  List.all_append

/-- A tenant predicate that is true is true of the only binding it can be about. -/
theorem tenantPredicate_true {tableName : String} {v : Value}
    (hv : evalExpr e db (c.push f) (tenantPredicate tableName tenantId) = some v)
    (htrue : truthy v = true) {b : Binding} (hb : b ∈ candidates f tableName "tenant_id") :
    b.value "tenant_id" = .str tenantId := by
  simp only [tenantPredicate, evalExpr, Context.push, resolveColumn] at hv
  split at hv
  · rename_i hnil
    rw [hnil] at hb
    exact (List.not_mem_nil hb).elim
  · rename_i only hone
    rw [hone] at hb
    rw [List.mem_singleton.mp hb]
    exact eq_of_truthy_equals (Option.some.inj hv ▸ htrue)
  · cases hv

/-- The predicates for a FROM clause with these base tables let through no row with a part of
another tenant. -/
theorem frameOwned_of_predicates (hnames : (f.filter Binding.isBase).map Binding.name =
      real.map bindingName) (hcolumns : ∀ b ∈ f, b.isBase = true → "tenant_id" ∈ b.columns)
    (h : holds (evalExprs e db (c.push f) (tenantPredicates tenantId real)) = true) :
    frameOwned tenantId f = true := by
  have hpredicate : ∀ b ∈ f, b.isBase = true → ∀ tableName, (tableName = "" ∨ b.name = tableName) →
      tenantPredicate tableName tenantId ∈ tenantPredicates tenantId real →
      b.value "tenant_id" = .str tenantId := by
    intro b hb hbase tableName hname hmem
    obtain ⟨v, hv, htrue⟩ := holds_mem h hmem
    exact tenantPredicate_true hv htrue (mem_candidates hb (hcolumns b hb hbase) hname)
  refine List.all_eq_true.mpr fun b hb => ?_
  by_cases hbase : b.isBase = true
  · have hname : b.name ∈ real.map bindingName := by
      rw [← hnames]
      exact List.mem_map_of_mem (List.mem_filter.mpr ⟨hb, hbase⟩)
    obtain ⟨table, htable, hbname⟩ := List.mem_map.mp hname
    have hne : real ≠ [] := List.ne_nil_of_mem htable
    have hvalue : b.value "tenant_id" = .str tenantId := by
      by_cases hone : real.length = 1 ∨ (real.filter fun table => table.aliasName ≠ "") = []
      · refine hpredicate b hb hbase "" (Or.inl rfl) ?_
        rw [tenantPredicates, if_neg hne, if_pos hone]
        exact List.mem_singleton_self _
      · by_cases hall : real.length = (real.filter fun table => table.aliasName ≠ "").length
        · have haliased : table.aliasName ≠ "" := by
            have := List.length_filter_eq_length_iff.mp hall.symm table htable
            simpa using this
          have hbalias : b.name = table.aliasName := by
            rw [← hbname, bindingName, if_neg haliased]
          refine hpredicate b hb hbase table.aliasName (Or.inr hbalias) ?_
          rw [tenantPredicates, if_neg hne, if_neg hone]
          refine List.mem_append_left _ (List.mem_map.mpr ⟨table, ?_, rfl⟩)
          exact List.mem_filter.mpr ⟨htable, by simpa using haliased⟩
        · refine hpredicate b hb hbase "" (Or.inl rfl) ?_
          rw [tenantPredicates, if_neg hne, if_neg hone, if_neg hall]
          exact List.mem_append_right _ (List.mem_singleton_self _)
    simp [owned, hvalue]
  · simp [owned, hbase]

theorem Shaped.mem {s : Source} (h : Shaped s) {f : Frame} (hf : f = s.null ∨ f ∈ s.frames) :
    f.map erase = s.null := by
  rcases hf with rfl | hf
  · exact h.1
  · exact h.2 f hf

theorem Shaped.names {s : Source} (h : Shaped s) {f : Frame} (hf : f ∈ s.frames) :
    (f.filter Binding.isBase).map Binding.name =
      (s.null.filter Binding.isBase).map Binding.name := by
  rw [← h.2 f hf, List.filter_map, List.map_map]
  rfl

theorem Shaped.columns {s : Source} (h : Shaped s) {f : Frame} (hf : f ∈ s.frames)
    (hc : ∀ b ∈ s.null, b.isBase = true → "tenant_id" ∈ b.columns) :
    ∀ b ∈ f, b.isBase = true → "tenant_id" ∈ b.columns := by
  intro b hb hbase
  refine hc (erase b) ?_ hbase
  rw [← h.2 f hf]
  exact List.mem_map_of_mem hb

theorem shaped_ofRelation (name : String) (r : Relation) (isBase : Bool) :
    Shaped (Source.ofRelation name r isBase) := by
  refine ⟨rfl, fun f hf => ?_⟩
  obtain ⟨row, -, rfl⟩ := List.mem_map.mp hf
  rfl

theorem pick_mem (s : Source) (i : Option Nat) : s.pick i = s.null ∨ s.pick i ∈ s.frames := by
  unfold Source.pick
  rcases hi : i.bind (s.frames[·]?) with _ | f
  · exact Or.inl rfl
  · obtain ⟨n, -, hn⟩ := Option.bind_eq_some_iff.mp hi
    exact Or.inr (List.mem_of_getElem? hn)

theorem shaped_joinSources (hs : Shaped s₁) (ht : Shaped t₁) (kind : JoinKind)
    (strictness : Option Strictness) (on : Frame → Bool) :
    Shaped (joinSources e kind strictness s₁ t₁ on) := by
  have happend : ∀ f g, (f = s₁.null ∨ f ∈ s₁.frames) → (g = t₁.null ∨ g ∈ t₁.frames) →
      (f ++ g).map erase = s₁.null ++ t₁.null := by
    intro f g hf hg
    rw [List.map_append, hs.mem hf, ht.mem hg]
  refine ⟨happend _ _ (Or.inl rfl) (Or.inl rfl), fun f hf => ?_⟩
  unfold joinSources at hf
  dsimp only at hf
  split at hf
  · obtain ⟨x, hx, rfl⟩ := List.mem_map.mp hf
    obtain ⟨hleft, hright⟩ := RelationalJoin.mem_joinRows hx
    exact happend _ _ hleft hright
  · obtain ⟨l, hl, hf⟩ := List.mem_flatMap.mp hf
    obtain ⟨i, -, rfl⟩ := List.mem_map.mp hf
    exact happend _ _ (Or.inr hl) (pick_mem t₁ i)
  · obtain ⟨x, -, rfl⟩ := List.mem_map.mp hf
    exact happend _ _ (pick_mem s₁ _) (pick_mem t₁ _)

/-- Without base tables every row is owned. -/
theorem Facts.owned_of_free (h : Facts tenantId [] s₁ s₂) {f : Frame}
    (hf : f = s₁.null ∨ f ∈ s₁.frames) : frameOwned tenantId f = true := by
  have hnil : s₁.null.filter Binding.isBase = [] := List.map_eq_nil_iff.mp h.names
  refine List.all_eq_true.mpr fun b hb => ?_
  have hmem : erase b ∈ s₁.null := by
    rw [← h.shaped_left.mem hf]
    exact List.mem_map_of_mem hb
  have hbase : b.isBase = false := by
    simpa [erase] using List.filter_eq_nil_iff.mp hnil (erase b) hmem
  simp [owned, hbase]

/-- Nothing can be hidden then, so the evaluations are the same. -/
theorem Facts.eq_of_free (h : Facts tenantId [] s₁ s₂) : s₁ = s₂ := by
  have hframes : s₁.frames = s₂.frames := by
    rcases h.agree.null_hidden_or_eq with hhidden | heq
    · rw [h.owned_of_free (Or.inl rfl)] at hhidden
      cases hhidden
    · exact heq
  have hnulls := h.null_eq
  cases s₁
  cases s₂
  dsimp only at hframes hnulls
  rw [hframes, hnulls]

theorem filter_joined (xs : List (Frame × Frame)) :
    (xs.map fun x => x.1 ++ x.2).filter (frameOwned tenantId) =
      (xs.filter (both (frameOwned tenantId) (frameOwned tenantId))).map fun x => x.1 ++ x.2 := by
  rw [List.filter_map]
  congr 1
  refine List.filter_congr fun x _ => ?_
  exact frameOwned_append x.1 x.2

/-- A left join that selects for each row of the left alone, from rows that are all owned. -/
theorem filter_strictLeft (pairs : Frame → List (Option Nat))
    (ht : ∀ f, (f = t₁.null ∨ f ∈ t₁.frames) → frameOwned tenantId f = true) (ls : List Frame) :
    (ls.flatMap fun l => (pairs l).map fun i => l ++ t₁.pick i).filter (frameOwned tenantId) =
      (ls.filter (frameOwned tenantId)).flatMap fun l => (pairs l).map fun i => l ++ t₁.pick i := by
  have hrow : ∀ l i, frameOwned tenantId (l ++ t₁.pick i) = frameOwned tenantId l := by
    intro l i
    rw [frameOwned_append, ht _ (pick_mem t₁ i), Bool.and_true]
  induction ls with
  | nil => rfl
  | cons l ls ih =>
    rw [List.flatMap_cons, List.filter_append, ih]
    by_cases hl : frameOwned tenantId l = true
    · rw [List.filter_cons_of_pos hl, List.flatMap_cons, List.filter_eq_self.mpr]
      intro f hf
      obtain ⟨i, -, rfl⟩ := List.mem_map.mp hf
      rw [hrow, hl]
    · rw [List.filter_cons_of_neg hl, List.filter_eq_nil_iff.mpr]
      · rfl
      intro f hf
      obtain ⟨i, -, rfl⟩ := List.mem_map.mp hf
      rwa [hrow]

theorem Facts.join_agree {realRight : List Table} (hs : Facts tenantId real s₁ s₂)
    (ht : Facts tenantId realRight t₁ t₂) {kind : JoinKind} {strictness : Option Strictness}
    (hstrict : strictness = none ∨ realRight = [] ∧ (real = [] ∨ kind = .left))
    (on : Frame → Bool) : Agree (frameOwned tenantId) (s₁.null ++ t₁.null)
      (joinSources e kind strictness s₁ t₁ on).frames
      (joinSources e kind strictness s₂ t₂ on).frames := by
  rcases strictness with _ | strictness
  · have hjoin := RelationalJoin.joinRows_agree hs.agree ht.agree kind fun l r => on (l ++ r)
    constructor
    · simp only [joinSources, filter_joined, ← hs.null_eq, ← ht.null_eq]
      rw [hjoin.filter_eq]
    · rcases hjoin.null_hidden_or_eq with hhidden | heq
      · left
        rw [frameOwned_append]
        exact hhidden
      · right
        simp only [joinSources, ← hs.null_eq, ← ht.null_eq]
        rw [heq]
  obtain ⟨rfl, hleft⟩ := hstrict.resolve_left nofun
  have howned : ∀ f, (f = t₁.null ∨ f ∈ t₁.frames) → frameOwned tenantId f = true :=
    fun f hf => ht.owned_of_free hf
  obtain rfl := ht.eq_of_free
  rcases hleft with rfl | rfl
  · obtain rfl := hs.eq_of_free
    exact ⟨rfl, Or.inr rfl⟩
  constructor
  · simp only [joinSources]
    rw [filter_strictLeft _ howned, filter_strictLeft _ howned, hs.agree.filter_eq]
  · rcases hs.agree.null_hidden_or_eq with hhidden | heq
    · left
      rw [frameOwned_append, hhidden, Bool.false_and]
    · right
      simp only [joinSources, heq]

theorem Facts.join {realRight : List Table} (hs : Facts tenantId real s₁ s₂)
    (ht : Facts tenantId realRight t₁ t₂) (kind : JoinKind) {strictness : Option Strictness}
    (hstrict : strictness = none ∨ realRight = [] ∧ (real = [] ∨ kind = .left))
    (on : Frame → Bool) : Facts tenantId (real ++ realRight) (joinSources e kind strictness s₁ t₁ on)
      (joinSources e kind strictness s₂ t₂ on) where
  null_eq := by
    change s₁.null ++ t₁.null = s₂.null ++ t₂.null
    rw [hs.null_eq, ht.null_eq]
  agree := hs.join_agree ht hstrict on
  shaped_left := shaped_joinSources hs.shaped_left ht.shaped_left kind strictness on
  shaped_right := shaped_joinSources hs.shaped_right ht.shaped_right kind strictness on
  names := by
    change ((s₁.null ++ t₁.null).filter Binding.isBase).map Binding.name = _
    rw [List.filter_append, List.map_append, List.map_append, hs.names, ht.names]
  columns := by
    intro b hb hbase
    rcases List.mem_append.mp hb with hb | hb
    · exact hs.columns b hb hbase
    · exact ht.columns b hb hbase

/-- The result of a query, or a CTE, is the same source twice. -/
theorem facts_ofRelation (name : String) (r : Relation) :
    Facts tenantId [] (.ofRelation name r false) (.ofRelation name r false) where
  null_eq := rfl
  agree := ⟨rfl, Or.inr rfl⟩
  shaped_left := shaped_ofRelation name r false
  shaped_right := shaped_ofRelation name r false
  names := rfl
  columns := by
    intro b hb hbase
    rw [List.mem_singleton.mp hb] at hbase
    cases hbase

/-- A base table shows the rows of the tenant and hides its null row. -/
theorem facts_ofBase (table : Table) {columns : List String} (hcolumn : "tenant_id" ∈ columns)
    {rows₁ rows₂ : List Row} (hrows : rows₁.filter (fun row => row "tenant_id" = .str tenantId) =
      rows₂.filter fun row => row "tenant_id" = .str tenantId) :
    Facts tenantId [table] (.ofRelation (bindingName table) ⟨columns, rows₁⟩ true)
      (.ofRelation (bindingName table) ⟨columns, rows₂⟩ true) where
  null_eq := rfl
  agree := by
    have hcomp : frameOwned tenantId ∘ (fun row : Row =>
        [Binding.mk (bindingName table) columns true (some row)]) =
        fun row => decide (row "tenant_id" = .str tenantId) := by
      funext row
      simp only [Function.comp, frameOwned, owned, Binding.value, List.all_cons, List.all_nil,
        Bool.not_true, Bool.false_or, Bool.and_true]
      exact decide_eq_decide.mpr Iff.rfl
    constructor
    · simp only [Source.ofRelation, List.filter_map, hcomp, hrows]
    · exact Or.inl (by simp [frameOwned, owned, Binding.value, Source.ofRelation])
  shaped_left := shaped_ofRelation _ _ true
  shaped_right := shaped_ofRelation _ _ true
  names := rfl
  columns := by
    intro b hb _
    rw [List.mem_singleton.mp hb]
    exact hcolumn

theorem Facts.holds_owned (h : Facts tenantId real s₁ s₂) {filter : List Expr} :
    (∀ f ∈ s₁.frames, holds (evalExprs e db (c.push f)
      (filter ++ tenantPredicates tenantId real)) = true → frameOwned tenantId f = true) ∧
    ∀ f ∈ s₂.frames, holds (evalExprs e db (c.push f)
      (filter ++ tenantPredicates tenantId real)) = true → frameOwned tenantId f = true := by
  constructor
  · intro f hf hholds
    refine frameOwned_of_predicates ?_ (h.shaped_left.columns hf h.columns) (holds_append hholds)
    rw [h.shaped_left.names hf, h.names]
  · intro f hf hholds
    refine frameOwned_of_predicates ?_ (h.shaped_right.columns hf ?_) (holds_append hholds)
    · rw [h.shaped_right.names hf, ← h.null_eq, h.names]
    · rw [← h.null_eq]
      exact h.columns

theorem filter_filter_of_imp {α : Type} {p q : α → Bool} {xs : List α}
    (h : ∀ x ∈ xs, p x = true → q x = true) : (xs.filter q).filter p = xs.filter p := by
  rw [List.filter_filter]
  refine List.filter_congr fun x hx => ?_
  by_cases hp : p x = true
  · simp [hp, h x hx hp]
  · simp [hp]

/-- Where WHERE lets only rows of the tenant through, two evaluations finish alike. -/
theorem finishSelect_agree (h : Facts tenantId real s₁ s₂) (tail : String)
    (limit : Option Limit) {filter : Frame → Option (List Value)}
    (outputs : Frame → Option (List Value))
    (h₁ : ∀ f ∈ s₁.frames, holds (filter f) = true → frameOwned tenantId f = true)
    (h₂ : ∀ f ∈ s₂.frames, holds (filter f) = true → frameOwned tenantId f = true) :
    finishSelect e tail limit s₁ filter outputs =
      finishSelect e tail limit s₂ filter outputs := by
  have hpassed : s₁.frames.filter (fun f => holds (filter f)) =
      s₂.frames.filter fun f => holds (filter f) := by
    rw [← filter_filter_of_imp h₁, ← filter_filter_of_imp h₂, h.agree.filter_eq]
  simp only [finishSelect, h.null_eq, hpassed]

/-- The predicates look at the row alone. -/
theorem evalExprs_predicates (db₁ db₂ : Database) (real : List Table) :
    evalExprs e db₁ c (tenantPredicates tenantId real) =
      evalExprs e db₂ c (tenantPredicates tenantId real) := by
  have hall : ∀ xs : List Expr, (∀ x ∈ xs, ∃ name, x = tenantPredicate name tenantId) →
      evalExprs e db₁ c xs = evalExprs e db₂ c xs := by
    intro xs hxs
    induction xs with
    | nil => rw [evalExprs, evalExprs]
    | cons x xs ih =>
      obtain ⟨name, rfl⟩ := hxs x List.mem_cons_self
      rw [evalExprs, evalExprs, ih fun x hx => hxs x (List.mem_cons_of_mem _ hx)]
      simp only [tenantPredicate, evalExpr]
  refine hall _ fun x hx => ?_
  unfold tenantPredicates at hx
  extract_lets aliased at hx
  split at hx
  · cases hx
  split at hx
  · exact ⟨"", List.mem_singleton.mp hx⟩
  rcases List.mem_append.mp hx with hx | hx
  · obtain ⟨table, -, rfl⟩ := List.mem_map.mp hx
    exact ⟨table.aliasName, rfl⟩
  · split at hx
    · cases hx
    · exact ⟨"", List.mem_singleton.mp hx⟩

end LakeSqlSources
