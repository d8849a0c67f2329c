import Mathlib.Data.Int.Notation
import Mathlib.Data.Nat.Notation
import Mathlib.Tactic.SplitIfs
import AiSOC.TransitionSystem

/-! # Distributed osquery queries

A query is enqueued for one node, handed out to it while it is pending, and completed by the
results that a write request names it for. -/
namespace OsqueryDistributed

open TransitionSystem (System GuardedTrace runTrace guardedTrace_congr guardedTrace_iff_forall)

structure OsqueryNode where
  id : ℕ
  hostIdentifier : String
  nodeKey : String
  tenantID : String
  deriving DecidableEq

/-- The enrolled nodes, with the constraints of their table. -/
structure Registry where
  nodes : List OsqueryNode
  ids_nodup : (nodes.map OsqueryNode.id).Nodup
  keys_nodup : (nodes.map OsqueryNode.nodeKey).Nodup
  hosts_nodup : (nodes.map fun n => (n.hostIdentifier, n.tenantID)).Nodup

inductive QueryStatus where
  | pending | completed
  deriving DecidableEq, Repr

/-- `R` are the lists of result rows. -/
structure OsqueryDistributedQuery (R : Type) where
  nodeID : ℕ
  queryID : String
  queryText : String
  status : QueryStatus
  completedAt : Option ℤ
  resultsJSON : Option R

/-- The settings, the result rows that the database takes, and how a text is shown. -/
structure Config (R : Type) where
  requireClientCert : Bool
  stores : R → Bool
  repr : String → String

inductive Reply where
  | failed (status : ℕ) (detail : String)
  | enqueued (queryID : String)
  | queries (texts : List (String × String))
  | nodeValid
  deriving DecidableEq

variable {R : Type}

structure State (R : Type) where
  registry : Registry
  queries : List (OsqueryDistributedQuery R)

/-- A map from query ids to result rows. -/
structure DistributedWriteRequest (R : Type) where
  nodeKey : String
  queries : List (String × R)
  keys_nodup : (queries.map Prod.fst).Nodup

def getNodeByKey (registry : Registry) (nodeKey : String) : Option OsqueryNode :=
  registry.nodes.find? fun n => n.nodeKey == nodeKey

def getNodeByHost (registry : Registry) (hostIdentifier tenantID : String) :
    Option OsqueryNode :=
  registry.nodes.find? fun n => n.hostIdentifier == hostIdentifier && n.tenantID == tenantID

/-- The header `X-SSL-Client-CN` is empty where it is missing. -/
def requireValidNodeKey (config : Config R) (registry : Registry) (nodeKey : Option String)
    (clientCN : String) : Except Reply OsqueryNode :=
  match nodeKey.filter fun key => key ≠ "" with
  | none => .error (.failed 401 "node_key is required")
  | some key =>
    match getNodeByKey registry key with
    | none => .error (.failed 401 "node_invalid")
    | some node =>
      if config.requireClientCert && clientCN != node.hostIdentifier then
        .error (.failed 403 "client certificate CN does not match host_identifier")
      else .ok node

/-- The insertion fails if the new id is taken. -/
def enqueueQuery (queries : List (OsqueryDistributedQuery R)) (node : OsqueryNode)
    (queryText queryID : String) : Option (List (OsqueryDistributedQuery R)) :=
  if queries.any fun q => q.queryID == queryID then none
  else some (queries ++ [⟨node.id, queryID, queryText, .pending, none, none⟩])

def getPendingQueries (queries : List (OsqueryDistributedQuery R)) (node : OsqueryNode) :
    List (OsqueryDistributedQuery R) :=
  queries.filter fun q => q.nodeID == node.id && q.status == .pending

def OsqueryDistributedQuery.complete (results : R) (now : ℤ) (q : OsqueryDistributedQuery R) :
    OsqueryDistributedQuery R :=
  { q with status := .completed, completedAt := some now, resultsJSON := some results }

/-- The `UPDATE` names the row by the query id alone. -/
def completeQuery (queries : List (OsqueryDistributedQuery R)) (queryID : String) (results : R)
    (now : ℤ) : List (OsqueryDistributedQuery R) :=
  queries.map fun q => if q.queryID = queryID then q.complete results now else q

/-- Each query is committed on its own; the first one that the database refuses ends the
request. -/
def completeAll (config : Config R) (now : String → ℤ) :
    List (OsqueryDistributedQuery R) → List (String × R) →
      List (OsqueryDistributedQuery R) × Reply
  | queries, [] => (queries, .nodeValid)
  | queries, (queryID, rows) :: rest =>
    if config.stores rows then
      completeAll config now (completeQuery queries queryID rows (now queryID)) rest
    else (queries, .failed 500 "Internal Server Error")

def distributedEnqueue (config : Config R) (s : State R)
    (hostIdentifier tenantID queryText queryID : String) : State R × Reply :=
  match getNodeByHost s.registry hostIdentifier tenantID with
  | none => (s, .failed 404 ("Node " ++ config.repr hostIdentifier ++
      " not enrolled for tenant " ++ config.repr tenantID))
  | some node =>
    match enqueueQuery s.queries node queryText queryID with
    | none => (s, .failed 500 "Internal Server Error")
    | some queries => ({ s with queries := queries }, .enqueued queryID)

def distributedRead (config : Config R) (s : State R) (nodeKey : Option String)
    (clientCN : String) : State R × Reply :=
  match requireValidNodeKey config s.registry nodeKey clientCN with
  | .error reply => (s, reply)
  | .ok node =>
    (s, .queries ((getPendingQueries s.queries node).map fun q => (q.queryID, q.queryText)))

/-- `now` tells when each query is completed. -/
def distributedWrite (config : Config R) (s : State R) (clientCN : String)
    (body : DistributedWriteRequest R) (now : String → ℤ) : State R × Reply :=
  match requireValidNodeKey config s.registry (some body.nodeKey) clientCN with
  | .error reply => (s, reply)
  | .ok _ =>
    let (queries, reply) := completeAll config now s.queries body.queries
    ({ s with queries := queries }, reply)

inductive Request (R : Type) where
  | enqueue (hostIdentifier tenantID queryText queryID : String)
  | read (nodeKey : Option String) (clientCN : String)
  | write (clientCN : String) (body : DistributedWriteRequest R) (now : String → ℤ)

def handle (config : Config R) (s : State R) : Request R → State R × Reply
  | .enqueue hostIdentifier tenantID queryText queryID =>
    distributedEnqueue config s hostIdentifier tenantID queryText queryID
  | .read nodeKey clientCN => distributedRead config s nodeKey clientCN
  | .write clientCN body now => distributedWrite config s clientCN body now

def system (config : Config R) : System (State R) (Request R) where
  start _ := True
  next s e := some (handle config s e).1

/-! ## What a request does to a row -/

def State.query (s : State R) (queryID : String) : Option (OsqueryDistributedQuery R) :=
  s.queries.find? fun q => q.queryID == queryID

/-- The node that a write is authenticated as. -/
def Request.writer (config : Config R) (s : State R) : Request R → Option OsqueryNode
  | .write clientCN body _ =>
    (requireValidNodeKey config s.registry (some body.nodeKey) clientCN).toOption
  | _ => none

/-- The queries of a write up to the first one that is refused. -/
def performed (config : Config R) (queries : List (String × R)) : List (String × R) :=
  queries.takeWhile fun q => config.stores q.2

/-- What a request completes. -/
def Request.completes (config : Config R) (s : State R) (e : Request R) (queryID : String) :
    Option (R × ℤ) :=
  match e with
  | .write _ body now =>
    if (e.writer config s).isSome then
      ((performed config body.queries).lookup queryID).map fun rows => (rows, now queryID)
    else none
  | _ => none

variable {config : Config R} {s t : State R} {e : Request R} {k : String}
  {row : OsqueryDistributedQuery R}

theorem find?_completeQuery (queries : List (OsqueryDistributedQuery R)) (queryID : String)
    (rows : R) (now : ℤ) :
    (completeQuery queries queryID rows now).find? (fun q => q.queryID == k) =
      (queries.find? fun q => q.queryID == k).map fun q =>
        if k = queryID then q.complete rows now else q := by
  induction queries with
  | nil => rfl
  | cons q queries ih =>
    rw [completeQuery, List.map_cons, List.find?_cons, List.find?_cons]
    have hid : (if q.queryID = queryID then q.complete rows now else q).queryID = q.queryID := by
      split_ifs <;> rfl
    rw [hid]
    by_cases hk : q.queryID = k
    · rw [hk, beq_self_eq_true]
      rfl
    · rw [beq_eq_false_iff_ne.mpr hk]
      exact ih

/-- Each query is completed at most once. -/
theorem find?_completeAll (now : String → ℤ) {items : List (String × R)}
    (hnodup : (items.map Prod.fst).Nodup) (queries : List (OsqueryDistributedQuery R)) :
    (completeAll config now queries items).1.find? (fun q => q.queryID == k) =
      (queries.find? fun q => q.queryID == k).map fun q =>
        match (performed config items).lookup k with
        | some rows => q.complete rows (now k)
        | none => q := by
  induction items generalizing queries with
  | nil =>
    rw [completeAll]
    exact Option.map_id'.symm
  | cons item items ih =>
    obtain ⟨queryID, rows⟩ := item
    rw [List.map_cons, List.nodup_cons] at hnodup
    rw [completeAll, performed, List.takeWhile_cons]
    by_cases hstores : config.stores rows = true
    · rw [if_pos hstores, if_pos hstores, ih hnodup.2, find?_completeQuery, Option.map_map,
        List.lookup_cons]
      by_cases hk : k = queryID
      · have hnone : (performed config items).lookup k = none := by
          rw [hk, List.lookup_eq_none_iff]
          intro item hitem
          have hmem : item ∈ items := (List.takeWhile_sublist _).subset hitem
          rw [bne_iff_ne]
          have hkey : item.1 ∈ items.map Prod.fst := List.mem_map_of_mem hmem
          intro heq
          exact hnodup.1 (heq ▸ hkey)
        rw [hnone, hk, beq_self_eq_true]
        congr 1
        funext q
        exact if_pos rfl
      · rw [beq_eq_false_iff_ne.mpr hk]
        congr 1
        funext q
        rw [Function.comp_apply, if_neg hk]
        rfl
    · rw [if_neg hstores, if_neg hstores]
      exact Option.map_id'.symm

theorem query_handle (h : s.query k = some row) :
    (handle config s e).1.query k = some
      (match e.completes config s k with
        | some (rows, now) => row.complete rows now
        | none => row) := by
  cases e with
  | enqueue hostIdentifier tenantID queryText queryID =>
    change (distributedEnqueue config s hostIdentifier tenantID queryText queryID).1.query k =
      some row
    rw [distributedEnqueue]
    split
    · exact h
    · rw [enqueueQuery]
      split_ifs
      · exact h
      · rw [State.query] at h ⊢
        rw [List.find?_append, h]
        rfl
  | read nodeKey clientCN =>
    change (distributedRead config s nodeKey clientCN).1.query k = some row
    rw [distributedRead]
    split
    · exact h
    · exact h
  | write clientCN body now =>
    rw [handle, distributedWrite, Request.completes, Request.writer]
    split
    · rename_i hauth
      rw [hauth]
      exact h
    · rename_i hauth
      rw [hauth]
      change (completeAll config now s.queries body.queries).1.find? (fun q => q.queryID == k) = _
      rw [State.query] at h
      rw [find?_completeAll now body.keys_nodup, h]
      dsimp only [Except.toOption]
      cases (performed config body.queries).lookup k with
      | none => rfl
      | some rows => rfl

/-! ## Results belong to their node -/

/-- A query is completed only by a write of its node, and what is completed keeps its results. -/
def Owned (config : Config R) (s : State R) (e : Request R) (t : State R) : Prop :=
  ∀ k row, s.query k = some row → ∃ row', t.query k = some row' ∧
    (row.status = .pending → row'.status = .completed →
      ∃ node, e.writer config s = some node ∧ node.id = row.nodeID) ∧
    (row.status = .completed → row'.status = .completed ∧ row'.resultsJSON = row.resultsJSON)

/-- What a write names is pending and enqueued for the node that sends it, or completed with the
same results. -/
def Honest (config : Config R) (s : State R) (e : Request R) : Prop :=
  ∀ k rows now, e.completes config s k = some (rows, now) → ∀ row, s.query k = some row →
    (row.status = .pending → ∃ node, e.writer config s = some node ∧ node.id = row.nodeID) ∧
      (row.status = .completed → row.resultsJSON = some rows)

theorem owned_iff_honest : Owned config s e (handle config s e).1 ↔ Honest config s e := by
  constructor
  · intro h k rows now hcompletes row hrow
    obtain ⟨row', hrow', hpending, hcompleted⟩ := h k row hrow
    rw [query_handle hrow, hcompletes] at hrow'
    obtain rfl := Option.some.inj hrow'
    exact ⟨fun hp => hpending hp rfl, fun hc => (hcompleted hc).2.symm⟩
  · intro h k row hrow
    refine ⟨_, query_handle hrow, ?_⟩
    rcases hcompletes : e.completes config s k with - | ⟨rows, now⟩
    · refine ⟨?_, fun hc => ⟨hc, rfl⟩⟩
      intro hp hc
      rw [hp] at hc
      cases hc
    · obtain ⟨hpending, hcompleted⟩ := h k rows now hcompletes row hrow
      exact ⟨fun hp _ => hpending hp, fun hc => ⟨rfl, (hcompleted hc).symm⟩⟩

/-- At every point of a run the next request respects the nodes exactly if every request is honest
where it arrives. -/
theorem results_belong_iff (config : Config R) (start : State R) (es : List (Request R)) :
    (∀ before e after, es = before ++ e :: after →
      ∀ s, runTrace (system config) start before = some s →
        Owned config s e (handle config s e).1) ↔
      GuardedTrace (system config) (Honest config) start es := by
  rw [guardedTrace_iff_forall]
  simp only [owned_iff_honest]

/-! ### A hostile node -/

def fleet : Registry where
  nodes := [⟨1, "web-1", "key-1", "acme"⟩, ⟨2, "laptop", "key-2", "other"⟩]
  ids_nodup := by decide
  keys_nodup := by decide
  hosts_nodup := by decide

def forged : DistributedWriteRequest String where
  nodeKey := "key-2"
  queries := [("q-1", "[]")]
  keys_nodup := by decide

/-- A node of another tenant answers for the one that was asked. -/
theorem foreign_node_completes :
    ¬ ∀ (config : Config String) (start : State String) (es : List (Request String)),
      ∀ before e after, es = before ++ e :: after →
        ∀ s, runTrace (system config) start before = some s →
          Owned config s e (handle config s e).1 := by
  intro h
  have howned := h ⟨false, fun _ => true, id⟩ ⟨fleet, []⟩ _
    [.enqueue "web-1" "acme" "SELECT * FROM users" "q-1"] (.write "" forged fun _ => 7) [] rfl _ rfl
  obtain ⟨row, hrow, hpending, -⟩ := howned "q-1" _ rfl
  obtain rfl := Option.some.inj hrow
  obtain ⟨node, hnode, hid⟩ := hpending rfl rfl
  obtain rfl := Option.some.inj hnode
  exact absurd hid (by decide)

end OsqueryDistributed
