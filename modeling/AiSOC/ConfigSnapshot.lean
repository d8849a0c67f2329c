import AiSOC.ConfigCache
import AiSOC.GraphExtractor
import AiSOC.TransitionSystem

/-! # Configuration snapshots of the resources of an event

Calls of `Apply` run in pods that share one store; a round of the loop over the resources of an
event is a step, so the rounds of different calls come in any order. The provider may change its
answers between any two steps. -/
namespace ConfigSnapshot

open GraphExtractor (Object Node Edge Event NodeLabel getString)
open ConfigCache
open TransitionSystem (System GuardedTrace runTrace guardedTrace_iff)

inductive Answer where
  | config (data : Object)
  | absent
  | notImplemented
  | failed

/-- The answer for a connector, a resource and an instant; the tenant is not asked for. -/
abbrev Provider := String → String → ℤ → Answer

/-- One entry of a history. -/
structure Snapshot where
  recorded : ℤ
  data : Option Object

def Snapshot.answer (s : Snapshot) : Answer := s.data.elim .absent .config

/-- The fixture provider, whose histories ascend. -/
def staticProvider (configs : String → String → List Snapshot) : Provider :=
  fun connectorID resourceID ts =>
    match configs connectorID resourceID with
    | [] => .notImplemented
    | first :: rest =>
      (((first :: rest).reverse.find? fun s => ¬ts < s.recorded).getD first).answer

/-- On an ascending history with an entry at or before `ts`, the answer is that of the last one. -/
theorem staticProvider_effective {configs : String → String → List Snapshot} {c id : String}
    {ts : ℤ} (hsorted : (configs c id).Pairwise fun a b => a.recorded ≤ b.recorded)
    (hsome : ∃ e ∈ configs c id, e.recorded ≤ ts) :
    ∃ e ∈ configs c id, staticProvider configs c id ts = e.answer ∧ e.recorded ≤ ts ∧
      ∀ e' ∈ configs c id, e'.recorded ≤ ts → e'.recorded ≤ e.recorded := by
  obtain ⟨early, hearly, hts⟩ := hsome
  rw [staticProvider]
  cases hhistory : configs c id with
  | nil =>
    rw [hhistory] at hearly
    cases hearly
  | cons first rest =>
    rw [hhistory] at hsorted hearly
    have hfind : ((first :: rest).reverse.find? fun e => ¬ts < e.recorded).isSome :=
      List.find?_isSome.mpr
        ⟨early, List.mem_reverse.mpr hearly, decide_eq_true (not_lt.mpr hts)⟩
    obtain ⟨e, he⟩ := Option.isSome_iff_exists.mp hfind
    obtain ⟨hle, later, earlier, hsplit, hlater⟩ := List.find?_eq_some_iff_append.mp he
    have horder := List.pairwise_reverse.mpr hsorted
    rw [hsplit] at horder
    refine ⟨e, List.mem_reverse.mp (List.mem_of_find?_eq_some he), ?_, ?_, ?_⟩
    · exact congrArg (fun o => (Option.getD o first).answer) he
    · exact not_lt.mp (of_decide_eq_true hle)
    · intro e' he' hts'
      rw [← List.mem_reverse, hsplit] at he'
      rcases List.mem_append.mp he' with hmem | hmem
      · exact absurd (decide_eq_true (not_lt.mpr hts')) (by simpa using hlater e' hmem)
      · rcases List.mem_cons.mp hmem with rfl | hmem
        · exact le_refl _
        · exact (List.pairwise_cons.mp (List.pairwise_append.mp horder).2.1).1 e' hmem

structure Request where
  tenantID : String
  connectorID : String
  resourceID : String
  ts : ℤ
  deriving DecidableEq

def Request.key (lib : Library) (ttl : ℤ) (r : Request) : String :=
  cacheKey lib r.connectorID r.resourceID r.ts ttl

/-- What the caches hold. The lookup that fetched a configuration is kept for the results only:
no function reads it. -/
structure Fetched where
  config : Object
  request : Request

inductive Source where
  | cache
  | provider
  deriving DecidableEq

def Source.text : Source → String
  | .cache => "cache"
  | .provider => "provider"

structure Stats where
  hits : ℕ
  misses : ℕ
  errors : ℕ
  skipped : ℕ
  attached : ℕ

structure Snapshotter where
  cache : RedisCache Fetched
  stats : Stats

structure Fetching where
  found : Option (Fetched × Source)
  snapshotter : Snapshotter
  redis : Redis Fetched

def fetch (lib : Library) (ttl : ℤ) (provider : Provider) (s : Snapshotter)
    (redis : Redis Fetched) (r : Request) (x : Circumstances) : Fetching :=
  match s.cache.get redis ttl (r.key lib ttl) x with
  | (.hit f, cache) => ⟨some (f, .cache), { s with cache := cache }, redis⟩
  -- an error of the cache counts as a miss
  | (_, cache) =>
    match provider r.connectorID r.resourceID r.ts with
    | .config data =>
      let written := cache.set redis ttl (r.key lib ttl) ⟨data, r⟩ x
      ⟨some (⟨data, r⟩, .provider), { s with cache := written.1 }, written.2⟩
    | .failed =>
      ⟨none, ⟨cache, { s.stats with errors := s.stats.errors + 1 }⟩, redis⟩
    | _ => ⟨none, ⟨cache, { s.stats with skipped := s.stats.skipped + 1 }⟩, redis⟩

structure ResourceRef where
  naturalKey : String
  resourceID : String
  connectorID : String
  deriving DecidableEq

def connectorIDForEvent (ev : Event) : String :=
  ((ev.nodes.map fun n => getString n.properties ["provider"]).find? (· ≠ "")).getD ""

def hasConfiguration (label : NodeLabel) : Bool :=
  label = .resource || label = .repo || label = .saasApp || label = .serviceAccount

/-- The connector's own name of a resource, under the first property that has one. -/
def resourceIDOf (n : Node) : String :=
  ((["arn", "full_name", "id", "name"].map fun k => getString n.properties [k]).find?
    (· ≠ "")).getD ""

/-- A natural key is seen also where its first node has no resource id. -/
def collectRefs (connectorID : String) : List String → List Node → List ResourceRef
  | _, [] => []
  | seen, n :: ns =>
    if hasConfiguration n.label then
      if n.naturalKey ∈ seen then collectRefs connectorID seen ns
      else if resourceIDOf n = "" then collectRefs connectorID (n.naturalKey :: seen) ns
      else ⟨n.naturalKey, resourceIDOf n, connectorID⟩ ::
        collectRefs connectorID (n.naturalKey :: seen) ns
    else collectRefs connectorID seen ns

def resourceRefsFromEvent (ev : Event) (connectorID : String) : List ResourceRef :=
  collectRefs connectorID [] ev.nodes

def configurationKey (lib : Library) (tenantID resourceKey : String) (ts ttl : ℤ) : String :=
  "config:" ++ tenantID ++ ":" ++
    shortDigest lib (resourceKey ++ ":" ++ lib.formatRFC3339 (bucket ts ttl))

/-- A configuration that `Apply` attaches. -/
structure Attachment where
  tenantID : String
  ts : ℤ
  ref : ResourceRef
  fetched : Fetched
  source : Source

/-- The lookup that the attachment is the result of. -/
def Attachment.request (a : Attachment) : Request :=
  ⟨a.tenantID, a.ref.connectorID, a.ref.resourceID, a.ts⟩

def Attachment.key (lib : Library) (ttl : ℤ) (a : Attachment) : String :=
  configurationKey lib a.tenantID a.ref.naturalKey a.ts ttl

def Attachment.node (lib : Library) (ttl : ℤ) (a : Attachment) : Node where
  label := .configuration
  naturalKey := a.key lib ttl
  tenantID := a.tenantID
  properties :=
    [("resource_natural_key", .str a.ref.naturalKey), ("resource_id", .str a.ref.resourceID),
      ("connector_id", .str a.ref.connectorID),
      ("recorded_at", .str (lib.formatRFC3339Nano a.ts)), ("config", .map a.fetched.config),
      ("source", .str a.source.text)]

/-- The edge leaves a `:Resource`, whatever the label of the node. -/
def Attachment.edge (lib : Library) (ttl : ℤ) (a : Attachment) : Edge where
  type := .configuredAs
  fromLabel := .resource
  fromKey := a.ref.naturalKey
  toLabel := .configuration
  toKey := a.key lib ttl
  properties :=
    [("ts", .str (lib.formatRFC3339Nano a.ts)), ("connector_id", .str a.ref.connectorID)]

/-- A call of `Apply` in its loop: the event so far and the resources still to look up. -/
structure Work where
  event : Event
  refs : List ResourceRef
  digestParts : List String

/-- `none` where `Apply` returns before its loop. -/
def Work.begin (ev : Event) : Option Work :=
  let connectorID := connectorIDForEvent ev
  if ev.nodes.isEmpty ∨ connectorID = "" then none
  else
    match resourceRefsFromEvent ev connectorID with
    | [] => none
    | refs => some ⟨ev, refs, []⟩

def Work.attach (lib : Library) (ttl : ℤ) (w : Work) (a : Attachment) : Work :=
  { w with
    event := { w.event with
      nodes := w.event.nodes ++ [a.node lib ttl]
      edges := w.event.edges ++ [a.edge lib ttl] }
    digestParts := w.digestParts ++ [a.key lib ttl] }

def Work.finish (lib : Library) (w : Work) : Event :=
  if w.digestParts.isEmpty ∨ w.event.snapshotID ≠ "" then w.event
  else
    let sorted := w.digestParts.mergeSort fun a b => a ≤ b
    { w.event with snapshotID := shortDigest lib ("[" ++ " ".intercalate sorted ++ "]") }

def Snapshotter.count (s : Snapshotter) : Option Source → Snapshotter
  | none => s
  | some .cache => { s with stats :=
      { s.stats with attached := s.stats.attached + 1, hits := s.stats.hits + 1 } }
  | some .provider => { s with stats :=
      { s.stats with attached := s.stats.attached + 1, misses := s.stats.misses + 1 } }

/-- The janitor of the pod's memory. -/
def Snapshotter.tick (s : Snapshotter) (now : ℤ) : Snapshotter :=
  { s with cache := { s.cache with fallback := s.cache.fallback.evict now } }

structure Call where
  pod : ℕ
  given : Event
  work : Work

/-- `attached` and `versions` remember what was attached and how the provider answered over
time, and `finished` pairs an event with what `Apply` made of it. -/
structure State where
  pods : ℕ → Snapshotter
  redis : Redis Fetched
  calls : ℕ → Option Call
  provider : Provider
  versions : List Provider
  attached : List Attachment
  finished : List (Event × Event)

inductive Act where
  | change (provider : Provider)
  | call (worker pod : ℕ) (ev : Event)
  | visit (worker : ℕ) (x : Circumstances)
  | finish (worker : ℕ)
  | tick (pod : ℕ) (now : ℤ)
  | restart (pod : ℕ) (client : Bool)
  | evict (key : String)

def freshSnapshotter (client : Bool) : Snapshotter :=
  ⟨⟨client, fun _ => none⟩, ⟨0, 0, 0, 0, 0⟩⟩

/-- One round of the loop. -/
def State.visit (lib : Library) (ttl : ℤ) (s : State) (worker : ℕ) (x : Circumstances) :
    Option State :=
  match s.calls worker with
  | none => none
  | some call =>
    match call.work.refs with
    | [] => none
    | ref :: refs =>
      let ev := call.work.event
      let r : Request := ⟨ev.tenantID, ref.connectorID, ref.resourceID, ev.ts⟩
      let got := fetch lib ttl s.provider (s.pods call.pod) s.redis r x
      let made := got.found.map fun found => ⟨ev.tenantID, ev.ts, ref, found.1, found.2⟩
      let work := { call.work with refs := refs }
      some { s with
        pods := Function.update s.pods call.pod (got.snapshotter.count (got.found.map Prod.snd))
        redis := got.redis
        calls := Function.update s.calls worker
          (some { call with work := made.elim work (work.attach lib ttl) })
        attached := s.attached ++ made.toList }

def State.next (lib : Library) (ttl : ℤ) (s : State) : Act → Option State
  | .change provider =>
    some { s with provider := provider, versions := s.versions ++ [provider] }
  | .call worker pod ev =>
    if (s.calls worker).isSome then none
    else
      match Work.begin ev with
      | none => some { s with finished := s.finished ++ [(ev, ev)] }
      | some w => some { s with calls := Function.update s.calls worker (some ⟨pod, ev, w⟩) }
  | .visit worker x => s.visit lib ttl worker x
  | .finish worker =>
    match s.calls worker with
    | none => none
    | some call =>
      if call.work.refs.isEmpty then
        some { s with
          calls := Function.update s.calls worker none
          finished := s.finished ++ [(call.given, call.work.finish lib)] }
      else none
  | .tick pod now =>
    some { s with pods := Function.update s.pods pod ((s.pods pod).tick now) }
  | .restart pod client =>
    some { s with
      pods := Function.update s.pods pod (freshSnapshotter client)
      calls := fun worker => (s.calls worker).filter fun call => call.pod ≠ pod }
  | .evict key => some { s with redis := Function.update s.redis key none }

def initial (clients : ℕ → Bool) (provider : Provider) : State where
  pods pod := freshSnapshotter (clients pod)
  redis _ := none
  calls _ := none
  provider := provider
  versions := [provider]
  attached := []
  finished := []

def system (lib : Library) (ttl : ℤ) : System State Act where
  start s := ∃ clients provider, s = initial clients provider
  next := State.next lib ttl

/-! ## One round of the loop -/

variable {lib : Library} {ttl : ℤ} {provider : Provider} {p : Snapshotter} {redis : Redis Fetched}
  {r : Request} {x : Circumstances} {s t : State} {worker : ℕ}

/-- The three ends of a lookup: a hit, nothing, and an answer of the provider, which is stored. -/
theorem fetch_cases (lib : Library) (ttl : ℤ) (provider : Provider) (p : Snapshotter)
    (redis : Redis Fetched) (r : Request) (x : Circumstances) :
    let got := fetch lib ttl provider p redis r x
    let read := p.cache.get redis ttl (r.key lib ttl) x
    (∃ f, read.1 = .hit f ∧ got.found = some (f, .cache) ∧ got.snapshotter.cache = read.2 ∧
      got.redis = redis) ∨
    ((∀ f, read.1 ≠ .hit f) ∧ got.found = none ∧ got.snapshotter.cache = read.2 ∧
      got.redis = redis) ∨
    ((∀ f, read.1 ≠ .hit f) ∧ ∃ data,
      let written := read.2.set redis ttl (r.key lib ttl) ⟨data, r⟩ x
      provider r.connectorID r.resourceID r.ts = .config data ∧
      got.found = some (⟨data, r⟩, .provider) ∧ got.snapshotter.cache = written.1 ∧
      got.redis = written.2) := by
  intro got read
  have hmiss : (∀ f, read.1 ≠ .hit f) → got =
      match provider r.connectorID r.resourceID r.ts with
      | .config data =>
        let written := read.2.set redis ttl (r.key lib ttl) ⟨data, r⟩ x
        ⟨some (⟨data, r⟩, .provider), { p with cache := written.1 }, written.2⟩
      | .failed => ⟨none, ⟨read.2, { p.stats with errors := p.stats.errors + 1 }⟩, redis⟩
      | _ => ⟨none, ⟨read.2, { p.stats with skipped := p.stats.skipped + 1 }⟩, redis⟩ := by
    intro hne
    rcases hread : read with ⟨f | _ | _, cache⟩
    · exact absurd (congrArg Prod.fst hread) (hne f)
    · simp only [got, fetch, read] at hread ⊢
      rw [hread]
    · simp only [got, fetch, read] at hread ⊢
      rw [hread]
  by_cases hhit : ∃ f, read.1 = .hit f
  · left
    obtain ⟨f, hf⟩ := hhit
    have hgot : got = ⟨some (f, .cache), { p with cache := read.2 }, redis⟩ := by
      have hread : read = (.hit f, read.2) := by rw [← hf]
      simp only [got, fetch, read] at hread ⊢
      rw [hread]
    exact ⟨f, hf, by rw [hgot], by rw [hgot], by rw [hgot]⟩
  · have hne := not_exists.mp hhit
    right
    have hgot := hmiss hne
    cases hanswer : provider r.connectorID r.resourceID r.ts with
    | config data =>
      rw [hanswer] at hgot
      exact Or.inr ⟨hne, data, rfl, by rw [hgot], by rw [hgot], by rw [hgot]⟩
    | absent | notImplemented | failed =>
      rw [hanswer] at hgot
      exact Or.inl ⟨hne, by rw [hgot], by rw [hgot], by rw [hgot]⟩

@[simp] theorem count_cache (p : Snapshotter) (source : Option Source) :
    (p.count source).cache = p.cache := by
  rcases source with _ | _ | _ <;> rfl

/-- The pod and the lookup of the next round. -/
def State.lookup (s : State) (worker : ℕ) : Option (ℕ × Request) :=
  match s.calls worker with
  | none => none
  | some call => call.work.refs.head?.map fun ref =>
    (call.pod, ⟨call.work.event.tenantID, ref.connectorID, ref.resourceID, call.work.event.ts⟩)

/-- What a round changes but for the call itself: the cache of its pod, the shared store, and by
at most one the attachments. -/
theorem visit_spec (h : s.visit lib ttl worker x = some t) :
    ∃ pod r, s.lookup worker = some (pod, r) ∧
      t.provider = s.provider ∧ t.versions = s.versions ∧
      let got := fetch lib ttl s.provider (s.pods pod) s.redis r x
      t.redis = got.redis ∧
      (∀ q, (t.pods q).cache = if q = pod then got.snapshotter.cache else (s.pods q).cache) ∧
      ∃ added, t.attached = s.attached ++ added ∧
        (got.found = none → added = []) ∧
        ∀ f source, got.found = some (f, source) →
          ∃ a, added = [a] ∧ a.request = r ∧ a.fetched = f ∧ a.source = source := by
  rw [State.visit] at h
  cases hcall : s.calls worker with
  | none =>
    rw [hcall] at h
    cases h
  | some call =>
    rw [hcall] at h
    cases hrefs : call.work.refs with
    | nil =>
      simp only [hrefs] at h
      cases h
    | cons ref refs =>
      simp only [hrefs] at h
      obtain rfl := Option.some.inj h
      refine ⟨call.pod, ⟨call.work.event.tenantID, ref.connectorID, ref.resourceID,
        call.work.event.ts⟩, ?_, rfl, rfl, rfl, ?_, _, rfl, ?_, ?_⟩
      · rw [State.lookup, hcall]
        simp only [hrefs, List.head?_cons, Option.map_some]
      · intro q
        by_cases hq : q = call.pod
        · rw [if_pos hq, hq]
          simp only [Function.update_self, count_cache]
        · rw [if_neg hq]
          simp only [Function.update_of_ne hq]
      · intro hnone
        simp only [hnone, Option.map_none, Option.toList_none]
      · intro f source hfound
        simp only [hfound, Option.map_some, Option.toList_some]
        exact ⟨_, rfl, rfl, rfl, rfl⟩

/-! ## What the caches hold -/

/-- An entry was fetched by a lookup under its own key whose result was attached. -/
def Known (lib : Library) (ttl : ℤ) (attached : List Attachment) (key : String) (f : Fetched) :
    Prop := f.request.key lib ttl = key ∧ ∃ a ∈ attached, a.source = .provider ∧ a.fetched = f

theorem Known.append {attached added : List Attachment} {key : String} {f : Fetched}
    (h : Known lib ttl attached key f) : Known lib ttl (attached ++ added) key f := by
  obtain ⟨hkey, a, ha, hsource, hfetched⟩ := h
  exact ⟨hkey, a, List.mem_append_left _ ha, hsource, hfetched⟩

/-- Whether an attachment has its configuration from the provider, under the key of its lookup. -/
structure Attachment.Genuine (lib : Library) (ttl : ℤ) (versions : List Provider)
    (a : Attachment) : Prop where
  own : a.source = .provider → a.fetched.request = a.request
  keyed : a.fetched.request.key lib ttl = a.request.key lib ttl
  answered : ∃ provider ∈ versions,
    provider a.fetched.request.connectorID a.fetched.request.resourceID a.fetched.request.ts =
      .config a.fetched.config

structure Invariant (lib : Library) (ttl : ℤ) (s : State) : Prop where
  current : s.provider ∈ s.versions
  memory : ∀ pod, (s.pods pod).cache.fallback.All (Known lib ttl s.attached)
  redis : RedisAll (Known lib ttl s.attached) s.redis
  genuine : ∀ a ∈ s.attached, a.Genuine lib ttl s.versions

theorem Attachment.Genuine.append {versions more : List Provider} {a : Attachment}
    (h : a.Genuine lib ttl versions) : a.Genuine lib ttl (versions ++ more) := by
  obtain ⟨provider, hprovider, hanswer⟩ := h.answered
  exact ⟨h.own, h.keyed, provider, List.mem_append_left _ hprovider, hanswer⟩

theorem invariant_initial (clients : ℕ → Bool) (provider : Provider) :
    Invariant lib ttl (initial clients provider) where
  current := List.mem_singleton_self _
  memory _ := nofun
  redis := nofun
  genuine := nofun

theorem Invariant.visit (hi : Invariant lib ttl s) (h : s.visit lib ttl worker x = some t) :
    Invariant lib ttl t := by
  obtain ⟨pod, r, -, hprovider, hversions, hredis, hcache, added, hattached, hnone, hsome⟩ :=
    visit_spec h
  obtain ⟨hread, hkept⟩ : (∀ f, ((s.pods pod).cache.get s.redis ttl (r.key lib ttl) x).1 = .hit f →
      Known lib ttl s.attached (r.key lib ttl) f) ∧
    ((s.pods pod).cache.get s.redis ttl (r.key lib ttl) x).2.fallback.All
      (Known lib ttl s.attached) := RedisCache.get_all (hi.memory pod) hi.redis
  have hgrow : ∀ k f, Known lib ttl s.attached k f → Known lib ttl (s.attached ++ added) k f :=
    fun k f hf => hf.append
  suffices hnew : (fetch lib ttl s.provider (s.pods pod) s.redis r x).snapshotter.cache.fallback.All
        (Known lib ttl (s.attached ++ added)) ∧
      RedisAll (Known lib ttl (s.attached ++ added))
        (fetch lib ttl s.provider (s.pods pod) s.redis r x).redis ∧
      ∀ a ∈ added, a.Genuine lib ttl s.versions by
    constructor
    · rw [hprovider, hversions]
      exact hi.current
    · intro q
      rw [hattached, hcache q]
      split_ifs
      · exact hnew.1
      · exact (hi.memory q).imp hgrow
    · rw [hattached, hredis]
      exact hnew.2.1
    · rw [hattached, hversions]
      intro a ha
      rcases List.mem_append.mp ha with ha | ha
      · exact hi.genuine a ha
      · exact hnew.2.2 a ha
  rcases fetch_cases lib ttl s.provider (s.pods pod) s.redis r x with
    ⟨f, hhit, hfound, hcache', hredis'⟩ | ⟨-, hfound, hcache', hredis'⟩ |
      ⟨-, data, hanswer, hfound, hcache', hredis'⟩
  · obtain ⟨a, rfl, hrequest, hfetched, hsource⟩ := hsome _ _ hfound
    obtain ⟨hkey, b, hb, -, hbf⟩ := hread f hhit
    rw [hcache', hredis']
    refine ⟨hkept.imp hgrow, hi.redis.imp hgrow, List.forall_mem_singleton.mpr ?_⟩
    constructor
    · intro hprovider'
      rw [hsource] at hprovider'
      cases hprovider'
    · rw [hfetched, hrequest, hkey]
    · rw [hfetched, ← hbf]
      exact (hi.genuine b hb).answered
  · obtain rfl := hnone hfound
    rw [hcache', hredis']
    exact ⟨hkept.imp hgrow, hi.redis.imp hgrow, nofun⟩
  · obtain ⟨a, rfl, hrequest, hfetched, hsource⟩ := hsome _ _ hfound
    have hknown : Known lib ttl (s.attached ++ [a]) (r.key lib ttl) ⟨data, r⟩ :=
      ⟨rfl, a, List.mem_append_right _ List.mem_cons_self, hsource, hfetched⟩
    rw [hcache', hredis', ← and_assoc]
    refine ⟨RedisCache.set_all (hkept.imp hgrow) (hi.redis.imp hgrow) hknown,
      List.forall_mem_singleton.mpr ?_⟩
    constructor
    · intro _
      rw [hfetched, hrequest]
    · rw [hfetched, hrequest]
    · rw [hfetched]
      exact ⟨s.provider, hi.current, hanswer⟩

/-- Steps other than a round keep the attachments and drop entries at most. -/
theorem Invariant.next (hi : Invariant lib ttl s) {e : Act} (h : s.next lib ttl e = some t) :
    Invariant lib ttl t := by
  cases e with
  | visit worker x => exact hi.visit h
  | change provider =>
    obtain rfl := Option.some.inj h
    exact ⟨List.mem_append_right _ List.mem_cons_self, hi.memory, hi.redis,
      fun a ha => (hi.genuine a ha).append⟩
  | call worker pod ev =>
    rw [State.next] at h
    split_ifs at h
    split at h
    · obtain rfl := Option.some.inj h
      exact ⟨hi.current, hi.memory, hi.redis, hi.genuine⟩
    · obtain rfl := Option.some.inj h
      exact ⟨hi.current, hi.memory, hi.redis, hi.genuine⟩
  | finish worker =>
    rw [State.next] at h
    split at h
    · cases h
    · split_ifs at h
      obtain rfl := Option.some.inj h
      exact ⟨hi.current, hi.memory, hi.redis, hi.genuine⟩
  | tick pod now =>
    obtain rfl := Option.some.inj h
    refine ⟨hi.current, ?_, hi.redis, hi.genuine⟩
    intro q
    by_cases hq : q = pod
    · simp only [hq, Function.update_self]
      exact (hi.memory pod).evict
    · simp only [Function.update_of_ne hq]
      exact hi.memory q
  | restart pod client =>
    obtain rfl := Option.some.inj h
    refine ⟨hi.current, ?_, hi.redis, hi.genuine⟩
    intro q
    by_cases hq : q = pod
    · simp only [hq, Function.update_self]
      exact nofun
    · simp only [Function.update_of_ne hq]
      exact hi.memory q
  | evict key =>
    obtain rfl := Option.some.inj h
    exact ⟨hi.current, hi.memory, update_all hi.redis nofun, hi.genuine⟩

theorem invariant_runTrace {es : List Act} (hs : (system lib ttl).start s)
    (hr : runTrace (system lib ttl) s es = some t) : Invariant lib ttl t := by
  obtain ⟨clients, provider, rfl⟩ := hs
  apply TransitionSystem.runTrace_keeps (Q := fun _ => True) ?_ (invariant_initial clients provider)
    (fun _ _ => trivial) hr
  intro s e t hi _ h
  exact hi.next h

/-! ## Whose configuration is attached -/

/-- Two lookups that a configuration may be shared between; the connector is not compared. -/
def Request.Same (ttl : ℤ) (r r' : Request) : Prop :=
  r.tenantID = r'.tenantID ∧ r.resourceID = r'.resourceID ∧ bucket r.ts ttl = bucket r'.ts ttl

instance (ttl : ℤ) (r r' : Request) : Decidable (r.Same ttl r') :=
  inferInstanceAs (Decidable (_ ∧ _ ∧ _))

/-- In a round that a cache answers, the entry was fetched for the same tenant, resource and
bucket. -/
def Guard (lib : Library) (ttl : ℤ) (s : State) : Act → Prop
  | .visit worker x => ∀ q ∈ s.lookup worker,
    ∀ f ∈ ((s.pods q.1).cache.get s.redis ttl (q.2.key lib ttl) x).1.value?, f.request.Same ttl q.2
  | _ => True

instance (lib : Library) (ttl : ℤ) (s : State) : (e : Act) → Decidable (Guard lib ttl s e)
  | .visit worker x => inferInstanceAs (Decidable (∀ q ∈ s.lookup worker,
    ∀ f ∈ ((s.pods q.1).cache.get s.redis ttl (q.2.key lib ttl) x).1.value?,
      f.request.Same ttl q.2))
  | .change _ | .call _ _ _ | .finish _ | .tick _ _ | .restart _ _ | .evict _ => isTrue trivial

/-- The attached configuration is one that the provider gave, at some time, for the tenant of the
event, its connector, the resource and an instant of the same bucket. -/
structure Attachment.Transparent (ttl : ℤ) (versions : List Provider) (a : Attachment) :
    Prop where
  tenant : a.fetched.request.tenantID = a.tenantID
  connector : a.fetched.request.connectorID = a.ref.connectorID
  resource : a.fetched.request.resourceID = a.ref.resourceID
  bucket : bucket a.fetched.request.ts ttl = bucket a.ts ttl
  answer : ∃ provider ∈ versions, provider a.ref.connectorID a.ref.resourceID
    a.fetched.request.ts = .config a.fetched.config

/-- The connector need not be compared, since the key tells it. -/
theorem Attachment.Genuine.transparent_iff_same {a : Attachment} {versions : List Provider}
    (h : a.Genuine lib ttl versions) :
    a.Transparent ttl versions ↔ a.fetched.request.Same ttl a.request := by
  constructor
  · intro ht
    exact ⟨ht.tenant, ht.resource, ht.bucket⟩
  · rintro ⟨htenant, hresource, hbucket⟩
    have hconnector := (cacheKey_inj h.keyed).1
    obtain ⟨provider, hprovider, hanswer⟩ := h.answered
    rw [hconnector, hresource] at hanswer
    exact ⟨htenant, hconnector, hresource, hbucket, provider, hprovider, hanswer⟩

/-- A round meets the guard exactly when what it attaches was fetched for the same tenant,
resource and bucket; every other step attaches nothing. -/
theorem next_attached {e : Act} (h : s.next lib ttl e = some t) :
    ∃ added, t.attached = s.attached ++ added ∧
      (Guard lib ttl s e ↔ ∀ a ∈ added, a.fetched.request.Same ttl a.request) := by
  have hkept : t.attached = s.attached → Guard lib ttl s e →
      ∃ added, t.attached = s.attached ++ added ∧
        (Guard lib ttl s e ↔ ∀ a ∈ added, a.fetched.request.Same ttl a.request) := by
    intro heq hguard
    exact ⟨[], by rw [heq, List.append_nil], iff_of_true hguard nofun⟩
  cases e with
  | visit worker x =>
    obtain ⟨pod, r, hlookup, -, -, -, -, added, hattached, hnone, hsome⟩ := visit_spec h
    refine ⟨added, hattached, ?_⟩
    have hguard : Guard lib ttl s (.visit worker x) ↔
        ∀ f, ((s.pods pod).cache.get s.redis ttl (r.key lib ttl) x).1 = .hit f →
          f.request.Same ttl r := by
      simp only [Guard, hlookup, Option.mem_def, Option.some.injEq, forall_eq', Got.value?_eq_some]
    rw [hguard]
    rcases fetch_cases lib ttl s.provider (s.pods pod) s.redis r x with
      ⟨f, hhit, hfound, -⟩ | ⟨hmiss, hfound, -⟩ | ⟨hmiss, data, -, hfound, -⟩
    · obtain ⟨a, rfl, hrequest, hfetched, -⟩ := hsome _ _ hfound
      rw [hhit, List.forall_mem_singleton, hrequest, hfetched]
      simp only [Got.hit.injEq, forall_eq']
    · obtain rfl := hnone hfound
      exact iff_of_true (fun f hf => absurd hf (hmiss f)) nofun
    · obtain ⟨a, rfl, hrequest, hfetched, -⟩ := hsome _ _ hfound
      refine iff_of_true (fun f hf => absurd hf (hmiss f)) (List.forall_mem_singleton.mpr ?_)
      rw [hrequest, hfetched]
      exact ⟨rfl, rfl, rfl⟩
  | change provider =>
    obtain rfl := Option.some.inj h
    exact hkept rfl trivial
  | call worker pod ev =>
    rw [State.next] at h
    split_ifs at h
    split at h <;> obtain rfl := Option.some.inj h
    · exact hkept rfl trivial
    · exact hkept rfl trivial
  | finish worker =>
    rw [State.next] at h
    split at h
    · cases h
    · split_ifs at h
      obtain rfl := Option.some.inj h
      exact hkept rfl trivial
  | tick pod now | restart pod client | evict key =>
    obtain rfl := Option.some.inj h
    exact hkept rfl trivial

theorem transparent_iff {lib : Library} {ttl : ℤ} {es : List Act} {s t : State}
    (hs : (system lib ttl).start s) (hr : runTrace (system lib ttl) s es = some t) :
    GuardedTrace (system lib ttl) (Guard lib ttl) s es ↔
      ∀ a ∈ t.attached, a.Transparent ttl t.versions := by
  have hi := invariant_runTrace hs hr
  have hsame := guardedTrace_iff (M := system lib ttl) (G := Guard lib ttl) (I := fun _ => True)
    (P := fun s => ∀ a ∈ s.attached, a.fetched.request.Same ttl a.request)
    (fun s e t _ _ => trivial) (fun s e t _ h => by
      obtain ⟨added, hattached, hguard⟩ := next_attached h
      rw [hattached, List.forall_mem_append, hguard]) trivial hr
  obtain ⟨clients, provider, rfl⟩ := hs
  have hguard := hsame.trans (and_iff_right (List.forall_mem_nil _))
  rw [← hguard]
  refine forall₂_congr ?_
  intro a ha
  exact (hi.genuine a ha).transparent_iff_same.symm

def digest : String → List (Fin 256)
  | "Slack" => [178, 127, 179, 139, 163, 35, 116, 92, 145, 254, 127, 217, 2, 22, 5, 67, 13, 67,
    189, 183, 211, 190, 118, 82, 102, 226, 147, 100, 209, 3, 226, 111]
  | "saasapp:acme:Slack:2026-05-01T14:00:00Z" => [108, 243, 83, 38, 248, 123, 27, 129, 48, 190,
    204, 4, 70, 214, 99, 111, 19, 246, 178, 105, 79, 85, 12, 136, 62, 181, 116, 233, 119, 11, 74,
    74]
  | "saasapp:globex:Slack:2026-05-01T14:00:00Z" => [153, 15, 232, 52, 176, 68, 13, 138, 165, 183,
    144, 79, 13, 108, 23, 103, 39, 86, 87, 241, 142, 96, 88, 80, 195, 237, 245, 110, 174, 130, 235,
    40]
  | _ => []

def sampleLibrary : Library where
  sha256 := digest
  formatRFC3339 _ := "2026-05-01T14:00:00Z"
  formatRFC3339Nano _ := "2026-05-01T14:01:00Z"

/-- 2026-05-01T14:01:00Z. -/
def sampleTime : ℤ := 63913240860 * second

/-- A login to Slack, as the connector projects it. -/
def loginEvent (tenantID : String) : Event :=
  GraphExtractor.extractFromOkta ⟨"evt-1", tenantID, sampleTime, [], [], ""⟩
    [("target", .map [("app", .map [("name", .str "Slack")])])]

def okta : Provider := staticProvider fun connectorID resourceID =>
  if connectorID = "okta" ∧ resourceID = "Slack" then
    [⟨sampleTime - 60 * second, some [("mfa", .bool true)]⟩]
  else []

/-- The clocks stand still and no shared store is in use. -/
def calm : Circumstances := ⟨0, 0, .failed, none⟩

def logins (tenants : List String) : List Act :=
  tenants.flatMap fun tenantID => [.call 0 0 (loginEvent tenantID), .visit 0 calm, .finish 0]

/-- Two tenants use Slack: the second is given what was fetched for the first. -/
theorem globex_gets_acme : ∃ t, runTrace (system sampleLibrary (60 * second))
    (initial (fun _ => false) okta) (logins ["acme", "globex"]) = some t ∧
      ∃ a ∈ t.attached, a.tenantID = "globex" ∧ a.fetched.request.tenantID = "acme" := by
  have hrun : (runTrace (system sampleLibrary (60 * second)) (initial (fun _ => false) okta)
      (logins ["acme", "globex"])).map
        (fun t => t.attached.map fun a => (a.tenantID, a.fetched.request.tenantID)) =
      some [("acme", "acme"), ("globex", "acme")] := by decide
  obtain ⟨t, ht, hpairs⟩ := Option.map_eq_some_iff.mp hrun
  have hmem : ("globex", "acme") ∈
      t.attached.map fun a => (a.tenantID, a.fetched.request.tenantID) := by
    rw [hpairs]
    exact List.mem_cons_of_mem _ List.mem_cons_self
  obtain ⟨a, ha, hpair⟩ := List.mem_map.mp hmem
  exact ⟨t, ht, a, ha, Prod.mk.inj hpair⟩

/-- One tenant alone is served its own configuration twice. -/
theorem acme_gets_acme : ∃ t, runTrace (system sampleLibrary (60 * second))
    (initial (fun _ => false) okta) (logins ["acme", "acme"]) = some t ∧
      t.attached.length = 2 ∧ ∀ a ∈ t.attached, a.Transparent (60 * second) t.versions := by
  have hrun : (runTrace (system sampleLibrary (60 * second)) (initial (fun _ => false) okta)
      (logins ["acme", "acme"])).map (fun t => t.attached.length) = some 2 := by decide
  obtain ⟨t, ht, hlength⟩ := Option.map_eq_some_iff.mp hrun
  refine ⟨t, ht, hlength, (transparent_iff ⟨fun _ => false, okta, rfl⟩ ht).mp ?_⟩
  decide

/-- No earlier answer of the provider under the key of the next lookup was for another tenant or
resource. -/
def Separate (lib : Library) (ttl : ℤ) (s : State) : Act → Prop
  | .visit worker _ => ∀ q ∈ s.lookup worker, ∀ a ∈ s.attached, a.source = .provider →
    a.request.key lib ttl = q.2.key lib ttl →
      a.tenantID = q.2.tenantID ∧ a.ref.resourceID = q.2.resourceID
  | _ => True

/-- With a time to live in whole seconds, as the service sets it, the key tells the bucket too. -/
theorem Separate.guard (httl : second ∣ ttl) (hi : Invariant lib ttl s) {e : Act}
    (h : Separate lib ttl s e) : Guard lib ttl s e := by
  cases e with
  | visit worker x =>
    intro q hq f hf
    obtain ⟨hkey, a, ha, hsource, rfl⟩ := (RedisCache.get_all (hi.memory q.1) hi.redis).1 f
      (Got.value?_eq_some.mp hf)
    have hown := (hi.genuine a ha).own hsource
    rw [hown] at hkey ⊢
    obtain ⟨htenant, hresource⟩ := h q hq a ha hsource hkey
    exact ⟨htenant, hresource, bucket_inj_of_unix httl (cacheKey_inj hkey).2.2⟩
  | change _ | call _ _ _ | finish _ | tick _ _ | restart _ _ | evict _ => trivial

/-- Where tenants and resources never share a key, every attachment is transparent, whatever the
order of the events, the expiries and the failures. -/
theorem transparent_of_separate {es : List Act} (httl : second ∣ ttl)
    (hs : (system lib ttl).start s) (hr : runTrace (system lib ttl) s es = some t)
    (hsep : GuardedTrace (system lib ttl) (Separate lib ttl) s es) :
    ∀ a ∈ t.attached, a.Transparent ttl t.versions := by
  refine (transparent_iff hs hr).mp ?_
  refine TransitionSystem.guardedTrace_imp (fun s e t hi _ h => hi.next h)
    (fun s e hi he => he.guard httl hi) ?_ hsep
  obtain ⟨clients, provider, rfl⟩ := hs
  exact invariant_initial clients provider

/-! ## The events -/

/-- `ev` is `given` with the nodes and edges of attachments for its tenant and instant. -/
structure Extends (lib : Library) (ttl : ℤ) (attached : List Attachment) (given ev : Event) :
    Prop where
  tenant : ev.tenantID = given.tenantID
  ts : ev.ts = given.ts
  made : ∃ made : List Attachment,
    (∀ a ∈ made, a ∈ attached ∧ a.tenantID = given.tenantID ∧ a.ts = given.ts) ∧
    ev.nodes = given.nodes ++ made.map (Attachment.node lib ttl) ∧
    ev.edges = given.edges ++ made.map (Attachment.edge lib ttl)

theorem Extends.refl {attached : List Attachment} (ev : Event) :
    Extends lib ttl attached ev ev :=
  ⟨rfl, rfl, [], nofun, (List.append_nil _).symm, (List.append_nil _).symm⟩

theorem Extends.append {attached added : List Attachment} {given ev : Event}
    (h : Extends lib ttl attached given ev) : Extends lib ttl (attached ++ added) given ev := by
  obtain ⟨made, hmade, hnodes, hedges⟩ := h.made
  exact ⟨h.tenant, h.ts, made, fun a ha => ⟨List.mem_append_left _ (hmade a ha).1, (hmade a ha).2⟩,
    hnodes, hedges⟩

theorem Extends.attach {attached : List Attachment} {given : Event} {w : Work} {a : Attachment}
    (h : Extends lib ttl attached given w.event) (htenant : a.tenantID = w.event.tenantID)
    (hts : a.ts = w.event.ts) :
    Extends lib ttl (attached ++ [a]) given (w.attach lib ttl a).event := by
  obtain ⟨made, hmade, hnodes, hedges⟩ := h.made
  refine ⟨h.tenant, h.ts, made ++ [a], ?_, ?_, ?_⟩
  · intro b hb
    rcases List.mem_append.mp hb with hb | hb
    · exact ⟨List.mem_append_left _ (hmade b hb).1, (hmade b hb).2⟩
    · obtain rfl := List.mem_singleton.mp hb
      exact ⟨List.mem_append_right _ List.mem_cons_self, htenant.trans h.tenant, hts.trans h.ts⟩
  · rw [Work.attach, hnodes, List.map_append, List.append_assoc, List.map_singleton]
  · rw [Work.attach, hedges, List.map_append, List.append_assoc, List.map_singleton]

theorem Extends.finish {attached : List Attachment} {given : Event} {w : Work}
    (h : Extends lib ttl attached given w.event) :
    Extends lib ttl attached given (w.finish lib) := by
  rw [Work.finish]
  split_ifs
  · exact h
  · exact ⟨h.tenant, h.ts, h.made⟩

/-- What a round makes of its call. -/
theorem visit_call (h : s.visit lib ttl worker x = some t) :
    t.finished = s.finished ∧ ∃ call call', s.calls worker = some call ∧
      t.calls = Function.update s.calls worker (some call') ∧ call'.given = call.given ∧
      ((t.attached = s.attached ∧ call'.work.event = call.work.event) ∨
        ∃ a, t.attached = s.attached ++ [a] ∧ a.tenantID = call.work.event.tenantID ∧
          a.ts = call.work.event.ts ∧ call'.work.event = (call.work.attach lib ttl a).event) := by
  rw [State.visit] at h
  cases hcall : s.calls worker with
  | none =>
    rw [hcall] at h
    cases h
  | some call =>
    rw [hcall] at h
    cases hrefs : call.work.refs with
    | nil =>
      simp only [hrefs] at h
      cases h
    | cons ref refs =>
      simp only [hrefs] at h
      obtain rfl := Option.some.inj h
      refine ⟨rfl, call, _, rfl, rfl, rfl, ?_⟩
      rcases (fetch lib ttl s.provider (s.pods call.pod) s.redis _ x).found with _ | ⟨f, source⟩
      · exact Or.inl ⟨List.append_nil _, rfl⟩
      · exact Or.inr ⟨_, rfl, rfl, rfl, rfl⟩

theorem Work.begin_event {ev : Event} {w : Work} (h : Work.begin ev = some w) : w.event = ev := by
  rw [Work.begin] at h
  split_ifs at h
  split at h
  · cases h
  · obtain rfl := Option.some.inj h
    rfl

structure EventInvariant (lib : Library) (ttl : ℤ) (s : State) : Prop where
  calls : ∀ worker call, s.calls worker = some call →
    Extends lib ttl s.attached call.given call.work.event
  finished : ∀ q ∈ s.finished, Extends lib ttl s.attached q.1 q.2

theorem EventInvariant.next (hi : EventInvariant lib ttl s) {e : Act}
    (h : s.next lib ttl e = some t) : EventInvariant lib ttl t := by
  have hupdate : ∀ {attached : List Attachment} {worker : ℕ} {o : Option Call},
      (∀ w call, s.calls w = some call →
        Extends lib ttl attached call.given call.work.event) →
      (∀ call, o = some call → Extends lib ttl attached call.given call.work.event) →
      ∀ w call, Function.update s.calls worker o w = some call →
        Extends lib ttl attached call.given call.work.event := by
    intro attached worker o hcalls ho w call hw
    by_cases hworker : w = worker
    · rw [hworker, Function.update_self] at hw
      exact ho call hw
    · rw [Function.update_of_ne hworker] at hw
      exact hcalls w call hw
  cases e with
  | visit worker x =>
    obtain ⟨hfinished, call, call', hcall, hcalls, hgiven, hcase⟩ := visit_call h
    have hbefore := hi.calls worker call hcall
    rcases hcase with ⟨hattached, hevent⟩ | ⟨a, hattached, htenant, hts, hevent⟩
    · refine ⟨?_, ?_⟩
      · rw [hcalls, hattached]
        refine hupdate hi.calls ?_
        rintro _ ⟨⟩
        rw [hgiven, hevent]
        exact hbefore
      · rw [hfinished, hattached]
        exact hi.finished
    · refine ⟨?_, ?_⟩
      · rw [hcalls, hattached]
        refine hupdate (fun w c hw => (hi.calls w c hw).append) ?_
        rintro _ ⟨⟩
        rw [hgiven, hevent]
        exact hbefore.attach htenant hts
      · rw [hfinished, hattached]
        exact fun q hq => (hi.finished q hq).append
  | call worker pod ev =>
    rw [State.next] at h
    split_ifs at h
    split at h
    · obtain rfl := Option.some.inj h
      refine ⟨hi.calls, ?_⟩
      rw [List.forall_mem_append, List.forall_mem_singleton]
      exact ⟨hi.finished, Extends.refl ev⟩
    · rename_i w hw
      obtain rfl := Option.some.inj h
      refine ⟨hupdate hi.calls ?_, hi.finished⟩
      rintro _ ⟨⟩
      rw [Work.begin_event hw]
      exact Extends.refl ev
  | finish worker =>
    rw [State.next] at h
    split at h
    · cases h
    · rename_i call hcall
      split_ifs at h
      obtain rfl := Option.some.inj h
      refine ⟨hupdate hi.calls nofun, ?_⟩
      rw [List.forall_mem_append, List.forall_mem_singleton]
      exact ⟨hi.finished, (hi.calls worker call hcall).finish⟩
  | restart pod client =>
    obtain rfl := Option.some.inj h
    refine ⟨?_, hi.finished⟩
    intro w call hw
    exact hi.calls w call (Option.filter_eq_some_iff.mp hw).1
  | change _ | tick _ _ | evict _ =>
    obtain rfl := Option.some.inj h
    exact ⟨hi.calls, hi.finished⟩

/-- An event leaves `Apply` with the nodes and edges of what was attached to it, and no others. -/
theorem finished_extends {es : List Act} (hs : (system lib ttl).start s)
    (hr : runTrace (system lib ttl) s es = some t) :
    ∀ q ∈ t.finished, Extends lib ttl t.attached q.1 q.2 := by
  obtain ⟨clients, provider, rfl⟩ := hs
  have hi : EventInvariant lib ttl t := by
    apply TransitionSystem.runTrace_keeps (Q := fun _ => True) ?_ ⟨nofun, nofun⟩
      (fun _ _ => trivial) hr
    intro s e t hi _ h
    exact hi.next h
  exact hi.finished

end ConfigSnapshot
