import Mathlib
import AiSOC.CodeText
import AiSOC.ExpiringStore

/-! # Two-tier cache of resource configurations

A map in the memory of the pod stands before a store that all pods share. Every failure of the
shared store is a miss. What is cached is arbitrary here; instants and durations count
nanoseconds, instants from the zero time. -/
namespace ConfigCache

open CodeText (append_cons_inj_right)

variable {α : Type*}

/-- What the code takes from the library: the digest and the time formats. -/
structure Library where
  sha256 : String → List (Fin 256)
  formatRFC3339 : ℤ → String
  formatRFC3339Nano : ℤ → String

def second : ℤ := 1000000000

def orDefault (ttl : ℤ) : ℤ := if ttl ≤ 0 then 600 * second else ttl

/-- Rounds down to a multiple of `d` since the zero time. -/
def truncate (ts d : ℤ) : ℤ := ts - ts % d

/-- Seconds since the epoch. -/
def unix (ts : ℤ) : ℤ := ts / second - 62135596800

def encodeToString (bytes : List (Fin 256)) : String :=
  String.ofList (bytes.flatMap fun b : Fin 256 =>
    [Nat.digitChar (b.val / 16), Nat.digitChar (b.val % 16)])

/-- The first eight bytes of the digest. -/
def shortDigest (lib : Library) (s : String) : String :=
  encodeToString ((lib.sha256 s).take 8)

def bucket (ts ttl : ℤ) : ℤ := truncate ts (orDefault ttl)

def cacheKey (lib : Library) (connectorID resourceID : String) (ts ttl : ℤ) : String :=
  "aisoc:cfg:" ++ connectorID ++ ":" ++ shortDigest lib resourceID ++ ":" ++
    Int.repr (unix (bucket ts ttl))

theorem colon_notMem_shortDigest (lib : Library) (s : String) :
    ':' ∉ (shortDigest lib s).toList := by
  have hdigit : ∀ n, n < 16 → ':' ≠ Nat.digitChar n := by decide
  rw [shortDigest, encodeToString, String.toList_ofList, List.mem_flatMap]
  rintro ⟨b, -, hb⟩
  rcases List.mem_pair.mp hb with h | h
  · exact hdigit _ (by omega) h
  · exact hdigit _ (by omega) h

theorem colon_notMem_repr (z : ℤ) : ':' ∉ (Int.repr z).toList := by
  have hnat : ∀ n : ℕ, ':' ∉ (Nat.repr n).toList := by
    intro n h
    rw [Nat.repr, String.toList_ofList] at h
    exact absurd (Nat.isDigit_of_mem_toDigits (by decide) (by decide) h) (by decide)
  cases z with
  | ofNat n => exact hnat n
  | negSucc n =>
    rw [Int.repr, String.toList_append, List.mem_append]
    rintro (h | h)
    · exact absurd h (by decide)
    · exact hnat _ h

theorem toList_cacheKey (lib : Library) (connectorID resourceID : String) (ts ttl : ℤ) :
    (cacheKey lib connectorID resourceID ts ttl).toList = "aisoc:cfg:".toList ++
      ((connectorID.toList ++ ':' :: (shortDigest lib resourceID).toList) ++
        ':' :: (Int.repr (unix (bucket ts ttl))).toList) := by
  have hcolon : ":".toList = [':'] := by decide
  change ("aisoc:cfg:" ++ connectorID ++ ":" ++ shortDigest lib resourceID ++ ":" ++
    Int.repr (unix (bucket ts ttl))).toList = _
  simp only [String.toList_append, hcolon, List.append_assoc, List.cons_append,
    List.nil_append]

/-- The key tells the connector, the short digest and the second at which the bucket begins. -/
theorem cacheKey_inj {lib : Library} {c r c' r' : String} {ts ts' ttl : ℤ}
    (h : cacheKey lib c r ts ttl = cacheKey lib c' r' ts' ttl) :
    c = c' ∧ shortDigest lib r = shortDigest lib r' ∧
      unix (bucket ts ttl) = unix (bucket ts' ttl) := by
  have hlist := congrArg String.toList h
  rw [toList_cacheKey, toList_cacheKey] at hlist
  have hrest := List.append_cancel_left hlist
  obtain ⟨hhead, hbucket⟩ := append_cons_inj_right (colon_notMem_repr _) (colon_notMem_repr _) hrest
  obtain ⟨hconnector, hdigest⟩ := append_cons_inj_right (colon_notMem_shortDigest lib r)
    (colon_notMem_shortDigest lib r') hhead
  exact ⟨String.toList_inj.mp hconnector, String.toList_inj.mp hdigest,
    Int.repr_inj.mp (String.toList_inj.mp hbucket)⟩

/-- Where the time to live is in whole seconds, so are the buckets. -/
theorem bucket_inj_of_unix {ts ts' ttl : ℤ} (httl : second ∣ ttl)
    (h : unix (bucket ts ttl) = unix (bucket ts' ttl)) : bucket ts ttl = bucket ts' ttl := by
  have hdefault : second ∣ orDefault ttl := by
    rw [orDefault]
    split_ifs
    · exact Dvd.intro_left 600 rfl
    · exact httl
  have hwhole : ∀ t, second ∣ bucket t ttl := by
    intro t
    exact hdefault.trans (Int.dvd_self_sub_emod)
  obtain ⟨a, ha⟩ := hwhole ts
  obtain ⟨b, hb⟩ := hwhole ts'
  simp only [unix, ha, hb, second] at h ⊢
  omega

structure MemEntry (α : Type*) where
  value : α
  expiry : ℤ

/-- Values are immutable here, so the defensive copies are the values themselves. -/
abbrev MemoryCache (α : Type*) := String → Option (MemEntry α)

def MemoryCache.get (c : MemoryCache α) (now : ℤ) (key : String) : Option α × MemoryCache α :=
  match c key with
  | none => (none, c)
  | some e => if e.expiry < now then (none, Function.update c key none) else (some e.value, c)

def MemoryCache.set (c : MemoryCache α) (ttl now : ℤ) (key : String) (value : α) :
    MemoryCache α := Function.update c key (some ⟨value, now + orDefault ttl⟩)

/-- One tick of the janitor. -/
def MemoryCache.evict (c : MemoryCache α) (now : ℤ) : MemoryCache α :=
  fun key => (c key).filter fun e => ¬e.expiry < now

abbrev Redis (α : Type*) := ExpiringStore.Store String α

/-- Without a client the cache is the memory alone. -/
structure RedisCache (α : Type*) where
  client : Bool
  fallback : MemoryCache α

/-- How the shared store meets a `GET`: it fails, it returns what is no JSON object, or it
answers at its own time. -/
inductive Reply where
  | failed
  | corrupt
  | answered (now : ℕ)

/-- What the surroundings decide during one lookup: the clock at the reading and at the writing of
the memory, the fate of the `GET`, and when a `SET` takes effect if it does. -/
structure Circumstances where
  getNow : ℤ
  setNow : ℤ
  reply : Reply
  stored : Option ℕ

inductive Got (α : Type*) where
  | hit (value : α)
  | miss
  | error

def Got.value? : Got α → Option α
  | .hit value => some value
  | _ => none

theorem Got.value?_eq_some {g : Got α} {value : α} : g.value? = some value ↔ g = .hit value := by
  cases g <;> simp [value?]

/-- The object that the JSON text of a configuration decodes to is that configuration. -/
def Reply.read (redis : Redis α) (key : String) : Reply → Got α
  | .failed => .error
  | .corrupt => .miss
  | .answered now =>
    match ExpiringStore.get redis now key with
    | some value => .hit value
    | none => .miss

def RedisCache.get (c : RedisCache α) (redis : Redis α) (ttl : ℤ) (key : String)
    (x : Circumstances) : Got α × RedisCache α :=
  match c.fallback.get x.getNow key with
  | (some value, memory) => (.hit value, { c with fallback := memory })
  | (none, memory) =>
    if c.client then
      match x.reply.read redis key with
      -- the hit is promoted to the memory
      | .hit value => (.hit value, { c with fallback := memory.set ttl x.setNow key value })
      | got => (got, { c with fallback := memory })
    else (.miss, { c with fallback := memory })

def RedisCache.set (c : RedisCache α) (redis : Redis α) (ttl : ℤ) (key : String) (value : α)
    (x : Circumstances) : RedisCache α × Redis α :=
  ({ c with fallback := c.fallback.set ttl x.setNow key value },
    match c.client, x.stored with
    | true, some now => ExpiringStore.setEx redis now (orDefault ttl).toNat key value
    | _, _ => redis)

/-! ## What holds of every entry -/

variable {P : String → α → Prop} {c : RedisCache α} {redis : Redis α} {memory : MemoryCache α}
  {ttl now : ℤ} {key : String} {value : α} {x : Circumstances}

def MemoryCache.All (P : String → α → Prop) (c : MemoryCache α) : Prop :=
  ∀ key e, c key = some e → P key e.value

def RedisAll (P : String → α → Prop) (redis : Redis α) : Prop :=
  ∀ key e, redis key = some e → P key e.value

theorem MemoryCache.All.imp {Q : String → α → Prop} (hPQ : ∀ k v, P k v → Q k v)
    (h : memory.All P) : memory.All Q := fun k e he => hPQ k _ (h k e he)

theorem RedisAll.imp {Q : String → α → Prop} (hPQ : ∀ k v, P k v → Q k v)
    (h : RedisAll P redis) : RedisAll Q redis := fun k e he => hPQ k _ (h k e he)

/-- What holds of every entry holds after a write of which it holds. -/
theorem update_all {ε : Type*} {Q : String → ε → Prop} {f : String → Option ε} {o : Option ε}
    (h : ∀ k e, f k = some e → Q k e) (ho : ∀ e, o = some e → Q key e) :
    ∀ k e, Function.update f key o k = some e → Q k e := by
  intro k e he
  by_cases hk : k = key
  · rw [hk, Function.update_self] at he
    exact hk ▸ ho e he
  · rw [Function.update_of_ne hk] at he
    exact h k e he

theorem MemoryCache.All.get (h : memory.All P) :
    (∀ v, (memory.get now key).1 = some v → P key v) ∧ (memory.get now key).2.All P := by
  rw [MemoryCache.get]
  cases hentry : memory key with
  | none => exact ⟨nofun, h⟩
  | some e =>
    by_cases hnow : e.expiry < now
    · simp only [if_pos hnow]
      exact ⟨nofun, update_all h nofun⟩
    · simp only [if_neg hnow]
      refine ⟨?_, h⟩
      rintro v ⟨⟩
      exact h key e hentry

theorem MemoryCache.All.set (h : memory.All P) (hvalue : P key value) :
    (memory.set ttl now key value).All P := by
  apply update_all h
  rintro e ⟨⟩
  exact hvalue

theorem MemoryCache.All.evict (h : memory.All P) : (memory.evict now).All P := by
  intro k e he
  exact h k e (Option.filter_eq_some_iff.mp he).1

theorem RedisAll.read (h : RedisAll P redis) {reply : Reply}
    (hread : reply.read redis key = .hit value) : P key value := by
  cases reply with
  | failed => cases hread
  | corrupt => cases hread
  | answered now =>
    rw [Reply.read] at hread
    cases hget : ExpiringStore.get redis now key with
    | none =>
      rw [hget] at hread
      cases hread
    | some v =>
      rw [hget] at hread
      cases hread
      obtain ⟨t, ht, -⟩ := ExpiringStore.get_eq_some_iff.mp hget
      exact h key _ ht

/-- What is got held of an entry, and the promotion of a hit keeps it. -/
theorem RedisCache.get_all (h : c.fallback.All P) (hredis : RedisAll P redis) :
    (∀ v, (c.get redis ttl key x).1 = .hit v → P key v) ∧
      (c.get redis ttl key x).2.fallback.All P := by
  obtain ⟨hhit, hkeeps⟩ : (∀ v, (c.fallback.get x.getNow key).1 = some v → P key v) ∧
    (c.fallback.get x.getNow key).2.All P := h.get
  rw [RedisCache.get]
  rcases hget : c.fallback.get x.getNow key with ⟨_ | v, memory⟩
  · rw [hget] at hkeeps
    cases c.client with
    | false => exact ⟨nofun, hkeeps⟩
    | true =>
      cases hread : x.reply.read redis key with
      | hit v =>
        refine ⟨?_, hkeeps.set (hredis.read hread)⟩
        rintro w ⟨⟩
        exact hredis.read hread
      | miss => exact ⟨nofun, hkeeps⟩
      | error => exact ⟨nofun, hkeeps⟩
  · rw [hget] at hhit hkeeps
    refine ⟨?_, hkeeps⟩
    rintro w ⟨⟩
    exact hhit v rfl

theorem RedisCache.set_all (h : c.fallback.All P) (hredis : RedisAll P redis)
    (hvalue : P key value) : (c.set redis ttl key value x).1.fallback.All P ∧
      RedisAll P (c.set redis ttl key value x).2 := by
  refine ⟨h.set hvalue, ?_⟩
  intro k e he
  rw [RedisCache.set] at he
  rcases hclient : c.client with _ | _ <;> rcases hstored : x.stored with _ | now <;>
    rw [hclient, hstored] at he
  · exact hredis k e he
  · exact hredis k e he
  · exact hredis k e he
  · refine update_all hredis ?_ k e he
    rintro e ⟨⟩
    exact hvalue

end ConfigCache
