import Mathlib.Data.Rat.Defs
import Mathlib.Algebra.Order.Ring.Rat
import AiSOC.CodeText
import AiSOC.OrderedDict
import AiSOC.TokenBucket

/-! # The rate limiter of the lake API

One bucket for each tenant, created full at the tenant's first request and refilled when it is
read. Times and amounts are exact. A request reads the clock once if it has to create the
bucket and once when it holds the bucket's lock; the locks make the requests of one process
one sequence. -/
namespace LakeRateLimit

open CodeText

structure Bucket where
  capacity : ℚ
  refillPerSecond : ℚ
  tokens : ℚ
  lastRefill : ℚ
  deriving DecidableEq, Repr

/-- `__post_init__` -/
def newBucket (capacity refillPerSecond tokens lastRefill : ℚ) : Bucket :=
  ⟨capacity, refillPerSecond, if capacity < tokens then capacity else tokens, lastRefill⟩

def Bucket.refill (bucket : Bucket) (now : ℚ) : Bucket :=
  let elapsed := max 0 (now - bucket.lastRefill)
  if 0 < elapsed then
    { bucket with
      tokens := min bucket.capacity (bucket.tokens + elapsed * bucket.refillPerSecond)
      lastRefill := now }
  else bucket

def Bucket.take (bucket : Bucket) (cost : ℚ) : Bucket :=
  { bucket with tokens := bucket.tokens - cost }

structure RateLimitDecision where
  allowed : Bool
  remaining : ℚ
  capacity : ℚ
  retryAfterSeconds : ℚ
  deriving DecidableEq, Repr

inductive LimitError where
  | capacityNotPositive
  | refillNotPositive
  | costNotPositive
  | costExceedsCapacity (cost capacity : ℚ)
  deriving DecidableEq, Repr

/-- A limiter as its constructor makes it: budgets that are not positive are refused. -/
structure LakeRateLimiter where
  capacity : ℚ
  refillPerSecond : ℚ
  buckets : OrderedDict Text Bucket
  capacity_pos : 0 < capacity
  refill_pos : 0 < refillPerSecond

def newLimiter (capacity refillPerSecond : ℚ) : Except LimitError LakeRateLimiter :=
  if hc : capacity ≤ 0 then .error .capacityNotPositive
  else if hr : refillPerSecond ≤ 0 then .error .refillNotPositive
  else .ok ⟨capacity, refillPerSecond, .empty, not_le.mp hc, not_le.mp hr⟩

inductive TenantId where
  | uuid (value : BitVec 128)
  | name (s : Text)
  deriving DecidableEq

/-- The digits of a `UUID`, in lower case. -/
def hexDigits (value : BitVec 128) : Text :=
  (List.range 32).reverse.map fun i => cp (Nat.digitChar (value.toNat / 16 ^ i % 16))

/-- `str(tenant_id)` -/
def TenantId.key : TenantId → Text
  | .uuid value =>
    let h := hexDigits value
    h.take 8 ++ cp '-' :: (h.drop 8).take 4 ++ cp '-' :: (h.drop 12).take 4 ++
      cp '-' :: (h.drop 16).take 4 ++ cp '-' :: h.drop 20
  | .name s => s

def LakeRateLimiter.store (limiter : LakeRateLimiter) (key : Text) (bucket : Bucket) :
    LakeRateLimiter :=
  { limiter with buckets := limiter.buckets.set key bucket }

/-- The bucket that the request goes on with; `created` is the clock if it is a new one. -/
def LakeRateLimiter.getBucket (limiter : LakeRateLimiter) (key : Text) (created : ℚ) : Bucket :=
  match limiter.buckets.get key with
  | some bucket => bucket
  | none => newBucket limiter.capacity limiter.refillPerSecond limiter.capacity created

abbrev Response := Except LimitError RateLimitDecision

def LakeRateLimiter.acquire (limiter : LakeRateLimiter) (tenantId : TenantId)
    (cost created now : ℚ) : Response × LakeRateLimiter :=
  if cost ≤ 0 then (.error .costNotPositive, limiter)
  else if limiter.capacity < cost then
    (.error (.costExceedsCapacity cost limiter.capacity), limiter)
  else
    let bucket := (limiter.getBucket tenantId.key created).refill now
    if cost ≤ bucket.tokens then
      let bucket := bucket.take cost
      (.ok ⟨true, bucket.tokens, limiter.capacity, 0⟩, limiter.store tenantId.key bucket)
    else
      let shortfall := cost - bucket.tokens
      (.ok ⟨false, bucket.tokens, limiter.capacity, shortfall / limiter.refillPerSecond⟩,
        limiter.store tenantId.key bucket)

def LakeRateLimiter.peek (limiter : LakeRateLimiter) (tenantId : TenantId) (created now : ℚ) :
    Response × LakeRateLimiter :=
  let bucket := (limiter.getBucket tenantId.key created).refill now
  (.ok ⟨true, bucket.tokens, limiter.capacity, 0⟩, limiter.store tenantId.key bucket)

inductive Request where
  | acquire (cost : ℚ)
  | peek
  deriving DecidableEq, Repr

/-- A request of a tenant with the two readings of the clock. -/
structure Call where
  tenantId : TenantId
  request : Request
  created : ℚ
  now : ℚ
  deriving DecidableEq

def LakeRateLimiter.serve (limiter : LakeRateLimiter) (call : Call) :
    Response × LakeRateLimiter :=
  match call.request with
  | .acquire cost => limiter.acquire call.tenantId cost call.created call.now
  | .peek => limiter.peek call.tenantId call.created call.now

/-- The calls of a run in their order, each with its response, and the limiter after it. -/
def LakeRateLimiter.run (limiter : LakeRateLimiter) :
    List Call → List (Call × Response) × LakeRateLimiter
  | [] => ([], limiter)
  | call :: calls =>
    let (response, limiter) := limiter.serve call
    let (served, limiter) := limiter.run calls
    ((call, response) :: served, limiter)

/-- The clock never goes back. -/
def Clocked (calls : List Call) : Prop :=
  (calls.flatMap fun call => [call.created, call.now]).Pairwise (· ≤ ·)

/-- What a call was granted: its cost, if it was allowed. -/
def grant : Call × Response → ℚ
  | (⟨_, .acquire cost, _, _⟩, .ok decision) => if decision.allowed then cost else 0
  | _ => 0

/-- The total cost granted to a tenant from time `s` to time `t`. -/
def granted (key : Text) (s t : ℚ) (served : List (Call × Response)) : ℚ :=
  ((served.filter fun e => e.1.tenantId.key = key ∧ s ≤ e.1.now ∧ e.1.now ≤ t).map grant).sum

/-! ## What a call does to the buckets -/

def LakeRateLimiter.policy (limiter : LakeRateLimiter) : TokenBucket.Policy ℚ :=
  ⟨limiter.capacity, limiter.refillPerSecond, limiter.capacity_pos.le, limiter.refill_pos.le⟩

structure Bucket.Fits (bucket : Bucket) (limiter : LakeRateLimiter) : Prop where
  capacity : bucket.capacity = limiter.capacity
  rate : bucket.refillPerSecond = limiter.refillPerSecond
  tokens_nonneg : 0 ≤ bucket.tokens
  tokens_le : bucket.tokens ≤ limiter.capacity

def LakeRateLimiter.Sound (limiter : LakeRateLimiter) : Prop :=
  ∀ e ∈ limiter.buckets.entries, e.2.Fits limiter

@[simp] theorem store_capacity (limiter : LakeRateLimiter) (key : Text) (bucket : Bucket) :
    (limiter.store key bucket).capacity = limiter.capacity := rfl

@[simp] theorem store_policy (limiter : LakeRateLimiter) (key : Text) (bucket : Bucket) :
    (limiter.store key bucket).policy = limiter.policy := rfl

@[simp] theorem store_get (limiter : LakeRateLimiter) (key key' : Text) (bucket : Bucket) :
    (limiter.store key bucket).buckets.get key' =
      if key' = key then some bucket else limiter.buckets.get key' := OrderedDict.get_set

variable {limiter other : LakeRateLimiter} {bucket : Bucket} {key : Text} {call : Call}
  {calls : List Call} {created now : ℚ}

theorem Bucket.Fits.store (h : bucket.Fits limiter) {b : Bucket} : bucket.Fits (limiter.store key b) :=
  ⟨h.capacity, h.rate, h.tokens_nonneg, h.tokens_le⟩

theorem LakeRateLimiter.Sound.store (h : limiter.Sound) (hb : bucket.Fits limiter) :
    (limiter.store key bucket).Sound := by
  let fits : Text → Bucket → Prop := fun _ b => b.Fits (limiter.store key bucket)
  have hall : ∀ e ∈ limiter.buckets.entries, fits e.1 e.2 := fun e he => (h e he).store
  exact OrderedDict.forall_set hall hb.store

theorem getBucket_some (h : limiter.buckets.get key = some bucket) :
    limiter.getBucket key created = bucket := by
  simp [LakeRateLimiter.getBucket, h]

/-- A new bucket is full. -/
theorem getBucket_none (h : limiter.buckets.get key = none) : limiter.getBucket key created =
    ⟨limiter.capacity, limiter.refillPerSecond, limiter.capacity, created⟩ := by
  simp [LakeRateLimiter.getBucket, h, newBucket]

theorem LakeRateLimiter.Sound.getBucket (h : limiter.Sound) :
    (limiter.getBucket key created).Fits limiter := by
  cases hget : limiter.buckets.get key with
  | some b =>
    rw [getBucket_some hget]
    exact h _ (OrderedDict.get_eq_some.mp hget)
  | none =>
    rw [getBucket_none hget]
    exact ⟨rfl, rfl, limiter.capacity_pos.le, le_refl _⟩

/-- The lazy refill, when the clock has not gone back. -/
theorem refill_eq (h : bucket.Fits limiter) (hnow : bucket.lastRefill ≤ now) :
    bucket.refill now = { bucket with
      tokens := limiter.policy.refill bucket.tokens (now - bucket.lastRefill)
      lastRefill := now } := by
  have helapsed : max 0 (now - bucket.lastRefill) = now - bucket.lastRefill :=
    max_eq_right (sub_nonneg.mpr hnow)
  by_cases hpos : 0 < now - bucket.lastRefill
  · rw [Bucket.refill, helapsed, if_pos hpos, TokenBucket.Policy.refill, h.capacity, h.rate,
      mul_comm]
    rfl
  · have hzero : now - bucket.lastRefill = 0 := by linarith
    have hsame : now = bucket.lastRefill := by linarith
    rw [Bucket.refill, helapsed, if_neg hpos, hzero, TokenBucket.refill_zero h.tokens_le, hsame]

theorem Bucket.Fits.refill (h : bucket.Fits limiter) : (bucket.refill now).Fits limiter := by
  by_cases hnow : bucket.lastRefill ≤ now
  · rw [refill_eq h hnow]
    refine ⟨h.capacity, h.rate, ?_, TokenBucket.refill_le_capacity⟩
    exact TokenBucket.refill_nonneg h.tokens_nonneg (sub_nonneg.mpr hnow)
  · have hback : max 0 (now - bucket.lastRefill) = 0 := by
      apply max_eq_left
      linarith
    rw [Bucket.refill, hback, if_neg (lt_irrefl 0)]
    exact h

theorem Bucket.Fits.take (h : bucket.Fits limiter) {cost : ℚ} (hpos : 0 ≤ cost)
    (hle : cost ≤ bucket.tokens) : (bucket.take cost).Fits limiter := by
  refine ⟨h.capacity, h.rate, sub_nonneg.mpr hle, ?_⟩
  have hcap := h.tokens_le
  rw [Bucket.take]
  linarith

theorem take_zero (bucket : Bucket) : bucket.take 0 = bucket := by
  rw [Bucket.take, sub_zero]

/-- The bucket of a call after its refill. -/
def LakeRateLimiter.bucketOf (limiter : LakeRateLimiter) (call : Call) : Bucket :=
  (limiter.getBucket call.tenantId.key call.created).refill call.now

theorem LakeRateLimiter.Sound.bucketOf (h : limiter.Sound) : (limiter.bucketOf call).Fits limiter :=
  h.getBucket.refill

/-- A call is refused and touches nothing, or takes what it is granted from its own bucket. -/
theorem serve_cases (h : limiter.Sound) (call : Call) :
    (∃ e, limiter.serve call = (.error e, limiter)) ∨
    ∃ decision, 0 ≤ grant (call, .ok decision) ∧
      grant (call, .ok decision) ≤ (limiter.bucketOf call).tokens ∧
      limiter.serve call = (.ok decision, limiter.store call.tenantId.key
        ((limiter.bucketOf call).take (grant (call, .ok decision)))) := by
  have htokens : 0 ≤ (limiter.bucketOf call).tokens := h.bucketOf.tokens_nonneg
  obtain ⟨tenantId, request, created, now⟩ := call
  cases request with
  | peek =>
    right
    refine ⟨⟨true, (limiter.bucketOf ⟨tenantId, .peek, created, now⟩).tokens, limiter.capacity, 0⟩,
      le_refl 0, htokens, ?_⟩
    change _ = (_, limiter.store tenantId.key (Bucket.take _ 0))
    rw [take_zero]
    rfl
  | acquire cost =>
    simp only [LakeRateLimiter.serve, LakeRateLimiter.acquire]
    by_cases hpos : cost ≤ 0
    · exact Or.inl ⟨_, if_pos hpos⟩
    rw [if_neg hpos]
    by_cases hcap : limiter.capacity < cost
    · exact Or.inl ⟨_, if_pos hcap⟩
    rw [if_neg hcap]
    right
    generalize hbucket : limiter.bucketOf ⟨tenantId, .acquire cost, created, now⟩ = bucket at htokens ⊢
    rw [LakeRateLimiter.bucketOf] at hbucket
    rw [hbucket]
    by_cases hcost : cost ≤ bucket.tokens
    · exact ⟨⟨true, _, _, _⟩, (not_le.mp hpos).le, hcost, if_pos hcost⟩
    · refine ⟨⟨false, bucket.tokens, limiter.capacity,
        (cost - bucket.tokens) / limiter.refillPerSecond⟩, le_refl 0, htokens, (if_neg hcost).trans ?_⟩
      change _ = (_, limiter.store tenantId.key (Bucket.take _ 0))
      rw [take_zero]

theorem LakeRateLimiter.Sound.serve (h : limiter.Sound) : (limiter.serve call).2.Sound := by
  rcases serve_cases h call with ⟨e, hserve⟩ | ⟨decision, hpos, hle, hserve⟩
  · rw [hserve]
    exact h
  · rw [hserve]
    exact h.store (h.bucketOf.take hpos hle)

theorem serve_policy (h : limiter.Sound) : (limiter.serve call).2.policy = limiter.policy := by
  rcases serve_cases h call with ⟨e, hserve⟩ | ⟨decision, -, -, hserve⟩
  · rw [hserve]
  · rw [hserve, store_policy]

/-- A call leaves the buckets of other tenants alone. -/
theorem serve_other (h : limiter.Sound) (hkey : key ≠ call.tenantId.key) :
    (limiter.serve call).2.buckets.get key = limiter.buckets.get key := by
  rcases serve_cases h call with ⟨e, hserve⟩ | ⟨decision, -, -, hserve⟩
  · rw [hserve]
  · rw [hserve, store_get, if_neg hkey]

theorem run_cons (limiter : LakeRateLimiter) (call : Call) (calls : List Call) :
    limiter.run (call :: calls) = ((call, (limiter.serve call).1) ::
      ((limiter.serve call).2.run calls).1, ((limiter.serve call).2.run calls).2) := rfl

theorem LakeRateLimiter.Sound.run (h : limiter.Sound) : (limiter.run calls).2.Sound := by
  induction calls generalizing limiter with
  | nil => exact h
  | cons call calls ih =>
    rw [run_cons]
    exact ih h.serve

theorem run_policy (h : limiter.Sound) : (limiter.run calls).2.policy = limiter.policy := by
  induction calls generalizing limiter with
  | nil => rfl
  | cons call calls ih =>
    have hpolicy : (limiter.serve call).2.policy = limiter.policy := serve_policy h
    rw [run_cons, ← hpolicy]
    exact ih h.serve

/-! ## The budget of one tenant -/

/-- What the tenant's bucket held at time `u`; one that does not exist is full at any time. -/
def LakeRateLimiter.Held (limiter : LakeRateLimiter) (key : Text) (x u : ℚ) : Prop :=
  match limiter.buckets.get key with
  | some bucket => bucket.tokens = x ∧ bucket.lastRefill = u
  | none => x = limiter.policy.capacity

/-- What the tenant took, and when. -/
def takesOf (key : Text) (served : List (Call × Response)) : List (ℚ × ℚ) :=
  (served.filter fun e => e.1.tenantId.key = key ∧ e.2.isOk).map fun e => (e.1.now, grant e)

theorem takesOf_other {e : Call × Response} (h : e.1.tenantId.key ≠ key)
    (served : List (Call × Response)) : takesOf key (e :: served) = takesOf key served := by
  simp [takesOf, h]

theorem takesOf_error {e : LimitError} (call : Call) (served : List (Call × Response)) :
    takesOf key ((call, .error e) :: served) = takesOf key served := by
  simp [takesOf, Except.isOk, Except.toBool]

theorem takesOf_ok (call : Call) (decision : RateLimitDecision) (served : List (Call × Response)) :
    takesOf call.tenantId.key ((call, .ok decision) :: served) =
      (call.now, grant (call, .ok decision)) :: takesOf call.tenantId.key served := by
  simp [takesOf, Except.isOk, Except.toBool]

theorem granted_cons (key : Text) (s t : ℚ) (e : Call × Response)
    (served : List (Call × Response)) : granted key s t (e :: served) =
      (if e.1.tenantId.key = key ∧ s ≤ e.1.now ∧ e.1.now ≤ t then grant e else 0) +
        granted key s t served := by
  by_cases he : e.1.tenantId.key = key ∧ s ≤ e.1.now ∧ e.1.now ≤ t
  · simp [granted, he]
  · rw [if_neg he, zero_add, granted, List.filter_cons_of_neg (by simpa using he), granted]

theorem grant_error {e : LimitError} (call : Call) : grant (call, .error e) = 0 := by
  rw [grant]
  intro _ _ _ _ _ heq
  cases (Prod.mk.inj heq).2

/-- Requests that are refused as invalid are granted nothing, so only the takes count. -/
theorem granted_eq_taken (key : Text) (s t : ℚ) (served : List (Call × Response)) :
    granted key s t served = TokenBucket.taken s t (takesOf key served) := by
  induction served with
  | nil => rfl
  | cons e served ih =>
    rw [granted_cons, ih]
    obtain ⟨call, response⟩ := e
    by_cases hkey : call.tenantId.key = key
    · subst hkey
      cases response with
      | error e => rw [takesOf_error, grant_error, ite_self, zero_add]
      | ok decision =>
        rw [takesOf_ok]
        by_cases hs : s ≤ call.now
        · by_cases ht : call.now ≤ t
          · rw [TokenBucket.taken_cons_of_mem hs ht, if_pos ⟨rfl, hs, ht⟩]
          · rw [TokenBucket.taken_cons_of_after (not_le.mp ht), if_neg fun h => ht h.2.2, zero_add]
        · rw [TokenBucket.taken_cons_of_before (not_le.mp hs), if_neg fun h => hs h.2.1, zero_add]
    · rw [takesOf_other hkey, if_neg fun h => hkey h.1, zero_add]

theorem clocked_cons : Clocked (call :: calls) ↔ call.created ≤ call.now ∧
    (∀ later ∈ calls, call.now ≤ later.created ∧ call.now ≤ later.now) ∧ Clocked calls := by
  simp only [Clocked, List.flatMap_cons, List.cons_append, List.nil_append, List.pairwise_cons,
    List.mem_cons, List.mem_flatMap, List.not_mem_nil, or_false]
  constructor
  · intro ⟨hcreated, hnow, hrest⟩
    refine ⟨hcreated _ (Or.inl rfl), ?_, hrest⟩
    intro later hlater
    exact ⟨hnow _ ⟨later, hlater, Or.inl rfl⟩, hnow _ ⟨later, hlater, Or.inr rfl⟩⟩
  · intro ⟨hle, hlater, hrest⟩
    have hnow : ∀ t, (∃ later ∈ calls, t = later.created ∨ t = later.now) → call.now ≤ t := by
      rintro t ⟨later, hmem, rfl | rfl⟩
      · exact (hlater later hmem).1
      · exact (hlater later hmem).2
    refine ⟨?_, hnow, hrest⟩
    intro t ht
    rcases ht with rfl | ht
    · exact hle
    · exact hle.trans (hnow t ht)

theorem bucketOf_eq {x u : ℚ} (h : limiter.Sound) (hheld : limiter.Held call.tenantId.key x u)
    (hu : u ≤ call.created) (hnow : call.created ≤ call.now) :
    (limiter.bucketOf call).tokens = limiter.policy.refill x (call.now - u) ∧
      (limiter.bucketOf call).lastRefill = call.now := by
  rw [LakeRateLimiter.Held] at hheld
  rw [LakeRateLimiter.bucketOf]
  have hfits : (limiter.getBucket call.tenantId.key call.created).Fits limiter := h.getBucket
  cases hget : limiter.buckets.get call.tenantId.key with
  | some bucket =>
    rw [hget] at hheld
    obtain ⟨rfl, rfl⟩ := hheld
    rw [getBucket_some hget] at hfits ⊢
    rw [refill_eq hfits (hu.trans hnow)]
    exact ⟨rfl, rfl⟩
  | none =>
    rw [hget] at hheld
    rw [getBucket_none hget] at hfits ⊢
    rw [refill_eq hfits hnow, show x = limiter.policy.capacity from hheld, TokenBucket.refill_full (by linarith)]
    exact ⟨TokenBucket.refill_full (sub_nonneg.mpr hnow), rfl⟩

/-- The tenant's calls take from one bucket, whatever the other tenants do in between. -/
theorem run_takes {x u : ℚ} (h : limiter.Sound) (hclock : Clocked calls)
    (hheld : limiter.Held key x u) (hu : ∀ call ∈ calls, u ≤ call.created) :
    TokenBucket.Takes limiter.policy x u (takesOf key (limiter.run calls).1) := by
  induction calls generalizing limiter x u with
  | nil => exact .nil
  | cons call calls ih =>
    obtain ⟨hnow, hlater, hclock⟩ := clocked_cons.mp hclock
    obtain ⟨hcreated, hu⟩ := List.forall_mem_cons.mp hu
    have hsound : (limiter.serve call).2.Sound := h.serve
    have hpolicy : (limiter.serve call).2.policy = limiter.policy := serve_policy h
    rw [run_cons]
    by_cases hkey : call.tenantId.key = key
    · subst hkey
      rcases serve_cases h call with ⟨e, hserve⟩ | ⟨decision, hpos, hle, hserve⟩
      · rw [hserve] at hsound ⊢
        rw [takesOf_error]
        exact ih hsound hclock hheld hu
      · obtain ⟨htokens, hlast⟩ := bucketOf_eq h hheld hcreated hnow
        have hleft : (limiter.serve call).2.Held call.tenantId.key
            (limiter.policy.refill x (call.now - u) - grant (call, .ok decision)) call.now := by
          rw [hserve, LakeRateLimiter.Held, store_get, if_pos rfl, ← htokens]
          exact ⟨rfl, hlast⟩
        have hrest := ih hsound hclock hleft fun later hmem => (hlater later hmem).1
        rw [hpolicy] at hrest
        rw [hserve] at hrest ⊢
        rw [takesOf_ok]
        rw [htokens] at hle
        exact .take (hcreated.trans hnow) hpos hle hrest
    · have hleft : (limiter.serve call).2.Held key x u := by
        rw [LakeRateLimiter.Held, serve_other h (Ne.symm hkey), hpolicy]
        exact hheld
      rw [takesOf_other hkey, ← hpolicy]
      exact ih hsound hclock hleft hu

/-! ## Other tenants -/

/-- The limiters have the same budgets and the same bucket of the tenant. -/
structure SameFor (key : Text) (limiter other : LakeRateLimiter) : Prop where
  capacity : limiter.capacity = other.capacity
  rate : limiter.refillPerSecond = other.refillPerSecond
  bucket : limiter.buckets.get key = other.buckets.get key

theorem SameFor.refl (key : Text) (limiter : LakeRateLimiter) : SameFor key limiter limiter :=
  ⟨rfl, rfl, rfl⟩

theorem SameFor.store (h : SameFor key limiter other) (bucket : Bucket) :
    SameFor key (limiter.store key bucket) (other.store key bucket) :=
  ⟨h.capacity, h.rate, by rw [store_get, store_get, if_pos rfl, if_pos rfl]⟩

/-- The tenant's call gets the same response, and the limiters stay the same for it. -/
theorem SameFor.serve (h : SameFor call.tenantId.key limiter other) :
    (limiter.serve call).1 = (other.serve call).1 ∧
      SameFor call.tenantId.key (limiter.serve call).2 (other.serve call).2 := by
  obtain ⟨tenantId, request, created, now⟩ := call
  have hbucket : limiter.getBucket tenantId.key created = other.getBucket tenantId.key created := by
    rw [LakeRateLimiter.getBucket, LakeRateLimiter.getBucket, h.bucket, h.capacity, h.rate]
  cases request with
  | peek =>
    simp only [LakeRateLimiter.serve, LakeRateLimiter.peek, hbucket, h.capacity]
    exact ⟨trivial, h.store _⟩
  | acquire cost =>
    simp only [LakeRateLimiter.serve, LakeRateLimiter.acquire, hbucket, h.capacity, h.rate]
    split_ifs
    · exact ⟨rfl, h⟩
    · exact ⟨rfl, h⟩
    · exact ⟨rfl, h.store _⟩
    · exact ⟨rfl, h.store _⟩

/-- Another tenant's call leaves the limiter the same for this one. -/
theorem serve_sameFor (h : limiter.Sound) (hkey : key ≠ call.tenantId.key) :
    SameFor key (limiter.serve call).2 limiter := by
  have hpolicy : (limiter.serve call).2.policy = limiter.policy := serve_policy h
  exact ⟨congrArg TokenBucket.Policy.capacity hpolicy, congrArg TokenBucket.Policy.rate hpolicy,
    serve_other h hkey⟩

/-- A tenant's responses are those of the run of its own calls alone. -/
theorem run_alone (h : limiter.Sound) (hsame : SameFor key limiter other) :
    (limiter.run calls).1.filter (fun e => e.1.tenantId.key = key) =
      (other.run (calls.filter fun call => call.tenantId.key = key)).1 := by
  induction calls generalizing limiter other with
  | nil => rfl
  | cons call calls ih =>
    rw [run_cons]
    by_cases hkey : call.tenantId.key = key
    · subst hkey
      obtain ⟨hresponse, hnext⟩ := hsame.serve
      rw [List.filter_cons_of_pos (by simp), List.filter_cons_of_pos (by simp), run_cons, hresponse,
        ih h.serve hnext]
    · rw [List.filter_cons_of_neg (by simpa using hkey), List.filter_cons_of_neg (by simpa using hkey)]
      have hother := serve_sameFor h (Ne.symm hkey)
      exact ih h.serve ⟨hother.capacity.trans hsame.capacity, hother.rate.trans hsame.rate,
        hother.bucket.trans hsame.bucket⟩

/-! ## The bound -/

theorem newLimiter_sound {capacity refillPerSecond : ℚ}
    (h : newLimiter capacity refillPerSecond = .ok limiter) :
    limiter.capacity = capacity ∧ limiter.refillPerSecond = refillPerSecond ∧ limiter.Sound ∧
      ∀ key, limiter.buckets.get key = none := by
  rw [newLimiter] at h
  split_ifs at h
  cases h
  exact ⟨rfl, rfl, fun e he => absurd he List.not_mem_nil, fun key => rfl⟩

/-- Tokens stay between zero and the capacity, no interval grants a tenant more than the
capacity and the refill of the interval, and the tenant's responses do not depend on the calls
of others. -/
theorem token_bucket_bound {capacity refillPerSecond : ℚ}
    (hnew : newLimiter capacity refillPerSecond = .ok limiter) (calls : List Call)
    (hclock : Clocked calls) (tenantId : TenantId) :
    (∀ bucket ∈ (limiter.run calls).2.buckets.values,
      0 ≤ bucket.tokens ∧ bucket.tokens ≤ capacity) ∧
    (∀ s t, s ≤ t → granted tenantId.key s t (limiter.run calls).1 ≤
      capacity + refillPerSecond * (t - s)) ∧
    (limiter.run calls).1.filter (fun e => e.1.tenantId.key = tenantId.key) =
      (limiter.run (calls.filter fun call => call.tenantId.key = tenantId.key)).1 := by
  obtain ⟨rfl, rfl, hsound, hempty⟩ := newLimiter_sound hnew
  refine ⟨?_, ?_, run_alone hsound (.refl _ _)⟩
  · intro bucket hmem
    obtain ⟨e, he, rfl⟩ := List.mem_map.mp hmem
    have hrun : (limiter.run calls).2.Sound := hsound.run
    have hfits := hrun e he
    refine ⟨hfits.tokens_nonneg, hfits.tokens_le.trans_eq ?_⟩
    exact congrArg TokenBucket.Policy.capacity (run_policy hsound)
  · intro s t hst
    cases calls with
    | nil =>
      have hgain := mul_nonneg limiter.refill_pos.le (sub_nonneg.mpr hst)
      have hcap := limiter.capacity_pos
      change (0 : ℚ) ≤ _
      linarith
    | cons call calls =>
      obtain ⟨hnow, hlater, -⟩ := clocked_cons.mp hclock
      have hheld : limiter.Held tenantId.key limiter.policy.capacity call.created := by
        rw [LakeRateLimiter.Held, hempty]
      rw [granted_eq_taken]
      refine (run_takes hsound hclock hheld ?_).bound limiter.capacity_pos.le (le_refl _) hst
      intro other hmem
      rcases List.mem_cons.mp hmem with rfl | hmem
      · exact le_refl _
      · exact hnow.trans (hlater other hmem).1

/-- A burst that empties the bucket, another tenant's call, and a call after a second. -/
theorem token_bucket_bound_burst : ∃ limiter, newLimiter 2 1 = .ok limiter ∧
    granted (text "a") 0 1 (limiter.run [⟨.name (text "a"), .acquire 2, 0, 0⟩,
      ⟨.name (text "b"), .acquire 1, 0, 0⟩, ⟨.name (text "a"), .acquire 1, 1, 1⟩]).1 ≤
        2 + 1 * (1 - 0) := by
  have hnew : newLimiter 2 1 = .ok ⟨2, 1, .empty, by norm_num, by norm_num⟩ := by
    rw [newLimiter, dif_neg (by norm_num), dif_neg (by norm_num)]
  refine ⟨_, hnew, ?_⟩
  have hclock : Clocked [⟨.name (text "a"), .acquire 2, 0, 0⟩,
      ⟨.name (text "b"), .acquire 1, 0, 0⟩, ⟨.name (text "a"), .acquire 1, 1, 1⟩] := by
    norm_num [Clocked]
  exact (token_bucket_bound hnew _ hclock (.name (text "a"))).2.1 0 1 (by norm_num)

end LakeRateLimit
