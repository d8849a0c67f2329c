import Mathlib.Algebra.Order.Floor.Ring
import Mathlib.Data.Rat.Floor
import AiSOC.JsonRoundTrip
import AiSOC.LakeRateLimit

/-! # The rate limit headers of the lake API

A request that is denied is told after how many whole seconds to come back. -/
namespace LakeRetryAfter

open CodeText LakeRateLimit JsonRoundTrip

/-- `int(x)`, which cuts towards zero. -/
def truncate (x : ℚ) : ℤ := x.num.tdiv x.den

def retryAfterHeader (seconds : ℚ) : ℤ := max 1 (truncate (seconds + 999 / 1000))

def toHeaders (decision : RateLimitDecision) : OrderedDict Text Text :=
  let limit := OrderedDict.empty.set (text "X-RateLimit-Limit")
    (decimal (truncate decision.capacity))
  let headers := limit.set (text "X-RateLimit-Remaining")
    (decimal (max 0 (truncate decision.remaining)))
  if decision.allowed then headers
  else headers.set (text "Retry-After") (decimal (retryAfterHeader decision.retryAfterSeconds))

/-- The buckets are sound, and none was refilled after the time. -/
structure Upto (limiter : LakeRateLimiter) (t : ℚ) : Prop where
  sound : limiter.Sound
  refilled : ∀ e ∈ limiter.buckets.entries, e.2.lastRefill ≤ t

/-- How long the bucket of a call takes to hold the cost. -/
def wait (limiter : LakeRateLimiter) (call : Call) (cost : ℚ) : ℚ :=
  (cost - (limiter.bucketOf call).tokens) / limiter.refillPerSecond

/-- The seconds are at most one, whole, or at least a thousandth over a whole number. -/
def Rounds (seconds : ℚ) : Prop :=
  seconds ≤ 1 ∨ Int.fract seconds = 0 ∨ 1 / 1000 ≤ Int.fract seconds

/-! ## The rounding -/

theorem truncate_eq {x : ℚ} (hx : 0 ≤ x) : truncate x = ⌊x⌋ := by
  rw [truncate, Rat.floor_def', Int.tdiv_eq_ediv_of_nonneg (Rat.num_nonneg.mpr hx)]

/-- The seconds of the header are enough exactly if the rounding reaches the next whole number. -/
theorem le_retryAfterHeader {seconds : ℚ} (hpos : 0 ≤ seconds) :
    seconds ≤ retryAfterHeader seconds ↔ Rounds seconds := by
  have hsplit : (⌊seconds⌋ : ℚ) + Int.fract seconds = seconds := Int.floor_add_fract seconds
  have hfract : 0 ≤ Int.fract seconds := Int.fract_nonneg seconds
  rw [retryAfterHeader, truncate_eq (by linarith), Int.cast_max, le_max_iff, Int.cast_one, Rounds]
  refine or_congr_right ?_
  constructor
  · intro hle
    by_cases hsmall : Int.fract seconds < 1 / 1000
    · have hfloor : ⌊seconds + 999 / 1000⌋ = ⌊seconds⌋ := by
        rw [Int.floor_eq_iff]
        constructor <;> linarith
      rw [hfloor] at hle
      exact Or.inl (le_antisymm (by linarith) hfract)
    · exact Or.inr (not_lt.mp hsmall)
  · intro hround
    rcases hround with hwhole | hover
    · have hfloor : ⌊seconds⌋ ≤ ⌊seconds + 999 / 1000⌋ := Int.floor_le_floor (by linarith)
      have hcast : (⌊seconds⌋ : ℚ) ≤ ⌊seconds + 999 / 1000⌋ := Int.cast_le.mpr hfloor
      linarith
    · have hfloor : ⌊seconds⌋ + 1 ≤ ⌊seconds + 999 / 1000⌋ := by
        rw [Int.le_floor]
        push_cast
        linarith
      have hcast : ((⌊seconds⌋ + 1 : ℤ) : ℚ) ≤ ⌊seconds + 999 / 1000⌋ := Int.cast_le.mpr hfloor
      push_cast at hcast
      have hlt : Int.fract seconds < 1 := Int.fract_lt_one seconds
      linarith

/-! ## Runs -/

variable {limiter : LakeRateLimiter} {call denied retry : Call} {calls between : List Call}
  {key : Text} {t x u cost : ℚ} {decision : RateLimitDecision}

theorem Upto.held (h : Upto limiter t) (ht : t ≤ u) :
    ∃ x v, limiter.Held key x v ∧ v ≤ u := by
  cases hget : limiter.buckets.get key with
  | some bucket =>
    have hlast : bucket.lastRefill ≤ t := h.refilled (key, bucket) (OrderedDict.get_eq_some.mp hget)
    refine ⟨bucket.tokens, bucket.lastRefill, ?_, hlast.trans ht⟩
    rw [LakeRateLimiter.Held, hget]
    exact ⟨rfl, rfl⟩
  | none =>
    refine ⟨limiter.policy.capacity, u, ?_, le_refl _⟩
    rw [LakeRateLimiter.Held, hget]

/-- A call in time keeps the buckets sound and none newer than the call. -/
theorem Upto.serve (h : Upto limiter t) (ht : t ≤ call.created) (hnow : call.created ≤ call.now) :
    Upto (limiter.serve call).2 call.now := by
  have hold : ∀ e ∈ limiter.buckets.entries, e.2.lastRefill ≤ call.now := by
    intro e he
    exact (h.refilled e he).trans (ht.trans hnow)
  refine ⟨h.sound.serve, ?_⟩
  rcases serve_cases h.sound call with ⟨e, hserve⟩ | ⟨decision, -, -, hserve⟩
  · rw [hserve]
    exact hold
  · obtain ⟨x, v, hheld, hv⟩ := h.held ht
    obtain ⟨-, hlast⟩ := bucketOf_eq h.sound hheld hv hnow
    rw [hserve]
    let upto : Text → Bucket → Prop := fun _ bucket => bucket.lastRefill ≤ call.now
    have hall : ∀ e ∈ limiter.buckets.entries, upto e.1 e.2 := hold
    exact OrderedDict.forall_set hall hlast.le

/-- A limiter that has served calls in time is sound, and no bucket of it is newer than they. -/
theorem run_upto (h : Upto limiter t) (hclock : Clocked calls)
    (ht : ∀ call ∈ calls, t ≤ call.created ∧ call.now ≤ u) (htu : t ≤ u) :
    Upto (limiter.run calls).2 u := by
  induction calls generalizing limiter t with
  | nil => exact ⟨h.sound, fun e he => (h.refilled e he).trans htu⟩
  | cons call calls ih =>
    obtain ⟨hnow, hlater, hclock⟩ := clocked_cons.mp hclock
    obtain ⟨⟨hcreated, hu⟩, hrest⟩ := List.forall_mem_cons.mp ht
    rw [run_cons]
    refine ih (h.serve hcreated hnow) hclock ?_ hu
    intro later hmem
    exact ⟨(hlater later hmem).1, (hrest later hmem).2⟩

theorem newLimiter_upto {capacity refillPerSecond : ℚ}
    (h : newLimiter capacity refillPerSecond = .ok limiter) (t : ℚ) : Upto limiter t := by
  obtain ⟨-, -, hsound, -⟩ := newLimiter_sound h
  refine ⟨hsound, ?_⟩
  rw [newLimiter] at h
  split_ifs at h
  cases h
  exact fun e he => absurd he List.not_mem_nil

/-- Calls of others and looks at the bucket leave what the bucket will hold. -/
theorem run_held (h : limiter.Sound) (hclock : Clocked calls) (hheld : limiter.Held key x u)
    (hu : ∀ call ∈ calls, u ≤ call.created)
    (hpeek : ∀ call ∈ calls, call.tenantId.key = key → call.request = .peek) :
    ∃ y v, (limiter.run calls).2.Held key y v ∧ (v = u ∨ ∃ call ∈ calls, v = call.now) ∧
      ∀ s, v ≤ s → limiter.policy.refill y (s - v) = limiter.policy.refill x (s - u) := by
  induction calls generalizing limiter x u with
  | nil => exact ⟨x, u, hheld, Or.inl rfl, fun s _ => rfl⟩
  | cons call calls ih =>
    obtain ⟨hnow, hlater, hnext⟩ := clocked_cons.mp hclock
    obtain ⟨hcreated, hu⟩ := List.forall_mem_cons.mp hu
    obtain ⟨hcall, hrest⟩ := List.forall_mem_cons.mp hpeek
    have hpolicy : (limiter.serve call).2.policy = limiter.policy := serve_policy h
    rw [run_cons]
    by_cases hkey : call.tenantId.key = key
    · obtain ⟨tenantId, request, created, now⟩ := call
      cases hcall hkey
      subst hkey
      obtain ⟨htokens, hlast⟩ := bucketOf_eq h hheld hcreated hnow
      have hleft : (limiter.serve ⟨tenantId, .peek, created, now⟩).2.Held tenantId.key
          (limiter.policy.refill x (now - u)) now := by
        rw [LakeRateLimiter.serve, LakeRateLimiter.peek, LakeRateLimiter.Held]
        dsimp only
        rw [store_get, if_pos rfl]
        exact ⟨htokens, hlast⟩
      obtain ⟨y, v, hy, hv, hsame⟩ := ih h.serve hnext hleft (fun c hc => (hlater c hc).1) hrest
      refine ⟨y, v, hy, ?_, ?_⟩
      · rcases hv with rfl | ⟨c, hc, rfl⟩
        · exact Or.inr ⟨_, List.mem_cons_self, rfl⟩
        · exact Or.inr ⟨c, List.mem_cons_of_mem _ hc, rfl⟩
      · intro s hs
        have hlate : now ≤ v := by
          rcases hv with rfl | ⟨c, hc, rfl⟩
          · exact le_refl _
          · exact (hlater c hc).2
        rw [hpolicy] at hsame
        rw [hsame s hs, TokenBucket.refill_refill (by linarith : 0 ≤ s - now)]
        congr 1
        ring
    · have hleft : (limiter.serve call).2.Held key x u := by
        rw [LakeRateLimiter.Held, serve_other h (Ne.symm hkey), hpolicy]
        exact hheld
      obtain ⟨y, v, hy, hv, hsame⟩ := ih h.serve hnext hleft hu hrest
      rw [hpolicy] at hsame
      refine ⟨y, v, hy, ?_, hsame⟩
      rcases hv with rfl | ⟨c, hc, rfl⟩
      · exact Or.inl rfl
      · exact Or.inr ⟨c, List.mem_cons_of_mem _ hc, rfl⟩

theorem clocked_append_singleton : Clocked (calls ++ [retry]) ↔ Clocked calls ∧
    retry.created ≤ retry.now ∧ ∀ call ∈ calls, call.now ≤ retry.created := by
  induction calls with
  | nil => simp [Clocked]
  | cons call calls ih =>
    rw [List.cons_append, clocked_cons, clocked_cons, ih, List.forall_mem_cons]
    constructor
    · rintro ⟨hnow, hlater, hrest, hend, hafter⟩
      refine ⟨⟨hnow, ?_, hrest⟩, hend, ?_, hafter⟩
      · exact fun c hc => hlater c (List.mem_append_left _ hc)
      · exact (hlater retry (List.mem_append_right _ List.mem_cons_self)).1
    · rintro ⟨⟨hnow, hlater, hrest⟩, hend, hlast, hafter⟩
      refine ⟨hnow, ?_, hrest, hend, hafter⟩
      intro c hc
      rcases List.mem_append.mp hc with hc | hc
      · exact hlater c hc
      · cases List.mem_singleton.mp hc
        exact ⟨hlast, hlast.trans hend⟩

/-! ## The denied request comes back -/

theorem serve_acquire (hcall : call.request = .acquire cost) (hpos : 0 < cost)
    (hcap : cost ≤ limiter.capacity) : limiter.serve call =
      if cost ≤ (limiter.bucketOf call).tokens then
        (.ok ⟨true, ((limiter.bucketOf call).take cost).tokens, limiter.capacity, 0⟩,
          limiter.store call.tenantId.key ((limiter.bucketOf call).take cost))
      else (.ok ⟨false, (limiter.bucketOf call).tokens, limiter.capacity, wait limiter call cost⟩,
        limiter.store call.tenantId.key (limiter.bucketOf call)) := by
  obtain ⟨tenantId, request, created, now⟩ := call
  cases hcall
  simp only [LakeRateLimiter.serve, LakeRateLimiter.acquire]
  rw [if_neg (not_le.mpr hpos), if_neg (not_lt.mpr hcap)]
  rfl

/-- A denied cost is one that the bucket could hold and does not. -/
theorem serve_denied (hcall : call.request = .acquire cost)
    (hserve : (limiter.serve call).1 = .ok decision) (hdenied : decision.allowed = false) :
    0 < cost ∧ cost ≤ limiter.capacity ∧ (limiter.bucketOf call).tokens < cost ∧
      decision.retryAfterSeconds = wait limiter call cost ∧
      (limiter.serve call).2 = limiter.store call.tenantId.key (limiter.bucketOf call) := by
  have hvalid : 0 < cost ∧ cost ≤ limiter.capacity := by
    simp only [LakeRateLimiter.serve, hcall, LakeRateLimiter.acquire] at hserve
    split_ifs at hserve with hpos hcap
    · exact ⟨not_le.mp hpos, not_lt.mp hcap⟩
    · exact ⟨not_le.mp hpos, not_lt.mp hcap⟩
  obtain ⟨hpos, hcap⟩ := hvalid
  rw [serve_acquire hcall hpos hcap] at hserve ⊢
  by_cases hheld : cost ≤ (limiter.bucketOf call).tokens
  · rw [if_pos hheld] at hserve
    cases hserve
    cases hdenied
  · rw [if_neg hheld] at hserve ⊢
    cases hserve
    exact ⟨hpos, hcap, not_le.mp hheld, rfl, rfl⟩

theorem serve_granted (hcall : call.request = .acquire cost) (hpos : 0 < cost)
    (hcap : cost ≤ limiter.capacity) :
    (∃ granted, (limiter.serve call).1 = .ok granted ∧ granted.allowed = true) ↔
      cost ≤ (limiter.bucketOf call).tokens := by
  rw [serve_acquire hcall hpos hcap]
  by_cases hheld : cost ≤ (limiter.bucketOf call).tokens
  · rw [if_pos hheld]
    exact ⟨fun _ => hheld, fun _ => ⟨_, rfl, rfl⟩⟩
  · rw [if_neg hheld]
    constructor
    · rintro ⟨granted, hserve, hallowed⟩
      cases hserve
      cases hallowed
    · exact fun hle => absurd hle hheld

theorem get_retryAfter (h : decision.allowed = false) :
    (toHeaders decision).get (text "Retry-After") =
      some (decimal (retryAfterHeader decision.retryAfterSeconds)) := by
  rw [toHeaders, h, if_neg Bool.false_ne_true, OrderedDict.get_set, if_pos rfl]

/-- A request that comes back when its `Retry-After` is over is granted exactly if the wait does
not end within a thousandth of a second after a whole one. -/
theorem retry_granted_iff {r : ℤ} (h : Upto limiter t) (ht : t ≤ denied.created)
    (hclock : Clocked (denied :: (between ++ [retry]))) (hcall : denied.request = .acquire cost)
    (hserve : (limiter.serve denied).1 = .ok decision) (hdenied : decision.allowed = false)
    (hheader : (toHeaders decision).get (text "Retry-After") = some (decimal r))
    (hbetween : ∀ call ∈ between, call.tenantId.key = denied.tenantId.key → call.request = .peek)
    (htenant : retry.tenantId = denied.tenantId) (hretry : retry.request = .acquire cost)
    (hnow : retry.now = denied.now + r) :
    (∃ granted, (((limiter.serve denied).2.run between).2.serve retry).1 = .ok granted ∧
      granted.allowed = true) ↔ Rounds (wait limiter denied cost) := by
  obtain ⟨hpos, hcap, hshort, hwait, hstore⟩ := serve_denied hcall hserve hdenied
  obtain ⟨hdue, hlater, hclock⟩ := clocked_cons.mp hclock
  have hr : r = retryAfterHeader (wait limiter denied cost) := by
    rw [get_retryAfter hdenied, hwait] at hheader
    exact (decimal_inj (Option.some.inj hheader)).symm
  have hsound : (limiter.serve denied).2.Sound := h.sound.serve
  have hpolicy : (limiter.serve denied).2.policy = limiter.policy := serve_policy h.sound
  -- after the denial the bucket holds what was too little
  obtain ⟨x, v, hheld, hv⟩ := h.held ht
  obtain ⟨-, hlast⟩ := bucketOf_eq h.sound hheld hv hdue
  have hleft : (limiter.serve denied).2.Held denied.tenantId.key
      (limiter.bucketOf denied).tokens denied.now := by
    rw [hstore, LakeRateLimiter.Held, store_get, if_pos rfl]
    exact ⟨rfl, hlast⟩
  obtain ⟨hbefore, hend, hafter⟩ := clocked_append_singleton.mp hclock
  obtain ⟨y, w, hy, hw, hsame⟩ := run_held hsound hbefore hleft
    (fun call hmem => (hlater call (List.mem_append_left _ hmem)).1) hbetween
  have hlate : w ≤ retry.created := by
    rcases hw with rfl | ⟨call, hmem, rfl⟩
    · exact (hlater retry (List.mem_append_right _ List.mem_cons_self)).1
    · exact hafter call hmem
  have hend' : ((limiter.serve denied).2.run between).2.policy = limiter.policy :=
    (run_policy hsound).trans hpolicy
  rw [← htenant] at hy
  obtain ⟨htokens, -⟩ := bucketOf_eq hsound.run hy hlate hend
  have hcapacity : ((limiter.serve denied).2.run between).2.capacity = limiter.capacity :=
    congrArg TokenBucket.Policy.capacity hend'
  rw [hpolicy] at hsame
  rw [serve_granted hretry hpos (hcap.trans_eq hcapacity.symm), htokens, hend',
    hsame _ (hlate.trans hend), TokenBucket.le_refill_iff hcap, hnow, add_sub_cancel_left]
  have hrate := limiter.refill_pos
  have hpositive : 0 ≤ wait limiter denied cost := div_nonneg (by linarith) hrate.le
  rw [← le_retryAfterHeader hpositive, ← hr, wait, div_le_iff₀ hrate]
  change cost ≤ _ + limiter.refillPerSecond * (r : ℚ) ↔ _
  constructor
  · intro hle
    linarith
  · intro hle
    linarith

def asks (cost t : ℚ) : Call := ⟨.name (text "a"), .acquire cost, t, t⟩

/-- The default limiter, whose bucket of the tenant was emptied at time zero. -/
def emptied : LakeRateLimiter :=
  (LakeRateLimiter.serve ⟨60, 1, .empty, by norm_num, by norm_num⟩ (asks 60 0)).2

/-- A second after the denial the request that waits is granted. -/
theorem waiting_granted : (∃ granted,
    (((emptied.serve (asks 1 0)).2.run [⟨.name (text "b"), .acquire 1, 0, 0⟩,
      ⟨.name (text "a"), .peek, 1, 1⟩]).2.serve (asks 1 1)).1 = .ok granted ∧
        granted.allowed = true) ↔ Rounds (wait emptied (asks 1 0) 1) := by
  have hnew : newLimiter 60 1 = .ok ⟨60, 1, .empty, by norm_num, by norm_num⟩ := by
    rw [newLimiter, dif_neg (by norm_num), dif_neg (by norm_num)]
  have hupto : Upto emptied 0 :=
    @Upto.serve _ (asks 60 0) 0 (newLimiter_upto hnew 0) (le_refl _) (le_refl _)
  have hserve : (emptied.serve (asks 1 0)).1 = .ok ⟨false, 0, 60, 1⟩ := by
    norm_num [emptied, LakeRateLimiter.serve, LakeRateLimiter.acquire, asks,
      LakeRateLimiter.getBucket, newBucket, Bucket.refill, Bucket.take, LakeRateLimiter.store]
  have hheader : retryAfterHeader 1 = 1 := by
    have hfloor : ⌊(1 : ℚ) + 999 / 1000⌋ = 1 := by
      rw [Int.floor_eq_iff]
      norm_num
    rw [retryAfterHeader, truncate_eq (by norm_num), hfloor, max_self]
  refine retry_granted_iff (r := 1) hupto (le_refl _) ?_ rfl hserve rfl ?_ ?_ rfl rfl ?_
  · norm_num [Clocked, asks]
  · rw [get_retryAfter rfl, hheader]
  · intro call hmem hkey
    simp only [List.mem_cons, List.not_mem_nil, or_false] at hmem
    rcases hmem with rfl | rfl
    · exact absurd hkey (by decide)
    · rfl
  · norm_num [asks]

/-- The wait is just over a second, the header says one, and the request is denied again. -/
theorem too_early : ∃ limiter, newLimiter 60 1 = .ok limiter ∧
    (limiter.run [asks 60 0, asks 5 (7999 / 2000), asks 5 (9999 / 2000)]).1.map Prod.snd =
      [.ok ⟨true, 0, 60, 0⟩, .ok ⟨false, 7999 / 2000, 60, 2001 / 2000⟩,
        .ok ⟨false, 9999 / 2000, 60, 1 / 2000⟩] ∧
    (toHeaders ⟨false, 7999 / 2000, 60, 2001 / 2000⟩).get (text "Retry-After") =
      some (decimal 1) ∧ (9999 / 2000 : ℚ) = 7999 / 2000 + (1 : ℤ) := by
  have hrate : ∀ (limiter : LakeRateLimiter) key bucket,
      (limiter.store key bucket).refillPerSecond = limiter.refillPerSecond := fun _ _ _ => rfl
  refine ⟨⟨60, 1, .empty, by norm_num, by norm_num⟩, ?_, ?_, ?_, by norm_num⟩
  · rw [newLimiter, dif_neg (by norm_num), dif_neg (by norm_num)]
  · norm_num [run_cons, LakeRateLimiter.run, LakeRateLimiter.serve, LakeRateLimiter.acquire, asks,
      LakeRateLimiter.getBucket, newBucket, Bucket.refill, Bucket.take, hrate]
  · have hfloor : ⌊(2001 / 2000 : ℚ) + 999 / 1000⌋ = 1 := by
      rw [Int.floor_eq_iff]
      norm_num
    rw [get_retryAfter rfl, retryAfterHeader, truncate_eq (by norm_num), hfloor, max_self]

end LakeRetryAfter
