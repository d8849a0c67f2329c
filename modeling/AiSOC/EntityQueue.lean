import AiSOC.CodeText
import AiSOC.EntityPromotion
import AiSOC.TopSelection

/-! # The queue of risky entities

The queue is read from a ranking of scores as of the last write of each entity. It is the current
top of the entities exactly when no entity has overtaken another since, and when no place goes to
an entity that the filter, or the expiry of its record, removes afterwards. -/
namespace EntityQueue

open EntityPromotion
open EntityRisk
open ExpiringKeys (read)
open TopSelection (IsTop Filled NotOvertaken)
open UuidText (uuidText)

/-- Type and value. -/
abbrev Entity := String × String

variable {eng : EntityRiskEngine} {redis : Redis} {t now limit : ℤ} {tenantId : String}
  {promotedOnly : Bool} {e f : Entity}

def EntityRiskRecord.entity (record : EntityRiskRecord) : Entity :=
  (record.entityType, record.entityValue)

def payload (redis : Redis) (t : ℤ) (tenantId : String) (e : Entity) : Option Payload :=
  read redis.hashes t (entityKey tenantId e.1 e.2)

def Passes (promotedOnly : Bool) (p : Payload) : Prop := promotedOnly = true → p.promotedAt ≠ none

/-- The entities whose record lives and satisfies the filter. -/
def Candidate (redis : Redis) (t : ℤ) (tenantId : String) (promotedOnly : Bool) (e : Entity) :
    Prop :=
  e.1 ∈ entityTypes ∧ ∃ p ∈ payload redis t tenantId e, Passes promotedOnly p

/-- The score decayed to an instant. -/
def scoreAt (eng : EntityRiskEngine) (redis : Redis) (t now : ℤ) (tenantId : String) (e : Entity) :
    Float :=
  ((payload redis t tenantId e).map fun p => eng.decay p.score p.lastSeen now).getD 0

def NotAbove (eng : EntityRiskEngine) (redis : Redis) (t now : ℤ) (tenantId : String)
    (e f : Entity) : Prop :=
  scoreAt eng redis t now tenantId e ≤ scoreAt eng redis t now tenantId f

/-- The ranking as it was last written, the highest first. -/
def storedRanking (redis : Redis) (t : ℤ) (tenantId : String) : List Entity :=
  (((read redis.zsets t (topnKey tenantId)).map (·.entries.reverse)).getD []).map
    fun x => entityOf x.1

/-- The queue is the current top of the candidates. -/
def QueueIsTop (eng : EntityRiskEngine) (redis : Redis) (t now : ℤ) (tenantId : String)
    (limit : ℤ) (promotedOnly : Bool) : Prop :=
  IsTop (Candidate redis t tenantId promotedOnly) (NotAbove eng redis t now tenantId) limit.toNat
    ((topEntities redis t tenantId limit promotedOnly).map EntityRiskRecord.entity)

/-- Of the first `limit` of the ranking none was overtaken, and none is wasted. -/
structure RankingIsCurrent (eng : EntityRiskEngine) (redis : Redis) (t now : ℤ) (tenantId : String)
    (limit : ℤ) (promotedOnly : Bool) : Prop where
  none : limit ≤ 0 → ∀ e ∈ (storedRanking redis t tenantId).head?,
    ¬ Candidate redis t tenantId promotedOnly e
  filled : 0 < limit → Filled (Candidate redis t tenantId promotedOnly) limit.toNat
    (storedRanking redis t tenantId)
  notOvertaken : 0 < limit → NotOvertaken (Candidate redis t tenantId promotedOnly)
    (NotAbove eng redis t now tenantId) limit.toNat (storedRanking redis t tenantId)

/-! ## Names -/

theorem partition_append (a b : List Char) (h : ':' ∉ a) :
    partition [':', ':'] (a ++ ':' :: ':' :: b) = (a, b) := by
  induction a with
  | nil => simp [partition]
  | cons c a ih =>
    rw [List.mem_cons, not_or] at h
    rw [List.cons_append, partition, if_neg, ih h.2]
    simp [List.isPrefixOf, h.1]

theorem entityOf_member {entityType value : String} (h : entityType ∈ entityTypes) :
    entityOf (member entityType value) = (entityType, value) := by
  have hcolon : ':' ∉ entityType.toList := by
    simp only [entityTypes, List.mem_cons, List.not_mem_nil, or_false] at h
    rcases h with rfl | rfl | rfl | rfl <;> decide
  have hsep : "::".toList = [':', ':'] := by decide
  unfold entityOf member
  rw [String.toList_append, String.toList_append, hsep, List.append_assoc, List.cons_append,
    List.cons_append, List.nil_append, partition_append _ _ hcolon]
  simp only [String.ofList_toList]

/-- Different entities have different records. -/
theorem entityKey_injective {n m : ℕ} (he : e.1 ∈ entityTypes) (hf : f.1 ∈ entityTypes)
    (h : entityKey (uuidText n) e.1 e.2 = entityKey (uuidText m) f.1 f.2) : n = m ∧ e = f := by
  have hcolon : ∀ name ∈ entityTypes, ':' ∉ name.toList := by decide
  have hsep : ":".toList = [':'] := by decide
  unfold entityKey at h
  have hlist := congrArg String.toList h
  simp only [String.toList_append, hsep, List.append_assoc, List.cons_append, List.nil_append]
    at hlist
  obtain ⟨htenant, hrest⟩ := CodeText.append_cons_inj (UuidText.colon_notMem_uuidText n)
    (UuidText.colon_notMem_uuidText m) (List.append_cancel_left hlist)
  obtain ⟨htype, hvalue⟩ := CodeText.append_cons_inj (hcolon _ he) (hcolon _ hf) hrest
  refine ⟨UuidText.uuidText_injective (String.toList_inj.mp htenant), ?_⟩
  exact Prod.ext (String.toList_inj.mp htype) (String.toList_inj.mp hvalue)

/-! ## Reading the queue -/

instance (p : Payload) : Decidable (Passes promotedOnly p) :=
  inferInstanceAs (Decidable (_ → _ ≠ none))

instance : DecidablePred (Candidate redis t tenantId promotedOnly) := fun e =>
  match h : payload redis t tenantId e with
  | none => isFalse fun ⟨_, p, hp, _⟩ => by
      rw [h] at hp
      cases hp
  | some p => decidable_of_iff (e.1 ∈ entityTypes ∧ Passes promotedOnly p) (by
      rw [Candidate, h]
      simp only [Option.mem_some_iff, exists_eq_left'])

def listed (redis : Redis) (t : ℤ) (tenantId : String) : List (String × Float) :=
  ((read redis.zsets t (topnKey tenantId)).map (·.entries.reverse)).getD []

theorem map_filterMap {α β γ : Type*} {g : α → Option β} {entity : β → γ} {name : α → γ}
    {C : γ → Prop} [DecidablePred C] {l : List α}
    (h : ∀ x ∈ l, (g x).map entity = if C (name x) then some (name x) else none) :
    (l.filterMap g).map entity = (l.map name).filter (C ·) := by
  induction l with
  | nil => rfl
  | cons x l ih =>
    obtain ⟨hx, hl⟩ := List.forall_mem_cons.mp h
    rw [List.map_cons, List.filterMap_cons, List.filter_cons]
    by_cases hC : C (name x)
    · rw [if_pos hC] at hx
      obtain ⟨b, hb, hentity⟩ := Option.map_eq_some_iff.mp hx
      rw [hb, if_pos (decide_eq_true hC), List.map_cons, hentity, ih hl]
    · rw [if_neg hC, Option.map_eq_none_iff] at hx
      rw [hx, if_neg (by simpa using hC), ih hl]

/-- The queue is what is left of the first of the ranking. -/
theorem topEntities_eq (hnamed : ∀ x ∈ listed redis t tenantId, (entityOf x.1).1 ∈ entityTypes) :
    (topEntities redis t tenantId limit promotedOnly).map EntityRiskRecord.entity =
      ((storedRanking redis t tenantId).take ((limit - 1).toNat + 1)).filter
        (Candidate redis t tenantId promotedOnly ·) := by
  have hrange : redis.zrevrange t (topnKey tenantId) 0 (max 0 (limit - 1)) =
      (listed redis t tenantId).take ((limit - 1).toNat + 1) := by
    have hmax : max 0 (limit - 1) = ((limit - 1).toNat : ℤ) := by omega
    rw [hmax, Redis.zrevrange, listed]
    cases read redis.zsets t (topnKey tenantId) with
    | none => rfl
    | some scores => exact RankedSet.Ranking.revRange_highest
  rw [topEntities, hrange, storedRanking, ← List.map_take]
  apply map_filterMap
  rintro ⟨name, score⟩ hx
  have htype := hnamed _ (List.mem_of_mem_take hx)
  dsimp only at htype ⊢
  generalize entityOf name = e at htype
  rw [load_eq]
  change ((payload redis t tenantId e).map _ |>.filter _).map _ = _
  rcases hp : payload redis t tenantId e with _ | p
  · have hnot : ¬ Candidate redis t tenantId promotedOnly e := by
      rintro ⟨-, p, hmem, -⟩
      rw [hp] at hmem
      cases hmem
    rw [if_neg hnot]
    rfl
  · have hiff : Candidate redis t tenantId promotedOnly e ↔ Passes promotedOnly p := by
      rw [Candidate, hp]
      simp only [htype, true_and, Option.mem_some_iff, exists_eq_left']
    have hfilter : (!(promotedOnly && p.promotedAt.isNone)) = true ↔ Passes promotedOnly p := by
      rw [Passes]
      cases promotedOnly <;> cases p.promotedAt <;> simp
    by_cases hpass : Passes promotedOnly p
    · rw [if_pos (hiff.mpr hpass), Option.map_some, Option.filter_some, if_pos (hfilter.mpr hpass)]
      rfl
    · rw [if_neg (mt hiff.mp hpass), Option.map_some, Option.filter_some,
        if_neg (mt hfilter.mp hpass)]
      rfl

/-! ## Runs -/

variable {w : World}

theorem listed_named (h : Invariant eng w) : ∀ x ∈ listed w.redis t tenantId,
    ∃ entityType ∈ entityTypes, ∃ value, x.1 = member entityType value := by
  intro x hx
  unfold listed at hx
  rcases hread : read w.redis.zsets t (topnKey tenantId) with _ | scores
  · rw [hread] at hx
    cases hx
  · rw [hread] at hx
    exact (h.ranked.read hread).1 tenantId rfl x (List.mem_reverse.mp hx)

theorem listed_entity (h : Invariant eng w) {x : String × Float}
    (hx : x ∈ listed w.redis t tenantId) :
    (entityOf x.1).1 ∈ entityTypes ∧ x.1 = member (entityOf x.1).1 (entityOf x.1).2 := by
  obtain ⟨entityType, htype, value, heq⟩ := listed_named h x hx
  rw [heq, entityOf_member htype]
  exact ⟨htype, rfl⟩

theorem storedRanking_nodup (h : Invariant eng w) : (storedRanking w.redis t tenantId).Nodup := by
  have hnames : ((listed w.redis t tenantId).map Prod.fst).Nodup := by
    unfold listed
    cases read w.redis.zsets t (topnKey tenantId) with
    | none => exact List.nodup_nil
    | some scores =>
      change (scores.entries.reverse.map Prod.fst).Nodup
      rw [List.map_reverse, List.nodup_reverse]
      exact scores.nodup
  change ((listed w.redis t tenantId).map (entityOf ∘ Prod.fst)).Nodup
  rw [← List.map_map]
  apply hnames.map_on
  intro a ha b hb heq
  obtain ⟨x, hx, rfl⟩ := List.mem_map.mp ha
  obtain ⟨y, hy, rfl⟩ := List.mem_map.mp hb
  rw [(listed_entity h hx).2, (listed_entity h hy).2, heq]

/-- After every history and for every query, the queue is the current top exactly when the ranking
is current. -/
theorem queue_isTop_iff (eng : EntityRiskEngine) (calls : List Call) (t now : ℤ)
    (tenantId : String) (limit : ℤ) (promotedOnly : Bool) :
    QueueIsTop eng (eng.run calls).redis t now tenantId limit promotedOnly ↔
      RankingIsCurrent eng (eng.run calls).redis t now tenantId limit promotedOnly := by
  have hinv := run_invariant eng calls
  have hqueue := @topEntities_eq (eng.run calls).redis t limit tenantId promotedOnly
    fun x hx => (listed_entity hinv hx).1
  rw [QueueIsTop, hqueue]
  by_cases hlimit : 0 < limit
  · have hsucc : (limit - 1).toNat + 1 = limit.toNat := by omega
    rw [hsucc, TopSelection.isTop_take_iff (storedRanking_nodup hinv)]
    constructor
    · rintro ⟨hfilled, horder⟩
      exact ⟨fun hle => absurd hlimit (not_lt.mpr hle), fun _ => hfilled, fun _ => horder⟩
    · intro h
      exact ⟨h.filled hlimit, h.notOvertaken hlimit⟩
  · have hone : (limit - 1).toNat + 1 = 1 := by omega
    have hzero : limit.toNat = 0 := by omega
    rw [hone, hzero, TopSelection.isTop_zero_iff, List.filter_eq_nil_iff]
    have hhead (e : Entity) : e ∈ (storedRanking (eng.run calls).redis t tenantId).take 1 ↔
        e ∈ (storedRanking (eng.run calls).redis t tenantId).head? := by
      cases storedRanking (eng.run calls).redis t tenantId <;> simp [eq_comm]
    constructor
    · intro h
      refine ⟨?_, fun hpos => absurd hpos hlimit, fun hpos => absurd hpos hlimit⟩
      intro _ e he hcand
      exact h e ((hhead e).mpr he) (decide_eq_true hcand)
    · intro h e he hcand
      exact h.none (not_lt.mp hlimit) e ((hhead e).mp he) (of_decide_eq_true hcand)

/-! ## An entity that was overtaken -/

/-- The default settings. One half-life takes half of a score. -/
def engine : EntityRiskEngine :=
  newEngine (fun x y => if y == 1 then x else 1)
    { rbaEnabled := true
      rbaPromotionThreshold := 80
      rbaWindowSeconds := 86400
      rbaDecayHalfLifeSeconds := 14400
      rbaSeverityWeights := fun
        | .critical => 40
        | .high => 20
        | .medium => 8
        | .low => 3
        | .info => 1
      rbaMaxTopEntities := 100 }

def alertAbout (user : String) (severity : FusionEngine.AlertSeverity) (riskScore : Float) :
    RawAlert where
  id := 1
  tenantId := 2
  source := "edr"
  title := "probe"
  severity := severity
  srcIp := none
  dstIp := none
  hostname := none
  username := some user
  fileHash := none
  domain := none
  mitreTactics := []
  mitreTechniques := []
  createdAt := 0
  riskScore := riskScore
  eventTime := none

/-- All clocks show the same second. -/
def callAt (alert : RawAlert) (second : ℕ) : Call :=
  ⟨alert, fun _ => ⟨fun _ => 1000 * second, 1000000 * second, 1000000 * second, second⟩⟩

/-- Forty points for one user, and thirty for another four hours later. -/
def history : List Call :=
  [callAt (alertAbout "ada" .critical 0) 0, callAt (alertAbout "bob" .high 0.5) 14400]

set_option maxRecDepth 10000 in
/-- By then the first user has twenty points left, and is still the first of the queue. -/
theorem overtaken_first : ¬ QueueIsTop engine (engine.run history).redis 14400000 14400000000
    (uuidText 2) 1 false := by
  have hout : (topEntities (engine.run history).redis 14400000 (uuidText 2) 1 false).map
      EntityRiskRecord.entity = [("user", "ada")] := by
    decide
  have hbob : Candidate (engine.run history).redis 14400000 (uuidText 2) false ("user", "bob") := by
    decide
  rw [QueueIsTop, hout]
  intro h
  have habove := h.highest ("user", "ada") (by decide) ("user", "bob") hbob (by decide)
  exact absurd habove (by rw [NotAbove]; decide)

end EntityQueue
