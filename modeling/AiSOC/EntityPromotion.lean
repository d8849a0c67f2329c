import Mathlib.Data.List.ReduceOption
import AiSOC.CallHistory
import AiSOC.EntityRisk

/-! # Promotion of entities

While the record of an entity lives, the entity is promoted at the first observation after which
its score reaches the threshold, and at no other. -/
namespace EntityPromotion

open CallHistory (EachCall eachCall_nil eachCall_append_singleton)
open EntityRisk
open EntityRiskEngine (load lastOf newPayload)
open ExpiringKeys (AllValues OtherValues read alter expire)
open FloatOrder (rank)
open RankedSet (Ranking)
open UuidText (uuidText)

variable {eng : EntityRiskEngine} {w : World} {redis : Redis} {key tenantId : String}
  {record : EntityRiskRecord} {server : ℕ → ℤ} {sig : EntitySignal} {r : Readings}
  {life before : List Observation} {o : Observation}

/-- The score after the observations of a life, decayed from each to the next, and the instant of
the last. -/
def accumulated (eng : EntityRiskEngine) (life : List Observation) : Option (Float × ℤ) :=
  life.foldl (fun s o =>
    some (eng.decay ((s.map Prod.fst).getD 0) ((s.map Prod.snd).getD o.now) o.now + o.points,
      o.now)) none

def Reaches (eng : EntityRiskEngine) (life : List Observation) : Prop :=
  ∃ s ∈ accumulated eng life, eng.threshold ≤ s.1

/-- The observation takes the score to the threshold for the first time. -/
def Crosses (eng : EntityRiskEngine) (before : List Observation) (o : Observation) : Prop :=
  Reaches eng (before ++ [o]) ∧ ∀ earlier, earlier <+: before → ¬ Reaches eng earlier

def OnCrossing (eng : EntityRiskEngine) (life : List Observation) : Prop :=
  EachCall (fun before o => o.promoted = true ↔ Crosses eng before o) life

/-- What the hash of an entity says of its life. -/
structure Recorded (eng : EntityRiskEngine) (life : List Observation) (p : Payload) : Prop where
  score : accumulated eng life = some (p.score, p.lastSeen)
  promoted : p.promotedAt = none ↔ ¬ ∃ o ∈ life, o.promoted = true

/-- What holds of the promotions and of the rankings. -/
structure PromotesOnce (eng : EntityRiskEngine) (w : World) : Prop where
  onCrossing : ∀ key, OnCrossing eng (w.lives key)
  once : ∀ key, ((w.lives key).filter (·.promoted)).length ≤ 1
  recorded : ∀ key t p, read w.redis.hashes t key = some p → Recorded eng (w.lives key) p
  bounded : ∀ tenantId t scores, read w.redis.zsets t (topnKey tenantId) = some scores →
    scores.entries.length ≤ eng.maxTop

/-! ## Lives -/

theorem not_reaches_nil : ¬ Reaches eng [] := by
  rintro ⟨s, hs, -⟩
  cases hs

theorem promoted_iff_reached (h : OnCrossing eng life) :
    (∃ o ∈ life, o.promoted = true) ↔ ∃ earlier, earlier <+: life ∧ Reaches eng earlier := by
  induction life using List.reverseRecOn with
  | nil =>
    constructor
    · rintro ⟨o, ho, -⟩
      cases ho
    · rintro ⟨earlier, hpre, hreach⟩
      obtain rfl := List.prefix_nil.mp hpre
      exact absurd hreach not_reaches_nil
  | append_singleton life o ih =>
    obtain ⟨hlife, hlast⟩ := eachCall_append_singleton.mp h
    have ih := ih hlife
    constructor
    · rintro ⟨p, hp, hpromoted⟩
      rcases List.mem_append.mp hp with hmem | hmem
      · obtain ⟨earlier, hpre, hreach⟩ := ih.mp ⟨p, hmem, hpromoted⟩
        exact ⟨earlier, hpre.trans (List.prefix_append _ _), hreach⟩
      · obtain rfl := List.mem_singleton.mp hmem
        exact ⟨life ++ [p], List.prefix_rfl, (hlast.mp hpromoted).1⟩
    · rintro ⟨earlier, hpre, hreach⟩
      by_cases hbefore : ∃ p ∈ life, p.promoted = true
      · obtain ⟨p, hp, hpromoted⟩ := hbefore
        exact ⟨p, List.mem_append_left _ hp, hpromoted⟩
      · have hnone : ∀ front, front <+: life → ¬ Reaches eng front := by
          intro front hfront hr
          exact hbefore (ih.mpr ⟨front, hfront, hr⟩)
        have heq : earlier = life ++ [o] := by
          rcases List.prefix_concat_iff.mp hpre with heq | hfront
          · exact heq
          · exact absurd hreach (hnone earlier hfront)
        refine ⟨o, List.mem_append_right _ (List.mem_singleton_self o), hlast.mpr ⟨?_, hnone⟩⟩
        exact heq ▸ hreach

theorem once_of_onCrossing (h : OnCrossing eng life) :
    (life.filter (·.promoted)).length ≤ 1 := by
  induction life using List.reverseRecOn with
  | nil => exact Nat.zero_le 1
  | append_singleton life o ih =>
    obtain ⟨hlife, hlast⟩ := eachCall_append_singleton.mp h
    rw [List.filter_append, List.length_append]
    by_cases ho : o.promoted = true
    · have hnone : life.filter (·.promoted) = [] := by
        rw [List.filter_eq_nil_iff]
        intro p hp hpromoted
        obtain ⟨earlier, hpre, hreach⟩ := (promoted_iff_reached hlife).mp ⟨p, hp, hpromoted⟩
        exact (hlast.mp ho).2 earlier hpre hreach
      rw [hnone, List.length_nil, Nat.zero_add]
      exact List.length_filter_le _ _
    · rw [List.filter_cons_of_neg ho, List.filter_nil, List.length_nil]
      exact ih hlife

theorem accumulated_append (life : List Observation) (o : Observation) :
    accumulated eng (life ++ [o]) =
      some (eng.decay (((accumulated eng life).map Prod.fst).getD 0)
        (((accumulated eng life).map Prod.snd).getD o.now) o.now + o.points, o.now) := by
  rw [accumulated, List.foldl_concat]
  rfl

/-! ## One signal -/

theorem load_eq (t : ℤ) (entityType entityValue : String) :
    load redis t tenantId entityType entityValue =
      ((read redis.hashes t (entityKey tenantId entityType entityValue)).map
        (⟨·, tenantId, entityType, entityValue⟩),
        { redis with
          hashes := ExpiringKeys.sweep redis.hashes t
            (entityKey tenantId entityType entityValue) }) :=
  rfl

/-- Whether it raises or not, a call of `_save` writes the hash and nothing else of the hashes. -/
theorem save_hashes : (eng.save record server redis).2.hashes =
    expire (alter redis.hashes (server 0)
        (entityKey record.tenantId record.entityType record.entityValue)
        fun _ => some record.toPayload) (server 1)
      (entityKey record.tenantId record.entityType record.entityValue) (1000 * eng.window) := by
  unfold EntityRiskEngine.save Redis.zadd
  by_cases hrank : rank record.score = none
  · simp only [if_pos hrank]
    rfl
  · simp only [if_neg hrank]
    rfl

theorem save_ok : (eng.save record server redis).1 = true ↔ rank record.score ≠ none := by
  unfold EntityRiskEngine.save Redis.zadd
  by_cases hrank : rank record.score = none
  · simp only [if_pos hrank]
    exact iff_of_false Bool.false_ne_true fun h => h hrank
  · simp only [if_neg hrank]
    exact iff_of_true trivial hrank

variable {P : String → Payload → Prop}

theorem save_values
    (hothers : OtherValues P (entityKey record.tenantId record.entityType record.entityValue)
      redis.hashes)
    (hpayload : P (entityKey record.tenantId record.entityType record.entityValue)
      record.toPayload) : AllValues P (eng.save record server redis).2.hashes := by
  rw [save_hashes]
  apply AllValues.expire
  apply hothers.alter
  rintro v hv
  obtain rfl := Option.some.inj hv
  exact hpayload

theorem save_others
    (hothers : OtherValues P (entityKey record.tenantId record.entityType record.entityValue)
      redis.hashes) :
    OtherValues P (entityKey record.tenantId record.entityType record.entityValue)
      (eng.save record server redis).2.hashes := by
  rw [save_hashes]
  exact hothers.update.update

theorem rank_wall (wall : ℕ) : rank (FloatOrder.ofNat wall / 1000000) ≠ none := by
  have hmillion : FloatOrder.IsPositive 1000000 := ⟨by decide, by decide⟩
  obtain ⟨x, hx⟩ := (FloatOrder.IsPositive.div_right (FloatOrder.signClear_ofNat wall)
    hmillion).isNumber
  rw [hx]
  exact Option.some_ne_none x

/-- A number can be written, so the promotion does not raise. -/
theorem promote_spec (hrank : rank record.score ≠ none) :
    (eng.promote record r redis).1 = some { record with promotedAt := some r.promotedNow } ∧
      ∀ P : String → Payload → Prop,
        OtherValues P (entityKey record.tenantId record.entityType record.entityValue)
          redis.hashes →
        P (entityKey record.tenantId record.entityType record.entityValue)
          { record.toPayload with promotedAt := some r.promotedNow } →
        AllValues P (eng.promote record r redis).2.hashes := by
  have hok : (eng.save { record with promotedAt := some r.promotedNow }
      (fun i => r.server (i + 6)) redis).1 = true := save_ok.mpr hrank
  obtain ⟨saved, hsaved⟩ : ∃ saved, eng.save { record with promotedAt := some r.promotedNow }
      (fun i => r.server (i + 6)) redis = (true, saved) := ⟨_, Prod.ext hok rfl⟩
  unfold EntityRiskEngine.promote Redis.zadd
  simp only [hsaved, if_neg (rank_wall r.wall)]
  refine ⟨trivial, ?_⟩
  intro P hothers hP
  have hvalues := @save_values eng redis { record with promotedAt := some r.promotedNow }
    (fun i => r.server (i + 6)) P hothers hP
  rw [hsaved] at hvalues
  exact hvalues

/-- The payload after a signal, before the promotion. -/
def after (eng : EntityRiskEngine) (redis : Redis) (tenantId : String) (sig : EntitySignal)
    (r : Readings) : Payload :=
  eng.observed ((read redis.hashes (r.server 0)
    (entityKey tenantId sig.entityType sig.entityValue)).getD (newPayload r.now)) sig r.now

def Promotable (eng : EntityRiskEngine) (p : Payload) : Prop :=
  eng.threshold ≤ p.score ∧ p.promotedAt = none

instance (p : Payload) : Decidable (Promotable eng p) :=
  inferInstanceAs (Decidable (_ ∧ _))

/-- A signal is saved after the key was swept. -/
theorem applySignal_spec (tenantId : String) (sig : EntitySignal) (r : Readings) (redis : Redis) :
    ∃ swept : Redis, (∀ j, j ≠ entityKey tenantId sig.entityType sig.entityValue →
        swept.hashes j = redis.hashes j) ∧ swept.zsets = redis.zsets ∧
      (eng.applySignal tenantId sig r redis).2 =
        (eng.save ⟨after eng redis tenantId sig r, tenantId, sig.entityType, sig.entityValue⟩
          (fun i => r.server (i + 1)) swept).2 ∧
      (eng.applySignal tenantId sig r redis).1 =
        if rank (after eng redis tenantId sig r).score = none then none
        else some ⟨after eng redis tenantId sig r, tenantId, sig.entityType, sig.entityValue⟩ := by
  refine ⟨(load redis (r.server 0) tenantId sig.entityType sig.entityValue).2, ?_, rfl, ?_⟩
  · intro j hj
    exact ExpiringKeys.sweep_of_ne hj
  · have hprior (found : Option Payload) :
        (found.map fun p => (⟨p, tenantId, sig.entityType, sig.entityValue⟩ :
          EntityRiskRecord)).map (·.toPayload) = found := by
      cases found <;> rfl
    unfold EntityRiskEngine.applySignal after
    simp only [load_eq, hprior]
    split
    · rename_i saved hsave
      have hrank := mt save_ok.mpr (ne_true_of_eq_false (congrArg Prod.fst hsave))
      rw [hsave, if_pos (not_not.mp hrank)]
      exact ⟨rfl, rfl⟩
    · rename_i saved hsave
      have hrank := save_ok.mp (congrArg Prod.fst hsave)
      rw [hsave, if_neg hrank]
      exact ⟨rfl, rfl⟩

/-- The payload that is stored in the end. -/
def settled (eng : EntityRiskEngine) (p : Payload) (r : Readings) : Payload :=
  if Promotable eng p then { p with promotedAt := some r.promotedNow } else p

theorem observeSignal_spec (tenantId : String) (sig : EntitySignal) (r : Readings) (redis : Redis) :
    ((eng.observeSignal tenantId sig r redis).1.isPromoted = true ↔
        Promotable eng (after eng redis tenantId sig r)) ∧
      ∀ P : String → Payload → Prop,
        OtherValues P (entityKey tenantId sig.entityType sig.entityValue) redis.hashes →
        P (entityKey tenantId sig.entityType sig.entityValue)
          (settled eng (after eng redis tenantId sig r) r) →
        AllValues P (eng.observeSignal tenantId sig r redis).2.hashes := by
  obtain ⟨swept, hswept, -, hredis, hout⟩ := @applySignal_spec eng tenantId sig r redis
  have hothers (P : String → Payload → Prop)
      (h : OtherValues P (entityKey tenantId sig.entityType sig.entityValue) redis.hashes) :
      OtherValues P (entityKey tenantId sig.entityType sig.entityValue) swept.hashes := by
    intro j e hj he
    rw [hswept j hj] at he
    exact h j e hj he
  unfold EntityRiskEngine.observeSignal
  by_cases hrank : rank (after eng redis tenantId sig r).score = none
  · have hnot : ¬ Promotable eng (after eng redis tenantId sig r) := by
      rintro ⟨hle, -⟩
      obtain ⟨-, -, y, hy, -⟩ := FloatOrder.le_iff.mp hle
      rw [hrank] at hy
      cases hy
    rw [if_pos hrank] at hout
    have happly : eng.applySignal tenantId sig r redis = (none, _) := Prod.ext hout hredis
    simp only [happly]
    refine ⟨iff_of_false Bool.false_ne_true hnot, ?_⟩
    intro P h hP
    rw [settled, if_neg hnot] at hP
    exact save_values (hothers P h) hP
  · rw [if_neg hrank] at hout
    have happly : eng.applySignal tenantId sig r redis = (some _, _) := Prod.ext hout hredis
    simp only [happly]
    by_cases hpromotable : Promotable eng (after eng redis tenantId sig r)
    · have hspec (saved : Redis) := @promote_spec eng saved
        ⟨after eng redis tenantId sig r, tenantId, sig.entityType, sig.entityValue⟩ r hrank
      rw [if_pos ⟨hpromotable.1, hpromotable.2⟩]
      split
      · rename_i saved hnone
        exact absurd ((hspec _).1.symm.trans (congrArg Prod.fst hnone)) (Option.some_ne_none _)
      · rename_i record saved hsome
        refine ⟨iff_of_true rfl hpromotable, ?_⟩
        intro P h hP
        rw [settled, if_pos hpromotable] at hP
        have hsaved := @save_others eng swept
          ⟨after eng redis tenantId sig r, tenantId, sig.entityType, sig.entityValue⟩
          (fun i => r.server (i + 1)) P (hothers P h)
        have hvalues := (hspec _).2 P hsaved hP
        rw [hsome] at hvalues
        exact hvalues
    · rw [if_neg fun h => hpromotable ⟨h.1, h.2⟩]
      refine ⟨iff_of_false Bool.false_ne_true hpromotable, ?_⟩
      intro P h hP
      rw [settled, if_neg hpromotable] at hP
      exact save_values (hothers P h) hP

/-! ## The invariant -/

/-- The members of a ranking are the names of entities. -/
def Named (key : String) (scores : Scores) : Prop :=
  ∀ tenantId, key = topnKey tenantId → ∀ e ∈ scores.entries,
    ∃ entityType ∈ entityTypes, ∃ value, e.1 = member entityType value

def Ranked (eng : EntityRiskEngine) (key : String) (scores : Scores) : Prop :=
  Named key scores ∧ ∀ tenantId, key = topnKey tenantId → scores.entries.length ≤ eng.maxTop

structure Invariant (eng : EntityRiskEngine) (w : World) : Prop where
  onCrossing : ∀ key, OnCrossing eng (w.lives key)
  recorded : AllValues (fun key => Recorded eng (w.lives key)) w.redis.hashes
  ranked : AllValues (Ranked eng) w.redis.zsets

theorem accumulated_observed {found : Option Payload}
    (h : ∀ p ∈ found, accumulated eng life = some (p.score, p.lastSeen))
    (hnone : found = none → life = []) (hnow : o.now = r.now) (hpoints : o.points = sig.points) :
    accumulated eng (life ++ [o]) =
      some ((eng.observed (found.getD (newPayload r.now)) sig r.now).score, r.now) := by
  rw [accumulated_append, hnow, hpoints]
  cases found with
  | none =>
    rw [hnone rfl]
    rfl
  | some p =>
    rw [h p rfl]
    rfl

/-- An observation is a promotion when it crosses the threshold. -/
theorem promotable_iff_crosses {p : Payload} (hlife : OnCrossing eng life)
    (hscore : accumulated eng (life ++ [o]) = some (p.score, p.lastSeen))
    (hpromoted : p.promotedAt = none ↔ ¬ ∃ o ∈ life, o.promoted = true) :
    Promotable eng p ↔ Crosses eng life o := by
  have hreach : Reaches eng (life ++ [o]) ↔ eng.threshold ≤ p.score := by
    rw [Reaches, hscore]
    constructor
    · rintro ⟨s, hs, hle⟩
      obtain rfl := Option.some.inj hs
      exact hle
    · intro hle
      exact ⟨_, rfl, hle⟩
  rw [Promotable, Crosses, hreach, hpromoted, promoted_iff_reached hlife]
  apply and_congr_right
  intro _
  constructor
  · intro hnone earlier hpre hr
    exact hnone ⟨earlier, hpre, hr⟩
  · rintro hall ⟨earlier, hpre, hr⟩
    exact hall earlier hpre hr

/-- The payload that is stored in the end is what the longer life says. -/
theorem recorded_settled {p : Payload} (hlast : p.lastSeen = r.now)
    (hscore : accumulated eng (life ++ [o]) = some (p.score, r.now))
    (hpromoted : p.promotedAt = none ↔ ¬ ∃ o ∈ life, o.promoted = true)
    (ho : o.promoted = true ↔ Promotable eng p) :
    Recorded eng (life ++ [o]) (settled eng p r) := by
  have hor : (∃ q ∈ life ++ [o], q.promoted = true) ↔
      (∃ q ∈ life, q.promoted = true) ∨ Promotable eng p := by
    simp only [List.mem_append, List.mem_singleton, or_and_right, exists_or, exists_eq_left, ho]
  constructor
  · rw [hscore, settled]
    split_ifs
    · rw [← hlast]
    · rw [← hlast]
  · rw [hor, settled]
    split_ifs with hp
    · exact iff_of_false id fun h => h (Or.inr hp)
    · rw [hpromoted]
      simp only [hp, or_false]

theorem step_lives_recorded (h : Invariant eng w) :
    (∀ key, OnCrossing eng ((eng.step tenantId sig r w).2.lives key)) ∧
      AllValues (fun key => Recorded eng ((eng.step tenantId sig r w).2.lives key))
        (eng.step tenantId sig r w).2.redis.hashes := by
  obtain ⟨hpromoted, hvalues⟩ := @observeSignal_spec eng tenantId sig r w.redis
  unfold EntityRiskEngine.step Redis.hgetall
  dsimp only
  generalize hkey : entityKey tenantId sig.entityType sig.entityValue = key at *
  generalize hfound : read w.redis.hashes (r.server 0) key = found
  have hrecorded : ∀ p ∈ found, Recorded eng (w.lives key) p := by
    rintro p rfl
    exact h.recorded.read hfound
  generalize hlife : (if found.isSome = true then w.lives key else []) = life
  generalize hq : after eng w.redis tenantId sig r = q at hpromoted hvalues
  have hq' : eng.observed (found.getD (newPayload r.now)) sig r.now = q := by
    rw [← hq, after, hkey, hfound]
  generalize (eng.observeSignal tenantId sig r w.redis).1.isPromoted = promoted at hpromoted
  have hcrossing : OnCrossing eng life := by
    rw [← hlife]
    split_ifs
    · exact h.onCrossing key
    · exact eachCall_nil _
  have hscore : accumulated eng (life ++ [⟨r.now, sig.points, promoted⟩]) =
      some (q.score, r.now) := by
    rw [← hq']
    apply accumulated_observed
    · rintro p rfl
      rw [← hlife]
      exact (hrecorded p rfl).score
    · rintro rfl
      exact hlife.symm
    · rfl
    · rfl
  have hseen : q.lastSeen = r.now := by
    rw [← hq']
    rfl
  have hnone : q.promotedAt = none ↔ ¬ ∃ o ∈ life, o.promoted = true := by
    rw [← hq', ← hlife]
    cases found with
    | none => simp [EntityRiskEngine.observed, newPayload]
    | some p => exact (hrecorded p rfl).promoted
  constructor
  · intro j
    by_cases hj : j = key
    · subst hj
      rw [Function.update_self]
      refine eachCall_append_singleton.mpr ⟨hcrossing, ?_⟩
      exact hpromoted.trans (promotable_iff_crosses hcrossing (hseen ▸ hscore) hnone)
    · rw [Function.update_of_ne hj]
      exact h.onCrossing j
  · apply hvalues
    · intro j e hj he
      rw [Function.update_of_ne hj]
      exact h.recorded j e he
    · rw [Function.update_self]
      exact recorded_settled hseen hscore hnone hpromoted

/-! ## The rankings -/

theorem save_ranked (htype : record.entityType ∈ entityTypes)
    (h : AllValues (Ranked eng) redis.zsets) :
    AllValues (Ranked eng) (eng.save record server redis).2.zsets := by
  unfold EntityRiskEngine.save Redis.zadd
  by_cases hrank : rank record.score = none
  · simp only [if_pos hrank]
    exact h
  · simp only [if_neg hrank]
    have hnamed : AllValues Named (alter redis.zsets (server 2) (topnKey record.tenantId)
        fun scores => some ((scores.getD (Ranking.empty scoreRank)).add
          (member record.entityType record.entityValue) record.score)) := by
      apply OtherValues.alter fun j e _ he => (h j e he).1
      rintro scores hscores tenantId heq ⟨name, x⟩ he
      obtain rfl := Option.some.inj hscores
      rcases RankedSet.Ranking.mem_add.mp he with ⟨rfl, -⟩ | ⟨-, hmem⟩
      · exact ⟨_, htype, _, rfl⟩
      · rcases hread : read redis.zsets (server 2) (topnKey record.tenantId) with _ | before
        · rw [hread] at hmem
          cases hmem
        · rw [hread] at hmem
          exact (h.read hread).1 tenantId heq _ hmem
    apply AllValues.expire
    apply OtherValues.alter (OtherValues.update (h.others _))
    intro scores hscores
    obtain ⟨before, hbefore, rfl⟩ := Option.map_eq_some_iff.mp hscores
    constructor
    · intro tenantId heq e he
      exact hnamed.read hbefore tenantId heq e (RankedSet.Ranking.mem_of_mem_removeRange he)
    · intro _ _
      exact RankedSet.Ranking.length_removeRange_lowest

theorem promotedKey_ne_topnKey (tenantId other : String) :
    promotedKey tenantId ≠ topnKey other := by
  intro heq
  unfold promotedKey topnKey at heq
  have hlist := congrArg String.toList heq
  simp [String.toList_append] at hlist

theorem promote_ranked (htype : record.entityType ∈ entityTypes)
    (h : AllValues (Ranked eng) redis.zsets) :
    AllValues (Ranked eng) (eng.promote record r redis).2.zsets := by
  unfold EntityRiskEngine.promote
  have hsaved := @save_ranked eng redis { record with promotedAt := some r.promotedNow }
    (fun i => r.server (i + 6)) htype h
  dsimp only
  split
  · rename_i saved hs
    rw [hs] at hsaved
    exact hsaved
  · rename_i saved hs
    rw [hs] at hsaved
    dsimp only at hsaved
    unfold Redis.zadd
    simp only [if_neg (rank_wall r.wall)]
    apply AllValues.expire
    dsimp only
    apply OtherValues.alter (hsaved.others (promotedKey record.tenantId))
    intro scores _
    constructor
    · intro other heq
      exact absurd heq (promotedKey_ne_topnKey _ other)
    · intro other heq
      exact absurd heq (promotedKey_ne_topnKey _ other)

theorem observeSignal_ranked (htype : sig.entityType ∈ entityTypes)
    (h : AllValues (Ranked eng) redis.zsets) :
    AllValues (Ranked eng) (eng.observeSignal tenantId sig r redis).2.zsets := by
  obtain ⟨swept, -, hzsets, hredis, hout⟩ := @applySignal_spec eng tenantId sig r redis
  have happlied : AllValues (Ranked eng) (eng.applySignal tenantId sig r redis).2.zsets := by
    rw [hredis]
    exact save_ranked htype (hzsets ▸ h)
  unfold EntityRiskEngine.observeSignal
  split
  · rename_i saved hs
    rw [hs] at happlied
    exact happlied
  · rename_i applied saved hs
    rw [hs] at happlied hout
    have htype' : applied.entityType ∈ entityTypes := by
      split_ifs at hout
      obtain rfl := Option.some.inj hout
      exact htype
    have hpromote := @promote_ranked eng saved applied r htype' happlied
    split_ifs
    · split
      · rename_i promoted hp
        rw [hp] at hpromote
        exact hpromote
      · rename_i record promoted hp
        rw [hp] at hpromote
        exact hpromote
    · exact happlied

/-! ## Runs -/

theorem step_invariant (htype : sig.entityType ∈ entityTypes) (h : Invariant eng w) :
    Invariant eng (eng.step tenantId sig r w).2 where
  onCrossing := (step_lives_recorded h).1
  recorded := (step_lives_recorded h).2
  ranked := observeSignal_ranked htype h.ranked

theorem observeSignals_invariant (sigs : List EntitySignal) (rs : ℕ → Readings)
    (htypes : ∀ sig ∈ sigs, sig.entityType ∈ entityTypes) (h : Invariant eng w) :
    Invariant eng (eng.observeSignals tenantId sigs rs w).2 := by
  induction sigs generalizing rs w with
  | nil => exact h
  | cons sig sigs ih =>
    obtain ⟨htype, hrest⟩ := List.forall_mem_cons.mp htypes
    have hstep := @step_invariant eng w tenantId sig (rs 0) htype h
    unfold EntityRiskEngine.observeSignals
    split
    · rename_i next hs
      rw [hs] at hstep
      exact hstep
    · rename_i next hs
      rw [hs] at hstep
      exact ih _ hrest hstep
    · rename_i record next hs
      rw [hs] at hstep
      exact ih _ hrest hstep

theorem buildSignals_types (alert : RawAlert) :
    ∀ sig ∈ eng.buildSignals alert, sig.entityType ∈ entityTypes := by
  intro sig hsig
  obtain ⟨⟨entityType, value⟩, hmem, rfl⟩ := List.mem_map.mp hsig
  change entityType ∈ entityTypes
  have hcandidate (name : String) (field : Option String) :
      some (entityType, value) = candidate name field → entityType = name := by
    intro heq
    obtain ⟨v, -, hv⟩ := Option.map_eq_some_iff.mp heq.symm
    exact (congrArg Prod.fst hv).symm
  rw [candidates, List.reduceOption_mem_iff] at hmem
  simp only [List.mem_cons, List.not_mem_nil, or_false] at hmem
  rcases hmem with h | h | h | h
  all_goals
    rw [hcandidate _ _ h]
    decide

theorem observe_invariant (call : Call) (h : Invariant eng w) :
    Invariant eng (eng.observe call w).2 := by
  unfold EntityRiskEngine.observe
  split_ifs
  · exact observeSignals_invariant _ _ (buildSignals_types call.alert) h
  · exact h

theorem start_invariant : Invariant eng start where
  onCrossing _ := eachCall_nil _
  recorded _ _ he := absurd he (Option.some_ne_none _).symm
  ranked _ _ he := absurd he (Option.some_ne_none _).symm

theorem run_invariant (eng : EntityRiskEngine) (calls : List Call) :
    Invariant eng (eng.run calls) := by
  induction calls using List.reverseRecOn with
  | nil => exact start_invariant
  | append_singleton calls call ih =>
    rw [EntityRiskEngine.run, List.foldl_concat]
    exact observe_invariant call ih

/-- Whatever the alerts and the clocks, an entity is promoted when its score crosses the threshold
and at no other time. -/
theorem run_promotesOnce (eng : EntityRiskEngine) (calls : List Call) :
    PromotesOnce eng (eng.run calls) where
  onCrossing := (run_invariant eng calls).onCrossing
  once key := once_of_onCrossing ((run_invariant eng calls).onCrossing key)
  recorded _ _ _ hp := (run_invariant eng calls).recorded.read hp
  bounded tenantId _ _ hscores := ((run_invariant eng calls).ranked.read hscores).2 tenantId rfl

end EntityPromotion
