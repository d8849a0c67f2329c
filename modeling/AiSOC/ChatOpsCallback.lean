import AiSOC.TransitionSystem
import AiSOC.ResponseActions

/-! # ChatOps callbacks

Responses to verification prompts, each cut at its awaited write to the case timeline. The
ids that were answered are kept in a set, which is read before the write and extended after
it. The other endpoints of the service may change the records at any time. -/
namespace ChatOpsCallback

open TransitionSystem (System Reachable anyStep anyStep_guarded guardedTrace_cons runTrace)
open ResponseActions (UUID Dict ActionRecord ActionStore)

/-- What a verified token says. -/
structure Claims where
  actionId : UUID
  caseId : UUID
  tenantId : UUID
  choice : String
  userRef : String
  issuedAt : Int
  expiresAt : Int
  deriving DecidableEq, Repr

structure Page where
  headline : String
  body : String
  ok : Bool
  deriving DecidableEq, Repr

structure Response where
  statusCode : Nat
  page : Page
  deriving DecidableEq, Repr

def choiceCopy (choice : String) : Page :=
  if choice = "deny" then
    ⟨"Thanks — recorded as denied.", "We've flagged this as suspicious. A security analyst " ++
      "will follow up shortly. If you didn't expect this prompt, please contact your " ++
      "security team.", true⟩
  else if choice = "escalate" then
    ⟨"Thanks — escalated to security.", "We've routed this to your security team for review.",
      true⟩
  else
    ⟨"Thanks — recorded as acknowledged.",
      "We've logged that you confirmed this activity. You can close this tab.", true⟩

def alreadyRecorded : Response :=
  ⟨200, "Response already recorded",
    "We've already logged a response for this prompt. No further action is needed.", true⟩

structure TimelineEvent where
  caseId : UUID
  eventType : String
  content : String
  actionId : UUID
  tenantId : UUID
  choice : String
  userRef : String
  issuedAt : Int
  respondedAt : Int
  deriving DecidableEq, Repr

def timelineEvent (claims : Claims) (respondedAt : Int) : TimelineEvent where
  caseId := claims.caseId
  eventType := "chatops.verify.responded"
  content := "User " ++ (if claims.userRef = "" then "unknown" else claims.userRef) ++
    " responded '" ++ claims.choice ++ "' to the ChatOps verification prompt."
  actionId := claims.actionId
  tenantId := claims.tenantId
  choice := claims.choice
  userRef := claims.userRef
  issuedAt := claims.issuedAt
  respondedAt := respondedAt

/-- What becomes of the write: done, refused with `TimelineClientError`, or lost in another
exception, before or after the case service stored it. -/
inductive PostOutcome where
  | written
  | refused (text : String)
  | raised (stored : Bool)
  deriving DecidableEq, Repr

variable {V : Type}

def setEntry (d : Dict V) (key : String) (value : V) : Dict V :=
  if key ∈ d.map Prod.fst then d.map fun kv => if kv.1 = key then (key, value) else kv
  else d ++ [(key, value)]

/-- The reply on the record; `text` makes a JSON value of a string. -/
def recordReply (text : String → V) (claims : Claims) (respondedAt : String)
    (warning : Option String) (record : ActionRecord V) : ActionRecord V :=
  let output := (record.output.getD [])
  let output := setEntry output "user_choice" (text claims.choice)
  let output := setEntry output "user_ref" (text claims.userRef)
  let output := setEntry output "responded_at" (text respondedAt)
  let output := match warning with
    | some w => setEntry output "timeline_warning" (text w)
    | none => output
  { record with status := .completed, output := some output }

/-- `posting` is the await; the record was looked up before it. -/
inductive Phase where
  | posting (ref : Option Nat) (event : TimelineEvent)
  | recorded
  | alreadyUsed
  | crashed (stored : Bool)
  deriving DecidableEq, Repr

structure Callback where
  claims : Claims
  phase : Phase
  deriving DecidableEq, Repr

def Callback.response (k : Callback) : Option Response :=
  match k.phase with
  | .recorded => some ⟨200, choiceCopy k.claims.choice⟩
  | .alreadyUsed => some alreadyRecorded
  | _ => none

structure World (V : Type) where
  store : ActionStore V
  replied : List UUID
  timeline : List TimelineEvent
  callbacks : Nat → Option Callback

/-- `c` names the request. A token that does not verify changes nothing. -/
inductive Event (V : Type) where
  | callback (c : Nat) (verified : Except String Claims) (now : Int)
  | post (c : Nat) (outcome : PostOutcome) (respondedAt : String)
  | otherEndpoint (store : ActionStore V)

def setPhase (w : World V) (c : Nat) (claims : Claims) (phase : Phase) : World V :=
  { w with callbacks := Function.update w.callbacks c (some ⟨claims, phase⟩) }

/-- The part behind the await. -/
def finishCallback (text : String → V) (w : World V) (c : Nat) (claims : Claims)
    (ref : Option Nat) (respondedAt : String) (warning : Option String) : World V :=
  { setPhase w c claims .recorded with
    replied := claims.actionId :: w.replied
    store := match ref with
      | some r => w.store.write r (recordReply text claims respondedAt warning)
      | none => w.store }

def next (text : String → V) (w : World V) : Event V → Option (World V)
  | .callback c verified now =>
    if (w.callbacks c).isSome then none
    else match verified with
      | .error _ => some w
      | .ok claims =>
        if claims.actionId ∈ w.replied then some (setPhase w c claims .alreadyUsed)
        else some (setPhase w c claims
          (.posting ((w.store.lookup claims.actionId).map Prod.fst) (timelineEvent claims now)))
  | .post c outcome respondedAt =>
    match w.callbacks c with
    | some ⟨claims, .posting ref event⟩ =>
      match outcome with
      | .written =>
        some (finishCallback text { w with timeline := w.timeline ++ [event] } c claims ref
          respondedAt none)
      | .refused warning => some (finishCallback text w c claims ref respondedAt (some warning))
      | .raised true =>
        some (setPhase { w with timeline := w.timeline ++ [event] } c claims (.crashed true))
      | .raised false => some (setPhase w c claims (.crashed false))
    | _ => none
  | .otherEndpoint store => some { w with store := store }

/-- The process starts without answered ids, over any records and timeline. -/
def callbacks (text : String → V) : System (World V) (Event V) where
  start w := w.replied = [] ∧ ∀ c, w.callbacks c = none
  next := next text

/-- The callback left a response: on the record, or on the timeline at least. -/
def Records (w : World V) (c : Nat) (id : UUID) : Prop :=
  ∃ k, w.callbacks c = some k ∧ k.claims.actionId = id ∧
    (k.phase = .recorded ∨ k.phase = .crashed true)

/-- One callback leaves a response, and the others that are answered are told so. -/
def SingleUse (w : World V) : Prop :=
  ∀ c id, Records w c id → ∀ d k, d ≠ c → w.callbacks d = some k → k.claims.actionId = id →
    ¬ Records w d id ∧ ∀ r, k.response = some r → r = alreadyRecorded

/-- A write for the id is awaited, or the reply to it was lost after it was stored. -/
def Unsettled (w : World V) (id : UUID) : Prop :=
  ∃ d k, w.callbacks d = some k ∧ k.claims.actionId = id ∧
    ((∃ ref event, k.phase = .posting ref event) ∨ k.phase = .crashed true)

/-- No callback arrives for an id that looks unanswered while its answer is under way. -/
def Alone (w : World V) : Event V → Prop
  | .callback _ (.ok claims) _ => claims.actionId ∉ w.replied → ¬ Unsettled w claims.actionId
  | _ => True

/-- The callback has not been turned away. -/
def Busy (phase : Phase) : Prop := phase ≠ .alreadyUsed ∧ phase ≠ .crashed false

structure Invariant (w : World V) : Prop where
  one_busy : ∀ c d k l, w.callbacks c = some k → w.callbacks d = some l →
    k.claims.actionId = l.claims.actionId → Busy k.phase → Busy l.phase → c = d
  recorded_replied : ∀ c k, w.callbacks c = some k → k.phase = .recorded →
    k.claims.actionId ∈ w.replied

theorem busy_of_unsettled {w : World V} {c : Nat} {k : Callback} (hc : w.callbacks c = some k)
    (hb : Busy k.phase) (hr : k.phase ≠ .recorded) : Unsettled w k.claims.actionId := by
  refine ⟨c, k, hc, rfl, ?_⟩
  rcases hp : k.phase with ⟨ref, event⟩ | _ | _ | ⟨_ | _⟩
  · exact Or.inl ⟨ref, event, rfl⟩
  · exact (hr hp).elim
  · exact (hb.1 hp).elim
  · exact (hb.2 hp).elim
  · exact Or.inr rfl

theorem setPhase_callbacks {w : World V} {c d : Nat} {claims : Claims} {phase : Phase}
    {k : Callback} (h : (setPhase w c claims phase).callbacks d = some k) :
    (d = c ∧ k = ⟨claims, phase⟩) ∨ (d ≠ c ∧ w.callbacks d = some k) := by
  by_cases hd : d = c
  · subst hd
    exact Or.inl ⟨rfl, by simpa [setPhase, eq_comm] using h⟩
  · exact Or.inr ⟨hd, by simpa [setPhase, hd] using h⟩

/-- A callback that changes its phase while it is the only busy one of its id. -/
theorem Invariant.setPhase {w u : World V} (h : Invariant w) {c : Nat} {claims : Claims}
    {phase : Phase} (hcallbacks : u.callbacks = (setPhase w c claims phase).callbacks)
    (hreplied : ∀ id ∈ w.replied, id ∈ u.replied)
    (halone : Busy phase → ∀ d k, d ≠ c → w.callbacks d = some k →
      k.claims.actionId = claims.actionId → ¬ Busy k.phase)
    (hrecorded : phase = .recorded → claims.actionId ∈ u.replied) : Invariant u := by
  constructor
  · intro a b k l ha hb hid hka hlb
    rw [hcallbacks] at ha hb
    rcases setPhase_callbacks ha with ⟨rfl, rfl⟩ | ⟨hac, hold⟩ <;>
      rcases setPhase_callbacks hb with ⟨rfl, rfl⟩ | ⟨hbc, hold'⟩
    · rfl
    · exact (halone hka b l hbc hold' hid.symm hlb).elim
    · exact (halone hlb a k hac hold hid hka).elim
    · exact h.one_busy a b k l hold hold' hid hka hlb
  · intro d k hd hk
    rw [hcallbacks] at hd
    rcases setPhase_callbacks hd with ⟨rfl, rfl⟩ | ⟨-, hd⟩
    · exact hrecorded hk
    · exact hreplied _ (h.recorded_replied d k hd hk)

theorem start_invariant {text : String → V} {w : World V} (h : (callbacks text).start w) :
    Invariant w := by
  constructor
  · intro c d k l hc
    rw [h.2 c] at hc
    cases hc
  · intro c k hc
    rw [h.2 c] at hc
    cases hc

theorem next_invariant {text : String → V} {w u : World V} {e : Event V} (h : Invariant w)
    (hg : Alone w e) (hn : next text w e = some u) : Invariant u := by
  cases e with
  | callback c verified now =>
    simp only [next] at hn
    split at hn
    · cases hn
    split at hn
    · cases Option.some.inj hn
      exact h
    rename_i claims
    split at hn
    · cases Option.some.inj hn
      exact h.setPhase rfl (fun _ hid => hid) (fun hb => (hb.1 rfl).elim) (nofun)
    · rename_i hnew
      cases Option.some.inj hn
      refine h.setPhase rfl (fun _ hid => hid) (fun _ d k _ hd hid hb => ?_) (nofun)
      -- A busy callback of the id is unsettled, for a recorded one would have marked it.
      refine hg hnew (hid ▸ busy_of_unsettled hd hb fun hk => hnew ?_)
      exact hid ▸ h.recorded_replied d k hd hk
  | post c outcome respondedAt =>
    simp only [next] at hn
    split at hn
    · rename_i claims ref event hc
      have halone : ∀ d k, d ≠ c → w.callbacks d = some k →
          k.claims.actionId = claims.actionId → ¬ Busy k.phase := by
        intro d k hne hd hid hb
        exact hne (h.one_busy d c k _ hd hc hid hb ⟨nofun, nofun⟩)
      split at hn
      · cases Option.some.inj hn
        exact h.setPhase rfl (fun _ hid => List.mem_cons_of_mem _ hid) (fun _ => halone)
          fun _ => List.mem_cons_self
      · cases Option.some.inj hn
        exact h.setPhase rfl (fun _ hid => List.mem_cons_of_mem _ hid) (fun _ => halone)
          fun _ => List.mem_cons_self
      · cases Option.some.inj hn
        exact h.setPhase rfl (fun _ hid => hid) (fun _ => halone) (nofun)
      · cases Option.some.inj hn
        exact h.setPhase rfl (fun _ hid => hid) (fun hb => (hb.2 rfl).elim) (nofun)
    · cases hn
  | otherEndpoint store =>
    cases Option.some.inj hn
    exact ⟨h.one_busy, h.recorded_replied⟩

theorem Invariant.singleUse {w : World V} (h : Invariant w) : SingleUse w := by
  rintro c id ⟨k, hc, rfl, hk⟩ d l hne hd hid
  have hbusy : Busy k.phase := by
    rcases hk with hk | hk <;> rw [hk] <;> exact ⟨nofun, nofun⟩
  have hturned : ¬ Busy l.phase := fun hl => hne (h.one_busy d c l k hd hc hid hl hbusy)
  constructor
  · rintro ⟨m, hm, -, hm'⟩
    cases hd.symm.trans hm
    rcases hm' with hl | hl <;> rw [hl] at hturned <;> exact hturned ⟨nofun, nofun⟩
  · intro r hr
    unfold Callback.response at hr
    split at hr
    · rename_i hl
      rw [hl] at hturned
      exact (hturned ⟨nofun, nofun⟩).elim
    · exact (Option.some.inj hr).symm
    · cases hr

/-- Callbacks that never overlap leave one response for an action. -/
theorem responses_single_use {text : String → V} {w : World V}
    (h : Reachable (callbacks text) Alone w) : SingleUse w :=
  (Reachable.invariant (P := Invariant) (fun _ => start_invariant)
    (fun _ _ _ => next_invariant) h).singleUse

def prompt (choice : String) : Claims := ⟨7, 1, 1, choice, "user@corp", 0, 900⟩

def freshProcess : World String := ⟨⟨fun _ => none, []⟩, [], [], fun _ => none⟩

theorem freshProcess_start (text : String → String) : (callbacks text).start freshProcess :=
  ⟨rfl, fun _ => rfl⟩

def acknowledgeThenDeny : List (Event String) :=
  [.callback 0 (.ok (prompt "acknowledge")) 10, .post 0 .written "10",
    .callback 1 (.ok (prompt "deny")) 20]

theorem acknowledged_then_denied_single : ∃ w, runTrace (callbacks id) freshProcess
    acknowledgeThenDeny = some w ∧ SingleUse w := by
  have hrun : ∃ w, runTrace (callbacks id) freshProcess acknowledgeThenDeny = some w := ⟨_, rfl⟩
  obtain ⟨w, hw⟩ := hrun
  refine ⟨w, hw, responses_single_use
    (Reachable.runTrace (.start (freshProcess_start id)) ?_ hw)⟩
  refine guardedTrace_cons ?_ rfl ?_
  · rintro - ⟨d, k, hd, -⟩
    cases hd
  refine guardedTrace_cons trivial rfl ?_
  exact guardedTrace_cons (fun hnew => (hnew List.mem_cons_self).elim) rfl trivial

/-- Both links of one prompt are clicked while the first write is awaited. -/
theorem both_links_recorded : ¬ ∀ (w : World String),
    Reachable (callbacks id) anyStep w → SingleUse w := by
  intro h
  have hrun : ∃ w, runTrace (callbacks id) freshProcess
      [.callback 0 (.ok (prompt "acknowledge")) 10, .callback 1 (.ok (prompt "deny")) 20,
        .post 0 .written "10", .post 1 .written "20"] = some w ∧ Records w 0 7 ∧ Records w 1 7 :=
    ⟨_, rfl, ⟨_, rfl, rfl, Or.inl rfl⟩, ⟨_, rfl, rfl, Or.inl rfl⟩⟩
  obtain ⟨w, hw, hfirst, hsecond⟩ := hrun
  have hreach : Reachable (callbacks id) anyStep w :=
    Reachable.runTrace (.start (freshProcess_start id))
      (anyStep_guarded _ _) hw
  obtain ⟨k, hk, hid, hrecorded⟩ := hsecond
  exact (h w hreach 0 7 hfirst 1 k (by decide) hk hid).1 ⟨k, hk, hid, hrecorded⟩

end ChatOpsCallback
