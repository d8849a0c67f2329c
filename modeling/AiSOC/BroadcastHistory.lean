import AiSOC.GraphBroadcaster

/-! # What the subscribers of a broadcaster get

A run is recorded: the envelopes that were published, each with the subscribers it was owed to, and
what became of each send. As one dispatch ends before the next begins, a subscriber gets what it is
owed in order, but for what found its buffer full. -/
namespace BroadcastHistory

open TransitionSystem (System Reachable runTrace guardedTrace_cons)
open GraphBroadcaster

variable {E : Type}

/-- An envelope with the subscribers that were there for it. -/
structure Publication (E : Type) where
  env : Envelope E
  audience : List Nat
  deriving DecidableEq

/-- What became of a send. -/
structure Fate (E : Type) where
  id : Nat
  env : Envelope E
  delivered : Bool
  deriving DecidableEq

structure History (E : Type) where
  published : List (Publication E)
  fates : List (Fate E)

/-- An envelope of its tenant, or one without a tenant; without a tenant a subscriber sees all. -/
def Sees (sub : Subscriber E) (env : Envelope E) : Prop :=
  sub.tenantID = "" ∨ env.tenantID = sub.tenantID ∨ env.tenantID = ""

instance (sub : Subscriber E) (env : Envelope E) : Decidable (Sees sub env) :=
  inferInstanceAs (Decidable (_ ∨ _))

def audience (w : World E) (env : Envelope E) : List Nat :=
  w.registered.filter fun id => (w.subscribers id).any fun sub => Sees sub env

def record (w : World E) (h : History E) : Event E → History E
  | .dispatch _ env _ => { h with published := h.published ++ [⟨env, audience w env⟩] }
  | .send d =>
    match w.dispatches d with
    | some ⟨env, id :: _⟩ =>
      { h with fates := h.fates ++ [⟨id, env, (w.subscribers id).any fun sub =>
        sub.buffer.length < sub.capacity⟩] }
    | _ => h
  | _ => h

/-- The broadcaster with the record of its run. -/
def recorded (bufferSize : Nat) : System (World E × History E) (Event E) where
  start s := (broadcaster bufferSize).start s.1 ∧ s.2 = ⟨[], []⟩
  next s e := (next bufferSize s.1 e).map fun w => (w, record s.1 s.2 e)

/-- The loop that consumes the topic dispatches one envelope after the other. -/
def Sequential (s : World E × History E) : Event E → Prop
  | .dispatch _ _ _ => ∀ d t, s.1.dispatches d = some t → t.targets = []
  | _ => True

def owed (h : History E) (id : Nat) : List (Envelope E) :=
  (h.published.filter fun p => id ∈ p.audience).map Publication.env

def fatesOf (h : History E) (id : Nat) : List (Fate E) := h.fates.filter fun f => f.id = id

def delivered (h : History E) (id : Nat) : List (Envelope E) :=
  ((fatesOf h id).filter fun f => f.delivered).map Fate.env

/-- The envelope is on its way to the subscriber. -/
def Pending (w : World E) (id : Nat) (env : Envelope E) : Prop :=
  ∃ d t, w.dispatches d = some t ∧ id ∈ t.targets ∧ t.env = env

/-- What a subscriber has got, or has in its channel, is what it sees, in the order of publication.
What it is owed was sent, one is on its way at most, and what of it was not delivered was dropped;
the counter is the number of all that were. -/
structure Faithful (w : World E) (h : History E) : Prop where
  scope : ∀ id sub, w.subscribers id = some sub → sub.tenantID ≠ "" →
    ∀ env ∈ sub.received ++ sub.buffer, env.tenantID = sub.tenantID ∨ env.tenantID = ""
  order : ∀ id sub, w.subscribers id = some sub →
    (sub.received ++ sub.buffer).Sublist (owed h id)
  received : ∀ id sub, w.subscribers id = some sub → sub.received ++ sub.buffer = delivered h id
  sent : ∀ id, (∀ env, ¬Pending w id env) → owed h id = (fatesOf h id).map Fate.env
  pending : ∀ id env, Pending w id env → owed h id = (fatesOf h id).map Fate.env ++ [env]
  counter : w.dropped = (h.fates.filter fun f => !f.delivered).length

/-! ## The state of the broadcaster -/

structure Shape (w : World E) : Prop where
  known : ∀ id sub, w.subscribers id = some sub → id ≤ w.nextID
  registered : ∀ id ∈ w.registered, ∃ sub, w.subscribers id = some sub
  nodup : w.registered.Nodup
  targets_nodup : ∀ d t, w.dispatches d = some t → t.targets.Nodup
  targets_see : ∀ d t, w.dispatches d = some t → ∀ id ∈ t.targets,
    ∃ sub, w.subscribers id = some sub ∧ Sees sub t.env
  one : ∀ c d s t, w.dispatches c = some s → w.dispatches d = some t → s.targets ≠ [] →
    t.targets ≠ [] → c = d

variable {w : World E} {h : History E} {id : Nat} {old sub : Subscriber E} {env : Envelope E}

theorem of_update {α : Type} {f : Nat → Option α} {c d : Nat} {a b : α}
    (h : Function.update f d (some a) c = some b) : c = d ∧ b = a ∨ c ≠ d ∧ f c = some b := by
  by_cases hc : c = d
  · subst hc
    rw [Function.update_self] at h
    exact .inl ⟨rfl, (Option.some.inj h).symm⟩
  · rw [Function.update_of_ne hc] at h
    exact .inr ⟨hc, h⟩

theorem inScope_iff : inScope sub env = true ↔ Sees sub env := by
  rw [inScope, Sees]
  by_cases hs : sub.tenantID = ""
  · simp [hs]
  · by_cases he : env.tenantID = ""
    · simp [hs, he]
    · simp [hs, he, eq_comm]

theorem audience_eq_targets : audience w env = targets w env := by
  refine List.filter_congr fun id _ => ?_
  cases w.subscribers id with
  | none => rfl
  | some sub => exact Bool.eq_iff_iff.mpr (decide_eq_true_iff.trans inScope_iff.symm)

theorem Sees.congr (htenant : sub.tenantID = old.tenantID) (h : Sees old env) : Sees sub env := by
  rw [Sees, htenant]
  exact h

/-- A subscriber may change, but for its tenant. -/
theorem Shape.changed (hw : Shape w) (hold : w.subscribers id = some old)
    (htenant : sub.tenantID = old.tenantID) : Shape (setSubscriber w id sub) := by
  have hsome : ∀ k s, w.subscribers k = some s → ∃ s', (setSubscriber w id sub).subscribers k =
      some s' ∧ s'.tenantID = s.tenantID := by
    intro k s hs
    by_cases hk : k = id
    · subst hk
      obtain rfl := Option.some.inj (hold.symm.trans hs)
      exact ⟨sub, Function.update_self .., htenant⟩
    · exact ⟨s, (Function.update_of_ne hk ..).trans hs, rfl⟩
  refine ⟨fun k s hk => ?_, fun k hk => ?_, hw.nodup, hw.targets_nodup, fun d t ht k hk => ?_,
    hw.one⟩
  · rcases of_update hk with ⟨rfl, -⟩ | ⟨-, hk⟩
    · exact hw.known k old hold
    · exact hw.known k s hk
  · obtain ⟨s, hs⟩ := hw.registered k hk
    obtain ⟨s', hs', -⟩ := hsome k s hs
    exact ⟨s', hs'⟩
  · obtain ⟨s, hs, hsees⟩ := hw.targets_see d t ht k hk
    obtain ⟨s', hs', htenant'⟩ := hsome k s hs
    exact ⟨s', hs', hsees.congr htenant'⟩

theorem Shape.subscribe (hw : Shape w) (bufferSize : Nat) (tenantID : String) (buf : Int) :
    Shape (subscribeWithBuffer bufferSize w tenantID buf) := by
  have hold : ∀ k s, w.subscribers k = some s →
      (subscribeWithBuffer bufferSize w tenantID buf).subscribers k = some s := by
    intro k s hs
    have hle := hw.known k s hs
    have hne : k ≠ w.nextID + 1 := by omega
    exact (Function.update_of_ne hne ..).trans hs
  refine ⟨fun k s hk => ?_, fun k hk => ?_, ?_, hw.targets_nodup, fun d t ht k hk => ?_, hw.one⟩
  · rcases of_update hk with ⟨rfl, -⟩ | ⟨-, hk⟩
    · exact Nat.le_refl _
    · exact Nat.le_succ_of_le (hw.known k s hk)
  · rcases List.mem_cons.mp hk with rfl | hk
    · exact ⟨_, Function.update_self ..⟩
    · obtain ⟨s, hs⟩ := hw.registered k hk
      exact ⟨s, hold k s hs⟩
  · refine List.nodup_cons.mpr ⟨fun hmem => ?_, hw.nodup⟩
    obtain ⟨s, hs⟩ := hw.registered _ hmem
    have hle := hw.known _ s hs
    omega
  · obtain ⟨s, hs, hsees⟩ := hw.targets_see d t ht k hk
    exact ⟨s, hold k s hs, hsees⟩

/-- A dispatch may go on with targets that see its envelope, if no other is on its way. -/
theorem Shape.dispatches (hw : Shape w) (d : Nat) (t : Dispatch E) (hnodup : t.targets.Nodup)
    (hsees : ∀ id ∈ t.targets, ∃ sub, w.subscribers id = some sub ∧ Sees sub t.env)
    (hone : ∀ c s, w.dispatches c = some s → s.targets ≠ [] → c = d) :
    Shape { w with dispatches := Function.update w.dispatches d (some t) } := by
  refine ⟨hw.known, hw.registered, hw.nodup, fun c s hs => ?_, fun c s hs => ?_,
    fun c c' s s' hs hs' hne hne' => ?_⟩
  · rcases of_update hs with ⟨-, rfl⟩ | ⟨-, hs⟩
    · exact hnodup
    · exact hw.targets_nodup c s hs
  · rcases of_update hs with ⟨-, rfl⟩ | ⟨-, hs⟩
    · exact hsees
    · exact hw.targets_see c s hs
  · have hd : ∀ c s, Function.update w.dispatches d (some t) c = some s → s.targets ≠ [] →
        c = d := by
      intro c s hs hne
      rcases of_update hs with ⟨rfl, -⟩ | ⟨-, hs⟩
      · rfl
      · exact hone c s hs hne
    exact (hd c s hs hne).trans (hd c' s' hs' hne').symm

/-! ## The record -/

/-- What the record says of the channels, the sends and the counter. -/
structure Account (w : World E) (h : History E) : Prop where
  fates_see : ∀ f ∈ h.fates, ∃ sub, w.subscribers f.id = some sub ∧ Sees sub f.env
  channel : ∀ id sub, w.subscribers id = some sub → sub.received ++ sub.buffer = delivered h id
  sent : ∀ id, (∀ env, ¬Pending w id env) → owed h id = (fatesOf h id).map Fate.env
  pending : ∀ id env, Pending w id env → owed h id = (fatesOf h id).map Fate.env ++ [env]
  counter : w.dropped = (h.fates.filter fun f => !f.delivered).length

theorem Account.changed (hc : Account w h) (hold : w.subscribers id = some old)
    (htenant : sub.tenantID = old.tenantID)
    (hchannel : sub.received ++ sub.buffer = old.received ++ old.buffer) :
    Account (setSubscriber w id sub) h := by
  refine ⟨fun f hf => ?_, fun k s hk => ?_, hc.sent, hc.pending, hc.counter⟩
  · obtain ⟨s, hs, hsees⟩ := hc.fates_see f hf
    by_cases hid : f.id = id
    · rw [hid] at hs ⊢
      obtain rfl := Option.some.inj (hold.symm.trans hs)
      exact ⟨sub, Function.update_self .., hsees.congr htenant⟩
    · exact ⟨s, (Function.update_of_ne hid ..).trans hs, hsees⟩
  · rcases of_update hk with ⟨rfl, rfl⟩ | ⟨-, hk⟩
    · rw [hchannel, hc.channel k old hold]
    · exact hc.channel k s hk

theorem Account.subscribe (hc : Account w h) (hw : Shape w) (bufferSize : Nat) (tenantID : String)
    (buf : Int) : Account (subscribeWithBuffer bufferSize w tenantID buf) h := by
  refine ⟨fun f hf => ?_, fun k s hk => ?_, hc.sent, hc.pending, hc.counter⟩
  · obtain ⟨s, hs, hsees⟩ := hc.fates_see f hf
    have hle := hw.known f.id s hs
    have hne : f.id ≠ w.nextID + 1 := by omega
    exact ⟨s, (Function.update_of_ne hne ..).trans hs, hsees⟩
  · rcases of_update hk with ⟨rfl, rfl⟩ | ⟨-, hk⟩
    · have hnone : fatesOf h (w.nextID + 1) = [] := by
        refine List.filter_eq_nil_iff.mpr fun f hf => ?_
        obtain ⟨s, hs, -⟩ := hc.fates_see f hf
        have hle := hw.known f.id s hs
        rw [decide_eq_true_iff]
        omega
      rw [delivered, hnone]
      rfl
    · exact hc.channel k s hk

/-- A publication while no envelope is on its way. -/
theorem Account.publish (hc : Account w h) {d : Nat} {order : List Nat}
    (hidle : ∀ c t, w.dispatches c = some t → t.targets = [])
    (horder : ∀ id, id ∈ order ↔ id ∈ audience w env) :
    Account { w with dispatches := Function.update w.dispatches d (some ⟨env, order⟩) }
      { h with published := h.published ++ [⟨env, audience w env⟩] } := by
  have hnone : ∀ id env, ¬Pending w id env := by
    rintro id env ⟨c, t, ht, hmem, -⟩
    rw [hidle c t ht] at hmem
    cases hmem
  have howed : ∀ id, owed { h with published := h.published ++ [⟨env, audience w env⟩] } id =
      (fatesOf h id).map Fate.env ++ if id ∈ audience w env then [env] else [] := by
    intro id
    rw [owed, List.filter_append, List.map_append, ← owed, hc.sent id (hnone id)]
    by_cases hid : id ∈ audience w env
    · simp [hid]
    · simp [hid]
  have hpending : ∀ id e, Pending { w with
      dispatches := Function.update w.dispatches d (some ⟨env, order⟩) } id e →
      e = env ∧ id ∈ order := by
    rintro id e ⟨c, t, ht, hmem, rfl⟩
    rcases of_update ht with ⟨-, rfl⟩ | ⟨-, ht⟩
    · exact ⟨rfl, hmem⟩
    · rw [hidle c t ht] at hmem
      cases hmem
  refine ⟨hc.fates_see, hc.channel, fun id hid => ?_, fun id e hid => ?_, hc.counter⟩
  · have hout : id ∉ audience w env := by
      rw [← horder]
      exact fun hmem => hid env ⟨d, ⟨env, order⟩, Function.update_self .., hmem, rfl⟩
    rw [howed, if_neg hout, List.append_nil]
    rfl
  · obtain ⟨rfl, hmem⟩ := hpending id e hid
    rw [howed, if_pos ((horder id).mp hmem)]
    rfl

theorem fatesOf_append (h : History E) (f : Fate E) (k : Nat) :
    fatesOf { h with fates := h.fates ++ [f] } k =
      fatesOf h k ++ if f.id = k then [f] else [] := by
  rw [fatesOf, List.filter_append, ← fatesOf, List.filter_singleton]
  by_cases hk : f.id = k <;> simp [hk]

/-- A send goes on the record, and the dispatch goes on with the others. -/
theorem Account.advance (hw : Shape w) (hc : Account w h) {d : Nat} {rest : List Nat} {b : Bool}
    (hd : w.dispatches d = some ⟨env, id :: rest⟩) {subs : Nat → Option (Subscriber E)} {n : Nat}
    (hsubs : ∀ k s, w.subscribers k = some s → ∃ s', subs k = some s' ∧ s'.tenantID = s.tenantID)
    (hchannel : ∀ k s, subs k = some s →
      s.received ++ s.buffer = delivered { h with fates := h.fates ++ [⟨id, env, b⟩] } k)
    (hcounter : n = w.dropped + if b then 0 else 1) :
    Account { w with
      subscribers := subs
      dropped := n
      dispatches := Function.update w.dispatches d (some ⟨env, rest⟩) }
      { h with fates := h.fates ++ [⟨id, env, b⟩] } := by
  have hid : Pending w id env := ⟨d, _, hd, List.mem_cons_self, rfl⟩
  have hother : ∀ k, k ≠ id → fatesOf { h with fates := h.fates ++ [⟨id, env, b⟩] } k =
      fatesOf h k := by
    intro k hk
    rw [fatesOf_append, if_neg (Ne.symm hk), List.append_nil]
  have hself : (fatesOf { h with fates := h.fates ++ [⟨id, env, b⟩] } id).map Fate.env =
      (fatesOf h id).map Fate.env ++ [env] := by
    rw [fatesOf_append, if_pos rfl, List.map_append]
    rfl
  have hnotin : id ∉ rest := (List.nodup_cons.mp (hw.targets_nodup d _ hd)).1
  refine ⟨fun f hf => ?_, hchannel, fun k hk => ?_, fun k e hk => ?_, ?_⟩
  · have hsees : ∃ s, w.subscribers f.id = some s ∧ Sees s f.env := by
      rcases List.mem_append.mp hf with hf | hf
      · exact hc.fates_see f hf
      · obtain rfl := List.mem_singleton.mp hf
        exact hw.targets_see d _ hd id List.mem_cons_self
    obtain ⟨s, hs, hsees⟩ := hsees
    obtain ⟨s', hs', htenant⟩ := hsubs f.id s hs
    exact ⟨s', hs', hsees.congr htenant⟩
  · by_cases hkid : k = id
    · subst hkid
      rw [hself]
      exact hc.pending k env hid
    · rw [hother k hkid]
      refine hc.sent k ?_
      rintro e ⟨c, t, ht, hmem, rfl⟩
      by_cases hcd : c = d
      · subst hcd
        obtain rfl := Option.some.inj (hd.symm.trans ht)
        have hrest := (List.mem_cons.mp hmem).resolve_left hkid
        exact hk env ⟨c, ⟨env, rest⟩, Function.update_self .., hrest, rfl⟩
      · exact hk t.env ⟨c, t, (Function.update_of_ne hcd ..).trans ht, hmem, rfl⟩
  · obtain ⟨c, t, ht, hmem, rfl⟩ := hk
    rcases of_update ht with ⟨rfl, rfl⟩ | ⟨hcd, ht⟩
    · have hkid : k ≠ id := fun heq => hnotin (heq ▸ hmem)
      rw [hother k hkid]
      exact hc.pending k env ⟨c, _, hd, List.mem_cons_of_mem id hmem, rfl⟩
    · exact absurd (hw.one c d t _ ht hd (List.ne_nil_of_mem hmem) (List.cons_ne_nil _ _)) hcd
  · dsimp only
    rw [hcounter, hc.counter, List.filter_append, List.length_append]
    cases b <;> rfl

theorem delivered_append (h : History E) (f : Fate E) (k : Nat) :
    delivered { h with fates := h.fates ++ [f] } k =
      delivered h k ++ if f.id = k ∧ f.delivered = true then [f.env] else [] := by
  rw [delivered, fatesOf_append, List.filter_append, List.map_append, ← delivered]
  by_cases hk : f.id = k
  · cases hf : f.delivered <;> simp [hk, hf]
  · simp [hk]

/-- A send to a subscriber whose channel is open. -/
theorem Account.send (hw : Shape w) (hc : Account w h) {d : Nat} {rest : List Nat}
    (hd : w.dispatches d = some ⟨env, id :: rest⟩) (hsub : w.subscribers id = some sub)
    (hopen : sub.closed = false) :
    Account { sendTo w env id with
      dispatches := Function.update w.dispatches d (some ⟨env, rest⟩) }
      (record w h (.send d)) := by
  have hrecord : record w h (.send d) = { h with
      fates := h.fates ++ [⟨id, env, decide (sub.buffer.length < sub.capacity)⟩] } := by
    rw [record, hd]
    dsimp only
    rw [hsub]
    rfl
  rw [hrecord, sendTo, hsub]
  dsimp only
  rw [if_neg (by simp [hopen])]
  split_ifs with hroom
  · rw [decide_eq_true hroom]
    refine hc.advance hw hd (fun k s hs => ?_) (fun k s hs => ?_) rfl
    · by_cases hk : k = id
      · subst hk
        obtain rfl := Option.some.inj (hsub.symm.trans hs)
        exact ⟨_, Function.update_self .., rfl⟩
      · exact ⟨s, (Function.update_of_ne hk ..).trans hs, rfl⟩
    · rw [delivered_append]
      rcases of_update hs with ⟨rfl, rfl⟩ | ⟨hk, hs⟩
      · rw [if_pos ⟨rfl, rfl⟩, ← hc.channel k sub hsub, List.append_assoc]
      · rw [if_neg fun h => hk h.1.symm, List.append_nil, hc.channel k s hs]
  · rw [decide_eq_false hroom]
    refine hc.advance hw hd (fun k s hs => ⟨s, hs, rfl⟩) (fun k s hs => ?_) rfl
    rw [delivered_append, if_neg (by simp), List.append_nil, hc.channel k s hs]

/-! ## Runs -/

structure Kept (w : World E) (h : History E) : Prop where
  shape : Shape w
  account : Account w h

/-- What the record speaks of is the same. -/
theorem Kept.same {u : World E} (hk : Kept w h) (hsubs : u.subscribers = w.subscribers)
    (hregistered : u.registered = w.registered) (hid : u.nextID = w.nextID)
    (hdropped : u.dropped = w.dropped) (hdispatches : u.dispatches = w.dispatches) : Kept u h := by
  obtain ⟨hw, hc⟩ := hk
  have hpending : ∀ id env, Pending u id env ↔ Pending w id env := by
    intro id env
    rw [Pending, hdispatches, Pending]
  refine ⟨⟨?_, ?_, ?_, ?_, ?_, ?_⟩, ⟨?_, ?_, ?_, ?_, ?_⟩⟩
  · rw [hsubs, hid]
    exact hw.known
  · rw [hsubs, hregistered]
    exact hw.registered
  · rw [hregistered]
    exact hw.nodup
  · rw [hdispatches]
    exact hw.targets_nodup
  · rw [hdispatches, hsubs]
    exact hw.targets_see
  · rw [hdispatches]
    exact hw.one
  · rw [hsubs]
    exact hc.fates_see
  · rw [hsubs]
    exact hc.channel
  · simp only [hpending]
    exact hc.sent
  · simp only [hpending]
    exact hc.pending
  · rw [hdropped]
    exact hc.counter

theorem Kept.changed (hk : Kept w h) (hold : w.subscribers id = some old)
    (htenant : sub.tenantID = old.tenantID)
    (hchannel : sub.received ++ sub.buffer = old.received ++ old.buffer) :
    Kept (setSubscriber w id sub) h :=
  ⟨hk.shape.changed hold htenant, hk.account.changed hold htenant hchannel⟩

theorem kept_unsubscribe (hk : Kept w h) (closing : Nat → Option Nat) :
    Kept { w with registered := w.registered.erase id, closing := closing } h := by
  obtain ⟨hw, hc⟩ := hk
  refine ⟨⟨hw.known, fun k hmem => hw.registered k (List.mem_of_mem_erase hmem),
    hw.nodup.erase id, hw.targets_nodup, hw.targets_see, hw.one⟩, ?_⟩
  exact ⟨hc.fates_see, hc.channel, hc.sent, hc.pending, hc.counter⟩

theorem kept_dispatch (hk : Kept w h) {d : Nat} {order : List Nat}
    (hidle : ∀ c t, w.dispatches c = some t → t.targets = [])
    (horder : order.Perm (targets w env)) :
    Kept { w with dispatches := Function.update w.dispatches d (some ⟨env, order⟩) }
      (record w h (.dispatch d env order)) := by
  rw [← audience_eq_targets] at horder
  refine ⟨hk.shape.dispatches d ⟨env, order⟩ ?_ (fun id hid => ?_) fun c s hs hne => ?_,
    hk.account.publish hidle fun id => horder.mem_iff⟩
  · exact horder.nodup_iff.mpr (hk.shape.nodup.filter _)
  · obtain ⟨-, hsees⟩ := List.mem_filter.mp (horder.mem_iff.mp hid)
    obtain ⟨sub, hsub, hsees⟩ := (Option.any_eq_true ..).mp hsees
    exact ⟨sub, hsub, of_decide_eq_true hsees⟩
  · exact absurd (hidle c s hs) hne

theorem shape_sendTo (hw : Shape w) (env : Envelope E) (id : Nat) : Shape (sendTo w env id) := by
  rw [sendTo]
  cases hsub : w.subscribers id with
  | none => exact hw
  | some sub =>
    dsimp only
    split_ifs
    · exact ⟨hw.known, hw.registered, hw.nodup, hw.targets_nodup, hw.targets_see, hw.one⟩
    · exact hw.changed hsub rfl
    · exact ⟨hw.known, hw.registered, hw.nodup, hw.targets_nodup, hw.targets_see, hw.one⟩

theorem kept_send (hk : Kept w h) {d : Nat} {rest : List Nat}
    (hd : w.dispatches d = some ⟨env, id :: rest⟩) (hfaults : (sendTo w env id).faults = []) :
    Kept { sendTo w env id with
      dispatches := Function.update w.dispatches d (some ⟨env, rest⟩) }
      (record w h (.send d)) := by
  obtain ⟨sub, hsub, -⟩ := hk.shape.targets_see d _ hd id List.mem_cons_self
  have hopen : sub.closed = false := by
    rw [sendTo, hsub] at hfaults
    dsimp only at hfaults
    by_contra hclosed
    rw [if_pos (by simpa using hclosed)] at hfaults
    cases hfaults
  have hshape : Shape (sendTo w env id) := shape_sendTo hk.shape env id
  have hd' : (sendTo w env id).dispatches d = some ⟨env, id :: rest⟩ := by
    rw [sendTo_dispatches, hd]
  refine ⟨?_, hk.account.send hk.shape hd hsub hopen⟩
  rw [← sendTo_dispatches w env id]
  refine hshape.dispatches d ⟨env, rest⟩ (List.nodup_cons.mp (hshape.targets_nodup d _ hd')).2
    (fun k hmem => hshape.targets_see d _ hd' k (List.mem_cons_of_mem id hmem)) ?_
  exact fun c s hs hne => hshape.one c d s _ hs hd' hne (List.cons_ne_nil _ _)

theorem kept_close (hk : Kept w h) (hfaults : (closeUpdates w id).faults = [])
    (closing : Nat → Option Nat) : Kept { closeUpdates w id with closing := closing } h := by
  rw [closeUpdates] at hfaults ⊢
  cases hsub : w.subscribers id with
  | none => exact hk.same rfl rfl rfl rfl rfl
  | some sub =>
    rw [hsub] at hfaults
    dsimp only at hfaults ⊢
    split_ifs at hfaults ⊢
    have hclosed : Kept (setSubscriber w id { sub with closed := true }) h :=
      hk.changed hsub rfl rfl
    exact hclosed.same rfl rfl rfl rfl rfl

theorem next_kept {bufferSize : Nat} {u : World E} {e : Event E} (hk : Kept w h)
    (hg : Sequential (w, h) e) (hn : next bufferSize w e = some u) (hfaults : u.faults = []) :
    Kept u (record w h e) := by
  cases e with
  | subscribe tenantID buf =>
    cases Option.some.inj hn
    exact ⟨hk.shape.subscribe bufferSize tenantID buf,
      hk.account.subscribe hk.shape bufferSize tenantID buf⟩
  | unsubscribe v id =>
    simp only [next] at hn
    split at hn
    · cases hn
    split at hn
    · cases Option.some.inj hn
      exact kept_unsubscribe hk _
    · cases Option.some.inj hn
      exact hk
  | close v =>
    obtain ⟨id, -, rfl⟩ := Option.map_eq_some_iff.mp hn
    exact kept_close hk hfaults _
  | dispatch d env order =>
    simp only [next, Option.ite_none_right_eq_some, Option.some.injEq] at hn
    obtain ⟨⟨-, horder⟩, rfl⟩ := hn
    exact kept_dispatch hk hg horder
  | send d =>
    simp only [next] at hn
    split at hn
    · rename_i env id rest hd
      cases Option.some.inj hn
      exact kept_send hk hd hfaults
    · cases hn
  | receive id =>
    simp only [next] at hn
    split at hn
    · rename_i sub hsub
      split at hn
      · rename_i env rest hbuffer
        cases Option.some.inj hn
        refine hk.changed hsub rfl ?_
        rw [hbuffer, List.append_assoc]
        rfl
      · cases hn
    · cases hn
  | stopCheck s =>
    simp only [next] at hn
    split at hn
    · cases hn
    split at hn
    · cases Option.some.inj hn
      exact hk
    · cases Option.some.inj hn
      exact hk.same rfl rfl rfl rfl rfl
  | stopClose s =>
    simp only [next] at hn
    split at hn
    · split at hn
      · cases Option.some.inj hn
        cases hfaults
      · cases Option.some.inj hn
        exact hk.same rfl rfl rfl rfl rfl
    · cases hn

theorem faults_sendTo (w : World E) (env : Envelope E) (id : Nat) :
    w.faults <:+ (sendTo w env id).faults := by
  rw [sendTo]
  split
  · exact List.suffix_refl _
  · split_ifs
    · exact List.suffix_cons _ _
    · exact List.suffix_refl _
    · exact List.suffix_refl _

theorem faults_closeUpdates (w : World E) (id : Nat) :
    w.faults <:+ (closeUpdates w id).faults := by
  rw [closeUpdates]
  split
  · exact List.suffix_refl _
  · split_ifs
    · exact List.suffix_cons _ _
    · exact List.suffix_refl _

/-- A fault stays on the list. -/
theorem faults_next {bufferSize : Nat} {u : World E} {e : Event E}
    (hn : next bufferSize w e = some u) : w.faults <:+ u.faults := by
  cases e with
  | subscribe tenantID buf =>
    cases Option.some.inj hn
    exact List.suffix_refl _
  | close v =>
    obtain ⟨id, -, rfl⟩ := Option.map_eq_some_iff.mp hn
    exact faults_closeUpdates w id
  | dispatch d env order =>
    simp only [next, Option.ite_none_right_eq_some, Option.some.injEq] at hn
    obtain ⟨-, rfl⟩ := hn
    exact List.suffix_refl _
  | send d =>
    simp only [next] at hn
    split at hn
    · cases Option.some.inj hn
      exact faults_sendTo w _ _
    · cases hn
  | stopClose s =>
    simp only [next] at hn
    split at hn
    · split at hn
      · cases Option.some.inj hn
        exact List.suffix_cons _ _
      · cases Option.some.inj hn
        exact List.suffix_refl _
    · cases hn
  | _ =>
    simp only [next] at hn
    repeat' split at hn
    all_goals cases hn
    all_goals exact List.suffix_refl _

theorem kept_start {bufferSize : Nat} (hs : (recorded bufferSize).start (w, h)) : Kept w h := by
  obtain ⟨⟨hsubs, hregistered, -, hdropped, hdispatches, -⟩, rfl⟩ := hs
  have hpending : ∀ id env, ¬Pending w id env := by
    rintro id env ⟨d, t, ht, -⟩
    cases (hdispatches d).symm.trans ht
  refine ⟨⟨fun id sub hsub => ?_, ?_, ?_, fun d t ht => ?_, fun d t ht => ?_,
    fun c d s t hc => ?_⟩, ⟨nofun, fun id sub hsub => ?_, fun _ _ => rfl,
    fun id env hid => absurd hid (hpending id env), hdropped⟩⟩
  · cases (hsubs id).symm.trans hsub
  · rw [hregistered]
    exact nofun
  · rw [hregistered]
    exact List.nodup_nil
  · cases (hdispatches d).symm.trans ht
  · cases (hdispatches d).symm.trans ht
  · cases (hdispatches c).symm.trans hc
  · cases (hsubs id).symm.trans hsub

theorem kept_of_reachable {bufferSize : Nat} {s : World E × History E}
    (hr : Reachable (recorded bufferSize) Sequential s) : s.1.faults = [] → Kept s.1 s.2 := by
  refine Reachable.invariant (P := fun s => s.1.faults = [] → Kept s.1 s.2)
    (fun s hs _ => kept_start hs) (fun s e t ih hg hn hfaults => ?_) hr
  obtain ⟨u, hu, rfl⟩ := Option.map_eq_some_iff.mp hn
  have hbefore : s.1.faults = [] :=
    List.suffix_nil.mp (hfaults ▸ faults_next hu)
  exact next_kept (ih hbefore) hg hu hfaults

/-- Every run of the broadcaster has a record. -/
theorem exists_history {bufferSize : Nat} {G : World E → Event E → Prop}
    (hr : Reachable (broadcaster bufferSize) G w) :
    ∃ h, Reachable (recorded bufferSize) (fun s e => G s.1 e) (w, h) := by
  induction hr with
  | start hs => exact ⟨⟨[], []⟩, .start ⟨hs, rfl⟩⟩
  | @step w e u _ hg hn ih =>
    obtain ⟨h, hh⟩ := ih
    exact ⟨record w h e, hh.step hg (Option.map_eq_some_iff.mpr ⟨u, hn, rfl⟩)⟩

theorem Kept.sublist (hk : Kept w h) (id : Nat) : (delivered h id).Sublist (owed h id) := by
  have hfates : (delivered h id).Sublist ((fatesOf h id).map Fate.env) :=
    List.filter_sublist.map Fate.env
  by_cases hpending : ∃ env, Pending w id env
  · obtain ⟨env, henv⟩ := hpending
    rw [hk.account.pending id env henv]
    exact hfates.trans (List.sublist_append_left _ _)
  · rw [hk.account.sent id (not_exists.mp hpending)]
    exact hfates

/-- In every run of dispatches one after the other, as long as nothing has gone wrong, subscribers
get what they are owed, in order, but for what was dropped and counted. -/
theorem broadcast_faithful (bufferSize : Nat) (w : World E) (h : History E)
    (hr : Reachable (recorded bufferSize) Sequential (w, h)) (hfaults : w.faults = []) :
    Faithful w h := by
  have hk : Kept w h := kept_of_reachable hr hfaults
  refine ⟨fun id sub hsub htenant env henv => ?_, fun id sub hsub => ?_, hk.account.channel,
    hk.account.sent, hk.account.pending, hk.account.counter⟩
  · rw [hk.account.channel id sub hsub] at henv
    obtain ⟨f, hf, rfl⟩ := List.mem_map.mp henv
    obtain ⟨hf, hid⟩ := List.mem_filter.mp (List.mem_filter.mp hf).1
    obtain ⟨s, hs, hsees⟩ := hk.account.fates_see f hf
    rw [of_decide_eq_true hid, hsub] at hs
    obtain rfl := Option.some.inj hs
    exact hsees.resolve_left htenant
  · rw [hk.account.channel id sub hsub]
    exact hk.sublist id

def noHistory : History Unit := ⟨[], []⟩

theorem recorded_start (bufferSize : Nat) :
    Reachable (recorded bufferSize) Sequential (newBroadcaster, noHistory) :=
  .start ⟨newBroadcaster_start bufferSize, rfl⟩

/-- The second envelope finds the buffer full. -/
def slowRun : List (Event Unit) :=
  [.subscribe "tenant-a" 1, .dispatch 0 ⟨"tenant-a", ()⟩ [1], .send 0,
    .dispatch 1 ⟨"tenant-a", ()⟩ [1], .send 1]

theorem slow_subscriber_drops : ∃ s,
    runTrace (recorded 256) (newBroadcaster, noHistory) slowRun = some s ∧ s.1.dropped = 1 ∧
      Faithful s.1 s.2 := by
  have hrun : (runTrace (recorded 256) (newBroadcaster, noHistory) slowRun).map
      (fun s => (s.1.faults, s.1.dropped)) = some ([], 1) := rfl
  obtain ⟨⟨w, h⟩, hw, hends⟩ := Option.map_eq_some_iff.mp hrun
  obtain ⟨hfaults, hdropped⟩ := Prod.mk.inj hends
  refine ⟨(w, h), hw, hdropped, broadcast_faithful 256 w h
    (Reachable.runTrace (recorded_start 256) ?_ hw) hfaults⟩
  refine guardedTrace_cons trivial rfl ?_
  refine guardedTrace_cons (fun d t ht => by cases ht) rfl ?_
  refine guardedTrace_cons trivial rfl ?_
  refine guardedTrace_cons (fun d t ht => ?_) rfl ?_
  · rcases of_update ht with ⟨-, rfl⟩ | ⟨hd, ht⟩
    · rfl
    · rcases of_update ht with ⟨rfl, -⟩ | ⟨-, ht⟩
      · exact absurd rfl hd
      · cases ht
  · exact guardedTrace_cons trivial rfl trivial

/-- A subscriber of a tenant receives envelopes of this tenant only. -/
def OwnTenantOnly (w : World E) : Prop :=
  ∀ id sub, w.subscribers id = some sub → sub.tenantID ≠ "" →
    ∀ env ∈ sub.received, env.tenantID = sub.tenantID

def unscopedRun : List (Event Unit) :=
  [.subscribe "tenant-a" 1, .dispatch 0 ⟨"", ()⟩ [1], .send 0, .receive 1]

/-- An envelope without a tenant is received by the subscribers of all. -/
theorem unscoped_envelope_received : ¬∀ (bufferSize : Nat) (w : World Unit) (h : History Unit),
    Reachable (recorded bufferSize) Sequential (w, h) → w.faults = [] → OwnTenantOnly w := by
  intro hall
  have hrun : ∃ w h sub, runTrace (recorded 256) (newBroadcaster, noHistory) unscopedRun =
      some (w, h) ∧ w.faults = [] ∧ w.subscribers 1 = some sub ∧ sub.tenantID = "tenant-a" ∧
        sub.received = [⟨"", ()⟩] :=
    ⟨_, _, _, rfl, rfl, rfl, rfl, rfl⟩
  obtain ⟨w, h, sub, hw, hfaults, hsub, htenant, hreceived⟩ := hrun
  have hguarded : TransitionSystem.GuardedTrace (recorded 256) Sequential
      (newBroadcaster, noHistory) unscopedRun := by
    refine guardedTrace_cons trivial rfl ?_
    refine guardedTrace_cons (fun d t ht => by cases ht) rfl ?_
    exact guardedTrace_cons trivial rfl (guardedTrace_cons trivial rfl trivial)
  have hown := hall 256 w h (Reachable.runTrace (recorded_start 256) hguarded hw) hfaults 1 sub hsub
  rw [htenant, hreceived] at hown
  exact absurd (hown (by decide) ⟨"", ()⟩ List.mem_cons_self) (by decide)

end BroadcastHistory
