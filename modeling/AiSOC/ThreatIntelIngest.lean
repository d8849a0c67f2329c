import AiSOC.BloomFilter
import AiSOC.CallHistory
import AiSOC.OrderedDict
import AiSOC.TextEncoding

/-! # Ingestion of indicators

Batches of indicators go through a Bloom filter, and those that it does not know to the bulk
index. The filter is marked while the batch is read, the index is written after it. -/
namespace ThreatIntelIngest

open CodeText (Text text)
open BloomFilter (Bits noBits setAll getAll Covers Marks)
open CallHistory (EachCall eachCall_append_singleton)
open TextEncoding (encodeUtf8)

variable {V : Type*}

abbrev Ioc (V : Type*) := OrderedDict String V

/-- The hash functions are those of the seeds below `numHashes`. -/
structure RedisBloomFilter where
  size : ℕ
  numHashes : ℕ
  size_pos : 0 < size
  numHashes_pos : 0 < numHashes
  hash : ℕ → ByteText.Bytes → ℕ

namespace RedisBloomFilter

def bitPositions (f : RedisBloomFilter) (item : Text) : Option (List ℕ) :=
  (encodeUtf8 item).map fun encoded =>
    (List.range f.numHashes).map fun seed => f.hash seed encoded % f.size

def contains (f : RedisBloomFilter) (bits : Bits) (item : Text) : Option Bool :=
  (f.bitPositions item).map fun ps => getAll bits ps

def add (f : RedisBloomFilter) (bits : Bits) (item : Text) : Option Bits :=
  (f.bitPositions item).map fun ps => setAll bits ps

end RedisBloomFilter

/-- `fmt` is the text of a value. -/
def bloomKey (fmt : V → Text) (ioc : Ioc V) : Text :=
  ((ioc.get "type").map fmt).getD (text "?") ++ text ":" ++
    ((ioc.get "value").map fmt).getD (text "?")

/-- What the loop leaves; an exception ends it with the bits that were set. -/
structure Dedup (V : Type*) where
  bits : Bits
  newIocs : List (Ioc V)
  duplicates : List (Ioc V)
  raised : Bool

@[grind =]
def dedup (f : RedisBloomFilter) (fmt : V → Text) : Bits → List (Ioc V) → Dedup V
  | bits, [] => ⟨bits, [], [], false⟩
  | bits, ioc :: iocs =>
    match f.contains bits (bloomKey fmt ioc) with
    | none => ⟨bits, [], [], true⟩
    | some true =>
      let d := dedup f fmt bits iocs
      { d with duplicates := ioc :: d.duplicates }
    | some false =>
      match f.add bits (bloomKey fmt ioc) with
      | none => ⟨bits, [], [], true⟩
      | some bits =>
        let d := dedup f fmt bits iocs
        { d with newIocs := ioc :: d.newIocs }

structure Stats where
  total : ℕ
  new : ℕ
  duplicate : ℕ
  indexed : Option ℕ
  deriving DecidableEq

/-- A call with what becomes of it: the count that its bulk index call returns, if it does not
raise, and whether its events are emitted without an exception. -/
structure Call (V : Type*) where
  iocs : List (Ioc V)
  bulk : Option ℕ
  emits : Bool

/-- The filter, and what the bulk index calls that succeeded received. -/
structure State (V : Type*) where
  bits : Bits
  received : List (Ioc V)

/-- There is no result of a call that raises. -/
@[grind =]
def ingestIocs (f : RedisBloomFilter) (fmt : V → Text) (s : State V) (c : Call V) :
    Option Stats × State V :=
  if c.iocs.isEmpty then (some ⟨0, 0, 0, none⟩, s)
  else
    let d := dedup f fmt s.bits c.iocs
    let s := { s with bits := d.bits }
    if d.raised then (none, s)
    else if d.newIocs.isEmpty then (some ⟨c.iocs.length, 0, d.duplicates.length, none⟩, s)
    else
      match c.bulk with
      | none => (none, s)
      | some indexed =>
        (if c.emits then
            some ⟨c.iocs.length, d.newIocs.length, d.duplicates.length, some indexed⟩
          else none,
          { s with received := s.received ++ d.newIocs })

def start : State V := ⟨noBits, []⟩

def run (f : RedisBloomFilter) (fmt : V → Text) (calls : List (Call V)) : State V :=
  calls.foldl (fun s c => (ingestIocs f fmt s c).2) start

def identity (ioc : Ioc V) : Option V × Option V := (ioc.get "type", ioc.get "value")

/-- The indicators that the call counts as duplicates. -/
def counted (f : RedisBloomFilter) (fmt : V → Text) (before : List (Call V)) (c : Call V) :
    List (Ioc V) :=
  (dedup f fmt (run f fmt before).bits c.iocs).duplicates

/-- What a call counts as a duplicate has been received when the call ends. -/
def CountedReceived (f : RedisBloomFilter) (fmt : V → Text) (before : List (Call V))
    (c : Call V) : Prop :=
  ∀ ioc ∈ counted f fmt before c,
    identity ioc ∈ (run f fmt (before ++ [c])).received.map identity

def NoneLost (f : RedisBloomFilter) (fmt : V → Text) : List (Call V) → Prop :=
  EachCall (CountedReceived f fmt)

/-! ## The condition -/

@[grind =]
def encodable (fmt : V → Text) (ioc : Ioc V) : Bool := (encodeUtf8 (bloomKey fmt ioc)).isSome

@[grind =]
def positions (f : RedisBloomFilter) (fmt : V → Text) (ioc : Ioc V) : List ℕ :=
  (f.bitPositions (bloomKey fmt ioc)).getD []

/-- The indicators that the loop comes to. -/
def sent (fmt : V → Text) (calls : List (Call V)) : List (Ioc V) :=
  calls.flatMap fun c => c.iocs.takeWhile (encodable fmt)

/-- Every key is encoded and the bulk index call does not raise. -/
def succeeds (fmt : V → Text) (c : Call V) : Bool := c.iocs.all (encodable fmt) && c.bulk.isSome

def kept (fmt : V → Text) (calls : List (Call V)) : List (Ioc V) :=
  (calls.filter (succeeds fmt)).flatMap Call.iocs

/-- In a call, what the filter takes for known was sent in an earlier call that succeeds, or
earlier in this one if it succeeds. -/
def KnownKept (f : RedisBloomFilter) (fmt : V → Text) (before : List (Call V)) (c : Call V) :
    Prop :=
  ∀ iocs ioc rest, c.iocs.takeWhile (encodable fmt) = iocs ++ ioc :: rest →
    Covers (positions f fmt) (sent fmt before ++ iocs) ioc →
    identity ioc ∈ (kept fmt before ++ if succeeds fmt c then iocs else []).map identity

def EachKnownKept (f : RedisBloomFilter) (fmt : V → Text) : List (Call V) → Prop :=
  EachCall (KnownKept f fmt)

variable {f : RedisBloomFilter} {fmt : V → Text} {bits : Bits} {keys iocs : List (Ioc V)}
  {ioc known : Ioc V} {before calls : List (Call V)} {c : Call V}

/-! ## One batch -/

theorem positions_eq_of_identity (h : identity ioc = identity known) :
    positions f fmt ioc = positions f fmt known := by
  obtain ⟨htype, hvalue⟩ := Prod.mk.inj h
  rw [positions, positions, bloomKey, bloomKey, htype, hvalue]

theorem bitPositions_of_encodable (h : encodable fmt ioc = true) :
    f.bitPositions (bloomKey fmt ioc) = some (positions f fmt ioc) := by
  rw [encodable, Option.isSome_iff_exists] at h
  obtain ⟨encoded, hencoded⟩ := h
  rw [positions, RedisBloomFilter.bitPositions, hencoded]
  rfl

theorem dedup_of_not_encodable (h : encodable fmt ioc = false) :
    dedup f fmt bits (ioc :: iocs) = ⟨bits, [], [], true⟩ := by
  rw [encodable, Option.isSome_eq_false_iff, Option.isNone_iff_eq_none] at h
  rw [dedup, RedisBloomFilter.contains, RedisBloomFilter.bitPositions, h]
  rfl

theorem dedup_of_known (h : encodable fmt ioc = true)
    (hknown : getAll bits (positions f fmt ioc) = true) :
    dedup f fmt bits (ioc :: iocs) =
      { dedup f fmt bits iocs with duplicates := ioc :: (dedup f fmt bits iocs).duplicates } := by
  rw [dedup, RedisBloomFilter.contains, bitPositions_of_encodable h, Option.map_some, hknown]

theorem dedup_of_unknown (h : encodable fmt ioc = true)
    (hunknown : getAll bits (positions f fmt ioc) = false) :
    dedup f fmt bits (ioc :: iocs) =
      { dedup f fmt (setAll bits (positions f fmt ioc)) iocs with
        newIocs := ioc :: (dedup f fmt (setAll bits (positions f fmt ioc)) iocs).newIocs } := by
  rw [dedup, RedisBloomFilter.contains, RedisBloomFilter.add, bitPositions_of_encodable h,
    Option.map_some, hunknown]
  rfl

theorem raised_dedup : (dedup f fmt bits iocs).raised = !iocs.all (encodable fmt) := by
  induction iocs generalizing bits with
  | nil => rfl
  | cons ioc iocs ih =>
    rw [List.all_cons]
    cases h : encodable fmt ioc with
    | false => rw [dedup_of_not_encodable h, Bool.false_and, Bool.not_false]
    | true =>
      rw [Bool.true_and]
      cases hknown : getAll bits (positions f fmt ioc) with
      | true => rw [dedup_of_known h hknown, ih]
      | false => rw [dedup_of_unknown h hknown, ih]

theorem marks_dedup (h : Marks (positions f fmt) keys bits) :
    Marks (positions f fmt) (keys ++ iocs.takeWhile (encodable fmt))
      (dedup f fmt bits iocs).bits := by
  induction iocs generalizing bits keys with
  | nil =>
    rw [List.takeWhile_nil, List.append_nil]
    exact h
  | cons ioc iocs ih =>
    cases hioc : encodable fmt ioc with
    | false =>
      rw [dedup_of_not_encodable hioc, List.takeWhile_cons_of_neg (by rw [hioc]; decide),
        List.append_nil]
      exact h
    | true =>
      rw [List.takeWhile_cons_of_pos hioc, List.append_cons]
      cases hknown : getAll bits (positions f fmt ioc) with
      | true =>
        rw [dedup_of_known hioc hknown]
        exact ih (h.append_covered (h.getAll_iff.mp hknown))
      | false =>
        rw [dedup_of_unknown hioc hknown]
        exact ih (h.setAll ioc)

/-- The element is at a place whose predecessors have the property. -/
def At (P : List (Ioc V) → Prop) (iocs : List (Ioc V)) (ioc : Ioc V) : Prop :=
  ∃ front rest, iocs = front ++ ioc :: rest ∧ P front

theorem at_cons {P : List (Ioc V) → Prop} {head : Ioc V} :
    At P (head :: iocs) ioc ↔
      (ioc = head ∧ P []) ∨ At (fun front => P (head :: front)) iocs ioc := by
  constructor
  · rintro ⟨front, rest, heq, hP⟩
    cases front with
    | nil => exact Or.inl ⟨(List.cons.inj heq).1.symm, hP⟩
    | cons x front =>
      obtain ⟨hhead, htail⟩ := List.cons.inj heq
      exact Or.inr ⟨front, rest, htail, hhead ▸ hP⟩
  · rintro (⟨rfl, hP⟩ | ⟨front, rest, rfl, hP⟩)
    · exact ⟨[], iocs, rfl, hP⟩
    · exact ⟨head :: front, rest, rfl, hP⟩

theorem not_at_nil {P : List (Ioc V) → Prop} : ¬At P [] ioc := by
  rintro ⟨front, rest, heq, -⟩
  exact absurd heq.symm (List.append_ne_nil_of_right_ne_nil front (List.cons_ne_nil ioc rest))

/-- An indicator is counted or new by whether those before it cover it. -/
theorem mem_dedup (h : Marks (positions f fmt) keys bits) :
    (ioc ∈ (dedup f fmt bits iocs).duplicates ↔
        At (fun front => Covers (positions f fmt) (keys ++ front) ioc)
          (iocs.takeWhile (encodable fmt)) ioc) ∧
      (ioc ∈ (dedup f fmt bits iocs).newIocs ↔
        At (fun front => ¬Covers (positions f fmt) (keys ++ front) ioc)
          (iocs.takeWhile (encodable fmt)) ioc) := by
  induction iocs generalizing bits keys with
  | nil =>
    exact ⟨iff_of_false List.not_mem_nil not_at_nil, iff_of_false List.not_mem_nil not_at_nil⟩
  | cons head iocs ih =>
    cases hhead : encodable fmt head with
    | false =>
      rw [dedup_of_not_encodable hhead, List.takeWhile_cons_of_neg (by rw [hhead]; decide)]
      exact ⟨iff_of_false List.not_mem_nil not_at_nil, iff_of_false List.not_mem_nil not_at_nil⟩
    | true =>
      simp only [List.takeWhile_cons_of_pos hhead, at_cons, List.append_nil]
      cases hknown : getAll bits (positions f fmt head) with
      | true =>
        have hcovers := h.getAll_iff.mp hknown
        obtain ⟨hduplicate, hnew⟩ := ih (h.append_covered hcovers)
        simp only [List.append_assoc, List.singleton_append] at hduplicate hnew
        rw [dedup_of_known hhead hknown, List.mem_cons, hduplicate, hnew]
        constructor
        · exact or_congr_left ⟨fun heq => ⟨heq, heq ▸ hcovers⟩, And.left⟩
        · refine (or_iff_right ?_).symm
          rintro ⟨rfl, hnot⟩
          exact hnot hcovers
      | false =>
        have hcovers := mt h.getAll_iff.mpr (by rw [hknown]; decide)
        obtain ⟨hduplicate, hnew⟩ := ih (h.setAll head)
        simp only [List.append_assoc, List.singleton_append] at hduplicate hnew
        rw [dedup_of_unknown hhead hknown, List.mem_cons, hduplicate, hnew]
        constructor
        · refine (or_iff_right ?_).symm
          rintro ⟨rfl, hcovered⟩
          exact hcovers hcovered
        · exact or_congr_left ⟨fun heq => ⟨heq, heq ▸ hcovers⟩, And.left⟩

theorem mem_dedup_of_sent (h : Marks (positions f fmt) keys bits)
    (hsent : ioc ∈ iocs.takeWhile (encodable fmt)) :
    ioc ∈ (dedup f fmt bits iocs).duplicates ∨ ioc ∈ (dedup f fmt bits iocs).newIocs := by
  obtain ⟨front, rest, heq⟩ := List.append_of_mem hsent
  by_cases hcovers : Covers (positions f fmt) (keys ++ front) ioc
  · exact Or.inl ((mem_dedup h).1.mpr ⟨front, rest, heq, hcovers⟩)
  · exact Or.inr ((mem_dedup h).2.mpr ⟨front, rest, heq, hcovers⟩)

/-- What a call leaves, whatever becomes of it. -/
theorem ingestIocs_state (f : RedisBloomFilter) (fmt : V → Text) (s : State V) (c : Call V) :
    (ingestIocs f fmt s c).2 = ⟨(dedup f fmt s.bits c.iocs).bits, s.received ++
      if succeeds fmt c then (dedup f fmt s.bits c.iocs).newIocs else []⟩ := by
  have hsucceeds : succeeds fmt c = (!(dedup f fmt s.bits c.iocs).raised && c.bulk.isSome) := by
    rw [succeeds, raised_dedup, Bool.not_not]
  rw [hsucceeds, ingestIocs]
  obtain ⟨iocs, bulk, emits⟩ := c
  by_cases hempty : iocs.isEmpty = true
  · rw [if_pos hempty, List.isEmpty_iff.mp hempty, dedup, ite_self, List.append_nil]
  · rw [if_neg hempty]
    cases hraised : (dedup f fmt s.bits iocs).raised with
    | true => simp [hraised]
    | false =>
      cases bulk with
      | none => simp [hraised, apply_ite Prod.snd]
      | some indexed => simp +contextual [hraised, apply_ite Prod.snd]

/-! ## Every sequence of calls -/

theorem run_append_singleton :
    run f fmt (before ++ [c]) = (ingestIocs f fmt (run f fmt before) c).2 := by
  rw [run, List.foldl_append]
  rfl

theorem marks_run (f : RedisBloomFilter) (fmt : V → Text) (calls : List (Call V)) :
    Marks (positions f fmt) (sent fmt calls) (run f fmt calls).bits := by
  induction calls using List.reverseRecOn with
  | nil => exact BloomFilter.marks_noBits _
  | append_singleton before c ih =>
    rw [run_append_singleton, ingestIocs_state, sent, List.flatMap_append, List.flatMap_singleton]
    exact marks_dedup ih

/-- The new indicators of a call that succeeds are received. -/
theorem received_append_singleton :
    (run f fmt (before ++ [c])).received = (run f fmt before).received ++
      if succeeds fmt c then (dedup f fmt (run f fmt before).bits c.iocs).newIocs else [] := by
  rw [run_append_singleton, ingestIocs_state]

theorem kept_append_singleton :
    kept fmt (before ++ [c]) = kept fmt before ++ if succeeds fmt c then c.iocs else [] := by
  rw [kept, List.filter_append, List.flatMap_append, kept]
  cases h : succeeds fmt c with
  | true => simp [h]
  | false => simp [h]

theorem takeWhile_of_succeeds (h : succeeds fmt c = true) :
    c.iocs.takeWhile (encodable fmt) = c.iocs := by
  rw [succeeds, Bool.and_eq_true] at h
  exact List.takeWhile_eq_self_iff.mpr (List.all_eq_true.mp h.1)

theorem mem_counted : ioc ∈ counted f fmt before c ↔
    At (fun front => Covers (positions f fmt) (sent fmt before ++ front) ioc)
      (c.iocs.takeWhile (encodable fmt)) ioc :=
  (mem_dedup (marks_run f fmt before)).1

theorem received_subset_kept : (run f fmt calls).received ⊆ kept fmt calls := by
  induction calls using List.reverseRecOn with
  | nil => exact List.nil_subset _
  | append_singleton before c ih =>
    rw [received_append_singleton, kept_append_singleton]
    intro ioc hioc
    rcases List.mem_append.mp hioc with hbefore | hnew
    · exact List.mem_append_left _ (ih hbefore)
    · split_ifs at hnew ⊢ with hsucceeds
      · obtain ⟨front, rest, heq, -⟩ := (mem_dedup (marks_run f fmt before)).2.mp hnew
        rw [takeWhile_of_succeeds hsucceeds] at heq
        rw [heq]
        exact List.mem_append_right _ (List.mem_append_right _ List.mem_cons_self)
      · exact absurd hnew List.not_mem_nil

/-- What was received stays so. -/
theorem received_append (h : ioc ∈ (run f fmt before).received) :
    ioc ∈ (run f fmt (before ++ [c])).received := by
  rw [received_append_singleton]
  exact List.mem_append_left _ h

/-- While nothing is lost, the calls that succeed have their indicators received. -/
theorem NoneLost.kept_received (h : NoneLost f fmt calls) (hioc : ioc ∈ kept fmt calls) :
    identity ioc ∈ (run f fmt calls).received.map identity := by
  induction calls using List.reverseRecOn with
  | nil => exact absurd hioc List.not_mem_nil
  | append_singleton before c ih =>
    obtain ⟨hbefore, hlast⟩ := eachCall_append_singleton.mp h
    rw [kept_append_singleton] at hioc
    rcases List.mem_append.mp hioc with hold | hsent
    · obtain ⟨known, hknown, heq⟩ := List.mem_map.mp (ih hbefore hold)
      exact List.mem_map.mpr ⟨known, received_append hknown, heq⟩
    · split_ifs at hsent with hsucceeds
      · rw [← takeWhile_of_succeeds hsucceeds] at hsent
        rcases mem_dedup_of_sent (marks_run f fmt before) hsent with hduplicate | hnew
        · exact hlast ioc hduplicate
        · rw [received_append_singleton, if_pos hsucceeds]
          exact List.mem_map_of_mem (List.mem_append_right _ hnew)
      · exact absurd hsent List.not_mem_nil

/-- A new indicator comes before every other with its identity. -/
theorem mem_of_at_unknown {front rest : List (Ioc V)} (hsplit : iocs = front ++ ioc :: rest)
    (hcovers : Covers (positions f fmt) (keys ++ front) ioc)
    (hknown : At (fun front => ¬Covers (positions f fmt) (keys ++ front) known) iocs known)
    (heq : identity known = identity ioc) : known ∈ front := by
  obtain ⟨first, last, hfirst, hnot⟩ := hknown
  have hpositions : positions f fmt known = positions f fmt ioc := positions_eq_of_identity heq
  rcases List.append_eq_append_iff.mp (hsplit.symm.trans hfirst) with
    ⟨u, rfl, hu⟩ | ⟨u, rfl, hu⟩
  · refine absurd ?_ hnot
    rw [Covers, hpositions]
    exact hcovers.mono (by simp)
  · cases u with
    | nil =>
      refine absurd ?_ hnot
      rw [List.append_nil] at hcovers
      rw [Covers, hpositions]
      exact hcovers
    | cons x u =>
      rw [(List.cons.inj hu).1]
      exact List.mem_append_right _ List.mem_cons_self

theorem CountedReceived.knownKept (h : CountedReceived f fmt before c) :
    KnownKept f fmt before c := by
  intro front ioc rest hsplit hcovers
  have hcounted := h ioc (mem_counted.mpr ⟨front, rest, hsplit, hcovers⟩)
  rw [received_append_singleton] at hcounted
  obtain ⟨known, hknown, heq⟩ := List.mem_map.mp hcounted
  rw [← heq]
  apply List.mem_map_of_mem
  rcases List.mem_append.mp hknown with hold | hnew
  · exact List.mem_append_left _ (received_subset_kept hold)
  · split_ifs at hnew ⊢ with hsucceeds
    · have hat := (mem_dedup (marks_run f fmt before)).2.mp hnew
      exact List.mem_append_right _ (mem_of_at_unknown hsplit hcovers hat heq)
    · exact absurd hnew List.not_mem_nil

/-- In a call that succeeds, what was sent up to a place is received by its end. -/
theorem KnownKept.front_received (h : KnownKept f fmt before c) (hbefore : NoneLost f fmt before)
    (hsucceeds : succeeds fmt c = true) {front rest : List (Ioc V)}
    (hsplit : c.iocs.takeWhile (encodable fmt) = front ++ rest) (hioc : ioc ∈ front) :
    identity ioc ∈ (run f fmt (before ++ [c])).received.map identity := by
  induction front using List.reverseRecOn generalizing ioc rest with
  | nil => exact absurd hioc List.not_mem_nil
  | append_singleton front last ih =>
    rw [List.append_assoc, List.singleton_append] at hsplit
    rcases List.mem_append.mp hioc with hfront | hlast
    · exact ih hsplit hfront
    · rw [List.mem_singleton.mp hlast]
      by_cases hcovers : Covers (positions f fmt) (sent fmt before ++ front) last
      · have hkept := h front last rest hsplit hcovers
        rw [if_pos hsucceeds] at hkept
        obtain ⟨known, hknown, heq⟩ := List.mem_map.mp hkept
        rw [← heq]
        rcases List.mem_append.mp hknown with hold | hfront
        · obtain ⟨earlier, hearlier, hsame⟩ := List.mem_map.mp (hbefore.kept_received hold)
          exact List.mem_map.mpr ⟨earlier, received_append hearlier, hsame⟩
        · exact ih hsplit hfront
      · have hnew := (mem_dedup (marks_run f fmt before)).2.mpr ⟨front, rest, hsplit, hcovers⟩
        rw [received_append_singleton, if_pos hsucceeds]
        exact List.mem_map_of_mem (List.mem_append_right _ hnew)

theorem KnownKept.countedReceived (h : KnownKept f fmt before c) (hbefore : NoneLost f fmt before) :
    CountedReceived f fmt before c := by
  intro ioc hioc
  obtain ⟨front, rest, hsplit, hcovers⟩ := mem_counted.mp hioc
  obtain ⟨known, hknown, heq⟩ := List.mem_map.mp (h front ioc rest hsplit hcovers)
  rw [← heq]
  rcases List.mem_append.mp hknown with hold | hfront
  · obtain ⟨earlier, hearlier, hsame⟩ := List.mem_map.mp (hbefore.kept_received hold)
    exact List.mem_map.mpr ⟨earlier, received_append hearlier, hsame⟩
  · split_ifs at hfront with hsucceeds
    · exact h.front_received hbefore hsucceeds hsplit hfront
    · exact absurd hfront List.not_mem_nil

/-- Nothing is lost exactly when the filter takes for known only what was sent in a call that
succeeds. -/
theorem noneLost_iff (f : RedisBloomFilter) (fmt : V → Text) (calls : List (Call V)) :
    NoneLost f fmt calls ↔ EachKnownKept f fmt calls := by
  apply CallHistory.eachCall_congr
  intro before c hbefore _
  exact ⟨CountedReceived.knownKept, fun h => h.countedReceived hbefore⟩

def sampleFilter : RedisBloomFilter where
  size := 8
  numHashes := 1
  size_pos := by decide
  numHashes_pos := by decide
  hash seed data := seed + data.length

def sampleIoc : Ioc String := OrderedDict.ofList [("type", "ipv4"), ("value", "203.0.113.7")]

def failedCall : Call String := ⟨[sampleIoc], none, true⟩

def resentCall : Call String := ⟨[sampleIoc], some 1, true⟩

/-- The bulk index call of the first batch raises, and the batch is sent again. -/
theorem failed_batch_lost : ¬NoneLost sampleFilter text [failedCall, resentCall] := by
  intro h
  have hcounted : counted sampleFilter text [failedCall] resentCall = [sampleIoc] := by rfl
  have hreceived : (run sampleFilter text [failedCall, resentCall]).received = [] := by rfl
  have hlast := h [failedCall] resentCall [] rfl sampleIoc (hcounted ▸ List.mem_singleton_self _)
  rw [List.singleton_append, hreceived] at hlast
  exact absurd hlast List.not_mem_nil

end ThreatIntelIngest
