import Mathlib.Algebra.GroupWithZero.Nat
import Mathlib.Algebra.Order.BigOperators.Group.List
import Mathlib.Algebra.Order.Group.Nat
import AiSOC.EventSanitiser

/-! # Sizes of sanitised batches

What the caps bound of a sanitised batch, and which batches stay within them. Markers are not
measured against the caps, and a separator counts as one byte where it has two. -/
namespace EventSizeBound

open CodeText EventPayload EventSanitiser

/-- The items are the events in their order, each sanitised or replaced. -/
structure InPlace (capEventBytes : ℤ) (events out : List Value) : Prop where
  length_eq : out.length = events.length
  item : ∀ i event v, events[i]? = some event → out[i]? = some v →
    v = (capEvent capEventBytes event).1 ∨ v = batchSizeMarker i

structure Bounded (capEventBytes capTotalBytes : ℤ) (out : List Value) : Prop where
  event : ∀ v ∈ out, (serialisedSize v : ℤ) ≤ capEventBytes
  total : (serialisedSize (.list out) : ℤ) ≤ capTotalBytes

def redacted (d : Dict) : Value := (redactValue 0 (.dict d) ⟨0, 0⟩).1

def marker (d : Dict) : Value :=
  truncationMarker (.dict d) (serialisedSize (redacted d)) "event_too_large"

def Oversized (capEventBytes : ℤ) (d : Dict) : Prop :=
  (serialisedSize (redacted d) : ℤ) > capEventBytes

instance (capEventBytes : ℤ) (d : Dict) : Decidable (Oversized capEventBytes d) :=
  inferInstanceAs (Decidable (_ > _))

def form (capEventBytes : ℤ) (d : Dict) : Value :=
  if Oversized capEventBytes d then marker d else redacted d

/-- How many items fit, with one byte for a separator after each. -/
def headLength (capTotalBytes : ℤ) : ℤ → List ℕ → ℕ
  | _, [] => 0
  | runningTotal, size :: sizes =>
    if runningTotal + size + 1 > capTotalBytes then 0
    else headLength capTotalBytes (runningTotal + size + 1) sizes + 1

def sizes (capEventBytes : ℤ) (dicts : List Dict) : List ℕ :=
  dicts.map fun d => serialisedSize (form capEventBytes d)

/-- The events before the budget of the batch is spent. -/
def head (capEventBytes capTotalBytes runningTotal : ℤ) (dicts : List Dict) : List Dict :=
  dicts.take (headLength capTotalBytes runningTotal (sizes capEventBytes dicts))

/-- The indexes of those after it. -/
def tail (capEventBytes capTotalBytes runningTotal : ℤ) (idx : ℕ) (dicts : List Dict) : List ℕ :=
  let kept := headLength capTotalBytes runningTotal (sizes capEventBytes dicts)
  List.range' (idx + kept) (dicts.length - kept)

variable {isPrintable : CodePoint → Bool} {env : Environment} {capEventBytes capTotalBytes : ℤ}

theorem capEvent_form (d : Dict) : (capEvent capEventBytes (.dict d)).1 = form capEventBytes d := by
  by_cases hsize : Oversized capEventBytes d
  · rw [form, if_pos hsize]
    exact congrArg Prod.fst (if_pos hsize)
  · rw [form, if_neg hsize]
    exact congrArg Prod.fst (if_neg hsize)

/-- What becomes of the events from an index on. -/
def output (capEventBytes capTotalBytes runningTotal : ℤ) (idx : ℕ) (dicts : List Dict) :
    List Value :=
  (head capEventBytes capTotalBytes runningTotal dicts).map (form capEventBytes) ++
    (tail capEventBytes capTotalBytes runningTotal idx dicts).map batchSizeMarker

section

variable {d : Dict} {dicts : List Dict} {idx : ℕ} {runningTotal : ℤ}

theorem output_full
    (h : runningTotal + serialisedSize (form capEventBytes d) + 1 > capTotalBytes) :
    output capEventBytes capTotalBytes runningTotal idx (d :: dicts) =
      (List.range' idx (dicts.length + 1)).map batchSizeMarker := by
  rw [output, head, tail, sizes, List.map_cons, headLength, if_pos h]
  rfl

theorem output_kept
    (h : ¬ runningTotal + serialisedSize (form capEventBytes d) + 1 > capTotalBytes) :
    output capEventBytes capTotalBytes runningTotal idx (d :: dicts) = form capEventBytes d ::
      output capEventBytes capTotalBytes
        (runningTotal + serialisedSize (form capEventBytes d) + 1) (idx + 1) dicts := by
  rw [output, head, tail, sizes, List.map_cons, headLength, if_neg h, List.take_succ_cons,
    List.length_cons, Nat.add_sub_add_right, ← Nat.add_assoc, Nat.add_right_comm]
  rfl

end

theorem sanitiseFrom_eq (dicts : List Dict) (idx : ℕ) (runningTotal : ℤ) : ∃ stats,
    sanitiseFrom isPrintable env capEventBytes capTotalBytes idx runningTotal
        (dicts.map Value.dict) =
      .ok (output capEventBytes capTotalBytes runningTotal idx dicts, stats) := by
  induction dicts generalizing idx runningTotal with
  | nil => exact ⟨_, rfl⟩
  | cons d dicts ih =>
    have hevent : sanitiseEvent isPrintable env (.dict d) (some capEventBytes) =
        .ok (capEvent capEventBytes (.dict d)) := rfl
    rw [List.map_cons, sanitiseFrom, hevent]
    simp only [bind, Except.bind, capEvent_form]
    by_cases hfull : runningTotal + serialisedSize (form capEventBytes d) + 1 > capTotalBytes
    · refine ⟨⟨0, dicts.length + 1⟩, ?_⟩
      rw [if_pos hfull, output_full hfull, List.length_map]
      rfl
    · obtain ⟨stats, hrest⟩ := ih (idx + 1)
        (runningTotal + serialisedSize (form capEventBytes d) + 1)
      refine ⟨⟨(capEvent capEventBytes (.dict d)).2.redacted + stats.redacted,
        (capEvent capEventBytes (.dict d)).2.truncated + stats.truncated⟩, ?_⟩
      rw [if_neg hfull, hrest, output_kept hfull]
      rfl

theorem output_length (dicts : List Dict) (idx : ℕ) (runningTotal : ℤ) :
    (output capEventBytes capTotalBytes runningTotal idx dicts).length = dicts.length := by
  induction dicts generalizing idx runningTotal with
  | nil => rfl
  | cons d dicts ih =>
    by_cases hfull : runningTotal + serialisedSize (form capEventBytes d) + 1 > capTotalBytes
    · rw [output_full hfull, List.length_map, List.length_range', List.length_cons]
    · rw [output_kept hfull]
      exact congrArg Nat.succ (ih (idx + 1) _)

theorem output_item (dicts : List Dict) (idx : ℕ) (runningTotal : ℤ) {i : ℕ} {d : Dict} {v : Value}
    (hd : dicts[i]? = some d)
    (hv : (output capEventBytes capTotalBytes runningTotal idx dicts)[i]? = some v) :
    v = form capEventBytes d ∨ v = batchSizeMarker (idx + i) := by
  induction dicts generalizing idx runningTotal i with
  | nil => cases hd
  | cons first dicts ih =>
    by_cases hfull : runningTotal + serialisedSize (form capEventBytes first) + 1 > capTotalBytes
    · right
      rw [output_full hfull, List.getElem?_map] at hv
      obtain ⟨j, hj, rfl⟩ := Option.map_eq_some_iff.mp hv
      obtain ⟨hlt, hget⟩ := List.getElem?_eq_some_iff.mp hj
      rw [List.getElem_range', Nat.one_mul] at hget
      rw [← hget]
    · rw [output_kept hfull] at hv
      cases i with
      | zero =>
        left
        cases hd
        exact (Option.some.inj hv).symm
      | succ i =>
        have hrest := ih (idx + 1) _ hd hv
        rwa [Nat.add_assoc, Nat.add_comm 1] at hrest

/-- The events become what stands in their places. -/
theorem output_inPlace (dicts : List Dict) : InPlace capEventBytes (dicts.map Value.dict)
    (output capEventBytes capTotalBytes 2 0 dicts) := by
  refine ⟨by rw [output_length, List.length_map], ?_⟩
  intro i event v hevent hv
  rw [List.getElem?_map] at hevent
  obtain ⟨d, hd, rfl⟩ := Option.map_eq_some_iff.mp hevent
  rw [capEvent_form]
  have hitem := output_item dicts 0 2 hd hv
  rwa [Nat.zero_add] at hitem

/-- A list whose items can all be written. -/
theorem serialisedSize_list {items : List Value} (h : ∀ v ∈ items, jsonSize v ≠ none) :
    serialisedSize (.list items) =
      2 + (items.map serialisedSize).sum + 2 * (items.length - 1) := by
  have hsizes : List.Forall₂ (fun v size => jsonSize v = some size) items
      (items.map serialisedSize) := by
    rw [List.forall₂_map_right_iff, List.forall₂_same]
    intro v hv
    obtain ⟨size, hsize⟩ := Option.ne_none_iff_exists'.mp (h v hv)
    rw [serialisedSize, hsize, Option.getD_some]
  rw [serialisedSize, jsonSize_list hsizes, Option.getD_some, List.length_map]

theorem serialisedSize_list_none {items : List Value} {v : Value} (hv : v ∈ items)
    (h : jsonSize v = none) : serialisedSize (.list items) = hardMaxEventBytes + 1 := by
  rw [serialisedSize, jsonSize_list_none hv h, Option.getD_none]

theorem form_le_iff {d : Dict} : (serialisedSize (form capEventBytes d) : ℤ) ≤ capEventBytes ↔
    (Oversized capEventBytes d → (serialisedSize (marker d) : ℤ) ≤ capEventBytes) := by
  by_cases hsize : Oversized capEventBytes d
  · rw [form, if_pos hsize]
    exact ⟨fun h _ => h, fun h => h hsize⟩
  · rw [form, if_neg hsize]
    exact ⟨fun _ h => absurd h hsize, fun _ => not_lt.mp hsize⟩

/-- A list with an item that cannot be written counts as larger than any event. -/
theorem list_le_iff {items : List Value} : (serialisedSize (.list items) : ℤ) ≤ capTotalBytes ↔
    (hardMaxEventBytes < capTotalBytes ∧ ∃ v ∈ items, jsonSize v = none) ∨
      ((2 + (items.map serialisedSize).sum + 2 * (items.length - 1) : ℕ) : ℤ) ≤ capTotalBytes := by
  by_cases hwritten : ∀ v ∈ items, jsonSize v ≠ none
  · rw [serialisedSize_list hwritten]
    constructor
    · exact Or.inr
    · rintro (⟨-, v, hv, hnone⟩ | htotal)
      · exact absurd hnone (hwritten v hv)
      · exact htotal
  · push Not at hwritten
    obtain ⟨v, hv, hnone⟩ := hwritten
    have hmem : serialisedSize v ≤ (items.map serialisedSize).sum :=
      List.single_le_sum (fun _ _ => Nat.zero_le _) _ (List.mem_map_of_mem hv)
    have hitem : serialisedSize v = hardMaxEventBytes + 1 := by
      rw [serialisedSize, hnone, Option.getD_none]
    rw [serialisedSize_list_none hv hnone]
    constructor
    · intro h
      exact Or.inl ⟨by omega, v, hv, hnone⟩
    · rintro (⟨hlarge, -⟩ | htotal)
      · omega
      · omega

/-- Some item cannot be written, and the cap of the batch is larger than what it counts as. -/
def Unwritten (capEventBytes capTotalBytes : ℤ) (dicts : List Dict) : Prop :=
  hardMaxEventBytes < capTotalBytes ∧
    ((∃ d ∈ head capEventBytes capTotalBytes 2 dicts, jsonSize (form capEventBytes d) = none) ∨
      ∃ i ∈ tail capEventBytes capTotalBytes 2 0 dicts, jsonSize (batchSizeMarker i) = none)

/-- The markers fit the cap of an event, and together with the brackets, the events before them
and both bytes of every separator they fit the cap of the batch. -/
structure Fits (capEventBytes capTotalBytes : ℤ) (dicts : List Dict) : Prop where
  marked : ∀ d ∈ head capEventBytes capTotalBytes 2 dicts, Oversized capEventBytes d →
    (serialisedSize (marker d) : ℤ) ≤ capEventBytes
  trailing : ∀ i ∈ tail capEventBytes capTotalBytes 2 0 dicts,
    (serialisedSize (batchSizeMarker i) : ℤ) ≤ capEventBytes
  total : Unwritten capEventBytes capTotalBytes dicts ∨
    ((2 + ((sizes capEventBytes (head capEventBytes capTotalBytes 2 dicts)).sum +
      ((tail capEventBytes capTotalBytes 2 0 dicts).map fun i =>
        serialisedSize (batchSizeMarker i)).sum) + 2 * (dicts.length - 1) : ℕ) : ℤ) ≤ capTotalBytes

theorem bounded_output_iff (dicts : List Dict) :
    Bounded capEventBytes capTotalBytes (output capEventBytes capTotalBytes 2 0 dicts) ↔
      Fits capEventBytes capTotalBytes dicts := by
  have hsum : ((output capEventBytes capTotalBytes 2 0 dicts).map serialisedSize).sum =
      (sizes capEventBytes (head capEventBytes capTotalBytes 2 dicts)).sum +
        ((tail capEventBytes capTotalBytes 2 0 dicts).map fun i =>
          serialisedSize (batchSizeMarker i)).sum := by
    rw [output, sizes, List.map_append, List.sum_append, List.map_map, List.map_map]
    simp only [Function.comp_def]
  have hunwritten : (∃ v ∈ output capEventBytes capTotalBytes 2 0 dicts, jsonSize v = none) ↔
      (∃ d ∈ head capEventBytes capTotalBytes 2 dicts,
          jsonSize (form capEventBytes d) = none) ∨
        ∃ i ∈ tail capEventBytes capTotalBytes 2 0 dicts, jsonSize (batchSizeMarker i) = none := by
    simp only [output, List.mem_append, List.mem_map, or_and_right, exists_or]
    simp only [exists_exists_and_eq_and]
  have htotal : (serialisedSize (.list (output capEventBytes capTotalBytes 2 0 dicts)) : ℤ) ≤
      capTotalBytes ↔ _ := list_le_iff
  rw [hsum, hunwritten, output_length] at htotal
  constructor
  · rintro ⟨hevent, hbatch⟩
    refine ⟨?_, ?_, htotal.mp hbatch⟩
    · intro d hd
      exact form_le_iff.mp (hevent _ (List.mem_append_left _ (List.mem_map_of_mem hd)))
    · intro i hi
      exact hevent _ (List.mem_append_right _ (List.mem_map_of_mem hi))
  · rintro ⟨hmarked, htrailing, hbatch⟩
    refine ⟨?_, htotal.mpr hbatch⟩
    rw [output, List.forall_mem_append, List.forall_mem_map, List.forall_mem_map]
    exact ⟨fun d hd => form_le_iff.mpr (hmarked d hd), htrailing⟩

/-- A sanitised batch has the events in their places; it stays within the caps if, and only if,
the markers fit. -/
theorem bounded_iff_fits {overrides : Overrides} {dicts : List Dict} {out : List Value}
    {stats : Stats} (h : sanitiseEventBatch isPrintable env overrides
      (.list (dicts.map Value.dict)) = .ok (out, stats)) :
    (InPlace (overrides.capEventBytes env) (dicts.map Value.dict) out ∧
        Bounded (overrides.capEventBytes env) (overrides.capTotalBytes env) out) ↔
      Fits (overrides.capEventBytes env) (overrides.capTotalBytes env) dicts := by
  have hout : out = output (overrides.capEventBytes env) (overrides.capTotalBytes env) 2 0
      dicts := by
    rw [sanitiseEventBatch] at h
    split at h
    · cases h
    · obtain ⟨total, hfrom⟩ := @sanitiseFrom_eq isPrintable env (overrides.capEventBytes env)
        (overrides.capTotalBytes env) dicts 0 2
      rw [hfrom] at h
      exact (congrArg Prod.fst (Except.ok.inj h)).symm
  rw [hout, bounded_output_iff]
  exact and_iff_right (output_inPlace dicts)

def payload (length : ℕ) : Dict := [keyed "payload" (.str (List.replicate length (cp 'x')))]

def capped (capEventBytes capTotalBytes : ℤ) : Overrides :=
  ⟨none, some capEventBytes, some capTotalBytes⟩

/-- A large event between two small ones. -/
def mixedBatch : List Dict := [payload 1, payload 200, payload 1]

theorem mixedBatch_bounded : ∃ out stats,
    sanitiseEventBatch printableAscii unsetEnvironment (capped 128 256)
        (.list (mixedBatch.map Value.dict)) = .ok (out, stats) ∧
      InPlace 128 (mixedBatch.map Value.dict) out ∧ Bounded 128 256 out := by
  obtain ⟨stats, hout⟩ := @sanitiseFrom_eq printableAscii unsetEnvironment 128 256 mixedBatch 0 2
  have hok : sanitiseEventBatch printableAscii unsetEnvironment (capped 128 256)
      (.list (mixedBatch.map Value.dict)) = .ok (output 128 256 2 0 mixedBatch, stats) := hout
  have hfits : Fits 128 256 mixedBatch :=
    ⟨by decide +kernel, by decide +kernel, Or.inr (by decide +kernel)⟩
  exact ⟨_, stats, hok, (bounded_iff_fits hok).mpr hfits⟩

/-- The marker for an event of 75 bytes has 85 bytes itself. -/
theorem marker_over_cap : ∃ out stats,
    sanitiseEventBatch printableAscii unsetEnvironment (capped 64 256)
        (.list ([payload 60].map Value.dict)) = .ok (out, stats) ∧
      ¬ Bounded 64 256 out := by
  obtain ⟨stats, hout⟩ := @sanitiseFrom_eq printableAscii unsetEnvironment 64 256 [payload 60] 0 2
  refine ⟨_, stats, hout, ?_⟩
  intro hbounded
  have hevents := hbounded.event
  revert hevents
  decide +kernel

end EventSizeBound
