import Mathlib.Algebra.GroupWithZero.Nat
import Mathlib.Algebra.Order.BigOperators.Group.List
import Mathlib.Algebra.Order.Group.Nat
import AiSOC.AuditRedaction

/-! # What the redaction of audit changes keeps

Masked values have no influence, and the result fits the cap. Redacting it again changes
nothing unless keys that were different have become one and the payload has too many nodes: then
the nodes are met in another order. -/
namespace AuditStability

open CodeText AuditRedaction
open EventPayload (Value Key Dict)

mutual

/-- The value with nothing under its sensitive keys. -/
def withoutSecrets : Value → Value
  | .dict entries => .dict (entriesWithoutSecrets entries)
  | .list items => .list (itemsWithoutSecrets items)
  | .tuple items => .tuple (itemsWithoutSecrets items)
  | value => value

def itemsWithoutSecrets : List Value → List Value
  | [] => []
  | v :: vs => withoutSecrets v :: itemsWithoutSecrets vs

def entriesWithoutSecrets : Dict → Dict
  | [] => []
  | (k, v) :: es =>
    (k, if isSensitiveKey k.pyStr then .none else withoutSecrets v) :: entriesWithoutSecrets es

end

mutual

/-- In no dictionary that is not masked do two keys have the same text. -/
def DistinctKeys : Value → Prop
  | .dict entries => (entries.map fun e => e.1.pyStr).Nodup ∧ EntriesDistinct entries
  | .list items => ItemsDistinct items
  | .tuple items => ItemsDistinct items
  | _ => True

def ItemsDistinct : List Value → Prop
  | [] => True
  | v :: vs => DistinctKeys v ∧ ItemsDistinct vs

def EntriesDistinct : Dict → Prop
  | [] => True
  | (k, v) :: es => (isSensitiveKey k.pyStr = false → DistinctKeys v) ∧ EntriesDistinct es

end

mutual

/-- The nodes that are not masked, down to the depth at which all is cut off. -/
def nodes (depth : ℕ) (value : Value) : ℕ :=
  if depth > maxDepth then 1
  else match value with
    | .dict entries => 1 + entriesNodes (depth + 1) entries
    | .list items => 1 + itemsNodes (depth + 1) items
    | .tuple items => 1 + itemsNodes (depth + 1) items
    | _ => 1

def itemsNodes (depth : ℕ) : List Value → ℕ
  | [] => 0
  | v :: vs => nodes depth v + itemsNodes depth vs

def entriesNodes (depth : ℕ) : Dict → ℕ
  | [] => 0
  | (k, v) :: es => (if isSensitiveKey k.pyStr then 0 else nodes depth v) + entriesNodes depth es

end

def asValue : Option Dict → Value
  | none => .none
  | some entries => .dict entries

/-- The keys stay apart, or there are few nodes. -/
def Settled (changes : Option Dict) : Prop :=
  ∀ entries, changes = some entries →
    DistinctKeys (.dict entries) ∨ nodes 0 (.dict entries) ≤ maxNodes

/-- Masked values have no influence, a settled payload is redacted once and for all, and the
result fits the cap. -/
structure Redacts (raw : Option ℤ) (changes : Option Dict) : Prop where
  hidden : ∀ other : Option Dict,
    other.map entriesWithoutSecrets = changes.map entriesWithoutSecrets →
      redactChanges raw other = redactChanges raw changes
  stable : Settled changes → ∀ result, redactChanges raw changes = .ok result →
    redactChanges raw result = .ok result
  bounded : ∀ result, redactChanges raw changes = .ok result →
    ∃ encoded, dumps (asValue result) = some encoded ∧ encodedSize encoded ≤ maxBytes raw

/-! ## Masked values -/

mutual

/-- What is masked is not looked at. -/
theorem redactNode_withoutSecrets : ∀ (value : Value) (depth counter : ℕ),
    redactNode (withoutSecrets value) depth counter = redactNode value depth counter
  | .dict entries, depth, counter => by
    simp only [withoutSecrets, redactNode, redactEntries_withoutSecrets]
  | .list items, depth, counter => by
    simp only [withoutSecrets, redactNode, redactItems_withoutSecrets]
  | .tuple items, depth, counter => by
    simp only [withoutSecrets, redactNode, redactItems_withoutSecrets]
  | .none, _, _ => by simp only [withoutSecrets]
  | .bool _, _, _ => by simp only [withoutSecrets]
  | .int _, _, _ => by simp only [withoutSecrets]
  | .float _, _, _ => by simp only [withoutSecrets]
  | .str _, _, _ => by simp only [withoutSecrets]
  | .object _, _, _ => by simp only [withoutSecrets]

theorem redactItems_withoutSecrets : ∀ (items : List Value) (depth counter : ℕ),
    redactItems (itemsWithoutSecrets items) depth counter = redactItems items depth counter
  | [], _, _ => by rw [itemsWithoutSecrets]
  | v :: vs, depth, counter => by
    simp only [itemsWithoutSecrets, redactItems, redactNode_withoutSecrets,
      redactItems_withoutSecrets]

theorem redactEntries_withoutSecrets : ∀ (entries : Dict) (depth counter : ℕ),
    redactEntries (entriesWithoutSecrets entries) depth counter =
      redactEntries entries depth counter
  | [], _, _ => by rw [entriesWithoutSecrets]
  | (k, v) :: es, depth, counter => by
    rcases hk : isSensitiveKey k.pyStr with _ | _
    · simp only [entriesWithoutSecrets, redactEntries, hk, Bool.false_eq_true, if_false,
        redactNode_withoutSecrets, redactEntries_withoutSecrets]
    · simp only [entriesWithoutSecrets, redactEntries, hk, if_true, redactEntries_withoutSecrets]

end

theorem redactChanges_withoutSecrets (raw : Option ℤ) (changes : Option Dict) :
    redactChanges raw (changes.map entriesWithoutSecrets) = redactChanges raw changes := by
  match changes with
  | none => rfl
  | some [] => rfl
  | some ((k, v) :: es) =>
    have hnode := redactNode_withoutSecrets (.dict ((k, v) :: es)) 0 0
    rw [withoutSecrets, entriesWithoutSecrets] at hnode
    rw [Option.map_some, entriesWithoutSecrets, redactChanges, redactChanges, hnode]

/-! ## Once more -/

variable {depth counter : ℕ} {raw : Option ℤ}

/-- A dictionary of which the walker has met the first node. -/
theorem redactNode_late (value : Value) (h : counter + 1 > maxNodes) :
    redactNode value depth counter = (redactedSentinel, counter + 1) := by
  rw [redactNode.eq_def]
  exact if_pos h

theorem redactNode_deep (value : Value) (h : ¬ counter + 1 > maxNodes) (hdepth : depth > maxDepth) :
    redactNode value depth counter = (redactedSentinel, counter + 1) := by
  rw [redactNode.eq_def]
  dsimp only
  rw [if_neg h, if_pos hdepth]

theorem redactNode_dict (entries : Dict) (h : ¬ counter + 1 > maxNodes)
    (hdepth : ¬ depth > maxDepth) : redactNode (.dict entries) depth counter =
      (.dict (asDict (.ofList (redactEntries entries (depth + 1) (counter + 1)).1)),
        (redactEntries entries (depth + 1) (counter + 1)).2) := by
  rw [redactNode]
  dsimp only
  rw [if_neg h, if_neg hdepth]

theorem redactNode_list (items : List Value) (h : ¬ counter + 1 > maxNodes)
    (hdepth : ¬ depth > maxDepth) : redactNode (.list items) depth counter =
      (.list (redactItems items (depth + 1) (counter + 1)).1,
        (redactItems items (depth + 1) (counter + 1)).2) := by
  rw [redactNode]
  dsimp only
  rw [if_neg h, if_neg hdepth]

theorem redactNode_tuple (items : List Value) : redactNode (.tuple items) depth counter =
    redactNode (.list items) depth counter := by
  rw [redactNode, redactNode]

/-- Values that are no containers. -/
def isLeaf : Value → Bool
  | .list _ | .tuple _ | .dict _ => false
  | _ => true

theorem redactNode_leaf {value : Value} (hleaf : isLeaf value = true)
    (h : ¬ counter + 1 > maxNodes) (hdepth : ¬ depth > maxDepth) :
    redactNode value depth counter = (value, counter + 1) := by
  rw [redactNode.eq_def]
  dsimp only
  rw [if_neg h, if_neg hdepth]
  cases value with
  | list items => cases hleaf
  | tuple items => cases hleaf
  | dict entries => cases hleaf
  | _ => rfl

theorem redactEntries_keys (entries : Dict) (depth counter : ℕ) :
    (redactEntries entries depth counter).1.map Prod.fst = entries.map fun e => e.1.pyStr := by
  induction entries generalizing counter with
  | nil => rfl
  | cons e es ih =>
    obtain ⟨k, v⟩ := e
    rw [redactEntries]
    dsimp only
    rw [List.map_cons, List.map_cons, ih]

/-- The entries as they are in the new dictionary. -/
def asEntries (pairs : List (Text × Value)) : Dict := pairs.map fun e => (.str e.1, e.2)

theorem asDict_ofList {pairs : List (Text × Value)} (h : (pairs.map Prod.fst).Nodup) :
    asDict (.ofList pairs) = asEntries pairs := by
  have hentries : (OrderedDict.ofList pairs).entries = pairs :=
    OrderedDict.entries_setAll_of_nodup h
  rw [asDict, hentries, asEntries]

mutual

/-- With distinct keys the second walk meets the same nodes in the same order. -/
theorem redactNode_again : ∀ (value : Value) (depth counter : ℕ), DistinctKeys value →
    redactNode (redactNode value depth counter).1 depth counter = redactNode value depth counter
  | value, depth, counter, h => by
    by_cases hlate : counter + 1 > maxNodes
    · rw [redactNode_late value hlate, redactNode_late _ hlate]
    by_cases hdeep : depth > maxDepth
    · rw [redactNode_deep value hlate hdeep, redactNode_deep _ hlate hdeep]
    by_cases hleaf : isLeaf value = true
    · have hnode := redactNode_leaf hleaf hlate hdeep
      simp only [hnode]
    cases value with
    | dict entries =>
      rw [DistinctKeys] at h
      have hkeys := h.1
      rw [← redactEntries_keys entries (depth + 1) (counter + 1)] at hkeys
      rw [redactNode_dict entries hlate hdeep, asDict_ofList hkeys, redactNode_dict _ hlate hdeep,
        redactEntries_again entries (depth + 1) (counter + 1) h.2, asDict_ofList hkeys]
    | list items =>
      rw [DistinctKeys] at h
      rw [redactNode_list items hlate hdeep, redactNode_list _ hlate hdeep,
        redactItems_again items (depth + 1) (counter + 1) h]
    | tuple items =>
      rw [DistinctKeys] at h
      rw [redactNode_tuple, redactNode_list items hlate hdeep, redactNode_list _ hlate hdeep,
        redactItems_again items (depth + 1) (counter + 1) h]
    | _ => exact absurd rfl hleaf

theorem redactItems_again : ∀ (items : List Value) (depth counter : ℕ), ItemsDistinct items →
    redactItems (redactItems items depth counter).1 depth counter = redactItems items depth counter
  | [], _, _, _ => by rw [redactItems, redactItems]
  | v :: vs, depth, counter, h => by
    rw [ItemsDistinct] at h
    have hfirst := redactNode_again v depth counter h.1
    have hrest := redactItems_again vs depth (redactNode v depth counter).2 h.2
    simp only [redactItems, hfirst, hrest]

theorem redactEntries_again : ∀ (entries : Dict) (depth counter : ℕ), EntriesDistinct entries →
    redactEntries (asEntries (redactEntries entries depth counter).1) depth counter =
      redactEntries entries depth counter
  | [], _, _, _ => by rw [redactEntries, asEntries, List.map_nil, redactEntries]
  | (k, v) :: es, depth, counter, h => by
    rw [EntriesDistinct] at h
    have hkey : (Key.str k.pyStr).pyStr = k.pyStr := rfl
    rcases hk : isSensitiveKey k.pyStr with _ | _
    · have hfirst := redactNode_again v depth counter (h.1 hk)
      have hrest := redactEntries_again es depth (redactNode v depth counter).2 h.2
      rw [asEntries] at hrest
      simp only [redactEntries, asEntries, List.map_cons, hkey, hk, Bool.false_eq_true,
        if_false, hfirst, hrest]
    · have hrest := redactEntries_again es depth counter h.2
      rw [asEntries] at hrest
      simp only [redactEntries, asEntries, List.map_cons, hkey, hk, if_true, hrest]

end

/-! ## Small payloads -/

mutual

/-- What the walker makes of a value if it never meets too many nodes. -/
def mask (depth : ℕ) (value : Value) : Value :=
  if depth > maxDepth then redactedSentinel
  else match value with
    | .dict entries => .dict (asDict (.ofList (maskEntries (depth + 1) entries)))
    | .list items => .list (maskItems (depth + 1) items)
    | .tuple items => .list (maskItems (depth + 1) items)
    | value => value

def maskItems (depth : ℕ) : List Value → List Value
  | [] => []
  | v :: vs => mask depth v :: maskItems depth vs

def maskEntries (depth : ℕ) : Dict → List (Text × Value)
  | [] => []
  | (k, v) :: es =>
    (k.pyStr, if isSensitiveKey k.pyStr then redactedSentinel else mask depth v) ::
      maskEntries depth es

end

theorem nodes_pos (depth : ℕ) (value : Value) : 1 ≤ nodes depth value := by
  rw [nodes.eq_def]
  split_ifs
  · exact le_refl 1
  · cases value with
    | dict entries => exact Nat.le_add_right 1 _
    | list items => exact Nat.le_add_right 1 _
    | tuple items => exact Nat.le_add_right 1 _
    | _ => exact le_refl 1

mutual

theorem redactNode_mask : ∀ (value : Value) (depth counter : ℕ),
    counter + nodes depth value ≤ maxNodes →
      redactNode value depth counter = (mask depth value, counter + nodes depth value)
  | value, depth, counter, h => by
    have hpos := nodes_pos depth value
    have hearly : ¬ counter + 1 > maxNodes := by omega
    by_cases hdeep : depth > maxDepth
    · rw [redactNode_deep value hearly hdeep, mask.eq_def, nodes.eq_def, if_pos hdeep, if_pos hdeep]
    rw [mask.eq_def, if_neg hdeep]
    rw [nodes.eq_def, if_neg hdeep] at h ⊢
    by_cases hleaf : isLeaf value = true
    · rw [redactNode_leaf hleaf hearly hdeep]
      cases value with
      | dict entries => cases hleaf
      | list items => cases hleaf
      | tuple items => cases hleaf
      | _ => rfl
    cases value with
    | dict entries =>
      rw [redactNode_dict entries hearly hdeep,
        redactEntries_mask entries (depth + 1) (counter + 1) (by dsimp only at h; omega)]
      dsimp only
      rw [Nat.add_assoc]
    | list items =>
      rw [redactNode_list items hearly hdeep,
        redactItems_mask items (depth + 1) (counter + 1) (by dsimp only at h; omega)]
      dsimp only
      rw [Nat.add_assoc]
    | tuple items =>
      rw [redactNode_tuple, redactNode_list items hearly hdeep,
        redactItems_mask items (depth + 1) (counter + 1) (by dsimp only at h; omega)]
      dsimp only
      rw [Nat.add_assoc]
    | _ => exact absurd rfl hleaf

theorem redactItems_mask : ∀ (items : List Value) (depth counter : ℕ),
    counter + itemsNodes depth items ≤ maxNodes →
      redactItems items depth counter = (maskItems depth items, counter + itemsNodes depth items)
  | [], depth, counter, _ => by rw [redactItems, maskItems, itemsNodes, Nat.add_zero]
  | v :: vs, depth, counter, h => by
    rw [itemsNodes] at h
    rw [redactItems, redactNode_mask v depth counter (by omega)]
    dsimp only
    rw [redactItems_mask vs depth (counter + nodes depth v) (by omega), maskItems, itemsNodes,
      Nat.add_assoc]

theorem redactEntries_mask : ∀ (entries : Dict) (depth counter : ℕ),
    counter + entriesNodes depth entries ≤ maxNodes →
      redactEntries entries depth counter =
        (maskEntries depth entries, counter + entriesNodes depth entries)
  | [], depth, counter, _ => by rw [redactEntries, maskEntries, entriesNodes, Nat.add_zero]
  | (k, v) :: es, depth, counter, h => by
    rw [entriesNodes] at h
    rw [redactEntries, maskEntries, entriesNodes]
    dsimp only
    rcases hk : isSensitiveKey k.pyStr with _ | _
    · rw [hk, if_neg Bool.false_ne_true] at h
      rw [if_neg Bool.false_ne_true, if_neg Bool.false_ne_true, if_neg Bool.false_ne_true,
        redactNode_mask v depth counter (by omega)]
      dsimp only
      rw [redactEntries_mask es depth (counter + nodes depth v) (by omega), Nat.add_assoc]
    · rw [hk, if_pos rfl] at h
      rw [if_pos rfl, if_pos rfl, if_pos rfl]
      dsimp only
      rw [redactEntries_mask es depth counter (by omega), Nat.zero_add]

end

theorem mem_ofList {pairs : List (Text × Value)} {e : Text × Value}
    (h : e ∈ (OrderedDict.ofList pairs).entries) : e ∈ pairs := by
  let listed : Text → Value → Prop := fun k v => (k, v) ∈ pairs
  have hempty : ∀ e ∈ (OrderedDict.empty : OrderedDict Text Value).entries, listed e.1 e.2 :=
    fun e he => absurd he List.not_mem_nil
  exact OrderedDict.forall_setAll hempty (fun e he => he) e h

theorem ofList_entries (d : OrderedDict Text Value) : OrderedDict.ofList d.entries = d := by
  have hext : ∀ {a b : OrderedDict Text Value}, a.entries = b.entries → a = b := by
    rintro ⟨a, ha⟩ ⟨b, hb⟩ rfl
    rfl
  exact hext (OrderedDict.entries_setAll_of_nodup d.nodup)

theorem mask_deep (value : Value) (h : depth > maxDepth) : mask depth value = redactedSentinel := by
  rw [mask.eq_def, if_pos h]

theorem mask_dict (entries : Dict) (h : ¬ depth > maxDepth) :
    mask depth (.dict entries) = .dict (asDict (.ofList (maskEntries (depth + 1) entries))) := by
  rw [mask, if_neg h]

theorem mask_list (items : List Value) (h : ¬ depth > maxDepth) :
    mask depth (.list items) = .list (maskItems (depth + 1) items) := by
  rw [mask, if_neg h]

theorem mask_tuple (items : List Value) (h : ¬ depth > maxDepth) :
    mask depth (.tuple items) = .list (maskItems (depth + 1) items) := by
  rw [mask, if_neg h]

theorem mask_leaf {value : Value} (hleaf : isLeaf value = true) (h : ¬ depth > maxDepth) :
    mask depth value = value := by
  rw [mask.eq_def, if_neg h]
  cases value with
  | dict entries => cases hleaf
  | list items => cases hleaf
  | tuple items => cases hleaf
  | _ => rfl

theorem maskEntries_asEntries (depth : ℕ) (pairs : List (Text × Value)) :
    maskEntries depth (asEntries pairs) = pairs.map fun e =>
      (e.1, if isSensitiveKey e.1 then redactedSentinel else mask depth e.2) := by
  induction pairs with
  | nil => rfl
  | cons e pairs ih =>
    rw [asEntries, List.map_cons, maskEntries, ← asEntries, ih]
    rfl

mutual

theorem mask_mask : ∀ (value : Value) (depth : ℕ), mask depth (mask depth value) = mask depth value
  | value, depth => by
    by_cases hdeep : depth > maxDepth
    · rw [mask_deep value hdeep, mask_deep _ hdeep]
    by_cases hleaf : isLeaf value = true
    · rw [mask_leaf hleaf hdeep, mask_leaf hleaf hdeep]
    cases value with
    | dict entries =>
      have hentries : ∀ e ∈ (OrderedDict.ofList (maskEntries (depth + 1) entries)).entries,
          (e.1, if isSensitiveKey e.1 then redactedSentinel else mask (depth + 1) e.2) = e := by
        intro e he
        rw [mask_mask_entries entries (depth + 1) e (mem_ofList he)]
      have hagain := maskEntries_asEntries (depth + 1)
        (OrderedDict.ofList (maskEntries (depth + 1) entries)).entries
      rw [List.map_congr_left hentries, List.map_id', asEntries, ← asDict] at hagain
      rw [mask_dict entries hdeep, mask_dict _ hdeep, hagain, ofList_entries]
    | list items =>
      rw [mask_list items hdeep, mask_list _ hdeep, maskItems_maskItems items (depth + 1)]
    | tuple items =>
      rw [mask_tuple items hdeep, mask_list _ hdeep, maskItems_maskItems items (depth + 1)]
    | _ => exact absurd rfl hleaf

theorem maskItems_maskItems : ∀ (items : List Value) (depth : ℕ),
    maskItems depth (maskItems depth items) = maskItems depth items
  | [], depth => by rw [maskItems, maskItems]
  | v :: vs, depth => by
    rw [maskItems, maskItems, mask_mask v depth, maskItems_maskItems vs depth]

/-- The entries of a masked dictionary are masked, also those of a key that came twice. -/
theorem mask_mask_entries : ∀ (entries : Dict) (depth : ℕ), ∀ e ∈ maskEntries depth entries,
    (if isSensitiveKey e.1 then redactedSentinel else mask depth e.2) = e.2
  | [], depth, e, he => absurd he List.not_mem_nil
  | (k, v) :: es, depth, e, he => by
    rw [maskEntries] at he
    rcases List.mem_cons.mp he with rfl | he
    · dsimp only
      split_ifs
      · rfl
      · exact mask_mask v depth
    · exact mask_mask_entries es depth e he

end

theorem entriesNodes_asEntries (depth : ℕ) (pairs : List (Text × Value)) :
    entriesNodes depth (asEntries pairs) =
      (pairs.map fun e => if isSensitiveKey e.1 then 0 else nodes depth e.2).sum := by
  induction pairs with
  | nil => rfl
  | cons e pairs ih =>
    rw [asEntries, List.map_cons, entriesNodes, ← asEntries, ih]
    rfl

/-- A dictionary has no more entries than are assigned to it. -/
theorem entriesNodes_ofList (depth : ℕ) (pairs : List (Text × Value)) :
    entriesNodes depth (asDict (.ofList pairs)) ≤ entriesNodes depth (asEntries pairs) := by
  have hnodup : (OrderedDict.ofList pairs).entries.Nodup := (OrderedDict.ofList pairs).nodup.of_map
  obtain ⟨kept, hperm, hsub⟩ := List.subperm_of_subset hnodup fun e he => mem_ofList he
  rw [asDict, ← asEntries, entriesNodes_asEntries, entriesNodes_asEntries,
    ← (hperm.map _).sum_nat]
  exact List.Sublist.sum_le_sum (hsub.map _) fun _ _ => Nat.zero_le _

mutual

/-- A masked value has no more nodes. -/
theorem nodes_mask : ∀ (value : Value) (depth : ℕ),
    nodes depth (mask depth value) ≤ nodes depth value
  | value, depth => by
    by_cases hdeep : depth > maxDepth
    · rw [nodes.eq_def, nodes.eq_def, if_pos hdeep, if_pos hdeep]
    by_cases hleaf : isLeaf value = true
    · rw [mask_leaf hleaf hdeep]
    cases value with
    | dict entries =>
      have hmasked := entriesNodes_mask entries (depth + 1)
      have hdict := entriesNodes_ofList (depth + 1) (maskEntries (depth + 1) entries)
      rw [mask_dict entries hdeep, nodes, nodes, if_neg hdeep, if_neg hdeep]
      omega
    | list items =>
      have hmasked := itemsNodes_mask items (depth + 1)
      rw [mask_list items hdeep, nodes, nodes, if_neg hdeep, if_neg hdeep]
      omega
    | tuple items =>
      have hmasked := itemsNodes_mask items (depth + 1)
      rw [mask_tuple items hdeep, nodes, nodes, if_neg hdeep, if_neg hdeep]
      omega
    | _ => exact absurd rfl hleaf

theorem itemsNodes_mask : ∀ (items : List Value) (depth : ℕ),
    itemsNodes depth (maskItems depth items) ≤ itemsNodes depth items
  | [], depth => by rw [maskItems]
  | v :: vs, depth => by
    have hfirst := nodes_mask v depth
    have hrest := itemsNodes_mask vs depth
    rw [maskItems, itemsNodes, itemsNodes]
    omega

theorem entriesNodes_mask : ∀ (entries : Dict) (depth : ℕ),
    entriesNodes depth (asEntries (maskEntries depth entries)) ≤ entriesNodes depth entries
  | [], depth => le_refl _
  | (k, v) :: es, depth => by
    have hfirst := nodes_mask v depth
    have hrest := entriesNodes_mask es depth
    have hkey : (Key.str k.pyStr).pyStr = k.pyStr := rfl
    rw [asEntries] at hrest
    rw [maskEntries, asEntries, List.map_cons, entriesNodes, entriesNodes, hkey]
    dsimp only
    split_ifs
    · omega
    · omega

end

/-! ## The outcomes -/

variable {entries redacted : Dict} {encoded : Text} {result : Option Dict}

theorem ofList_ne_nil {pairs : List (Text × Value)} (h : pairs ≠ []) :
    (OrderedDict.ofList pairs).entries ≠ [] := by
  have hkept : ∀ (pairs : List (Text × Value)) (d : OrderedDict Text Value),
      d.entries ≠ [] → (d.setAll pairs).entries ≠ [] := by
    intro pairs
    induction pairs with
    | nil => exact fun d hd => hd
    | cons p pairs ih =>
      intro d _
      apply ih (d.set p.1 p.2)
      intro hnil
      have hmem : p.1 ∈ (d.set p.1 p.2).keys := OrderedDict.mem_keys_set.mpr (Or.inl rfl)
      rw [OrderedDict.keys, hnil] at hmem
      exact List.not_mem_nil hmem
  cases pairs with
  | nil => exact absurd rfl h
  | cons p pairs => exact hkept pairs _ (List.cons_ne_nil _ _)

/-- A payload that is not empty stays one. -/
theorem redactNode_payload (h : entries ≠ []) : ∃ redacted, redacted ≠ [] ∧
    (redactNode (.dict entries) 0 0).1 = .dict redacted := by
  have hpairs : (redactEntries entries 1 1).1 ≠ [] := by
    intro hnil
    have hkeys := redactEntries_keys entries 1 1
    rw [hnil, List.map_nil, eq_comm, List.map_eq_nil_iff] at hkeys
    exact h hkeys
  refine ⟨_, ?_, by rw [redactNode_dict entries (by decide) (by decide)]⟩
  rw [asDict, Ne, List.map_eq_nil_iff]
  exact ofList_ne_nil hpairs

/-- What becomes of a payload that is not empty. -/
theorem redactChanges_cases (h : entries ≠ [])
    (hresult : redactChanges raw (some entries) = .ok result) :
    ∃ redacted, redacted ≠ [] ∧ (redactNode (.dict entries) 0 0).1 = .dict redacted ∧
      (result = some unserializable ∨ ∃ encoded, dumps (.dict redacted) = some encoded ∧
        encoded.length ≤ maxTextLength ∧
        (result = some redacted ∧ encodedSize encoded ≤ maxBytes raw ∨
          result = some (oversized (encodedSize encoded) (maxBytes raw)) ∧
            maxBytes raw < encodedSize encoded)) := by
  obtain ⟨redacted, hne, hnode⟩ := redactNode_payload h
  refine ⟨redacted, hne, hnode, ?_⟩
  cases entries with
  | nil => exact absurd rfl h
  | cons e es =>
    rw [redactChanges, hnode] at hresult
    dsimp only at hresult
    cases hdumps : dumps (.dict redacted) with
    | none =>
      rw [hdumps] at hresult
      cases hresult
      exact Or.inl rfl
    | some encoded =>
      rw [hdumps] at hresult
      dsimp only at hresult
      by_cases hlong : maxTextLength < encoded.length
      · rw [if_pos hlong] at hresult
        cases hresult
      rw [if_neg hlong] at hresult
      refine Or.inr ⟨encoded, rfl, not_lt.mp hlong, ?_⟩
      by_cases hfit : encodedSize encoded ≤ maxBytes raw
      · rw [if_pos hfit] at hresult
        cases hresult
        exact Or.inl ⟨rfl, hfit⟩
      · rw [if_neg hfit] at hresult
        cases hresult
        exact Or.inr ⟨rfl, not_le.mp hfit⟩

/-- What the walker leaves as it is and what fits is returned. -/
theorem redactChanges_fixed (hne : entries ≠ [])
    (hfixed : (redactNode (.dict entries) 0 0).1 = .dict entries)
    (hdumps : dumps (.dict entries) = some encoded) (hshort : encoded.length ≤ maxTextLength)
    (hfit : encodedSize encoded ≤ maxBytes raw) :
    redactChanges raw (some entries) = .ok (some entries) := by
  cases entries with
  | nil => exact absurd rfl hne
  | cons e es =>
    rw [redactChanges, hfixed]
    dsimp only
    rw [hdumps]
    dsimp only
    rw [if_neg (not_lt.mpr hshort), if_pos hfit]

/-! ## The markers -/

theorem le_maxBytes (raw : Option ℤ) : 256 ≤ maxBytes raw := by
  cases raw with
  | none => decide
  | some value => exact le_max_right value 256

theorem encodedSize_append (s t : Text) : encodedSize (s ++ t) = encodedSize s + encodedSize t := by
  rw [encodedSize, List.map_append, List.sum_append]
  rfl

theorem width_bounds (c : CodePoint) :
    1 ≤ EventPayload.utf8Width c ∧ EventPayload.utf8Width c ≤ 4 := by
  rw [EventPayload.utf8Width]
  split_ifs <;> decide

theorem encodedSize_bounds (t : Text) :
    t.length ≤ encodedSize t ∧ encodedSize t ≤ 4 * t.length := by
  induction t with
  | nil => decide
  | cons c t ih =>
    have hc := width_bounds c
    rw [encodedSize] at ih
    rw [encodedSize, List.map_cons, List.sum_cons, List.length_cons]
    omega

/-- A number of a size is written in twenty digits. -/
theorem intText_size {n : ℕ} (h : n < 10 ^ 20) :
    ∃ t, EventPayload.intText n = some t ∧ encodedSize t ≤ 80 := by
  have hwritten : (n : ℤ).natAbs < 10 ^ JsonWriter.maxIntDigits := by
    rw [Int.natAbs_natCast]
    exact h.trans_le (Nat.pow_le_pow_right (by decide) (by decide))
  have hlength : (digits n).length ≤ 20 := by
    rw [digits, List.length_map]
    exact (Nat.length_toDigits_le_iff (by decide) (by decide)).mpr h
  have hsize := (encodedSize_bounds (digits n)).2
  refine ⟨decimal n, if_pos hwritten, ?_⟩
  rw [decimal, if_neg (not_lt.mpr (Int.natCast_nonneg n)), Int.natAbs_natCast]
  omega

theorem dumps_unserializable : dumps (.dict unserializable) =
    some (text "\x7b\"_truncated\":true,\"_reason\":\"unserializable\"\x7d") := by decide

theorem dumps_oversized {size cap : ℕ} (hsize : size < 10 ^ 20) (hcap : cap < 10 ^ 20) :
    ∃ encoded, dumps (.dict (oversized size cap)) = some encoded ∧ encodedSize encoded ≤ 256 := by
  obtain ⟨s, hs, hslen⟩ := intText_size hsize
  obtain ⟨c, hc, hclen⟩ := intText_size hcap
  have hhead : encodedSize (text "\x7b\"_truncated\":true,\"_original_size_bytes\":") = 42 := by
    decide
  have hmiddle : encodedSize (text ",\"_max_size_bytes\":") = 19 := by decide
  have htail : encodedSize (text "\x7d") = 1 := by decide
  refine ⟨text "\x7b\"_truncated\":true,\"_original_size_bytes\":" ++
    (s ++ (text ",\"_max_size_bytes\":" ++ (c ++ text "\x7d"))), ?_, ?_⟩
  · simp only [oversized, EventSanitiser.keyed, dumps, dumpsEntries, EventPayload.Key.json, hs, hc]
    change some (text "\x7b" ++ compact [quoted (text "_truncated") ++ text ":" ++ text "true",
      quoted (text "_original_size_bytes") ++ text ":" ++ s,
      quoted (text "_max_size_bytes") ++ text ":" ++ c] ++ text "\x7d") = _
    simp only [compact, List.intercalate, List.intersperse, List.flatten_cons, List.flatten_nil,
      List.append_assoc, List.append_nil]
    rfl
  · rw [encodedSize_append, encodedSize_append, encodedSize_append, encodedSize_append, hhead,
      hmiddle, htail]
    omega

theorem redactEntries_plain {pairs : List (Text × Value)}
    (hplain : ∀ e ∈ pairs, isSensitiveKey e.1 = false ∧ isLeaf e.2 = true)
    (hdepth : ¬ depth > maxDepth) (hcounter : counter + pairs.length ≤ maxNodes) :
    (redactEntries (asEntries pairs) depth counter).1 = pairs := by
  induction pairs generalizing counter with
  | nil => rfl
  | cons e pairs ih =>
    obtain ⟨⟨hkey, hleaf⟩, hrest⟩ := List.forall_mem_cons.mp hplain
    rw [List.length_cons] at hcounter
    have htail := @ih (counter + 1) hrest (by omega)
    rw [asEntries] at htail
    have hstr : (Key.str e.1).pyStr = e.1 := rfl
    rw [asEntries, List.map_cons, redactEntries, hstr]
    dsimp only
    rw [hkey, if_neg Bool.false_ne_true, redactNode_leaf hleaf (by omega) hdepth]
    dsimp only
    rw [htail]

/-- The markers have a few keys that are not sensitive. -/
theorem redactNode_plain {pairs : List (Text × Value)}
    (hplain : ∀ e ∈ pairs, isSensitiveKey e.1 = false ∧ isLeaf e.2 = true)
    (hnodup : (pairs.map Prod.fst).Nodup) (hfew : pairs.length < maxNodes) :
    (redactNode (.dict (asEntries pairs)) 0 0).1 = .dict (asEntries pairs) := by
  rw [redactNode_dict _ (by decide) (by decide),
    redactEntries_plain hplain (by decide) (by omega), asDict_ofList hnodup]

theorem marker_keys : isSensitiveKey (text "_truncated") = false ∧
    isSensitiveKey (text "_reason") = false ∧
    isSensitiveKey (text "_original_size_bytes") = false ∧
    isSensitiveKey (text "_max_size_bytes") = false := by decide

theorem redactNode_unserializable :
    (redactNode (.dict unserializable) 0 0).1 = .dict unserializable := by
  obtain ⟨htruncated, hreason, -, -⟩ := marker_keys
  refine @redactNode_plain [(text "_truncated", .bool true),
    (text "_reason", .str (text "unserializable"))] ?_ (by decide) (by decide)
  simp only [List.forall_mem_cons]
  exact ⟨⟨htruncated, rfl⟩, ⟨hreason, rfl⟩, by simp⟩

theorem redactNode_oversized (size : ℕ) (cap : ℤ) :
    (redactNode (.dict (oversized size cap)) 0 0).1 = .dict (oversized size cap) := by
  obtain ⟨htruncated, -, hsize, hcap⟩ := marker_keys
  refine @redactNode_plain [(text "_truncated", .bool true),
    (text "_original_size_bytes", .int size), (text "_max_size_bytes", .int cap)] ?_ ?_ ?_
  · simp only [List.forall_mem_cons]
    exact ⟨⟨htruncated, rfl⟩, ⟨hsize, rfl⟩, ⟨hcap, rfl⟩, by simp⟩
  · change [text "_truncated", text "_original_size_bytes", text "_max_size_bytes"].Nodup
    decide
  · change 3 < maxNodes
    decide

/-! ## The redaction -/

theorem redactNode_settled {value : Value} (h : DistinctKeys value ∨ nodes 0 value ≤ maxNodes) :
    (redactNode (redactNode value 0 0).1 0 0).1 = (redactNode value 0 0).1 := by
  rcases h with hdistinct | hfew
  · rw [redactNode_again value 0 0 hdistinct]
  · have hless := nodes_mask value 0
    rw [redactNode_mask value 0 0 (by omega)]
    dsimp only
    rw [redactNode_mask (mask 0 value) 0 0 (by omega)]
    exact mask_mask value 0

theorem unserializable_fits :
    ∃ encoded, dumps (.dict unserializable) = some encoded ∧ encodedSize encoded ≤ 256 :=
  ⟨_, dumps_unserializable, by decide⟩

/-- The sizes of texts that the interpreter can hold are short numbers. -/
theorem oversized_fits (hshort : encoded.length ≤ maxTextLength)
    (hlarge : maxBytes raw < encodedSize encoded) :
    ∃ e, dumps (.dict (oversized (encodedSize encoded) (maxBytes raw))) = some e ∧
      encodedSize e ≤ 256 := by
  have hcap := le_maxBytes raw
  have hsize := (encodedSize_bounds encoded).2
  have hlimit : 4 * maxTextLength < 10 ^ 20 := by decide
  obtain ⟨cap, heq⟩ := Int.eq_ofNat_of_zero_le (by omega : 0 ≤ maxBytes raw)
  rw [heq] at hlarge ⊢
  exact dumps_oversized (by omega) (by omega)

/-- Whatever the payload, the result is a payload that fits. -/
theorem redactChanges_bounded {changes : Option Dict}
    (h : redactChanges raw changes = .ok result) :
    ∃ encoded, dumps (asValue result) = some encoded ∧ encodedSize encoded ≤ maxBytes raw := by
  have hcap := le_maxBytes raw
  match changes with
  | none =>
    cases h
    have hnull : encodedSize (text "null") = 4 := by decide
    exact ⟨text "null", rfl, by omega⟩
  | some [] =>
    cases h
    have hempty : encodedSize (text "\x7b\x7d") = 2 := by decide
    exact ⟨text "\x7b\x7d", rfl, by omega⟩
  | some (e :: es) =>
    obtain ⟨redacted, -, -, hcases⟩ := redactChanges_cases (List.cons_ne_nil e es) h
    rcases hcases with rfl | ⟨encoded, hdumps, hshort, ⟨rfl, hfit⟩ | ⟨rfl, hlarge⟩⟩
    · obtain ⟨encoded, hdumps, hfit⟩ := unserializable_fits
      exact ⟨encoded, hdumps, by omega⟩
    · exact ⟨encoded, hdumps, hfit⟩
    · obtain ⟨marker, hdumps, hfit⟩ := oversized_fits hshort hlarge
      exact ⟨marker, hdumps, by omega⟩

theorem length_of_fits {marker : Text} (h : encodedSize marker ≤ 256) :
    marker.length ≤ maxTextLength := by
  have hlength := (encodedSize_bounds marker).1
  have hlimit : 256 ≤ maxTextLength := by decide
  omega

theorem redactChanges_stable {changes : Option Dict} (hsettled : Settled changes)
    (h : redactChanges raw changes = .ok result) : redactChanges raw result = .ok result := by
  have hcap := le_maxBytes raw
  match changes with
  | none =>
    cases h
    rfl
  | some [] =>
    cases h
    rfl
  | some (e :: es) =>
    obtain ⟨redacted, hne, hnode, hcases⟩ := redactChanges_cases (List.cons_ne_nil e es) h
    rcases hcases with rfl | ⟨encoded, hdumps, hshort, ⟨rfl, hfit⟩ | ⟨rfl, hlarge⟩⟩
    · obtain ⟨encoded, hdumps, hfit⟩ := unserializable_fits
      exact redactChanges_fixed (List.cons_ne_nil _ _) redactNode_unserializable hdumps
        (length_of_fits hfit) (by omega)
    · have hagain := redactNode_settled (hsettled _ rfl)
      rw [hnode] at hagain
      exact redactChanges_fixed hne hagain hdumps hshort hfit
    · obtain ⟨marker, hdumps, hfit⟩ := oversized_fits hshort hlarge
      exact redactChanges_fixed (List.cons_ne_nil _ _) (redactNode_oversized _ _) hdumps
        (length_of_fits hfit) (by omega)

/-- The redaction does what it is for, whatever the payload. -/
theorem redactChanges_redacts (raw : Option ℤ) (changes : Option Dict) : Redacts raw changes where
  hidden other hother := by
    rw [← redactChanges_withoutSecrets raw other, hother, redactChanges_withoutSecrets]
  stable hsettled _ hresult := redactChanges_stable hsettled hresult
  bounded _ hresult := redactChanges_bounded hresult

def passwordChange : Dict :=
  [EventSanitiser.keyed "user" (.str (text "ada")),
    EventSanitiser.keyed "password" (.list [.str (text "old"), .str (text "new")])]

/-- A user whose password was changed: the value is masked, and masked once and for all. -/
theorem passwordChange_stable : ∃ result, redactChanges none (some passwordChange) = .ok result ∧
    redactChanges none result = .ok result := by
  have hresult : redactChanges none (some passwordChange) =
      .ok (some [EventSanitiser.keyed "user" (.str (text "ada")),
        EventSanitiser.keyed "password" redactedSentinel]) := by
    rfl
  refine ⟨_, hresult, (redactChanges_redacts none _).stable ?_ _ hresult⟩
  intro entries hentries
  obtain rfl := Option.some.inj hentries
  right
  decide

/-! ## Keys that become one -/

theorem redactItems_append (xs ys : List Value) (depth counter : ℕ) :
    redactItems (xs ++ ys) depth counter =
      ((redactItems xs depth counter).1 ++
          (redactItems ys depth (redactItems xs depth counter).2).1,
        (redactItems ys depth (redactItems xs depth counter).2).2) := by
  induction xs generalizing counter with
  | nil => rfl
  | cons x xs ih =>
    simp only [List.cons_append, redactItems, ih]

theorem redactItems_early {leaf : Value} (hleaf : isLeaf leaf = true) (hdepth : ¬ depth > maxDepth)
    {n : ℕ} (h : counter + n ≤ maxNodes) :
    redactItems (List.replicate n leaf) depth counter = (List.replicate n leaf, counter + n) := by
  induction n generalizing counter with
  | zero => rfl
  | succ n ih =>
    rw [List.replicate_succ, redactItems, redactNode_leaf hleaf (by omega) hdepth]
    dsimp only
    rw [ih (by omega), Nat.add_assoc, Nat.add_comm 1]

theorem redactItems_late (leaf : Value) (n : ℕ) (h : maxNodes ≤ counter) :
    redactItems (List.replicate n leaf) depth counter =
      (List.replicate n redactedSentinel, counter + n) := by
  induction n generalizing counter with
  | zero => rfl
  | succ n ih =>
    rw [List.replicate_succ, redactItems, redactNode_late leaf (by omega)]
    dsimp only
    rw [ih (by omega), List.replicate_succ, Nat.add_assoc, Nat.add_comm 1]

theorem encodedSize_compact (parts : List Text) :
    encodedSize (compact parts) ≤ (parts.map fun part => encodedSize part + 1).sum := by
  induction parts with
  | nil => exact Nat.zero_le _
  | cons part parts ih =>
    have hcomma : encodedSize (text ",") = 1 := by decide
    cases parts with
    | nil => simp [compact, List.intercalate]
    | cons next parts =>
      have hstep : compact (part :: next :: parts) =
          part ++ (text "," ++ compact (next :: parts)) := by
        simp [compact, List.intercalate]
      rw [hstep, encodedSize_append, encodedSize_append, hcomma, List.map_cons, List.sum_cons]
      omega

def zeros (n : ℕ) : List Value := List.replicate n (.int 0)

/-- A number and a text that are the same key, around another one. -/
def collided : Dict :=
  [(.str (text "after"), .dict
    [(.other ⟨text "1", text "1"⟩ (some (text "1")), .int 0), (.str (text "x"), .list (zeros 1)),
      (.str (text "1"), .list (zeros 1996))])]

def kept : List Value := zeros 1994 ++ List.replicate 2 redactedSentinel

def merged (x : List Value) : Dict :=
  [(.str (text "after"), .dict [(.str (text "1"), .list kept), (.str (text "x"), .list x)])]

theorem collided_keys : isSensitiveKey (text "after") = false ∧
    isSensitiveKey (text "1") = false ∧ isSensitiveKey (text "x") = false := by decide

/-- The second value of the key comes to its first place. -/
theorem collided_merged :
    (redactNode (.dict collided) 0 0).1 = .dict (merged (zeros 1)) := by
  obtain ⟨hafter, hone, hx⟩ := collided_keys
  have hshort : redactItems (zeros 1) 3 4 = (zeros 1, 5) :=
    redactItems_early rfl (by decide) (by decide)
  have hlong : redactItems (zeros 1996) 3 6 = (kept, 2002) := by
    have hsplit : zeros 1996 = zeros 1994 ++ zeros 2 := by
      rw [zeros, zeros, zeros, List.replicate_append_replicate]
    have hearly : redactItems (zeros 1994) 3 6 = (zeros 1994, 2000) :=
      redactItems_early rfl (by decide) (by decide)
    have hlate : redactItems (zeros 2) 3 2000 = (List.replicate 2 redactedSentinel, 2002) :=
      redactItems_late _ _ (by decide)
    rw [hsplit, redactItems_append, hearly, hlate, kept]
  have hmerge : ∀ a b c : Value, asDict (.ofList [(text "1", a), (text "x", b), (text "1", c)]) =
      [(.str (text "1"), c), (.str (text "x"), b)] := fun _ _ _ => rfl
  have hsingle : ∀ a : Value, asDict (.ofList [(text "after", a)]) = [(.str (text "after"), a)] :=
    fun _ => rfl
  have hinner : redactNode (.dict [(.other ⟨text "1", text "1"⟩ (some (text "1")), .int 0),
      (.str (text "x"), .list (zeros 1)), (.str (text "1"), .list (zeros 1996))]) 1 1 =
        (.dict [(.str (text "1"), .list kept), (.str (text "x"), .list (zeros 1))], 2002) := by
    rw [redactNode_dict _ (by decide) (by decide)]
    simp only [redactEntries, EventPayload.Key.pyStr, hone, hx, Bool.false_eq_true, if_false]
    rw [redactNode_leaf rfl (by decide) (by decide)]
    dsimp only
    rw [redactNode_list _ (by decide) (by decide), hshort]
    dsimp only
    rw [redactNode_list _ (by decide) (by decide), hlong]
    dsimp only
    rw [hmerge]
  rw [collided, redactNode_dict _ (by decide) (by decide)]
  simp only [redactEntries, EventPayload.Key.pyStr, hafter, Bool.false_eq_true, if_false, hinner]
  rw [hsingle, merged]

theorem merged_cut : (redactNode (.dict (merged (zeros 1))) 0 0).1 =
    .dict (merged [redactedSentinel]) := by
  obtain ⟨hafter, hone, hx⟩ := collided_keys
  have hlong : redactItems kept 3 3 = (kept, 1999) := by
    have hearly : redactItems (zeros 1994) 3 3 = (zeros 1994, 1997) :=
      redactItems_early rfl (by decide) (by decide)
    have hlate : redactItems (List.replicate 2 redactedSentinel) 3 1997 =
      (List.replicate 2 redactedSentinel, 1999) := redactItems_early rfl (by decide) (by decide)
    rw [kept, redactItems_append, hearly, hlate]
  have hshort : redactItems (zeros 1) 3 2000 = ([redactedSentinel], 2001) :=
    redactItems_late _ _ (by decide)
  have hpair : ∀ a b : Value, asDict (.ofList [(text "1", a), (text "x", b)]) =
      [(.str (text "1"), a), (.str (text "x"), b)] := fun _ _ => rfl
  have hsingle : ∀ a : Value, asDict (.ofList [(text "after", a)]) = [(.str (text "after"), a)] :=
    fun _ => rfl
  have hinner : redactNode (.dict [(.str (text "1"), .list kept),
      (.str (text "x"), .list (zeros 1))]) 1 1 =
        (.dict [(.str (text "1"), .list kept), (.str (text "x"), .list [redactedSentinel])],
          2001) := by
    rw [redactNode_dict _ (by decide) (by decide)]
    simp only [redactEntries, EventPayload.Key.pyStr, hone, hx, Bool.false_eq_true, if_false]
    rw [redactNode_list _ (by decide) (by decide), hlong]
    dsimp only
    rw [redactNode_list _ (by decide) (by decide), hshort]
    dsimp only
    rw [hpair]
  rw [merged, redactNode_dict _ (by decide) (by decide)]
  simp only [redactEntries, EventPayload.Key.pyStr, hafter, Bool.false_eq_true, if_false, hinner]
  rw [hsingle, merged]

theorem dumpsItems_replicate {v : Value} {part : Text} (h : dumps v = some part) (n : ℕ)
    {items : List Value} {parts : List Text} (hitems : dumpsItems items = some parts) :
    dumpsItems (List.replicate n v ++ items) = some (List.replicate n part ++ parts) := by
  induction n with
  | zero => exact hitems
  | succ n ih =>
    rw [List.replicate_succ, List.cons_append, dumpsItems, h, ih]
    rfl

theorem merged_fits : ∃ encoded, dumps (.dict (merged (zeros 1))) = some encoded ∧
    encoded.length ≤ maxTextLength ∧ encodedSize encoded ≤ maxBytes none := by
  have hzero : dumps (.int 0) = some (text "0") := by
    have hsmall : (0 : ℤ).natAbs < 10 ^ JsonWriter.maxIntDigits := Nat.pow_pos (by decide)
    rw [dumps, EventPayload.intText, if_pos hsmall]
    rfl
  have hmark : dumps redactedSentinel = some (text "\"[REDACTED]\"") := by decide
  have hnil : dumpsItems [] = some [] := by rw [dumpsItems]
  have htail := dumpsItems_replicate hmark 2 hnil
  have hshort := dumpsItems_replicate hzero 1 hnil
  rw [List.append_nil, List.append_nil] at htail hshort
  have hlong := dumpsItems_replicate hzero 1994 htail
  rw [← zeros, ← kept] at hlong
  rw [← zeros] at hshort
  obtain ⟨long, hcompact, hbound⟩ : ∃ long, compact (List.replicate 1994 (text "0") ++
      List.replicate 2 (text "\"[REDACTED]\"")) = long ∧ encodedSize long ≤ 4014 := by
    refine ⟨_, rfl, (encodedSize_compact _).trans ?_⟩
    have hone : encodedSize (text "0") = 1 := by decide
    have htwelve : encodedSize (text "\"[REDACTED]\"") = 12 := by decide
    rw [List.map_append, List.map_replicate, List.map_replicate, List.sum_append,
      List.sum_replicate_nat, List.sum_replicate_nat, hone, htwelve]
  have hdumps : dumps (.dict (merged (zeros 1))) = some ((text "\x7b\"after\":\x7b\"1\":[" ++
      (long ++ text "],\"x\":[0]\x7d\x7d"))) := by
    have hinner : dumpsEntries [(.str (text "1"), .list kept), (.str (text "x"), .list (zeros 1))] =
        some [quoted (text "1") ++ text ":" ++ (text "[" ++ long ++ text "]"),
          quoted (text "x") ++ text ":" ++ (text "[" ++ compact [text "0"] ++ text "]")] := by
      simp only [dumpsEntries, dumps, EventPayload.Key.json, hlong, hshort, Option.map_some,
        hcompact]
      rfl
    rw [merged, dumps, dumpsEntries, dumps, hinner]
    change some (text "\x7b" ++ compact [quoted (text "after") ++ text ":" ++ (text "\x7b" ++
      compact [quoted (text "1") ++ text ":" ++ (text "[" ++ long ++ text "]"),
        quoted (text "x") ++ text ":" ++ (text "[" ++ compact [text "0"] ++ text "]")] ++
          text "\x7d")] ++ text "\x7d") = _
    simp only [compact, List.intercalate, List.intersperse, List.flatten_cons, List.flatten_nil,
      List.append_assoc, List.append_nil]
    rfl
  have hsize : encodedSize (text "\x7b\"after\":\x7b\"1\":[" ++
      (long ++ text "],\"x\":[0]\x7d\x7d")) ≤ 4100 := by
    have hhead : encodedSize (text "\x7b\"after\":\x7b\"1\":[") = 15 := by decide
    have htail : encodedSize (text "],\"x\":[0]\x7d\x7d") = 11 := by decide
    rw [encodedSize_append, encodedSize_append, hhead, htail]
    omega
  have hlength := (encodedSize_bounds (text "\x7b\"after\":\x7b\"1\":[" ++
    (long ++ text "],\"x\":[0]\x7d\x7d"))).1
  have hlimit : 4100 ≤ maxTextLength := by decide
  have hcap : maxBytes none = 16384 := rfl
  exact ⟨_, hdumps, by omega, by omega⟩

/-- The second redaction meets the long list first and masks the short one. -/
theorem collided_unstable : ∃ result, redactChanges none (some collided) = .ok result ∧
    redactChanges none result ≠ .ok result := by
  obtain ⟨encoded, hdumps, hshort, hfit⟩ := merged_fits
  have hne : merged (zeros 1) ≠ [] := List.cons_ne_nil _ _
  refine ⟨some (merged (zeros 1)), ?_, ?_⟩
  · rw [collided, redactChanges, ← collided, collided_merged]
    dsimp only
    rw [hdumps]
    dsimp only
    rw [if_neg (not_lt.mpr hshort), if_pos hfit]
  · intro hagain
    obtain ⟨redacted, -, hnode, hcases⟩ := redactChanges_cases hne hagain
    rw [merged_cut] at hnode
    obtain rfl := (Value.dict.inj hnode).symm
    rcases hcases with h | ⟨encoded, -, -, ⟨h, -⟩ | ⟨h, -⟩⟩
    · have hlength : 1 = 2 := congrArg List.length (Option.some.inj h)
      cases hlength
    · have hitems : zeros 1 = [redactedSentinel] := by
        simpa [merged] using h
      cases hitems
    · have hlength : 1 = 3 := congrArg List.length (Option.some.inj h)
      cases hlength

end AuditStability
