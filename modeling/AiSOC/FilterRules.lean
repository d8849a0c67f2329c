import AiSOC.PythonValue

/-! # Filter rules of a connector

The first rule that matches an event decides whether it is dropped. The rules are any JSON value:
nothing about them is checked before they are applied. -/
namespace FilterRules

open CodeText PythonValue

abbrev Json := Value Empty

def validOps : List Text :=
  [text "eq", text "ne", text "contains", text "starts_with", text "ends_with", text "in"]

def drop : Text := text "drop"
def keep : Text := text "keep"

def validActions : List Text := [drop, keep]

structure FilterDecision where
  action : Text
  ruleIndex : Option ℕ
  deriving DecidableEq

mutual

/-- Lists and dictionaries have no hash, nor has a tuple with one of them. -/
def hashable : Json → Bool
  | .list _ => false
  | .dict _ => false
  | .tuple items => allHashable items
  | _ => true

def allHashable : List Json → Bool
  | [] => true
  | item :: items => hashable item && allHashable items

end

/-- The value as a member of a set of texts: a value without a hash is not looked up. -/
def asMember (texts : List Text) (value : Json) : Outcome (Option Text) :=
  if hashable value then
    match value with
    | .str s => .ok (if s ∈ texts then some s else none)
    | _ => .ok none
  else .error .typeError

/-- What `str` makes of a value, and the lower case of a text. -/
structure Texts where
  str : Json → Text
  lower : Text → Text

variable (texts : Texts)

/-- There are no objects of other classes. -/
def Texts.objects : Objects Empty where
  str value := .ok (texts.str value)
  truthy := nofun
  items := nofun
  eq _ _ := .ok false
  rich _ _ _ := .error .typeError
  contains := nofun
  isSet := nofun

/-- The entry of a key, or nothing. -/
def entry (d : Dict Empty) (key : Text) : Json := (Dict.get d key).getD .none

def fieldMatches (event : Dict Empty) (field op : Text) (value : Json) : Outcome Bool :=
  match entry event field with
  | .none => .ok false
  | actual =>
    if op = text "eq" then eqValue texts.objects actual value
    else if op = text "ne" then (eqValue texts.objects actual value).map not
    else if op = text "in" then
      match value with
      | .list items => memItems texts.objects items actual
      | .tuple items => memItems texts.objects items actual
      | value => eqValue texts.objects actual value
    else
      let actualStr := texts.lower (texts.str actual)
      let valueStr := texts.lower (texts.str value)
      if op = text "contains" then .ok (valueStr <:+: actualStr)
      else if op = text "starts_with" then .ok (valueStr <+: actualStr)
      else if op = text "ends_with" then .ok (valueStr <:+ actualStr)
      else .ok false

def actionOf (rule : Dict Empty) : Json := (Dict.get rule (text "action")).getD (.str drop)

/-- The action, if the rule decides. -/
def examine (event : Dict Empty) : Json → Outcome (Option Text)
  | .dict rule =>
    match entry rule (text "field") with
    | .str [] => .ok none
    | .str field => do
      match ← asMember validOps (entry rule (text "op")) with
      | none => .ok none
      | some op =>
        match ← asMember validActions (actionOf rule) with
        | none => .ok none
        | some action =>
          let matched ← fieldMatches texts event field op (entry rule (text "value"))
          return if matched then some action else none
    | _ => .ok none
  | _ => .ok none

/-- The rules from an index on. -/
def firstMatch (event : Dict Empty) : ℕ → List Json → Outcome FilterDecision
  | _, [] => .ok ⟨keep, none⟩
  | index, rule :: rules => do
    match ← examine texts event rule with
    | some action => .ok ⟨action, some index⟩
    | none => firstMatch event (index + 1) rules

def applyFilterRules (event : Dict Empty) (rules : Json) : Outcome FilterDecision := do
  if ← truthy texts.objects rules then
    let items ← toItems texts.objects rules
    firstMatch texts event 0 items
  else .ok ⟨keep, none⟩

/-! ## Well-formed rules -/

/-- What a rule asks for. -/
@[ext]
structure Parsed where
  field : Text
  op : Text
  action : Text
  value : Json

/-- A rule with a field, a known operator and a known action. -/
inductive WellFormed : Json → Parsed → Prop where
  | intro {rule : Dict Empty} {parsed : Parsed} (hne : parsed.field ≠ [])
      (hop : parsed.op ∈ validOps) (haction : parsed.action ∈ validActions)
      (field_eq : entry rule (text "field") = .str parsed.field)
      (op_eq : entry rule (text "op") = .str parsed.op)
      (action_eq : actionOf rule = .str parsed.action)
      (value_eq : entry rule (text "value") = parsed.value) : WellFormed (.dict rule) parsed

def Malformed (rule : Json) : Prop := ∀ parsed, ¬ WellFormed rule parsed

/-- The rule is well-formed, and the event has what it asks for. -/
def Decides (event : Dict Empty) (rule : Json) : Prop :=
  ∃ parsed, WellFormed rule parsed ∧
    fieldMatches texts event parsed.field parsed.op parsed.value = .ok true

/-- The operator of a rule with a field has a hash, and the action if the operator is known. -/
def Checkable (rule : Json) : Prop :=
  ∀ entries field, rule = .dict entries → entry entries (text "field") = .str field → field ≠ [] →
    hashable (entry entries (text "op")) = true ∧
      ∀ op ∈ validOps, entry entries (text "op") = .str op → hashable (actionOf entries) = true

/-- No rule before it decides. -/
def Reached (event : Dict Empty) (items : List Json) (rule : Json) : Prop :=
  ∃ before after, items = before ++ rule :: after ∧ ∀ r ∈ before, ¬ Decides texts event r

/-- Nothing is there to apply, or items are there, and those that are reached can be checked. -/
def Applicable (event : Dict Empty) (rules : Json) : Prop :=
  truthy texts.objects rules = .ok false ∨
    ∃ items, toItems texts.objects rules = .ok items ∧
      ∀ rule, Reached texts event items rule → Checkable rule

/-- The same decision after one rule is taken out. -/
def FilterDecision.without (index : ℕ) (decision : FilterDecision) : FilterDecision :=
  { decision with ruleIndex := decision.ruleIndex.map fun i => if index < i then i - 1 else i }

/-- The rules are applied to the event, and without any malformed rule among them the same rule
decides the same. -/
def Inert (event : Dict Empty) (rules : Json) : Prop :=
  (∃ decision, applyFilterRules texts event rules = .ok decision) ∧
    ∀ before junk after, rules = .list (before ++ junk :: after) → Malformed junk →
      applyFilterRules texts event (.list (before ++ after)) =
        (applyFilterRules texts event rules).map (FilterDecision.without before.length)

/-! ## Comparisons do not fail -/

mutual

theorem eqValue_ok (a b : Json) : ∃ r, eqValue texts.objects a b = .ok r := by
  cases a with
  | object o => exact o.elim
  | list xs =>
    cases b with
    | list ys => exact eqItems_ok xs ys
    | object o => exact o.elim
    | _ => exact ⟨_, rfl⟩
  | tuple xs =>
    cases b with
    | tuple ys => exact eqItems_ok xs ys
    | object o => exact o.elim
    | _ => exact ⟨_, rfl⟩
  | dict es =>
    cases b with
    | dict fs =>
      rw [eqValue]
      split_ifs
      · exact eqEntries_ok es fs
      · exact ⟨_, rfl⟩
    | object o => exact o.elim
    | _ => exact ⟨_, rfl⟩
  | _ =>
    cases b with
    | object o => exact o.elim
    | _ => exact ⟨_, rfl⟩

theorem eqItems_ok (xs ys : List Json) : ∃ r, eqItems texts.objects xs ys = .ok r := by
  cases xs with
  | nil => cases ys <;> exact ⟨_, rfl⟩
  | cons x xs =>
    cases ys with
    | nil => exact ⟨_, rfl⟩
    | cons y ys =>
      obtain ⟨r, hr⟩ := eqValue_ok x y
      rw [eqItems, hr]
      cases r with
      | true => exact eqItems_ok xs ys
      | false => exact ⟨_, rfl⟩

theorem eqEntries_ok (es fs : Dict Empty) : ∃ r, eqEntries texts.objects es fs = .ok r := by
  cases es with
  | nil => exact ⟨_, rfl⟩
  | cons e es =>
    obtain ⟨k, v⟩ := e
    obtain ⟨found, hfound⟩ : ∃ found,
        fs.findM? (fun f => eqValue texts.objects k f.1) = .ok found := by
      induction fs with
      | nil => exact ⟨_, rfl⟩
      | cons f fs ih =>
        obtain ⟨r, hr⟩ := eqValue_ok k f.1
        rw [List.findM?, hr]
        cases r with
        | true => exact ⟨_, rfl⟩
        | false => exact ih
    rw [eqEntries, hfound]
    cases found with
    | none => exact ⟨_, rfl⟩
    | some f =>
      obtain ⟨r, hr⟩ := eqValue_ok v f.2
      change ∃ r, (eqValue texts.objects v f.2 >>= _) = _
      rw [hr]
      cases r with
      | true => exact eqEntries_ok es fs
      | false => exact ⟨_, rfl⟩

end

theorem memItems_ok (items : List Json) (a : Json) :
    ∃ r, memItems texts.objects items a = .ok r := by
  induction items with
  | nil => exact ⟨_, rfl⟩
  | cons item items ih =>
    obtain ⟨r, hr⟩ := eqValue_ok texts item a
    rw [memItems, List.anyM, hr]
    cases r with
    | true => exact ⟨_, rfl⟩
    | false => exact ih

theorem fieldMatches_ok (event : Dict Empty) (field op : Text) (value : Json) :
    ∃ r, fieldMatches texts event field op value = .ok r := by
  obtain ⟨r, hr⟩ := eqValue_ok texts (entry event field) value
  have hin : ∀ items, ∃ r, memItems texts.objects items (entry event field) = .ok r :=
    fun items => memItems_ok texts items _
  rw [fieldMatches]
  generalize entry event field = actual at hr hin ⊢
  split
  · exact ⟨_, rfl⟩
  · split_ifs
    · exact ⟨r, hr⟩
    · exact ⟨!r, by rw [hr]; rfl⟩
    · split
      · exact hin _
      · exact hin _
      · exact ⟨r, hr⟩
    all_goals exact ⟨_, rfl⟩

/-! ## One rule -/

theorem asMember_of_hashable {names : List Text} {value : Json} (h : hashable value = true) :
    (∃ s ∈ names, value = .str s ∧ asMember names value = .ok (some s)) ∨
      (∀ s ∈ names, value ≠ .str s) ∧ asMember names value = .ok none := by
  unfold asMember
  rw [if_pos h]
  cases value with
  | str s =>
    by_cases hs : s ∈ names
    · exact .inl ⟨s, hs, rfl, by simp [hs]⟩
    · refine .inr ⟨fun t ht heq => hs ?_, by simp [hs]⟩
      rwa [Value.str.inj heq]
  | object o => exact o.elim
  | _ => exact .inr ⟨nofun, rfl⟩

theorem asMember_of_not_hashable {names : List Text} {value : Json} (h : ¬ hashable value = true) :
    asMember names value = .error .typeError := if_neg h

/-- A rule fails, is passed over, or is put to the event. -/
inductive Examined (event : Dict Empty) (rule : Json) : Outcome (Option Text) → Prop where
  | failed (h : ¬ Checkable rule) : Examined event rule (.error .typeError)
  | passed (h : Checkable rule) (hmalformed : Malformed rule) : Examined event rule (.ok none)
  | put {parsed : Parsed} {matched : Bool} (h : Checkable rule) (hparsed : WellFormed rule parsed)
      (hmatched : fieldMatches texts event parsed.field parsed.op parsed.value = .ok matched) :
      Examined event rule (.ok (if matched then some parsed.action else none))

theorem checkable_dict {entries : Dict Empty} {field : Text}
    (hfield : entry entries (text "field") = .str field) (hne : field ≠ []) :
    Checkable (.dict entries) ↔ hashable (entry entries (text "op")) = true ∧
      ∀ op ∈ validOps, entry entries (text "op") = .str op →
        hashable (actionOf entries) = true := by
  refine ⟨fun h => h entries field rfl hfield hne, fun h entries' _ heq _ _ => ?_⟩
  obtain rfl := Value.dict.inj heq
  exact h

theorem examined_dict (event : Dict Empty) {entries : Dict Empty} {field : Text}
    (hfield : entry entries (text "field") = .str field) (hne : field ≠ []) :
    Examined texts event (.dict entries) (examine texts event (.dict entries)) := by
  have hexamine : examine texts event (.dict entries) =
      asMember validOps (entry entries (text "op")) >>= fun
        | none => .ok none
        | some op => asMember validActions (actionOf entries) >>= fun
          | none => .ok none
          | some action =>
            (fieldMatches texts event field op (entry entries (text "value"))).map fun matched =>
              if matched then some action else none := by
    rw [examine, hfield]
    cases field with
    | nil => exact absurd rfl hne
    | cons c field => rfl
  have hcheckable := checkable_dict hfield hne
  by_cases hop : hashable (entry entries (text "op")) = true
  · obtain ⟨op, hvalid, hop_eq, hmember⟩ | ⟨hunknown, hmember⟩ :=
      @asMember_of_hashable validOps _ hop
    · by_cases haction : hashable (actionOf entries) = true
      · have hchecked : Checkable (.dict entries) := hcheckable.mpr ⟨hop, fun _ _ _ => haction⟩
        obtain ⟨action, hknown, haction_eq, hmember'⟩ | ⟨hunknown, hmember'⟩ :=
          @asMember_of_hashable validActions _ haction
        · obtain ⟨matched, hmatched⟩ :=
            fieldMatches_ok texts event field op (entry entries (text "value"))
          rw [hexamine, hmember]
          change Examined texts event _ (asMember validActions (actionOf entries) >>= _)
          rw [hmember']
          change Examined texts event _ ((fieldMatches texts event field op _).map _)
          rw [hmatched]
          exact @Examined.put texts event _ ⟨field, op, action, _⟩ _ hchecked
            (.intro hne hvalid hknown hfield hop_eq haction_eq rfl) hmatched
        · rw [hexamine, hmember]
          change Examined texts event _ (asMember validActions (actionOf entries) >>= _)
          rw [hmember']
          refine .passed hchecked fun parsed hparsed => ?_
          cases hparsed with
          | intro _ _ hknown _ _ action_eq _ => exact hunknown _ hknown action_eq
      · rw [hexamine, hmember]
        change Examined texts event _ (asMember validActions (actionOf entries) >>= _)
        rw [asMember_of_not_hashable haction]
        exact .failed fun h => haction ((hcheckable.mp h).2 op hvalid hop_eq)
    · rw [hexamine, hmember]
      refine .passed (hcheckable.mpr ⟨hop, fun op hvalid heq => absurd heq (hunknown op hvalid)⟩)
        fun parsed hparsed => ?_
      cases hparsed with
      | intro _ hknown _ _ op_eq _ _ => exact hunknown _ hknown op_eq
  · rw [hexamine, asMember_of_not_hashable hop]
    exact .failed fun h => hop (hcheckable.mp h).1

/-- Without a field a rule is passed over. -/
theorem passed_of_no_field (event : Dict Empty) {entries : Dict Empty}
    (h : ∀ field, entry entries (text "field") = .str field → field = []) :
    Examined texts event (.dict entries) (.ok none) := by
  refine .passed (fun entries' field heq hfield hne => ?_) fun parsed hparsed => ?_
  · obtain rfl := Value.dict.inj heq
    exact absurd (h field hfield) hne
  · cases hparsed with
    | intro hne _ _ field_eq _ _ _ => exact hne (h _ field_eq)

theorem examined (event : Dict Empty) (rule : Json) :
    Examined texts event rule (examine texts event rule) := by
  cases rule with
  | dict entries =>
    cases hfield : entry entries (text "field") with
    | str field =>
      cases field with
      | nil =>
        rw [examine, hfield]
        exact passed_of_no_field texts event fun field h =>
          (Value.str.inj (hfield.symm.trans h)).symm
      | cons c field => exact examined_dict texts event hfield (List.cons_ne_nil c field)
    | object o => exact o.elim
    | _ =>
      rw [examine, hfield]
      exact passed_of_no_field texts event fun field h => nomatch hfield.symm.trans h
  | object o => exact o.elim
  | _ => exact .passed nofun nofun

variable {texts} {event : Dict Empty} {rule : Json} {items before after : List Json} {rules : Json}
  {index k : ℕ} {decision : FilterDecision}

theorem examine_ok_iff : (∃ found, examine texts event rule = .ok found) ↔ Checkable rule := by
  have h := examined texts event rule
  generalize examine texts event rule = outcome at h ⊢
  cases h with
  | failed h => exact iff_of_false nofun h
  | passed h _ => exact iff_of_true ⟨_, rfl⟩ h
  | put h _ _ => exact iff_of_true ⟨_, rfl⟩ h

theorem WellFormed.unique {parsed parsed' : Parsed} (h : WellFormed rule parsed)
    (h' : WellFormed rule parsed') : parsed = parsed' := by
  cases h with
  | intro _ _ _ field_eq op_eq action_eq value_eq =>
    cases h' with
    | intro _ _ _ field_eq' op_eq' action_eq' value_eq' =>
      exact Parsed.ext (Value.str.inj (field_eq.symm.trans field_eq'))
        (Value.str.inj (op_eq.symm.trans op_eq')) (Value.str.inj (action_eq.symm.trans action_eq'))
        (value_eq.symm.trans value_eq')

theorem examine_eq_some {action : Text} (h : examine texts event rule = .ok (some action)) :
    Decides texts event rule := by
  have hexamined := examined texts event rule
  rw [h] at hexamined
  generalize hsome : (Except.ok (some action) : Outcome (Option Text)) = outcome at hexamined
  cases hexamined with
  | failed _ => cases hsome
  | passed _ _ => cases hsome
  | @put parsed matched _ hparsed hmatched =>
    cases matched with
    | true => exact ⟨parsed, hparsed, hmatched⟩
    | false => cases hsome

theorem examine_eq_none (h : examine texts event rule = .ok none) :
    ¬ Decides texts event rule := by
  rintro ⟨parsed, hparsed, hmatched⟩
  have hexamined := examined texts event rule
  rw [h] at hexamined
  generalize hnone : (Except.ok none : Outcome (Option Text)) = outcome at hexamined
  cases hexamined with
  | failed _ => cases hnone
  | passed _ hmalformed => exact hmalformed parsed hparsed
  | @put parsed' matched _ hparsed' hmatched' =>
    cases matched with
    | true => cases hnone
    | false =>
      rw [hparsed.unique hparsed', hmatched'] at hmatched
      cases hmatched

theorem examine_of_malformed {found : Option Text} (h : Malformed rule)
    (hfound : examine texts event rule = .ok found) : found = none := by
  cases found with
  | none => rfl
  | some action =>
    obtain ⟨parsed, hparsed, -⟩ := examine_eq_some hfound
    exact absurd hparsed (h parsed)

/-! ## The first rule that decides -/

theorem reached_cons {r : Json} : Reached texts event (r :: items) rule ↔
    rule = r ∨ ¬ Decides texts event r ∧ Reached texts event items rule := by
  constructor
  · rintro ⟨before, after, heq, hbefore⟩
    cases before with
    | nil => exact .inl (List.cons.inj heq).1.symm
    | cons b before =>
      obtain ⟨rfl, hitems⟩ := List.cons.inj heq
      obtain ⟨hb, hrest⟩ := List.forall_mem_cons.mp hbefore
      exact .inr ⟨hb, before, after, hitems, hrest⟩
  · rintro (rfl | ⟨hr, before, after, rfl, hbefore⟩)
    · exact ⟨[], items, rfl, nofun⟩
    · exact ⟨r :: before, after, rfl, List.forall_mem_cons.mpr ⟨hr, hbefore⟩⟩

theorem firstMatch_ok_iff : (∃ decision, firstMatch texts event index items = .ok decision) ↔
    ∀ rule, Reached texts event items rule → Checkable rule := by
  induction items generalizing index with
  | nil =>
    refine iff_of_true ⟨_, rfl⟩ fun rule h => ?_
    obtain ⟨before, after, heq, -⟩ := h
    cases before <;> cases heq
  | cons r items ih =>
    simp only [reached_cons, forall_eq_or_imp]
    rw [firstMatch]
    cases hexamine : examine texts event r with
    | error e =>
      refine iff_of_false nofun fun h => ?_
      obtain ⟨found, hfound⟩ := examine_ok_iff.mpr h.1
      cases hexamine.symm.trans hfound
    | ok found =>
      have hchecked : Checkable r := examine_ok_iff.mp ⟨found, hexamine⟩
      cases found with
      | some action =>
        have hdecides := examine_eq_some hexamine
        exact iff_of_true ⟨_, rfl⟩ ⟨hchecked, fun _ h => absurd hdecides h.1⟩
      | none =>
        refine (@ih (index + 1)).trans ?_
        have hskipped := examine_eq_none hexamine
        exact ⟨fun h => ⟨hchecked, fun rule hr => h rule hr.2⟩,
          fun h rule hr => h.2 rule ⟨hskipped, hr⟩⟩

theorem without_firstMatch (h : k ≤ index) :
    (firstMatch texts event (index + 1) items).map (FilterDecision.without k) =
      firstMatch texts event index items := by
  induction items generalizing index with
  | nil => rfl
  | cons r items ih =>
    rw [firstMatch, firstMatch]
    cases examine texts event r with
    | error e => rfl
    | ok found =>
      cases found with
      | none => exact ih (by omega)
      | some action =>
        have hlater : k < index + 1 := by omega
        change Except.ok (FilterDecision.without k ⟨action, some (index + 1)⟩) = _
        rw [FilterDecision.without, Option.map_some, if_pos hlater]
        rfl

/-- Where the rules are applied, one that is passed over can be taken out. -/
theorem firstMatch_without {junk : Json} (hjunk : Malformed junk)
    (h : firstMatch texts event index (before ++ junk :: after) = .ok decision) :
    firstMatch texts event index (before ++ after) =
      .ok (decision.without (index + before.length)) := by
  induction before generalizing index with
  | nil =>
    rw [List.nil_append, firstMatch] at h
    obtain ⟨found, hfound, hrest⟩ := bind_ok h
    rw [examine_of_malformed hjunk hfound] at hrest
    rw [List.nil_append, ← without_firstMatch (Nat.le_refl index)]
    exact congrArg (Except.map _) hrest
  | cons r before ih =>
    rw [List.cons_append, firstMatch] at h ⊢
    obtain ⟨found, hfound, hrest⟩ := bind_ok h
    rw [hfound]
    cases found with
    | none =>
      rw [List.length_cons, show index + (before.length + 1) = index + 1 + before.length by omega]
      exact ih hrest
    | some action =>
      obtain rfl := Except.ok.inj hrest
      have hearlier : ¬ index + (r :: before).length < index := by omega
      change _ = Except.ok (FilterDecision.without _ ⟨action, some index⟩)
      rw [FilterDecision.without, Option.map_some, if_neg hearlier]
      rfl

/-! ## Every rule list -/

theorem apply_list (event : Dict Empty) (items : List Json) :
    applyFilterRules texts event (.list items) = firstMatch texts event 0 items := by
  cases items with
  | nil => rfl
  | cons r items => rfl

theorem truthy_ok (rules : Json) : ∃ b, truthy texts.objects rules = .ok b := by
  cases rules with
  | object o => exact o.elim
  | _ => exact ⟨_, rfl⟩

theorem applied_iff : (∃ decision, applyFilterRules texts event rules = .ok decision) ↔
    Applicable texts event rules := by
  obtain ⟨b, hb⟩ := @truthy_ok texts rules
  rw [applyFilterRules, Applicable, hb]
  cases b with
  | false => exact iff_of_true ⟨_, rfl⟩ (.inl rfl)
  | true =>
    change (∃ decision, (toItems texts.objects rules >>= _) = _) ↔ _
    cases toItems texts.objects rules with
    | error e =>
      refine iff_of_false nofun ?_
      rintro (h | ⟨items, h, -⟩) <;> cases h
    | ok items =>
      refine (@firstMatch_ok_iff texts event items 0).trans ⟨fun h => .inr ⟨items, rfl, h⟩, ?_⟩
      rintro (h | ⟨items', h, hall⟩)
      · cases h
      · obtain rfl := Except.ok.inj h
        exact hall

/-- Malformed rules are inert exactly if there is nothing to apply, or items that can be checked as
far as they are reached. -/
theorem inert_iff_applicable (texts : Texts) (event : Dict Empty) (rules : Json) :
    Inert texts event rules ↔ Applicable texts event rules := by
  refine ⟨fun h => applied_iff.mp h.1, fun h => ?_⟩
  obtain ⟨decision, hdecision⟩ := applied_iff.mpr h
  refine ⟨⟨decision, hdecision⟩, ?_⟩
  rintro before junk after rfl hjunk
  rw [hdecision, apply_list]
  rw [apply_list] at hdecision
  rw [firstMatch_without hjunk hdecision, Nat.zero_add]
  rfl

def infoEvent : Dict Empty := [(.str (text "severity"), .str (text "info"))]

/-- A rule whose operator stands in a list. -/
def listedOperator : Json :=
  .list [.dict [(.str (text "field"), .str (text "severity")),
    (.str (text "op"), .list [.str (text "eq")]), (.str (text "value"), .str (text "info"))]]

def plainTexts : Texts where
  str
    | .str s => s
    | _ => []
  lower := id

/-- A list has no hash: the rule is not passed over, an error is raised. -/
theorem listed_operator_raises :
    applyFilterRules plainTexts infoEvent listedOperator = .error .typeError ∧
      ¬ Inert plainTexts infoEvent listedOperator := by
  have hraises : applyFilterRules plainTexts infoEvent listedOperator = .error .typeError := by
    rw [listedOperator, apply_list]
    rfl
  refine ⟨hraises, fun h => ?_⟩
  obtain ⟨decision, hdecision⟩ := h.1
  cases hraises.symm.trans hdecision

end FilterRules
