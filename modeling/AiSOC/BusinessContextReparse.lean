import AiSOC.BusinessContextYaml

/-! # Rules survive their YAML

What is written for a rule that was parsed is parsed again, as the same rule: the printer undoes
the parser on each condition, action and rule, wherever in a document they stand. -/
namespace BusinessContextReparse

open CodeText PythonValue BusinessContext BusinessContextYaml

variable {Ω : Type} {lib : Library Ω}

/-! ## Entries -/

theorem get_cons (k k' : Text) (v : Value Ω) (d : Dict Ω) :
    Dict.get ((.str k, v) :: d) k' = if k = k' then some v else Dict.get d k' := by
  rw [Dict.get, List.find?_cons]
  by_cases h : k = k'
  · rw [if_pos h, isKey, decide_eq_true h, Option.map_some]
  · rw [if_neg h, isKey, decide_eq_false h]
    rfl

theorem get_append (d e : Dict Ω) (k : Text) :
    Dict.get (d ++ e) k = (Dict.get d k).or (Dict.get e k) := by
  rw [Dict.get, List.find?_append, Dict.get, Dict.get, Option.map_or]

theorem get_textEntry (key k : Text) (s : Option Text) :
    Dict.get (textEntry key s : Dict Ω) k = if key = k then s.map .str else none := by
  cases s with
  | none => rw [Option.map_none, ite_self]; rfl
  | some s => exact get_cons key k (.str s) []

theorem opOf_opName (op : Op) : opOf (opName op) = some op := by
  cases op <;> rfl

theorem failRule_ne {α : Type} {id : RuleId} {message : Text} {a : α} :
    failRule lib id message ≠ .ok a := by
  intro h
  obtain ⟨shown, -, hfail⟩ := bind_ok h
  cases hfail

theorem mustBeOneOf_ne {α : Type} {id : RuleId} {key : String} {choices : Value Ω} {a : α} :
    mustBeOneOf lib id key choices ≠ .ok a := by
  intro h
  obtain ⟨shown, -, hfail⟩ := bind_ok h
  exact failRule_ne hfail

/-! ## Conditions -/

/-- The operator and the operand of a leaf. -/
inductive Operand (lib : Library Ω) : Op → Value Ω → Prop where
  | unary {op : Op} (hop : isUnary op = true) : Operand lib op .none
  | members {op : Op} {item : Value Ω} {items : List (Value Ω)} (hop : isUnary op = false)
      (hmembers : isMembership op = true) : Operand lib op (.list (item :: items))
  | plain {op : Op} {value : Value Ω} (hop : isUnary op = false)
      (hmembers : isMembership op = false) : Operand lib op value

theorem operand_of_parse {path : Text} {op : Op} {given : Option (Value Ω)} {value : Value Ω}
    (hop : isUnary op = false) (h : parseOperand lib path op given = .ok value) :
    Operand lib op value := by
  cases given with
  | none =>
    obtain ⟨shown, -, hfail⟩ := bind_ok h
    cases hfail
  | some given =>
    rw [parseOperand] at h
    by_cases hmembers : isMembership op = true
    · rw [if_pos hmembers] at h
      split at h
      · cases h
        exact .members hop hmembers
      · cases h
        exact .members hop hmembers
      · obtain ⟨shown, -, hfail⟩ := bind_ok h
        cases hfail
    · rw [if_neg hmembers] at h
      exact .plain hop (Bool.eq_false_iff.mpr hmembers)

theorem parseOperand_operand {op : Op} {value : Value Ω} (h : Operand lib op value)
    (hop : isUnary op = false) (path : Text) :
    parseOperand lib path op (some value) = .ok value := by
  cases h with
  | unary hunary => exact absurd (hunary.symm.trans hop) Bool.noConfusion
  | members _ hmembers =>
    rw [parseOperand, if_pos hmembers]
    rfl
  | plain _ hmembers => rw [parseOperand, if_neg (Bool.eq_false_iff.mp hmembers)]

theorem parseOp_name (path : Text) (op : Op) : parseOp lib path (.str (opName op)) = .ok op := by
  rw [parseOp, knownOp, opOf_opName]
  rfl

theorem leaf_of_parse {path : Text} {entries : Dict Ω} {c : RuleCondition Ω}
    (h : parseLeaf lib path entries = .ok c) :
    ∃ first field op value, c = .leaf (first :: field) op value ∧ Operand lib op value := by
  have hincomplete : parseLeaf.incomplete lib path entries ≠ .ok c := by
    intro heq
    obtain ⟨keys, -, hkeys⟩ := bind_ok heq
    obtain ⟨shown, -, hfail⟩ := bind_ok hkeys
    cases hfail
  rw [parseLeaf] at h
  split at h
  · exact absurd h hincomplete
  · exact absurd h hincomplete
  · obtain ⟨op, -, hvalue⟩ := bind_ok h
    by_cases hop : isUnary op = true
    · rw [if_pos hop] at hvalue
      cases hvalue
      exact ⟨_, _, op, _, rfl, .unary hop⟩
    · rw [if_neg hop] at hvalue
      obtain ⟨value, hoperand, hleaf⟩ := bind_ok hvalue
      cases hleaf
      exact ⟨_, _, op, value, rfl, operand_of_parse (Bool.eq_false_iff.mpr hop) hoperand⟩
  · cases h

theorem parseUnder_none {path : Text} {logical : Logical} {entries : Dict Ω}
    (h : Dict.get entries logical.key = none) :
    parseUnder lib path logical entries = none := by
  induction entries with
  | nil => rfl
  | cons e entries ih =>
    obtain ⟨k, raw⟩ := e
    rw [Dict.get, List.find?_cons] at h
    unfold parseUnder
    cases hk : isKey logical.key k with
    | true =>
      rw [hk] at h
      cases h
    | false =>
      rw [hk] at h
      rw [if_neg Bool.false_ne_true]
      exact ih h

/-- Without the keys of an aggregate, a mapping is a leaf. -/
theorem parseCondition_leaf {path : Text} {entries : Dict Ω}
    (h : ∀ logical : Logical, Dict.get entries logical.key = none) :
    parseCondition lib path (.dict entries) = parseLeaf lib path entries := by
  rw [parseCondition, parseUnder_none (h .all), parseUnder_none (h .any), parseUnder_none (h .not)]
  rfl

theorem parse_leaf {first : CodePoint} {field : Text} {op : Op} {value : Value Ω}
    (h : Operand lib op value) (path : Text) :
    parseCondition lib path (conditionToDict (.leaf (first :: field) op value)) =
      .ok (.leaf (first :: field) op value) := by
  cases hop : isUnary op with
  | true =>
    have hkeys (logical : Logical) : Dict.get ([(.str (text "field"), .str (first :: field)),
        (.str (text "op"), .str (opName op))] : Dict Ω) logical.key = none := by
      cases logical <;> rfl
    cases h with
    | unary _ =>
      rw [conditionToDict, if_pos hop, List.append_nil, parseCondition_leaf hkeys]
      change (parseOp lib path (.str (opName op)) >>= _) = _
      rw [parseOp_name]
      change (if isUnary op then _ else _) = _
      rw [if_pos hop]
      rfl
    | members hbinary => exact absurd (hop.symm.trans hbinary) Bool.noConfusion
    | plain hbinary => exact absurd (hop.symm.trans hbinary) Bool.noConfusion
  | false =>
    have hkeys (logical : Logical) : Dict.get ([(.str (text "field"), .str (first :: field)),
        (.str (text "op"), .str (opName op)), (.str (text "value"), value)] : Dict Ω)
        logical.key = none := by
      cases logical <;> rfl
    have hbinary := Bool.eq_false_iff.mp hop
    rw [conditionToDict, if_neg hbinary]
    change parseCondition lib path (.dict [_, _, _]) = _
    rw [parseCondition_leaf hkeys]
    change (parseOp lib path (.str (opName op)) >>= _) = _
    rw [parseOp_name]
    change (if isUnary op then _ else parseOperand lib path op (some value) >>= _) = _
    rw [if_neg hbinary, parseOperand_operand h hop]
    rfl

/-- A mapping with the key of one aggregate alone. -/
theorem parseCondition_single (path : Text) (logical : Logical) (raw : Value Ω) :
    some (parseCondition lib path (.dict [(.str logical.key, raw)])) =
      parseUnder lib path logical [(.str logical.key, raw)] := by
  have hkey (other : Logical) (h : other ≠ logical) :
      parseUnder lib path other [(.str logical.key, raw)] = none := by
    apply parseUnder_none
    rw [get_cons, if_neg fun hkey => h ?_]
    · rfl
    · cases other <;> cases logical <;> first | rfl | exact absurd hkey (by decide)
  obtain ⟨result, hresult⟩ :
      ∃ result, parseUnder lib path logical [(.str logical.key, raw)] = some result := by
    unfold parseUnder
    rw [isKey, decide_eq_true rfl, if_pos rfl]
    exact ⟨_, rfl⟩
  rw [hresult, parseCondition]
  cases logical with
  | all => rw [hresult, hkey .any (by decide), hkey .not (by decide)]; rfl
  | any => rw [hresult, hkey .all (by decide), hkey .not (by decide)]; rfl
  | not => rw [hresult, hkey .all (by decide), hkey .any (by decide)]; rfl

theorem conditionToDict_dict (c : RuleCondition Ω) :
    ∃ entries, conditionToDict c = .dict entries := by
  cases c <;> exact ⟨_, rfl⟩

theorem parse_not {path : Text} {c : RuleCondition Ω}
    (h : parseCondition lib (Logical.not.below path) (conditionToDict c) = .ok c) :
    parseCondition lib path (conditionToDict (.not c)) = .ok (.not c) := by
  obtain ⟨entries, hdict⟩ := conditionToDict_dict c
  apply Option.some.inj
  rw [conditionToDict]
  refine (parseCondition_single path .not _).trans ?_
  unfold parseUnder
  rw [isKey, decide_eq_true rfl, if_pos rfl, if_pos rfl, h, hdict]
  rfl

theorem parse_aggregate {path : Text} {logical : Logical} {c : RuleCondition Ω}
    {cs : List (RuleCondition Ω)} (hlogical : logical ≠ .not)
    (h : parseChildren lib (logical.below path) 0 (conditionsToDicts (c :: cs)) = .ok (c :: cs)) :
    parseCondition lib path
        (.dict [(.str logical.key, .list (conditionsToDicts (c :: cs)))]) =
      .ok (logical.ofChildren (c :: cs)) := by
  apply Option.some.inj
  rw [parseCondition_single]
  unfold parseUnder
  rw [isKey, decide_eq_true rfl, if_pos rfl, if_neg hlogical, conditionsToDicts]
  rw [conditionsToDicts] at h
  simp only [List.isEmpty_cons, Bool.false_eq_true, if_false]
  rw [h]
  rfl

/-- An aggregate is written under its own key. -/
theorem conditionToDict_ofChildren {logical : Logical} (h : logical ≠ .not)
    (cs : List (RuleCondition Ω)) :
    conditionToDict (logical.ofChildren cs) =
      .dict [(.str logical.key, .list (conditionsToDicts cs))] := by
  cases logical with
  | all => rfl
  | any => rfl
  | not => exact absurd rfl h

/-- A mapping is read by one of its aggregates, or as a leaf. -/
theorem parsed_dict {path : Text} {entries : Dict Ω} {c : RuleCondition Ω}
    (h : parseCondition lib path (.dict entries) = .ok c) :
    (∃ logical, parseUnder lib path logical entries = some (.ok c)) ∨
      parseLeaf lib path entries = .ok c := by
  rw [parseCondition] at h
  cases hall : parseUnder lib path .all entries with
  | some result =>
    rw [hall] at h
    exact .inl ⟨.all, hall.trans (congrArg some h)⟩
  | none =>
    rw [hall] at h
    cases hany : parseUnder lib path .any entries with
    | some result =>
      rw [hany] at h
      exact .inl ⟨.any, hany.trans (congrArg some h)⟩
    | none =>
      rw [hany] at h
      cases hnot : parseUnder lib path .not entries with
      | some result =>
        rw [hnot] at h
        exact .inl ⟨.not, hnot.trans (congrArg some h)⟩
      | none =>
        rw [hnot] at h
        exact .inr h

theorem map_ok {ε α β : Type} {x : Except ε α} {f : α → β} {b : β} (h : x.map f = .ok b) :
    ∃ a, x = .ok a ∧ f a = b := by
  cases x with
  | error e => cases h
  | ok a => exact ⟨a, rfl, Except.ok.inj h⟩

mutual

/-- What is written for a parsed condition is parsed as this condition at every path. -/
theorem reparse_condition (raw : Value Ω) {path : Text} {c : RuleCondition Ω}
    (h : parseCondition lib path raw = .ok c) (path' : Text) :
    parseCondition lib path' (conditionToDict c) = .ok c := by
  cases raw with
  | dict entries =>
    obtain ⟨logical, hunder⟩ | hleaf := parsed_dict h
    · exact reparse_under entries hunder path'
    · obtain ⟨first, field, op, value, rfl, hoperand⟩ := leaf_of_parse hleaf
      exact parse_leaf hoperand path'
  | _ => cases h

theorem reparse_under (entries : Dict Ω) {path : Text} {logical : Logical} {c : RuleCondition Ω}
    (h : parseUnder lib path logical entries = some (.ok c)) (path' : Text) :
    parseCondition lib path' (conditionToDict c) = .ok c := by
  match entries with
  | [] => cases h
  | (k, raw) :: entries =>
    unfold parseUnder at h
    by_cases hk : isKey logical.key k = true
    · rw [if_pos hk, Option.some.injEq] at h
      by_cases hnot : logical = .not
      · rw [if_pos hnot] at h
        by_cases hdict : isDict raw = true
        · rw [if_pos hdict] at h
          obtain ⟨child, hchild, rfl⟩ := map_ok h
          exact parse_not (reparse_condition raw hchild _)
        · rw [if_neg hdict] at h
          cases h
      · rw [if_neg hnot] at h
        cases raw with
        | list items =>
          cases items with
          | nil => cases h
          | cons item items =>
            obtain ⟨children, hchildren, rfl⟩ := map_ok h
            have hagain := reparse_children (item :: items) hchildren
            rw [conditionToDict_ofChildren hnot]
            cases children with
            | nil =>
              obtain ⟨child, -, hrest⟩ := bind_ok hchildren
              obtain ⟨children, -, hcons⟩ := bind_ok hrest
              cases hcons
            | cons child children => exact parse_aggregate hnot (hagain _ _)
        | _ => cases h
    · rw [if_neg hk] at h
      exact reparse_under entries h path'

theorem reparse_children (raws : List (Value Ω)) {path : Text} {i : ℕ}
    {cs : List (RuleCondition Ω)} (h : parseChildren lib path i raws = .ok cs) (path' : Text)
    (j : ℕ) : parseChildren lib path' j (conditionsToDicts cs) = .ok cs := by
  match raws with
  | [] =>
    cases h
    rfl
  | raw :: raws =>
    obtain ⟨child, hchild, hrest⟩ := bind_ok h
    obtain ⟨children, hchildren, hcs⟩ := bind_ok hrest
    cases hcs
    rw [conditionsToDicts, parseChildren, reparse_condition raw hchild,
      reparse_children raws hchildren]
    rfl

end

/-! ## Actions -/

theorem parseText_ok {accepted : Text → Bool} {complain : Value Ω → Parse (Option Text)}
    {value : Value Ω} {result : Option Text}
    (hcomplain : ∀ value result, complain value ≠ .ok result)
    (h : parseText accepted complain value = .ok result) :
    parseText accepted complain ((result.map .str).getD .none) = .ok result := by
  unfold parseText at h
  split at h
  · cases h
    rfl
  · split_ifs at h with haccepted
    · cases h
      exact if_pos haccepted
    · exact absurd h (hcomplain _ _)
  · exact absurd h (hcomplain _ _)

/-- The entries that an action is written as. -/
def actionEntries (action : RuleAction) : Dict Ω :=
  textEntry (text "set_severity") action.setSeverity ++
    textEntry (text "route_to") action.routeTo ++ textEntry (text "tag") action.tag ++
    if action.suppress then [(.str (text "suppress"), .bool true)] else []

theorem get_actionEntries (action : RuleAction) :
    entry (actionEntries action : Dict Ω) (text "set_severity") =
        (action.setSeverity.map .str).getD .none ∧
      entry (actionEntries action : Dict Ω) (text "route_to") =
        (action.routeTo.map .str).getD .none ∧
      entry (actionEntries action : Dict Ω) (text "tag") = (action.tag.map .str).getD .none ∧
      Dict.get (actionEntries action : Dict Ω) (text "suppress") =
        if action.suppress then some (.bool true) else none := by
  obtain ⟨setSeverity, routeTo, tag, suppress⟩ := action
  have hsuppress (k : Text) : Dict.get
      (if suppress then [(.str (text "suppress"), .bool true)] else [] : Dict Ω) k =
        if text "suppress" = k ∧ suppress = true then some (.bool true) else none := by
    cases suppress with
    | true =>
      rw [if_pos rfl, get_cons]
      simp [Dict.get]
    | false => simp [Dict.get]
  have hkeys : text "set_severity" ≠ text "route_to" ∧ text "set_severity" ≠ text "tag" ∧
      text "set_severity" ≠ text "suppress" ∧ text "route_to" ≠ text "tag" ∧
      text "route_to" ≠ text "suppress" ∧ text "tag" ≠ text "suppress" := by decide
  obtain ⟨hsr, hst, hss, hrt, hrs, hts⟩ := hkeys
  simp only [entry, actionEntries, get_append, get_textEntry, hsuppress]
  simp [hsr, hst, hss, hrt, hrs, hts, hsr.symm, hst.symm, hss.symm, hrt.symm, hrs.symm, hts.symm]

theorem reparse_action {id : RuleId} {raw : Value Ω} {action : RuleAction}
    (h : parseAction lib id raw = .ok action) :
    parseAction lib id (actionToDict action) = .ok action := by
  cases raw with
  | dict raw =>
    obtain ⟨setSeverity, hseverity, h⟩ := bind_ok h
    obtain ⟨routeTo, hroute, h⟩ := bind_ok h
    obtain ⟨tag, htag, h⟩ := bind_ok h
    obtain ⟨suppress, -, h⟩ := bind_ok h
    cases h
    obtain ⟨getSeverity, getRoute, getTag, getSuppress⟩ :=
      @get_actionEntries Ω { setSeverity, routeTo, tag, suppress }
    have hseverity' : parseSeverity lib id
        (actionEntries { setSeverity, routeTo, tag, suppress }) = .ok setSeverity := by
      rw [parseSeverity, getSeverity]
      exact parseText_ok (fun _ _ => mustBeOneOf_ne) hseverity
    have hroute' : parseRoute lib id
        (actionEntries { setSeverity, routeTo, tag, suppress }) = .ok routeTo := by
      rw [parseRoute, getRoute]
      exact parseText_ok (fun _ _ => mustBeOneOf_ne) hroute
    have htag' : parseTag lib id
        (actionEntries { setSeverity, routeTo, tag, suppress }) = .ok tag := by
      rw [parseTag, getTag]
      refine parseText_ok (fun _ _ hcomplain => ?_) htag
      obtain ⟨shown, -, hfail⟩ := bind_ok hcomplain
      exact failRule_ne hfail
    have hsuppress' : parseSuppress lib id
        (actionEntries { setSeverity, routeTo, tag, suppress }) = .ok suppress := by
      rw [parseSuppress, getSuppress]
      cases suppress <;> rfl
    change parseAction lib id (.dict (actionEntries { setSeverity, routeTo, tag, suppress })) = _
    rw [parseAction, hseverity', hroute', htag', hsuppress']
    rfl
  | _ => exact absurd h failRule_ne

/-! ## Rules -/

theorem parseDescription_text (id : RuleId) {raw : Dict Ω} {s : Text}
    (h : Dict.get raw (text "description") = some (.str s)) :
    parseDescription lib id raw = .ok s := by
  rw [parseDescription, h]
  cases s <;> rfl

theorem parsePriority_ok {id : RuleId} {raw raw' : Dict Ω} {priority : Priority}
    (h : parsePriority lib id raw = .ok priority)
    (hget : Dict.get raw' (text "priority") = some priority.toValue) :
    parsePriority lib id raw' = .ok priority := by
  have hrefuse : parsePriority.refuse lib id ≠ .ok priority := failRule_ne
  rw [parsePriority, hget]
  rw [parsePriority] at h
  split at h
  · cases h
    rfl
  · split_ifs at h with hn
    · cases h
      exact if_pos hn
    · exact absurd h hrefuse
  · cases h
    rfl
  · exact absurd h hrefuse

theorem parseId_ok {raw raw' : Dict Ω} {id : RuleId} (h : parseId raw = .ok id)
    (hget : entry raw' (text "id") = .str id) : parseId raw' = .ok id := by
  rw [parseId] at h
  rw [parseId, hget]
  split at h
  · split_ifs at h with hid
    · cases h
      exact if_pos hid
    · cases h
  · cases h

theorem parseWhen_ok {id : RuleId} {raw raw' : Dict Ω} {c : RuleCondition Ω}
    (h : parseWhen lib id raw = .ok c)
    (hget : entry raw' (text "when") = conditionToDict c) : parseWhen lib id raw' = .ok c := by
  obtain ⟨entries, hdict⟩ := conditionToDict_dict c
  rw [parseWhen] at h
  rw [parseWhen, hget, hdict]
  split at h
  · exact absurd h failRule_ne
  · rw [← hdict]
    exact reparse_condition _ h _

theorem parseThen_ok {id : RuleId} {raw raw' : Dict Ω} {action : RuleAction}
    (h : parseThen lib id raw = .ok action)
    (hget : entry raw' (text "then") = actionToDict action) :
    parseThen lib id raw' = .ok action := by
  obtain ⟨action', haction, h⟩ := bind_ok h
  split_ifs at h with hnoop
  · exact absurd h failRule_ne
  · cases h
    rw [parseThen, hget]
    have hagain : parseThenClause lib id (actionToDict action) = .ok action := by
      unfold parseThenClause at haction
      split at haction
      · exact absurd haction failRule_ne
      · exact reparse_action haction
    rw [hagain]
    exact if_neg hnoop

/-- What is written for a parsed rule is parsed as this rule, of another source. -/
theorem reparse_rule {source : Text} {raw : Value Ω} {r : SourcedRule Ω}
    (h : parseOneRule lib source raw = .ok r) (source' : Text) :
    parseOneRule lib source' (ruleToDict r) = .ok (r.from source') := by
  cases raw with
  | dict raw =>
    obtain ⟨id, hid, h⟩ := bind_ok h
    obtain ⟨description, -, h⟩ := bind_ok h
    obtain ⟨condition, hcondition, h⟩ := bind_ok h
    obtain ⟨action, haction, h⟩ := bind_ok h
    obtain ⟨enabled, -, h⟩ := bind_ok h
    obtain ⟨priority, hpriority, h⟩ := bind_ok h
    cases h
    rw [ruleToDict, parseOneRule, parseId_ok hid rfl, SourcedRule.from]
    change (parseDescription lib id _ >>= _) = _
    rw [parseDescription_text id rfl]
    change (parseWhen lib id _ >>= _) = _
    rw [parseWhen_ok hcondition rfl]
    change (parseThen lib id _ >>= _) = _
    rw [parseThen_ok haction rfl]
    change (parsePriority lib id _ >>= _) = _
    rw [parsePriority_ok hpriority rfl]
    rfl
  | _ => cases h

/-- Rules that a parser can have made of documents, of different ids. -/
structure Parsed (lib : Library Ω) (rules : List (SourcedRule Ω)) : Prop where
  parsed : ∀ r ∈ rules, ∃ source raw, parseOneRule lib source raw = .ok r
  nodup : (rules.map SourcedRule.id).Nodup

theorem parsed_rules {source : Text} {raws : List (Value Ω)} {seenIds : List RuleId}
    {rules : List (SourcedRule Ω)} (h : parseRules lib source seenIds raws = .ok rules) :
    Parsed lib rules ∧ ∀ r ∈ rules, r.id ∉ seenIds := by
  induction raws generalizing seenIds rules with
  | nil =>
    cases h
    exact ⟨⟨nofun, List.nodup_nil⟩, nofun⟩
  | cons raw raws ih =>
    obtain ⟨r, hr, h⟩ := bind_ok h
    split_ifs at h with hseen
    · obtain ⟨shown, -, hfail⟩ := bind_ok h
      cases hfail
    · obtain ⟨rest, hrest, h⟩ := bind_ok h
      cases h
      obtain ⟨hparsed, hnew⟩ := ih hrest
      refine ⟨⟨?_, ?_⟩, ?_⟩
      · rintro r' (_ | ⟨_, hmem⟩)
        · exact ⟨source, raw, hr⟩
        · exact hparsed.parsed r' hmem
      · rw [List.map_cons, List.nodup_cons]
        refine ⟨fun hmem => ?_, hparsed.nodup⟩
        obtain ⟨r', hr', hid⟩ := List.mem_map.mp hmem
        exact hnew r' hr' (hid ▸ List.mem_cons_self)
      · rintro r' (_ | ⟨_, hmem⟩)
        · exact hseen
        · exact fun hold => hnew r' hmem (List.mem_cons_of_mem r.id hold)

theorem reparse_rules {rules : List (SourcedRule Ω)} (h : Parsed lib rules)
    {seenIds : List RuleId} (hnew : ∀ r ∈ rules, r.id ∉ seenIds) (source : Text) :
    parseRules lib source seenIds (rules.map ruleToDict) =
      .ok (rules.map (SourcedRule.from source)) := by
  induction rules generalizing seenIds with
  | nil => rfl
  | cons r rules ih =>
    obtain ⟨source', raw, hr⟩ := h.parsed r List.mem_cons_self
    have hids := List.nodup_cons.mp h.nodup
    have hrest : Parsed lib rules :=
      ⟨fun r' hr' => h.parsed r' (List.mem_cons_of_mem r hr'), hids.2⟩
    have hunseen : ∀ r' ∈ rules, r'.id ∉ r.id :: seenIds := by
      intro r' hr' hmem
      rcases List.mem_cons.mp hmem with hid | hold
      · exact hids.1 (hid ▸ List.mem_map_of_mem hr')
      · exact hnew r' (List.mem_cons_of_mem r hr') hold
    rw [List.map_cons, parseRules, reparse_rule hr]
    change (if r.id ∈ seenIds then _ else parseRules lib source (r.id :: seenIds) _ >>= _) = _
    rw [if_neg (hnew r List.mem_cons_self), ih hrest hunseen]
    rfl

/-! ## Documents -/

theorem parsed_load {source : Text} {rules : List (SourcedRule Ω)}
    (h : loadRulesFromYaml lib source = .ok rules) : Parsed lib rules := by
  rw [loadRulesFromYaml] at h
  split_ifs at h with hnil
  · cases h
    exact ⟨nofun, List.nodup_nil⟩
  · obtain ⟨data, -, h⟩ := bind_ok h
    obtain ⟨raws, -, h⟩ := bind_ok h
    exact (parsed_rules h).1

/-- The loader undoes the dumper on a document, and the white space around what was dumped means
nothing to it. -/
def Undoes (lib : Library Ω) (d : Value Ω) : Prop :=
  ∃ yaml, lib.safeDump d = .ok yaml ∧ lib.safeLoad yaml = .ok d ∧
    lib.safeLoad (strip yaml) = lib.safeLoad yaml

theorem reload (hempty : lib.safeLoad [] = .ok .none) {rules : List (SourcedRule Ω)}
    (h : Parsed lib rules) (hundo : rules ≠ [] → Undoes lib (document rules)) :
    ∃ yaml, serialiseRules lib rules = .ok yaml ∧
      loadRulesFromYaml lib yaml = .ok (rules.map (SourcedRule.from (strip yaml))) := by
  by_cases hrules : rules = []
  · subst hrules
    exact ⟨[], rfl, rfl⟩
  · obtain ⟨yaml, hdump, hload, hstrip⟩ := hundo hrules
    have hdocument : lib.safeLoad (strip yaml) = .ok (document rules) := hstrip.trans hload
    have hne : strip yaml ≠ [] := by
      intro hnil
      rw [hnil, hempty] at hdocument
      cases hdocument
    refine ⟨yaml, ?_, ?_⟩
    · rw [serialiseRules, if_neg fun hnil => hrules (List.isEmpty_iff.mp hnil), hdump]
    · rw [loadRulesFromYaml, if_neg hne, load, hdocument]
      exact reparse_rules h (fun r _ => List.not_mem_nil) (strip yaml)

/-! ## One rule of a tenant is put or deleted -/

theorem spliced_spec {rules : List (SourcedRule Ω)} {newRule : SourcedRule Ω}
    (h : Parsed lib rules) (hnew : Parsed lib [newRule]) :
    Parsed lib (spliced rules newRule) ∧
      ((spliced rules newRule).filter fun r => r.id ≠ newRule.id) =
        rules.filter fun r => r.id ≠ newRule.id := by
  obtain ⟨rows, hrows⟩ : ∃ rows, rows = rules.map fun r => (r.id, r) := ⟨_, rfl⟩
  have hkeys : rows.map Prod.fst = rules.map SourcedRule.id := by
    rw [hrows, List.map_map]
    rfl
  have hentries : (OrderedDict.ofList rows).entries = rows :=
    OrderedDict.entries_setAll_of_nodup (d := OrderedDict.empty) (hkeys ▸ h.nodup)
  have hparsed : ∀ e ∈ ((OrderedDict.ofList rows).set newRule.id newRule).entries,
      e.2.id = e.1 ∧ ∃ source raw, parseOneRule lib source raw = .ok e.2 := by
    apply OrderedDict.forall_set (P := fun id (r : SourcedRule Ω) =>
      r.id = id ∧ ∃ source raw, parseOneRule lib source raw = .ok r)
    · intro e he
      rw [hentries, hrows] at he
      obtain ⟨r, hr, rfl⟩ := List.mem_map.mp he
      exact ⟨rfl, h.parsed r hr⟩
    · exact ⟨rfl, hnew.parsed newRule List.mem_cons_self⟩
  have hset : ((OrderedDict.ofList rows).set newRule.id newRule).entries.filter
      (fun e => e.1 ≠ newRule.id) = rows.filter fun e => e.1 ≠ newRule.id := by
    have hfilter := OrderedDict.filter_setEntry (k := newRule.id) (v := newRule)
      (p := fun id => id ≠ newRule.id) (OrderedDict.ofList rows).entries
    rw [if_neg (by simp)] at hfilter
    exact hfilter.trans (by rw [hentries])
  rw [spliced, ← hrows, OrderedDict.values]
  refine ⟨⟨?_, ?_⟩, ?_⟩
  · intro r hr
    obtain ⟨e, he, rfl⟩ := List.mem_map.mp hr
    exact (hparsed e he).2
  · have hids : ((OrderedDict.ofList rows).set newRule.id newRule).entries.map
        (SourcedRule.id ∘ Prod.snd) = _ := List.map_congr_left fun e he => (hparsed e he).1
    rw [List.map_map, hids]
    exact ((OrderedDict.ofList rows).set newRule.id newRule).nodup
  · calc ((((OrderedDict.ofList rows).set newRule.id newRule).entries.map Prod.snd).filter
          fun r => r.id ≠ newRule.id)
        = (((OrderedDict.ofList rows).set newRule.id newRule).entries.filter
            fun e => e.2.id ≠ newRule.id).map Prod.snd := List.filter_map
      _ = (((OrderedDict.ofList rows).set newRule.id newRule).entries.filter
            fun e => e.1 ≠ newRule.id).map Prod.snd := by
          rw [List.filter_congr fun e he => by rw [(hparsed e he).1]]
      _ = (rows.filter fun e => e.1 ≠ newRule.id).map Prod.snd := by rw [hset]
      _ = rules.filter fun r => r.id ≠ newRule.id := by
          rw [hrows, List.filter_map, List.map_map]
          exact List.map_id _

theorem parsed_filter {rules : List (SourcedRule Ω)} (h : Parsed lib rules)
    (keep : SourcedRule Ω → Bool) : Parsed lib (rules.filter keep) where
  parsed r hr := h.parsed r (List.mem_of_mem_filter hr)
  nodup := (List.filter_sublist.map SourcedRule.id).nodup h.nodup

theorem parsed_stored {state : State Ω} {tenantId : TenantId} {now : ℕ}
    {rules : List (SourcedRule Ω)} (h : storedRules lib state tenantId now = .ok rules) :
    Parsed lib rules := by
  rw [storedRules] at h
  split_ifs at h with hnil
  · cases h
    exact ⟨nofun, List.nodup_nil⟩
  · exact parsed_load h

/-- The rules of the tenant but the one with the id are what they were, apart from their sources,
and they are in effect. No other tenant is concerned. -/
structure OthersKept (lib : Library Ω) (tenantId : TenantId) (ruleId : RuleId) (now : ℕ)
    (state state' : State Ω) : Prop where
  others : ∃ rules rules', storedRules lib state tenantId now = .ok rules ∧
    (∀ later, storedRules lib state' tenantId later = .ok rules') ∧
    ((rules'.filter fun r => r.id ≠ ruleId).map (SourcedRule.from [])) =
      (rules.filter fun r => r.id ≠ ruleId).map (SourcedRule.from []) ∧
    ∃ snap, state'.engine.snapshotFor tenantId = some snap ∧
      snap.rules = Pagination.sortRows ruleKey (rules'.map SourcedRule.rule)
  tenants : ∀ other ≠ tenantId, state'.store.get other = state.store.get other ∧
    state'.engine.snapshotFor other = state.engine.snapshotFor other

theorem from_from (rules : List (SourcedRule Ω)) (source : Text) (ruleId : RuleId) :
    ((rules.map (SourcedRule.from source)).filter fun r => r.id ≠ ruleId).map
        (SourcedRule.from []) =
      (rules.filter fun r => r.id ≠ ruleId).map (SourcedRule.from []) := by
  rw [List.filter_map, List.map_map]
  rfl

/-- The next rules of a tenant are kept, with all others as they were. -/
theorem keepRules_spec (hempty : lib.safeLoad [] = .ok .none) {state : State Ω}
    {tenantId : TenantId} {ruleId : RuleId} {now : ℕ} {rules next : List (SourcedRule Ω)}
    (hstored : storedRules lib state tenantId now = .ok rules) (hnext : Parsed lib next)
    (hothers : (next.filter fun r => r.id ≠ ruleId) = rules.filter fun r => r.id ≠ ruleId)
    (hundo : next ≠ [] → Undoes lib (document next)) :
    ∃ state', keepRules lib state tenantId now next = .ok state' ∧
      OthersKept lib tenantId ruleId now state state' := by
  obtain ⟨yaml, hyaml, hload⟩ := reload hempty hnext hundo
  have hkeep : keepRules lib state tenantId now next = .ok
      { store := state.store.set tenantId
          { yaml := yaml, enabled := (loadFor state tenantId now).enabled, updatedAt := now }
        engine := state.engine.replace tenantId (next.map SourcedRule.rule) none } := by
    rw [keepRules, hyaml]
    rfl
  refine ⟨_, hkeep, ⟨⟨rules, next.map (SourcedRule.from (strip yaml)), hstored, ?_, ?_, ?_⟩, ?_⟩⟩
  · intro later
    rw [storedRules, loadFor, OrderedDict.get_set, if_pos rfl, Option.getD_some]
    split_ifs with hnil
    · subst hnil
      exact hload
    · exact hload
  · rw [from_from, hothers]
  · refine ⟨compileSnapshot tenantId (state.engine.newVersion tenantId none)
      (next.map SourcedRule.rule), ?_, ?_⟩
    · rw [Engine.snapshotFor, Engine.replace, OrderedDict.get_set, if_pos rfl]
    · rw [compileSnapshot, List.map_map]
      rfl
  · intro other hother
    exact ⟨by rw [OrderedDict.get_set, if_neg hother],
      by rw [Engine.snapshotFor, Engine.replace, OrderedDict.get_set, if_neg hother,
        Engine.snapshotFor]⟩

theorem mapError_ok {ε ε' α : Type} {x : Except ε α} {f : ε → ε'} {a : α}
    (h : x.mapError f = .ok a) : x = .ok a := by
  cases x with
  | error e => cases h
  | ok a' => exact congrArg Except.ok (Except.ok.inj h)

theorem rulesAfterUpdate_spec {state : State Ω} {tenantId : TenantId} {ruleId : RuleId}
    {body : Text} {now : ℕ} {next : List (SourcedRule Ω)}
    (h : rulesAfterUpdate lib state tenantId ruleId body now = .ok next) :
    ∃ rules, storedRules lib state tenantId now = .ok rules ∧ Parsed lib next ∧
      (next.filter fun r => r.id ≠ ruleId) = rules.filter fun r => r.id ≠ ruleId := by
  obtain ⟨given, hgiven, h⟩ := bind_ok h
  have hparsed := parsed_load (mapError_ok hgiven)
  split at h
  · rename_i newRule
    split_ifs at h with hid
    · obtain ⟨shown, -, h⟩ := bind_ok h
      obtain ⟨shown', -, h⟩ := bind_ok h
      cases h
    · obtain ⟨rules, hrules, h⟩ := bind_ok h
      cases h
      have hstored := mapError_ok hrules
      obtain rfl := not_not.mp hid
      obtain ⟨hnext, hothers⟩ := spliced_spec (parsed_stored hstored) hparsed
      exact ⟨rules, hstored, hnext, hothers⟩
  · cases h

theorem rulesAfterDelete_spec {state : State Ω} {tenantId : TenantId} {ruleId : RuleId}
    {now : ℕ} {next : List (SourcedRule Ω)}
    (h : rulesAfterDelete lib state tenantId ruleId now = .ok next) :
    ∃ rules, storedRules lib state tenantId now = .ok rules ∧ Parsed lib next ∧
      (next.filter fun r => r.id ≠ ruleId) = rules.filter fun r => r.id ≠ ruleId := by
  obtain ⟨rules, hrules, h⟩ := bind_ok h
  have hstored := mapError_ok hrules
  simp only at h
  split_ifs at h with hlength
  · obtain ⟨shown, -, h⟩ := bind_ok h
    cases h
  · cases h
    refine ⟨rules, hstored, parsed_filter (parsed_stored hstored) _, ?_⟩
    rw [List.filter_filter]
    simp

/-- Rules that were parsed are written and parsed again as they were, in their order and apart
from their sources; so a rule that is put or deleted leaves the others of its tenant. -/
theorem rules_survive (lib : Library Ω) (hempty : lib.safeLoad [] = .ok .none) :
    (∀ source rules, loadRulesFromYaml lib source = .ok rules →
      (rules ≠ [] → Undoes lib (document rules)) →
      ∃ yaml, serialiseRules lib rules = .ok yaml ∧
        loadRulesFromYaml lib yaml = .ok (rules.map (SourcedRule.from (strip yaml)))) ∧
    (∀ state tenantId ruleId body now next,
      rulesAfterUpdate lib state tenantId ruleId body now = .ok next →
      (next ≠ [] → Undoes lib (document next)) →
      ∃ state', updateRule lib state tenantId ruleId body now = .ok state' ∧
        OthersKept lib tenantId ruleId now state state') ∧
    ∀ state tenantId ruleId now next,
      rulesAfterDelete lib state tenantId ruleId now = .ok next →
      (next ≠ [] → Undoes lib (document next)) →
      ∃ state', deleteRule lib state tenantId ruleId now = .ok state' ∧
        OthersKept lib tenantId ruleId now state state' := by
  refine ⟨fun source rules h hundo => reload hempty (parsed_load h) hundo, ?_, ?_⟩
  · intro state tenantId ruleId body now next hnext hundo
    obtain ⟨rules, hstored, hparsed, hothers⟩ := rulesAfterUpdate_spec hnext
    obtain ⟨state', hkeep, hkept⟩ := keepRules_spec hempty hstored hparsed hothers hundo
    exact ⟨state', by rw [updateRule, hnext]; exact hkeep, hkept⟩
  · intro state tenantId ruleId now next hnext hundo
    obtain ⟨rules, hstored, hparsed, hothers⟩ := rulesAfterDelete_spec hnext
    obtain ⟨state', hkeep, hkept⟩ := keepRules_spec hempty hstored hparsed hothers hundo
    exact ⟨state', by rw [deleteRule, hnext]; exact hkeep, hkept⟩

/-! ## A tenant with two rules -/

def iamRule (source : Text) : SourcedRule Empty where
  id := text "prod-iam"
  description := []
  when := .all [.leaf (text "env") .in (.list [.str (text "prod")]),
    .not (.leaf (text "owner") .exists .none)]
  thenAction := { setSeverity := some (text "critical"), routeTo := none, tag := none,
                  suppress := false }
  enabled := true
  priority := .int 100
  rawYaml := source

def noiseRule (source : Text) : SourcedRule Empty where
  id := text "dev-noise"
  description := []
  when := .leaf (text "env") .eq (.str (text "dev"))
  thenAction := { setSeverity := none, routeTo := none, tag := none, suppress := true }
  enabled := true
  priority := .int 100
  rawYaml := source

def str (s : String) : Value Empty := .str (text s)

def noiseRaw : Value Empty :=
  .dict [(str "id", str "dev-noise"),
    (str "when", .dict [(str "field", str "env"), (str "op", str "eq"), (str "value", str "dev")]),
    (str "then", .dict [(str "suppress", .bool true)])]

def bothRaw : Value Empty :=
  .list [.dict [(str "id", str "prod-iam"),
      (str "when", .dict [(str "all", .list
        [.dict [(str "field", str "env"), (str "op", str "in"), (str "value", str "prod")],
          .dict [(str "not", .dict [(str "field", str "owner"), (str "op", str "exists")])]])]),
      (str "then", .dict [(str "set_severity", str "critical")])],
    noiseRaw]

/-- A document by its lines. -/
def lines (contents : List String) : Text := contents.flatMap fun line => text line ++ [cp '\n']

def noiseSource : Text :=
  lines ["id: dev-noise", "when:", "  field: env", "  op: eq", "  value: dev", "then:",
    "  suppress: true"]

def bothSource : Text :=
  lines ["- id: prod-iam", "  when:", "    all:", "    - field: env", "      op: in",
    "      value: prod", "    - not:", "        field: owner", "        op: exists", "  then:",
    "    set_severity: critical", "- id: dev-noise", "  when:", "    field: env", "    op: eq",
    "    value: dev", "  then:", "    suppress: true"]

def bothYaml : Text :=
  lines ["rules:", "- id: prod-iam", "  description: ''", "  enabled: true", "  priority: 100",
    "  when:", "    all:", "    - field: env", "      op: in", "      value:", "      - prod",
    "    - not:", "        field: owner", "        op: exists", "  then:",
    "    set_severity: critical", "- id: dev-noise", "  description: ''", "  enabled: true",
    "  priority: 100", "  when:", "    field: env", "    op: eq", "    value: dev", "  then:",
    "    suppress: true"]

/-- What the library does with these documents. -/
def sampleLibrary : Library Empty where
  str _ := .ok []
  truthy := nofun
  items := nofun
  eq _ _ := .ok false
  rich _ _ _ := .error .typeError
  contains := nofun
  isSet := nofun
  safeLoad source :=
    if source = bothYaml ∨ source = strip bothYaml then
      .ok (document [iamRule [], noiseRule []])
    else if source = [] then .ok .none
    else if source = strip noiseSource then .ok noiseRaw
    else if source = strip bothSource then .ok bothRaw
    else .error (.yaml [])
  safeDump _ := .ok bothYaml
  repr _ := .ok []
  sorted keys := .ok keys
  typeName := nofun
  isBytes := nofun
  hashable := nofun

theorem sample_load {yaml : Text} (h : yaml = bothYaml ∨ yaml = strip bothYaml) :
    sampleLibrary.safeLoad yaml = .ok (document [iamRule [], noiseRule []]) := if_pos h

def sampleState : State Empty where
  store := OrderedDict.empty.set "acme" { yaml := bothSource, enabled := true, updatedAt := 0 }
  engine := ⟨.empty⟩

set_option maxRecDepth 8000 in
theorem noise_rule_put :
    (∃ yaml, serialiseRules sampleLibrary
        [iamRule (strip bothSource), noiseRule (strip bothSource)] = .ok yaml ∧
      loadRulesFromYaml sampleLibrary yaml =
        .ok [iamRule (strip yaml), noiseRule (strip yaml)]) ∧
    ∃ state', updateRule sampleLibrary sampleState "acme" (text "dev-noise") noiseSource 1 =
        .ok state' ∧
      OthersKept sampleLibrary "acme" (text "dev-noise") 1 sampleState state' := by
  have hundo : Undoes sampleLibrary (document [iamRule [], noiseRule []]) :=
    ⟨bothYaml, rfl, sample_load (.inl rfl),
      (sample_load (.inr rfl)).trans (sample_load (.inl rfl)).symm⟩
  obtain ⟨hload, hupdate, -⟩ := rules_survive sampleLibrary rfl
  exact ⟨hload bothSource [iamRule _, noiseRule _] rfl fun _ => hundo,
    hupdate sampleState "acme" (text "dev-noise") noiseSource 1 [iamRule _, noiseRule _] rfl
      fun _ => hundo⟩

end BusinessContextReparse
