import AiSOC.BusinessContextPreview

/-! # What the rules make of an alert

Which rules match, what becomes of severity, route and tags, and when an alert is reported as
suppressed. The mark of a suppressed alert is an entry of the alert itself. -/
namespace BusinessContextLaw

open BusinessContext CodeText PythonValue

variable {Ω : Type} {objects : Objects Ω}

/-! ## Runs of the rules -/

/-- Rules over an alert: which of them match, each on the alert that those before it left, the
alert at the end, and whether the run stopped because it counts as suppressed. -/
inductive Run (objects : Objects Ω) : List (BusinessContextRule Ω) → Dict Ω →
    List (BusinessContextRule Ω) → Dict Ω → Bool → Prop
  | done (alert) : Run objects [] alert [] alert false
  | pass {rule rules alert matched final stopped}
      (hwhen : evaluateCondition objects alert rule.when = .ok false)
      (rest : Run objects rules alert matched final stopped) :
      Run objects (rule :: rules) alert matched final stopped
  | apply {rule rules alert next matched final stopped}
      (hwhen : evaluateCondition objects alert rule.when = .ok true)
      (hthen : applyAction objects alert rule.thenAction = .ok next)
      (hgoes : isSuppressed objects next = .ok false)
      (rest : Run objects rules next matched final stopped) :
      Run objects (rule :: rules) alert (rule :: matched) final stopped
  | stop {rule rules alert final}
      (hwhen : evaluateCondition objects alert rule.when = .ok true)
      (hthen : applyAction objects alert rule.thenAction = .ok final)
      (hstops : isSuppressed objects final = .ok true) :
      Run objects (rule :: rules) alert [rule] final true

variable {rule : BusinessContextRule Ω} {rules matched : List (BusinessContextRule Ω)}
  {alert final next : Dict Ω} {stopped : Bool} {action : RuleAction}

/-- What a run leaves of the result. -/
def finish (result : AlertEvaluation Ω) (matched : List (BusinessContextRule Ω))
    (after : Projection Ω) (stopped : Bool) : AlertEvaluation Ω :=
  { result with matchedRuleIds := result.matchedRuleIds ++ matched.map BusinessContextRule.id
                after := after, suppressed := result.suppressed || stopped }

theorem evaluateRules_of_run {result : AlertEvaluation Ω} {after : Projection Ω}
    (h : Run objects rules alert matched final stopped)
    (hafter : projection objects final = .ok after) :
    evaluateRules objects rules result alert = .ok (finish result matched after stopped) := by
  induction h generalizing result with
  | done alert =>
    rw [evaluateRules, hafter]
    simp [finish, bind, Except.bind, pure, Except.pure]
  | pass hwhen _ ih =>
    rw [evaluateRules, hwhen]
    exact ih hafter
  | apply hwhen hthen hgoes _ ih =>
    simp only [evaluateRules, hwhen, hthen, hgoes, bind, Except.bind, if_true,
      Bool.false_eq_true, if_false]
    rw [ih hafter]
    simp [finish]
  | stop hwhen hthen hstops =>
    simp [evaluateRules, hwhen, hthen, hstops, hafter, finish, bind, Except.bind, pure,
      Except.pure]

theorem exists_run {result r : AlertEvaluation Ω}
    (h : evaluateRules objects rules result alert = .ok r) : ∃ matched final stopped after,
      Run objects rules alert matched final stopped ∧ projection objects final = .ok after ∧
        r = finish result matched after stopped := by
  induction rules generalizing result alert with
  | nil =>
    obtain ⟨after, hafter, hr⟩ := bind_ok h
    cases hr
    refine ⟨[], alert, false, after, .done alert, hafter, ?_⟩
    simp [finish]
  | cons rule rules ih =>
    obtain ⟨holds, hwhen, h⟩ := bind_ok h
    cases holds with
    | false =>
      obtain ⟨matched, final, stopped, after, hrun, hrest⟩ := ih h
      exact ⟨matched, final, stopped, after, .pass hwhen hrun, hrest⟩
    | true =>
      obtain ⟨next, hthen, h⟩ := bind_ok h
      obtain ⟨suppressed, hsuppressed, h⟩ := bind_ok h
      cases suppressed with
      | true =>
        obtain ⟨after, hafter, hr⟩ := bind_ok h
        cases hr
        refine ⟨[rule], next, true, after, .stop hwhen hthen hsuppressed, hafter, ?_⟩
        simp [finish]
      | false =>
        obtain ⟨matched, final, stopped, after, hrun, hafter, rfl⟩ := ih h
        refine ⟨rule :: matched, final, stopped, after, .apply hwhen hthen hsuppressed hrun,
          hafter, ?_⟩
        simp [finish]

theorem evaluateRules_iff {result r : AlertEvaluation Ω} :
    evaluateRules objects rules result alert = .ok r ↔ ∃ matched final stopped after,
      Run objects rules alert matched final stopped ∧ projection objects final = .ok after ∧
        r = finish result matched after stopped := by
  constructor
  · exact exists_run
  · rintro ⟨matched, final, stopped, after, hrun, hafter, rfl⟩
    exact evaluateRules_of_run hrun hafter

/-! ## One action -/

def TagsAreList (alert : Dict Ω) : Prop :=
  ∀ v, Dict.get alert (text "tags") = some v → ∃ items, v = .list items

def tagsOf (alert : Dict Ω) : List (Value Ω) :=
  match Dict.get alert (text "tags") with
  | some (.list items) => items
  | _ => []

theorem toItemsOrEmpty_tags (h : TagsAreList alert) :
    toItemsOrEmpty objects (Dict.get alert (text "tags")) = .ok (tagsOf alert) := by
  rw [tagsOf]
  cases htags : Dict.get alert (text "tags") with
  | none => rfl
  | some v =>
    obtain ⟨items, rfl⟩ := h v htags
    cases items <;> rfl

theorem get_setIfGiven (alert : Dict Ω) (key k : Text) (given : Option Text) :
    Dict.get (setIfGiven alert key given) k =
      if k = key then (given.map .str).or (Dict.get alert key) else Dict.get alert k := by
  cases given with
  | none =>
    rw [setIfGiven, Option.map_none, Option.none_or]
    split_ifs with hk
    · rw [hk]
    · rfl
  | some v => rw [setIfGiven, Dict.get_set, Option.map_some, Option.some_or]

theorem notMem_of_memItems {items : List (Value Ω)} {tag : Text}
    (h : memItems objects items (.str tag) = .ok false) : .str tag ∉ items := by
  induction items with
  | nil => nofun
  | cons item items ih =>
    rw [memItems, List.anyM] at h
    intro hmem
    rcases List.mem_cons.mp hmem with rfl | hrest
    · have heq : eqValue objects (.str tag) (.str tag) = .ok true := by
        rw [eqValue]
        simp
      rw [heq] at h
      cases h
    · cases heq : eqValue objects item (.str tag) with
      | error e =>
        rw [heq] at h
        cases h
      | ok same =>
        rw [heq] at h
        cases same with
        | true => cases h
        | false => exact ih h hrest

/-- What an action does to the fields of an alert. -/
structure Effect (objects : Objects Ω) (action : RuleAction) (alert next : Dict Ω) : Prop where
  severity : Dict.get next (text "severity") =
    (action.setSeverity.map .str).or (Dict.get alert (text "severity"))
  routeTo : Dict.get next (text "route_to") =
    (action.routeTo.map .str).or (Dict.get alert (text "route_to"))
  mark : Dict.get next suppressedKey =
    if action.suppress then some (.bool true) else Dict.get alert suppressedKey
  isList : TagsAreList next
  tags : ∃ added : List Text, tagsOf next = tagsOf alert ++ added.map .str ∧ added.Nodup ∧
    ∀ tag ∈ added, .str tag ∉ tagsOf alert

theorem get_mark {out : Dict Ω} {suppress : Bool} (k : Text) :
    Dict.get (if suppress then Dict.set out suppressedKey (.bool true) else out) k =
      if k = suppressedKey ∧ suppress = true then some (.bool true) else Dict.get out k := by
  cases suppress with
  | true => simp [Dict.get_set]
  | false => simp

/-- The step of an action that adds its tag. -/
def withTag (objects : Objects Ω) (alert : Dict Ω) : Option Text → Outcome (Dict Ω)
  | none => .ok alert
  | some tag => do
    let existing ← toItemsOrEmpty objects (Dict.get alert (text "tags"))
    let known ← memItems objects existing (.str tag)
    .ok (Dict.set alert (text "tags") (.list (if known then existing else existing ++ [.str tag])))

theorem applyAction_eq (alert : Dict Ω) (action : RuleAction) :
    applyAction objects alert action =
      (withTag objects (setIfGiven (setIfGiven alert (text "severity") action.setSeverity)
        (text "route_to") action.routeTo) action.tag >>= fun out =>
          .ok (if action.suppress then Dict.set out suppressedKey (.bool true) else out)) := by
  rw [applyAction]
  cases action.tag with
  | none => rfl
  | some tag =>
    simp only [withTag, bind_assoc]
    rfl

theorem withTag_spec {tag : Option Text} {out : Dict Ω} (h : TagsAreList alert)
    (hout : withTag objects alert tag = .ok out) :
    (∀ k ≠ text "tags", Dict.get out k = Dict.get alert k) ∧ TagsAreList out ∧
      ∃ added : List Text, tagsOf out = tagsOf alert ++ added.map .str ∧ added.Nodup ∧
        ∀ t ∈ added, .str t ∉ tagsOf alert := by
  cases tag with
  | none =>
    obtain rfl := Except.ok.inj hout
    exact ⟨fun k _ => rfl, h, [], (List.append_nil _).symm, List.nodup_nil, nofun⟩
  | some tag =>
    rw [withTag, toItemsOrEmpty_tags h] at hout
    dsimp only [bind, Except.bind] at hout
    cases hknown : memItems objects (tagsOf alert) (.str tag) with
    | error e =>
      rw [hknown] at hout
      cases hout
    | ok known =>
      rw [hknown] at hout
      obtain rfl := Except.ok.inj hout
      refine ⟨fun k hk => by rw [Dict.get_set, if_neg hk], ?_, ?_⟩
      · intro v hv
        rw [Dict.get_set, if_pos rfl] at hv
        exact ⟨_, (Option.some.inj hv).symm⟩
      · have htags (items : List (Value Ω)) :
            tagsOf (Dict.set alert (text "tags") (.list items)) = items := by
          rw [tagsOf, Dict.get_set, if_pos rfl]
        rw [htags]
        cases known with
        | true => exact ⟨[], (List.append_nil _).symm, List.nodup_nil, nofun⟩
        | false =>
          refine ⟨[tag], rfl, List.nodup_singleton tag, fun t ht => ?_⟩
          rw [List.mem_singleton.mp ht]
          exact notMem_of_memItems hknown

theorem applyAction_effect (h : TagsAreList alert)
    (happly : applyAction objects alert action = .ok next) : Effect objects action alert next := by
  have hkeys : text "tags" ≠ text "severity" ∧ text "tags" ≠ text "route_to" ∧
      text "tags" ≠ suppressedKey ∧ text "severity" ≠ text "route_to" ∧
      text "severity" ≠ suppressedKey ∧ text "route_to" ≠ suppressedKey := by decide
  obtain ⟨hts, htr, htm, hsr, hsm, hrm⟩ := hkeys
  obtain ⟨given, hgiven⟩ : ∃ given, given = setIfGiven
      (setIfGiven alert (text "severity") action.setSeverity) (text "route_to")
        action.routeTo := ⟨_, rfl⟩
  have hget (k : Text) : Dict.get given k =
      if k = text "route_to" then (action.routeTo.map .str).or (Dict.get alert (text "route_to"))
      else if k = text "severity" then
        (action.setSeverity.map .str).or (Dict.get alert (text "severity"))
      else Dict.get alert k := by
    rw [hgiven, get_setIfGiven, get_setIfGiven, get_setIfGiven, if_neg (Ne.symm hsr)]
  have htags : Dict.get given (text "tags") = Dict.get alert (text "tags") := by
    rw [hget, if_neg htr, if_neg hts]
  rw [applyAction_eq, ← hgiven] at happly
  cases hout : withTag objects given action.tag with
  | error e =>
    rw [hout] at happly
    cases happly
  | ok out =>
    rw [hout] at happly
    obtain rfl := Except.ok.inj happly
    obtain ⟨hsame, hlist, hadded⟩ := withTag_spec (fun v hv => h v (htags ▸ hv)) hout
    have hmarked : Dict.get (if action.suppress then Dict.set out suppressedKey (.bool true)
        else out) (text "tags") = Dict.get out (text "tags") := by
      rw [get_mark, if_neg fun h => htm h.1]
    constructor
    · rw [get_mark, if_neg fun h => hsm h.1, hsame _ (Ne.symm hts), hget, if_neg hsr, if_pos rfl]
    · rw [get_mark, if_neg fun h => hrm h.1, hsame _ (Ne.symm htr), hget, if_pos rfl]
    · rw [get_mark, hsame _ (Ne.symm htm), hget, if_neg (Ne.symm hrm), if_neg (Ne.symm hsm)]
      simp
    · intro v hv
      exact hlist v (hmarked ▸ hv)
    · rw [tagsOf, hmarked, ← tagsOf]
      have hown : tagsOf given = tagsOf alert := by
        rw [tagsOf, htags, tagsOf]
      rwa [hown] at hadded

theorem Effect.isSuppressed (h : Effect objects action alert next) :
    isSuppressed objects next =
      if action.suppress then .ok true else BusinessContext.isSuppressed objects alert := by
  rw [BusinessContext.isSuppressed, h.mark]
  split_ifs
  · rfl
  · rfl

/-! ## A whole run -/

/-- What the last of the rules that give a field gives. -/
def lastGiven (field : RuleAction → Option Text) (matched : List (BusinessContextRule Ω)) :
    Option Text :=
  matched.reverse.findSome? fun rule => field rule.thenAction

theorem lastGiven_cons (field : RuleAction → Option Text) :
    lastGiven field (rule :: matched) = (lastGiven field matched).or (field rule.thenAction) := by
  rw [lastGiven, List.reverse_cons, List.findSome?_append, List.findSome?_singleton]
  rfl

/-- What the matching rules have done to an alert. -/
structure Changes (alert : Dict Ω) (matched : List (BusinessContextRule Ω)) (final : Dict Ω) :
    Prop where
  severity : Dict.get final (text "severity") =
    ((lastGiven RuleAction.setSeverity matched).map .str).or (Dict.get alert (text "severity"))
  routeTo : Dict.get final (text "route_to") =
    ((lastGiven RuleAction.routeTo matched).map .str).or (Dict.get alert (text "route_to"))
  isList : TagsAreList final
  tags : ∃ added : List Text, tagsOf final = tagsOf alert ++ added.map .str ∧ added.Nodup ∧
    ∀ tag ∈ added, .str tag ∉ tagsOf alert

theorem Changes.nil (h : TagsAreList alert) : Changes alert [] alert :=
  ⟨rfl, rfl, h, [], (List.append_nil _).symm, List.nodup_nil, nofun⟩

theorem Changes.cons (h : Effect objects rule.thenAction alert next)
    (hrest : Changes next matched final) : Changes alert (rule :: matched) final := by
  obtain ⟨first, hfirst, hnodup, hnew⟩ := h.tags
  obtain ⟨more, hmore, hnodup', hnew'⟩ := hrest.tags
  refine ⟨?_, ?_, hrest.isList, first ++ more, ?_, ?_, ?_⟩
  · rw [hrest.severity, h.severity, lastGiven_cons, ← Option.or_assoc]
    cases lastGiven RuleAction.setSeverity matched <;> rfl
  · rw [hrest.routeTo, h.routeTo, lastGiven_cons, ← Option.or_assoc]
    cases lastGiven RuleAction.routeTo matched <;> rfl
  · rw [hmore, hfirst, List.map_append, List.append_assoc]
  · refine List.nodup_append.mpr ⟨hnodup, hnodup', fun t ht u hu heq => ?_⟩
    refine hnew' u hu ?_
    rw [hfirst]
    exact List.mem_append_right _ (List.mem_map_of_mem (heq ▸ ht))
  · intro tag htag
    rcases List.mem_append.mp htag with hleft | hright
    · exact hnew tag hleft
    · intro hmem
      refine hnew' tag hright ?_
      rw [hfirst]
      exact List.mem_append_left _ hmem

theorem Run.changes (h : Run objects rules alert matched final stopped)
    (htags : TagsAreList alert) : Changes alert matched final := by
  induction h with
  | done alert => exact .nil htags
  | pass _ _ ih => exact ih htags
  | apply _ hthen _ _ ih =>
    have heffect := applyAction_effect htags hthen
    exact .cons heffect (ih heffect.isList)
  | stop _ hthen _ =>
    have heffect := applyAction_effect htags hthen
    exact .cons heffect (.nil heffect.isList)

theorem Run.sublist (h : Run objects rules alert matched final stopped) :
    matched.Sublist rules := by
  induction h with
  | done alert => exact List.Sublist.refl _
  | pass _ _ ih => exact ih.cons _
  | apply _ _ _ _ ih => exact ih.cons_cons _
  | stop _ _ _ => exact (List.nil_sublist _).cons_cons _

/-- A run that stops does so at the last rule that matches, whatever the rules after it are. -/
theorem Run.stop_split (h : Run objects rules alert matched final true) :
    ∃ before last after, rules = before ++ last :: after ∧ matched.getLast? = some last ∧
      ∀ others, Run objects (before ++ last :: others) alert matched final true := by
  generalize hstopped : true = stopped at h
  induction h with
  | done alert => cases hstopped
  | @pass rule _ _ _ _ _ hwhen _ ih =>
    obtain ⟨before, last, after, rfl, hlast, hrun⟩ := ih hstopped
    exact ⟨rule :: before, last, after, rfl, hlast, fun others => .pass hwhen (hrun others)⟩
  | @apply rule _ _ _ matched _ _ hwhen hthen hgoes _ ih =>
    obtain ⟨before, last, after, rfl, hlast, hrun⟩ := ih hstopped
    refine ⟨rule :: before, last, after, rfl, ?_, fun others =>
      .apply hwhen hthen hgoes (hrun others)⟩
    rw [List.getLast?_cons, hlast]
    rfl
  | @stop rule rules _ _ hwhen hthen hstops =>
    exact ⟨[], rule, rules, rfl, rfl, fun others => .stop hwhen hthen hstops⟩

/-! ## Suppression -/

/-- The last rule that matches, if any does, suppresses the alert. -/
def LastSuppresses (matched : List (BusinessContextRule Ω)) : Prop :=
  ∃ last, matched.getLast? = some last ∧ last.thenAction.suppress = true

theorem Run.stopped_iff (h : Run objects rules alert matched final stopped)
    (htags : TagsAreList alert) (hmark : isSuppressed objects alert = .ok false) :
    stopped = true ↔ LastSuppresses matched := by
  induction h with
  | done alert =>
    refine iff_of_false Bool.false_ne_true ?_
    rintro ⟨last, hlast, -⟩
    cases hlast
  | pass _ _ ih => exact ih htags hmark
  | @apply rule _ _ _ matched _ _ _ hthen hgoes rest ih =>
    have heffect := applyAction_effect htags hthen
    refine (ih heffect.isList hgoes).trans ?_
    have hrule : rule.thenAction.suppress = false := by
      rw [Bool.eq_false_iff]
      intro hsuppress
      have hmarked := heffect.isSuppressed
      rw [if_pos hsuppress, hgoes] at hmarked
      cases hmarked
    constructor
    · rintro ⟨last, hlast, hsuppress⟩
      refine ⟨last, ?_, hsuppress⟩
      rw [List.getLast?_cons, hlast]
      rfl
    · rintro ⟨last, hlast, hsuppress⟩
      rw [List.getLast?_cons] at hlast
      cases hmatched : matched.getLast? with
      | none =>
        rw [hmatched] at hlast
        obtain rfl := Option.some.inj hlast
        exact absurd (hrule.symm.trans hsuppress) Bool.false_ne_true
      | some other =>
        rw [hmatched] at hlast
        exact ⟨last, hmatched.trans hlast, hsuppress⟩
  | @stop rule _ _ _ _ hthen hstops =>
    have hmarked := (applyAction_effect htags hthen).isSuppressed
    refine iff_of_true rfl ⟨rule, rfl, ?_⟩
    by_contra hsuppress
    rw [if_neg hsuppress, hmark, hstops] at hmarked
    cases hmarked

def holds (objects : Objects Ω) (alert : Dict Ω) (rule : BusinessContextRule Ω) : Bool :=
  match evaluateCondition objects alert rule.when with
  | .ok b => b
  | .error _ => false

/-- An alert that comes with the mark is reported at the first rule that matches. -/
theorem Run.marked (h : Run objects rules alert matched final stopped)
    (htags : TagsAreList alert) (hmark : isSuppressed objects alert = .ok true) :
    (rules.find? (holds objects alert) = none ∧ matched = [] ∧ stopped = false) ∨
      ∃ rule, rules.find? (holds objects alert) = some rule ∧ matched = [rule] ∧
        stopped = true := by
  induction h with
  | done alert => exact Or.inl ⟨rfl, rfl, rfl⟩
  | @pass rule _ alert _ _ _ hwhen _ ih =>
    have hnot : ¬ holds objects alert rule = true := by
      rw [holds, hwhen]
      exact Bool.false_ne_true
    rw [List.find?_cons_of_neg hnot]
    exact ih htags hmark
  | apply _ hthen hgoes _ _ =>
    have hmarked := (applyAction_effect htags hthen).isSuppressed
    rw [hmark, hgoes, ite_self] at hmarked
    cases hmarked
  | @stop rule _ alert _ hwhen hthen hstops =>
    have hrule : holds objects alert rule = true := by
      rw [holds, hwhen]
    exact Or.inr ⟨rule, List.find?_cons_of_pos hrule, rfl, rfl⟩

/-- The alert does not come with the mark of a suppressed one, or the first rule that matches it
suppresses it, or none does. -/
def MarkHarmless (objects : Objects Ω) (alert : Dict Ω) (rules : List (BusinessContextRule Ω)) :
    Prop :=
  isSuppressed objects alert = .ok true →
    ∀ rule, rules.find? (holds objects alert) = some rule → rule.thenAction.suppress = true

theorem Run.suppressed_iff (h : Run objects rules alert matched final stopped)
    (htags : TagsAreList alert) {mark : Bool} (hmark : isSuppressed objects alert = .ok mark) :
    (stopped = true ↔ LastSuppresses matched) ↔ MarkHarmless objects alert rules := by
  cases mark with
  | false =>
    refine iff_of_true (h.stopped_iff htags hmark) fun htrue => ?_
    rw [hmark] at htrue
    cases htrue
  | true =>
    rcases h.marked htags hmark with ⟨hnone, rfl, rfl⟩ | ⟨rule, hfirst, rfl, rfl⟩
    · refine iff_of_true (iff_of_false Bool.false_ne_true ?_) ?_
      · rintro ⟨last, hlast, -⟩
        cases hlast
      · intro _ rule hrule
        rw [hnone] at hrule
        cases hrule
    · constructor
      · intro hiff _ other hother
        obtain ⟨last, hlast, hsuppress⟩ := hiff.mp rfl
        rw [hfirst] at hother
        have hsame : rule = last := Option.some.inj hlast
        rwa [← Option.some.inj hother, hsame]
      · intro hharmless
        exact iff_of_true rfl ⟨rule, rfl, hharmless hmark rule hfirst⟩

/-! ## The result -/

def own (alert : Dict Ω) (key : Text) : Value Ω := (Dict.get alert key).getD .none

/-- What a result says of the rules that were tried in their order. -/
structure Law (objects : Objects Ω) (rules : List (BusinessContextRule Ω)) (alert : Dict Ω)
    (result : AlertEvaluation Ω) (matched : List (BusinessContextRule Ω)) : Prop where
  run : ∃ final, Run objects rules alert matched final result.suppressed
  sublist : matched.Sublist rules
  ids : result.matchedRuleIds = matched.map BusinessContextRule.id
  severity : result.after.severity =
    ((lastGiven RuleAction.setSeverity matched).map .str).getD (own alert (text "severity"))
  routeTo : result.after.routeTo =
    ((lastGiven RuleAction.routeTo matched).map .str).getD (own alert (text "route_to"))
  tags : ∃ added : List Text, result.after.tags = tagsOf alert ++ added.map .str ∧
    added.Nodup ∧ ∀ tag ∈ added, .str tag ∉ tagsOf alert
  stops : result.suppressed = true → ∃ before last after,
    rules = before ++ last :: after ∧ matched.getLast? = some last ∧
      ∀ others start, startEvaluation objects alert = .ok start →
        evaluateRules objects (before ++ last :: others) start alert = .ok result

theorem projection_ok {after : Projection Ω} (h : projection objects final = .ok after)
    (htags : TagsAreList final) :
    after.severity = own final (text "severity") ∧ after.routeTo = own final (text "route_to") ∧
      after.tags = tagsOf final ∧ isSuppressed objects final = .ok after.suppressed := by
  rw [projection, toItemsOrEmpty_tags htags] at h
  dsimp only [bind, Except.bind, pure, Except.pure] at h
  cases hmark : isSuppressed objects final with
  | error e =>
    rw [hmark] at h
    cases h
  | ok mark =>
    rw [hmark] at h
    obtain rfl := Except.ok.inj h
    exact ⟨rfl, rfl, rfl, rfl⟩

theorem startEvaluation_ok {start : AlertEvaluation Ω}
    (h : startEvaluation objects alert = .ok start) : start.matchedRuleIds = [] ∧
      start.suppressed = false ∧ projection objects alert = .ok start.before := by
  rw [startEvaluation] at h
  cases hbefore : projection objects alert with
  | error e =>
    rw [hbefore] at h
    cases h
  | ok before =>
    rw [hbefore] at h
    dsimp only [bind, Except.bind, pure, Except.pure] at h
    split at h
    · cases h
    · obtain rfl := Except.ok.inj h
      exact ⟨rfl, rfl, rfl⟩

theorem law_of_evaluateRules {start result : AlertEvaluation Ω} (htags : TagsAreList alert)
    (hstart : startEvaluation objects alert = .ok start)
    (h : evaluateRules objects rules start alert = .ok result) :
    ∃ matched, Law objects rules alert result matched ∧
      ((result.suppressed = true ↔ LastSuppresses matched) ↔ MarkHarmless objects alert rules) := by
  obtain ⟨hids, hsuppressed, hbefore⟩ := startEvaluation_ok hstart
  obtain ⟨-, -, -, hmark⟩ := projection_ok hbefore htags
  obtain ⟨matched, final, stopped, after, hrun, hafter, rfl⟩ := evaluateRules_iff.mp h
  have hchanges := hrun.changes htags
  obtain ⟨hseverity, hroute, hfinal, -⟩ := projection_ok hafter hchanges.isList
  have hreported : (finish start matched after stopped).suppressed = stopped := by
    rw [finish, hsuppressed, Bool.false_or]
  refine ⟨matched, ?_, ?_⟩
  · constructor
    · exact ⟨final, hreported.symm ▸ hrun⟩
    · exact hrun.sublist
    · rw [finish, hids, List.nil_append]
    · rw [finish, hseverity, own, hchanges.severity, own]
      cases lastGiven RuleAction.setSeverity matched <;> rfl
    · rw [finish, hroute, own, hchanges.routeTo, own]
      cases lastGiven RuleAction.routeTo matched <;> rfl
    · rw [finish, hfinal]
      exact hchanges.tags
    · intro hstopped
      rw [hreported] at hstopped
      subst hstopped
      obtain ⟨before, last, later, hrules, hlast, hothers⟩ := hrun.stop_split
      refine ⟨before, last, later, hrules, hlast, fun others other hother => ?_⟩
      obtain rfl := Except.ok.inj (hstart.symm.trans hother)
      exact evaluateRules_iff.mpr ⟨matched, final, true, after, hothers others, hafter, rfl⟩
  · rw [hreported]
    exact hrun.suppressed_iff htags hmark

/-- The enabled rules in the order in which they are tried. -/
def ordered (rules : List (BusinessContextRule Ω)) : List (BusinessContextRule Ω) :=
  (Pagination.sortRows ruleKey rules).filter BusinessContextRule.enabled

theorem ordered_perm {other : List (BusinessContextRule Ω)}
    (hids : (rules.map BusinessContextRule.id).Nodup) (h : other.Perm rules) :
    ordered other = ordered rules := by
  have hother : Pagination.Answer ruleKey other (Pagination.sortRows ruleKey other) :=
    Pagination.answer_sortRows other
  have hanswer : Pagination.Answer ruleKey rules (Pagination.sortRows ruleKey other) :=
    ⟨hother.perm.trans h, hother.sorted⟩
  have hsame := hanswer.eq_of_injective (Pagination.answer_sortRows rules) (by
    intro a ha b hb hkey
    have hid : a.id = b.id := congrArg (fun k => (ofLex k).2) hkey
    exact List.inj_on_of_nodup_map hids ha hb hid)
  rw [ordered, hsame, ordered]

theorem evaluate_replace (engine : Engine Ω) (tenantId : TenantId) (version : Option ℤ)
    (rules : List (BusinessContextRule Ω)) (alert : Dict Ω) :
    (engine.replace tenantId rules version).evaluate objects tenantId alert =
      startEvaluation objects alert >>= fun start =>
        evaluateRules objects (ordered rules) start alert := by
  rw [Engine.evaluate, snapshotFor_replace]
  rfl

/-- The result is the same for every order of the rules and obeys the law. It reports an alert as
suppressed exactly if the last rule that matches suppresses it, unless the alert came with the mark
of a suppressed one. -/
theorem evaluation_law_iff (objects : Objects Ω) (engine : Engine Ω) (tenantId : TenantId)
    (version : Option ℤ) {rules : List (BusinessContextRule Ω)}
    (hids : (rules.map BusinessContextRule.id).Nodup) {alert : Dict Ω}
    (htags : TagsAreList alert) :
    (∀ other, other.Perm rules →
      (engine.replace tenantId other version).evaluate objects tenantId alert =
        (engine.replace tenantId rules version).evaluate objects tenantId alert) ∧
    ∀ result, (engine.replace tenantId rules version).evaluate objects tenantId alert =
        .ok result →
      ∃ matched, Law objects (ordered rules) alert result matched ∧
        ((result.suppressed = true ↔ LastSuppresses matched) ↔
          MarkHarmless objects alert (ordered rules)) := by
  refine ⟨fun other hother => ?_, fun result h => ?_⟩
  · rw [evaluate_replace, evaluate_replace, ordered_perm hids hother]
  · rw [evaluate_replace] at h
    cases hstart : startEvaluation objects alert with
    | error e =>
      rw [hstart] at h
      cases h
    | ok start =>
      rw [hstart] at h
      exact law_of_evaluateRules htags hstart h

/-- An alert that comes with the mark. -/
def markedAlert : Dict Empty := productionAlert ++ [(.str suppressedKey, .bool true)]

/-- A rule that only tags an alert has it reported as suppressed. -/
theorem marked_alert_suppressed : ∃ result,
    ((Engine.mk .empty).replace "acme" [productionRule] none).evaluate plainObjects "acme"
        markedAlert = .ok result ∧
      result.suppressed = true ∧ result.matchedRuleIds = [productionRule.id] ∧
        productionRule.thenAction.suppress = false := by
  have hordered : ordered [productionRule] = [productionRule] := by
    rw [ordered, Pagination.sortRows, List.mergeSort_singleton]
    rfl
  rw [evaluate_replace, hordered]
  exact ⟨_, rfl, rfl, rfl, rfl⟩

/-- The rule for production matches and the alert goes on. -/
theorem production_law : ∃ result matched,
    ((Engine.mk .empty).replace "acme" [productionRule] none).evaluate plainObjects "acme"
        productionAlert = .ok result ∧
      Law plainObjects (ordered [productionRule]) productionAlert result matched ∧
        (result.suppressed = true ↔ LastSuppresses matched) := by
  have hordered : ordered [productionRule] = [productionRule] := by
    rw [ordered, Pagination.sortRows, List.mergeSort_singleton]
    rfl
  obtain ⟨result, hresult⟩ : ∃ result,
      ((Engine.mk .empty).replace "acme" [productionRule] none).evaluate plainObjects "acme"
        productionAlert = .ok result := by
    rw [evaluate_replace, hordered]
    exact ⟨_, rfl⟩
  have hids : ([productionRule].map BusinessContextRule.id).Nodup := List.nodup_singleton _
  have htags : TagsAreList productionAlert := nofun
  obtain ⟨matched, hlaw, hiff⟩ := (evaluation_law_iff plainObjects (Engine.mk .empty) "acme" none
    hids htags).2 result hresult
  exact ⟨result, matched, hresult, hlaw, hiff.mpr nofun⟩

end BusinessContextLaw
