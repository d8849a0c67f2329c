import AiSOC.BusinessContext

/-! # The preview of business-context rules

The preview and the engine run the rules in two separate loops, one left early and one returned
from. They agree on every alert once the engine was given the rules. -/
namespace BusinessContext

open CodeText PythonValue

variable {Ω : Type} (objects : Objects Ω)

/-- What the preview does after its loop. -/
def finishPreview (state : AlertEvaluation Ω × Dict Ω) : Outcome (AlertEvaluation Ω) := do
  return { state.1 with after := ← projection objects state.2 }

theorem previewAlert_eq (transient : EngineSnapshot Ω) (alert : Dict Ω) :
    previewAlert objects transient alert = startEvaluation objects alert >>= fun result =>
      previewRules objects transient.enabledRules (result, alert) >>= finishPreview objects := rfl

/-- Both loops stop at the same rule with the same alert. -/
theorem evaluateRules_eq (rules : List (BusinessContextRule Ω)) (result : AlertEvaluation Ω)
    (current : Dict Ω) : evaluateRules objects rules result current =
      previewRules objects rules (result, current) >>= finishPreview objects := by
  induction rules generalizing result current with
  | nil => rfl
  | cons rule rules ih =>
    rw [evaluateRules, previewRules]
    cases evaluateCondition objects current rule.when with
    | error e => rfl
    | ok holds =>
      cases holds with
      | false => exact ih result current
      | true =>
        cases applyAction objects current rule.thenAction with
        | error e => rfl
        | ok next =>
          dsimp only [bind, Except.bind]
          cases isSuppressed objects next with
          | error e => rfl
          | ok suppressed =>
            cases suppressed with
            | true => rfl
            | false => exact ih _ next

inductive EngineCall (Ω : Type) where
  | replace (tenantId : TenantId) (rules : List (BusinessContextRule Ω)) (version : Option ℤ)
  | clear (tenantId : Option TenantId)

def Engine.perform (engine : Engine Ω) : EngineCall Ω → Engine Ω
  | .replace tenantId rules version => engine.replace tenantId rules version
  | .clear tenantId => engine.clear tenantId

/-- The calls one after the other. -/
def Engine.run (engine : Engine Ω) (calls : List (EngineCall Ω)) : Engine Ω :=
  calls.foldl Engine.perform engine

/-- The call is about the rules of the tenant. -/
def EngineCall.Concerns (tenantId : TenantId) : EngineCall Ω → Prop
  | .replace t _ _ => t = tenantId
  | .clear Option.none => True
  | .clear (some t) => t = tenantId

variable {tenantId : TenantId}

theorem snapshotFor_perform (engine : Engine Ω) {call : EngineCall Ω}
    (h : ¬ call.Concerns tenantId) :
    (engine.perform call).snapshotFor tenantId = engine.snapshotFor tenantId := by
  cases call with
  | replace t rules version =>
    have ht : tenantId ≠ t := Ne.symm h
    simp [Engine.perform, Engine.replace, Engine.snapshotFor, ht]
  | clear t =>
    cases t with
    | none => exact absurd trivial h
    | some t =>
      have ht : tenantId ≠ t := Ne.symm h
      simp [Engine.perform, Engine.clear, Engine.snapshotFor, ht]

theorem snapshotFor_run (engine : Engine Ω) {calls : List (EngineCall Ω)}
    (h : ∀ call ∈ calls, ¬ call.Concerns tenantId) :
    (engine.run calls).snapshotFor tenantId = engine.snapshotFor tenantId := by
  induction calls generalizing engine with
  | nil => rfl
  | cons call calls ih =>
    obtain ⟨hcall, hcalls⟩ := List.forall_mem_cons.mp h
    exact (ih (engine.perform call) hcalls).trans (snapshotFor_perform engine hcall)

theorem snapshotFor_replace (engine : Engine Ω) (rules : List (BusinessContextRule Ω))
    (version : Option ℤ) : (engine.replace tenantId rules version).snapshotFor tenantId =
      some (compileSnapshot tenantId (engine.newVersion tenantId version) rules) := by
  simp [Engine.replace, Engine.snapshotFor]

/-- The version plays no part in what the rules do. -/
theorem enabledRules_version (version version' : ℤ) (rules : List (BusinessContextRule Ω)) :
    (compileSnapshot tenantId version rules).enabledRules =
      (compileSnapshot tenantId version' rules).enabledRules := rfl

/-- A preview on any engine gives what the engine gives that was handed the rules, whatever it
was asked to do for other tenants since. -/
theorem preview_eq_evaluate (engine other : Engine Ω) (rules : List (BusinessContextRule Ω))
    (version : Option ℤ) {calls : List (EngineCall Ω)}
    (hcalls : ∀ call ∈ calls, ¬ call.Concerns tenantId) (alerts : List (Dict Ω)) :
    other.previewAgainst objects tenantId alerts (some rules) = alerts.mapM fun alert =>
      ((engine.replace tenantId rules version).run calls).evaluate objects tenantId alert := by
  have hsnapshot := (snapshotFor_run (engine.replace tenantId rules version) hcalls).trans
    (snapshotFor_replace engine rules version)
  have halert : previewAlert objects (compileSnapshot tenantId (-1) rules) = fun alert =>
      ((engine.replace tenantId rules version).run calls).evaluate objects tenantId alert := by
    funext alert
    rw [previewAlert_eq, Engine.evaluate, hsnapshot]
    apply bind_congr
    intro result
    dsimp only
    rw [evaluateRules_eq, enabledRules_version (engine.newVersion tenantId version) (-1)]
  rw [Engine.previewAgainst, halert]

/-- Without objects of other classes. -/
def plainObjects : Objects Empty where
  str
    | .str s => .ok s
    | _ => .error .typeError
  truthy := nofun
  items := nofun
  eq _ _ := .ok false
  rich _ _ _ := .error .typeError
  contains := nofun
  isSet := nofun

/-- Critical in production. -/
def productionRule : BusinessContextRule Empty where
  id := text "prod-critical"
  description := []
  when := .leaf (text "asset.env") .eq (.str (text "prod"))
  thenAction := ⟨some (text "critical"), none, some (text "prod"), false⟩
  enabled := true
  priority := 100

def suppressRule : BusinessContextRule Empty where
  id := text "known-scanner"
  description := []
  when := .leaf (text "severity") .in (.list [.str (text "low"), .str (text "critical")])
  thenAction := ⟨none, none, none, true⟩
  enabled := true
  priority := 100

def productionAlert : Dict Empty :=
  [(.str (text "id"), .str (text "a-1")), (.str (text "severity"), .str (text "high")),
    (.str (text "asset"), .dict [(.str (text "env"), .str (text "prod"))])]

theorem production_preview : (Engine.mk .empty).previewAgainst plainObjects "acme" [productionAlert]
    (some [productionRule, suppressRule]) = [productionAlert].mapM fun alert =>
      (((Engine.mk .empty).replace "acme" [productionRule, suppressRule] none).run
        [.replace "globex" [] none]).evaluate plainObjects "acme" alert :=
  preview_eq_evaluate plainObjects ⟨.empty⟩ ⟨.empty⟩ [productionRule, suppressRule] none
    (by
      intro call hcall
      have hother : "globex" ≠ "acme" := by decide
      cases List.mem_singleton.mp hcall
      exact hother) [productionAlert]

end BusinessContext
