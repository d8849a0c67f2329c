import Mathlib.Tactic.SplitIfs
import AiSOC.JsonText

/-! # The query of a federated search

A request body becomes a query if its indicators, its window and its limit pass the checks. -/
namespace FederatedQuery

open CodeText (Text text strip decimal)
open JsonText (Json member truthy)

inductive Operator where
  | eq
  | ne
  | contains
  | startsWith
  | endsWith
  | gt
  | gte
  | lt
  | lte
  | isIn
  deriving DecidableEq

def Operator.name : Operator → Text
  | .eq => text "eq"
  | .ne => text "ne"
  | .contains => text "contains"
  | .startsWith => text "starts_with"
  | .endsWith => text "ends_with"
  | .gt => text "gt"
  | .gte => text "gte"
  | .lt => text "lt"
  | .lte => text "lte"
  | .isIn => text "in"

def validOperators : List Operator :=
  [.eq, .ne, .contains, .startsWith, .endsWith, .gt, .gte, .lt, .lte, .isIn]

/-- The texts of floats and containers, and how other values become integers, where they do. A
float is written with digits, a sign, a point and an exponent, or as one of two words. -/
structure Library (F : Type) where
  floatText : F → Text
  floatText_subset : ∀ x, floatText x ⊆ text "0123456789+-.einfa"
  containerText : Json F → Text
  parseInt : Text → Option ℤ
  truncate : F → Option ℤ
  nonzero : F → Bool

variable {F : Type}

def Library.str (lib : Library F) : Json F → Text
  | .null => text "None"
  | .bool true => text "True"
  | .bool false => text "False"
  | .int n => decimal n
  | .float x => lib.floatText x
  | .str s => s
  | .arr items => lib.containerText (.arr items)
  | .obj members => lib.containerText (.obj members)

/-- A rejected query, with its detail, or another exception. -/
inductive Rejection where
  | query (detail : Text)
  | other

def isNull : Json F → Bool
  | .null => true
  | _ => false

structure Indicator (F : Type) where
  field : Text
  operator : Operator
  value : Json F
  nonblank : strip field ≠ []
  listed : operator = .isIn → ∃ items, value = .arr items ∧ items ≠ []
  given : operator ≠ .isIn → ¬isNull value = true

structure UnifiedQuery (F : Type) where
  freeText : Text
  indicators : List (Indicator F)
  sinceSeconds : ℤ
  limit : ℤ
  window : 0 < sinceSeconds ∧ sinceSeconds ≤ 7 * 24 * 3600
  capped : 0 < limit ∧ limit ≤ 1000
  criterion : strip freeText ≠ [] ∨ indicators ≠ []

def Indicator.checkValue (field : Text) (nonblank : strip field ≠ []) (operator : Operator)
    (value : Json F) : Except Rejection (Indicator F) :=
  if hin : operator = .isIn then
    match value with
    | .arr (item :: items) =>
      .ok ⟨field, operator, .arr (item :: items), nonblank,
        fun _ => ⟨item :: items, rfl, List.cons_ne_nil _ _⟩, fun h => absurd hin h⟩
    | _ => .error (.query (text "indicator with operator='in' requires a non-empty list value"))
  else
    if hnull : isNull value = true then
      .error (.query
        (text "indicator.value must not be None for operator '" ++ operator.name ++ text "'"))
    else .ok ⟨field, operator, value, nonblank, fun h => absurd h hin, fun _ => hnull⟩

def Indicator.check (lib : Library F) (field operator value : Json F) :
    Except Rejection (Indicator F) :=
  match field with
  | .str field =>
    if hfield : strip field = [] then
      .error (.query (text "indicator.field must be a non-empty string"))
    else
      match operator with
      -- not hashable
      | .arr _ | .obj _ => .error .other
      | operator =>
        let known := validOperators.find? fun o =>
          match operator with
          | .str t => o.name = t
          | _ => false
        match known with
        | none => .error (.query (text "indicator.operator '" ++ lib.str operator ++
            text "' is not one of ['contains', 'ends_with', 'eq', 'gt', 'gte', 'in', 'lt', " ++
            text "'lte', 'ne', 'starts_with']"))
        | some operator => checkValue field hfield operator value
  | _ => .error (.query (text "indicator.field must be a non-empty string"))

/-- The keys are looked up in this order. -/
def parseIndicator (lib : Library F) : Json F → Except Rejection (Indicator F)
  | .obj entry =>
    let lookup (key : String) : Except Rejection (Json F) :=
      match member entry (text key) with
      | some v => .ok v
      | none => .error (.query (text "indicator missing key: " ++ text key))
    do
      let field ← lookup "field"
      let operator ← lookup "operator"
      let value ← lookup "value"
      Indicator.check lib field operator value
  | _ => .error (.query (text "each indicator must be an object with field/operator/value"))

def Library.int (lib : Library F) : Json F → Option ℤ
  | .null => none
  | .bool b => some b.toNat
  | .int n => some n
  | .float x => lib.truncate x
  | .str s => lib.parseInt s
  | .arr _ | .obj _ => none

/-- The default stands for a missing value and for one that is not true. -/
def intOr (lib : Library F) (value : Option (Json F)) (default : ℤ) : Except Rejection ℤ :=
  match value.filter (truthy lib.nonzero) with
  | none => .ok default
  | some v =>
    match lib.int v with
    | some n => .ok n
    | none => .error .other

def UnifiedQuery.check (freeText : Text) (indicators : List (Indicator F))
    (sinceSeconds limit : ℤ) : Except Rejection (UnifiedQuery F) :=
  if hsince : sinceSeconds ≤ 0 then
    .error (.query (text "since_seconds must be a positive integer"))
  else if hwindow : 7 * 24 * 3600 < sinceSeconds then
    .error (.query
      (text "since_seconds must be ≤ 7 days; use a SIEM-native search for longer windows"))
  else if hlimit : limit ≤ 0 then
    .error (.query (text "limit must be a positive integer"))
  else if hcap : 1000 < limit then
    .error (.query (text "limit must be ≤ 1000"))
  else if hcriterion : strip freeText = [] ∧ indicators = [] then
    .error (.query (text "query must include free_text or at least one indicator"))
  else
    .ok ⟨freeText, indicators, sinceSeconds, limit, ⟨by omega, by omega⟩, ⟨by omega, by omega⟩,
      not_and_or.mp hcriterion⟩

def parseUnifiedQuery (lib : Library F) : Json F → Except Rejection (UnifiedQuery F)
  | .obj payload =>
    let raw := ((member payload (text "indicators")).filter fun v => !isNull v).getD
      ((member payload (text "filters")).getD (.arr []))
    match raw with
    | .arr entries => do
      let indicators ← entries.mapM (parseIndicator lib)
      let freeText :=
        match (member payload (text "free_text")).filter (truthy lib.nonzero) with
        | some v => strip (lib.str v)
        | none => []
      let sinceSeconds ← intOr lib (member payload (text "since_seconds")) 3600
      let limit ← intOr lib (member payload (text "limit")) 100
      UnifiedQuery.check freeText indicators sinceSeconds limit
    | _ => .error (.query (text "indicators must be a list"))
  | _ => .error (.query (text "query payload must be a JSON object"))

end FederatedQuery
