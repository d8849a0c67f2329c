import Mathlib.Algebra.Group.Nat.Defs
import AiSOC.PythonValue
import AiSOC.TextSearch

/-! # Conditions of playbook steps

A condition is a field with an operator and a value, or the text of an expression. The expression
is split at the first operator that occurs in it, and its sides are read as literals or as paths
into the run context. -/
namespace PlaybookExpression

open CodeText (Text CodePoint cp text strip decimal between)
open PythonValue (Dict Objects Outcome Value contains eqValue)
open TextSearch (find)

def isAscii (c : CodePoint) : Bool := c.val < 0x80

def lowerAscii (c : CodePoint) : CodePoint := if between 'A' 'Z' c then c + 0x20 else c

/-- The conversions of the interpreter. An integer of more than 4300 digits is not read, and the
text of a floating-point number is read as that number if there is a point in it. -/
structure Builtins (Ω : Type) where
  objects : Objects Ω
  lower : Text → Text
  lower_suffix : ∀ t s : Text, s.all isAscii = true → s.map lowerAscii <:+ lower (t ++ s)
  parseInt : Text → Option ℤ
  parseInt_decimal : ∀ n : ℤ,
    parseInt (decimal n) = if n.natAbs < 10 ^ 4300 then some n else none
  parseFloat : Text → Option Float
  floatText : Float → Text
  floatText_ne_nil : ∀ x, floatText x ≠ []
  floatText_subset : ∀ x, floatText x ⊆ text "0123456789+-.einfa"
  parseFloat_floatText : ∀ x, cp '.' ∈ floatText x → parseFloat (floatText x) = some x
  /-- Nothing where the object is not converted to a number. -/
  objectFloat : Ω → Outcome (Option Float)

variable {Ω : Type} (lib : Builtins Ω)

/-! ## Fields -/

/-- A negative index counts from the end. -/
def itemAt (items : List (Value Ω)) (i : ℤ) : Value Ω :=
  if 0 ≤ i then items.getD i.toNat .none
  else if -items.length ≤ i then items.getD (items.length + i).toNat .none
  else .none

def resolveParts : Value Ω → List Text → Value Ω
  | cur, [] => cur
  | .dict entries, part :: parts => resolveParts ((Dict.get entries part).getD .none) parts
  | .list items, part :: parts =>
    match lib.parseInt part with
    | some i => resolveParts (itemAt items i) parts
    | none => .none
  | .tuple items, part :: parts =>
    match lib.parseInt part with
    | some i => resolveParts (itemAt items i) parts
    | none => .none
  | _, _ :: _ => .none

/-- The value at a path of names and indices with dots between them. -/
def resolveField (context : Dict Ω) (field : Text) : Value Ω :=
  if field = [] then .none else resolveParts lib (.dict context) (field.splitOn (cp '.'))

/-! ## Operators -/

inductive Op where
  | eq | ne | gte | lte | gt | lt | notIn | isIn
  deriving DecidableEq

def exprOperators : List (Text × Op) :=
  [(text "==", .eq), (text "!=", .ne), (text ">=", .gte), (text "<=", .lte), (text ">", .gt),
    (text "<", .lt), (text " not in ", .notIn), (text " in ", .isIn)]

/-- An integer that is too large for a floating-point number is an error. -/
def intFloat (n : ℤ) : Outcome Float :=
  let x := if 0 ≤ n then FloatOrder.ofNat n.natAbs else -FloatOrder.ofNat n.natAbs
  if x.toModel.isFinite then .ok x else .error (.other (text "OverflowError"))

def toFloat (value : Value Ω) : Outcome (Option Float) :=
  match value with
  | .none => .ok (some 0.0)
  | .bool b => .ok (some (if b then 1.0 else 0.0))
  | .int n => (intFloat n).map some
  | .float x => .ok (some x)
  | .str s => .ok (if s = [] then some 0.0 else lib.parseFloat s)
  | .object o => do
    if ← eqValue lib.objects (.object o) (.str []) then return some 0.0
    lib.objectFloat o
  | _ => .ok none

/-- A comparison of what is no number is false. -/
def compareFloats (holds : Float → Float → Bool) (lhs rhs : Value Ω) : Outcome Bool := do
  let lf ← toFloat lib lhs
  let rf ← toFloat lib rhs
  return match lf, rf with
  | some l, some r => holds l r
  | _, _ => false

def isCollection : Value Ω → Bool
  | .list _ => true
  | .tuple _ => true
  | .object o => lib.objects.isSet o
  | _ => false

/-- Membership in a collection, else the occurrence of one text in another. -/
def member (lhs rhs : Value Ω) : Outcome Bool :=
  match rhs with
  | .none => .ok false
  | rhs =>
    if isCollection lib rhs then contains lib.objects lhs rhs
    else do return (← lib.objects.str lhs) <:+: (← lib.objects.str rhs)

def orFalse (outcome : Outcome Bool) : Outcome Bool :=
  match outcome with
  | .error .typeError => .ok false
  | outcome => outcome

/-- What an operator makes of the values of its two sides. -/
def applyOperator (op : Op) (lhs rhs : Value Ω) : Outcome Bool :=
  orFalse <| match op with
    | .eq => eqValue lib.objects lhs rhs
    | .ne => (eqValue lib.objects lhs rhs).map not
    | .gt => compareFloats lib (fun l r => r < l) lhs rhs
    | .lt => compareFloats lib (fun l r => l < r) lhs rhs
    | .gte => compareFloats lib (fun l r => r ≤ l) lhs rhs
    | .lte => compareFloats lib (fun l r => l ≤ r) lhs rhs
    | .isIn => member lib lhs rhs
    | .notIn => (member lib lhs rhs).map not

/-! ## Expressions -/

def isQuoted (token : Text) : Bool :=
  2 ≤ token.length ∧ token.head? = token.getLast? ∧
    (token.head? = some (cp '\'') ∨ token.head? = some (cp '"'))

def isBracketed (token : Text) : Bool := [cp '['] <+: token ∧ [cp ']'] <:+ token

/-- Without the first and the last character. -/
def inner (token : Text) : Text := token.tail.dropLast

def parseNumber (token : Text) : Option (Value Ω) :=
  if cp '.' ∈ token then (lib.parseFloat token).map .float else (lib.parseInt token).map .int

theorem strip_length_le (t : Text) : (strip t).length ≤ t.length :=
  ((List.rdropWhile_prefix _ _).length_le).trans (List.length_dropWhile_le _ _)

theorem length_inner_lt {t : Text} (h : isBracketed t = true) : (inner t).length < t.length := by
  cases t with
  | nil => cases h
  | cons c t =>
    have hle := @List.length_dropLast _ t
    change t.dropLast.length < t.length + 1
    omega

/-- One side of an expression. -/
def parseLiteral (context : Dict Ω) (side : Text) : Value Ω :=
  let token := strip side
  if token = [] then .none
  else if token ∈ [text "null", text "None"] then .none
  else if token ∈ [text "true", text "True"] then .bool true
  else if token ∈ [text "false", text "False"] then .bool false
  else if isQuoted token then .str (inner token)
  else if _h : isBracketed token then
    let items := strip (inner token)
    if items = [] then .list []
    else .list ((items.splitOn (cp ',')).attach.map fun piece => parseLiteral context piece.1)
  else (parseNumber lib token).getD (resolveField lib context token)
termination_by side.length
decreasing_by
  have hpiece : piece.1.length ≤ (strip (inner (strip side))).length :=
    TextSearch.length_le_of_mem_splitOn piece.2
  have hinner : (inner (strip side)).length < (strip side).length := length_inner_lt _h
  exact (hpiece.trans (strip_length_le _)).trans_lt (hinner.trans_le (strip_length_le side))

/-- The word operators are searched without regard to case. -/
def haystack (op : Op) (expr : Text) : Text :=
  match op with
  | .isIn | .notIn => lib.lower expr
  | _ => expr

/-- The sides of the first operator in the list that occurs. -/
def splitExpression (expr : Text) : Option (Text × Op × Text) :=
  exprOperators.findSome? fun (token, op) =>
    (find token (haystack lib op expr)).map fun i =>
      (expr.take i, op, expr.drop (i + token.length))

def isNone : Value Ω → Bool
  | .none => true
  | _ => false

def evaluateExpression (expression : Text) (context : Dict Ω) : Outcome Bool :=
  if expression = [] then .ok false
  else
    let expr := strip expression
    let lowered := lib.lower expr
    let without (suffix : String) : Value Ω :=
      resolveField lib context (strip (expr.take (expr.length - (text suffix).length)))
    if text " is not null" <:+ lowered then .ok !isNone (without " is not null")
    else if text " != null" <:+ lowered then .ok !isNone (without " != null")
    else if text " is null" <:+ lowered then .ok (isNone (without " is null"))
    else if text " == null" <:+ lowered then .ok (isNone (without " == null"))
    else match splitExpression lib expr with
      | some (lhs, op, rhs) =>
        applyOperator lib op (parseLiteral lib context lhs) (parseLiteral lib context rhs)
      | none => .ok false

/-! ## Structured conditions -/

inductive Operator where
  | eq | ne | gt | lt | contains | exists
  deriving DecidableEq

structure StepCondition (Ω : Type) where
  field : Text
  operator : Operator
  value : Value Ω
  expression : Option Text

/-- An expression goes before a field, and a condition with neither holds. -/
def evaluateCondition (condition : StepCondition Ω) (context : Dict Ω) : Outcome Bool :=
  match condition.expression.filter (· ≠ []) with
  | some expression => evaluateExpression lib expression context
  | none =>
    if condition.field = [] then .ok true
    else
      let value := resolveField lib context condition.field
      let expected := condition.value
      match condition.operator with
      | .exists => .ok !isNone value
      | .eq => eqValue lib.objects value expected
      | .ne => (eqValue lib.objects value expected).map not
      | .contains =>
        if isNone value then .ok false
        else if isCollection lib expected then contains lib.objects value expected
        else do return (← lib.objects.str expected) <:+: (← lib.objects.str value)
      | .gt => compareFloats lib (fun l r => r < l) value expected
      | .lt => compareFloats lib (fun l r => l < r) value expected

end PlaybookExpression
