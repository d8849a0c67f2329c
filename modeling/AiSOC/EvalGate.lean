import Mathlib.Algebra.Order.Field.Rat
import Mathlib.Tactic.NormNum
import AiSOC.JsonText
import AiSOC.PythonValue

/-! # The verdict on an evaluation report

Scores are floating-point numbers, and the drop is rounded to four places before it is compared.
What the gate stands for is said of the exact numbers. -/
namespace EvalGate

open CodeText (Text text)
open JsonText (Json truthy member)

/-- `float` of a value, which may raise, and `round` to four places. -/
structure Numbers where
  toFloat : Json Float → Option Float
  round4 : Float → Float

abbrev Members := List (Text × Json Float)

def nonzero (x : Float) : Bool := x != 0

/-- What `d.get(key, {}) or {}` gives; attributes of anything else but a dictionary raise. -/
def objectOrEmpty (d : Members) (key : Text) : Option Members :=
  match (member d key).filter (truthy nonzero) with
  | none => some []
  | some (.obj members) => some members
  | some _ => none

/-- What `d.get(key, {})` gives. -/
def object (d : Members) (key : Text) : Option Members :=
  match member d key with
  | none => some []
  | some (.obj members) => some members
  | some _ => none

/-- What `bool(d.get(key))` gives. -/
def flag (d : Members) (key : Text) : Bool := (member d key).any (truthy nonzero)

structure Verdict where
  ranAt : String
  candidate : Float
  allPassed : Bool
  baseline : Float
  dropPp : Float
  maxRegressionPp : Float
  regressed : Bool
  passed : Bool

def candidateScore (n : Numbers) (report : Members) : Option Float := do
  let suites ← objectOrEmpty report (text "suites")
  let mitre ← objectOrEmpty suites (text "mitre_accuracy")
  n.toFloat ((member mitre (text "value")).getD (.float 0))

/-- The interpreter's `max(0.0, x)`, which is 0.0 for the NaN. -/
def maxZero (x : Float) : Float := if 0 < x then x else 0

/-- In percentage points. -/
def roundedDrop (n : Numbers) (baseline candidate : Float) : Float :=
  n.round4 (maxZero ((baseline - candidate) * 100))

/-- The figures of the block that the runner may have put into the report. -/
def reportedFigures (n : Numbers) (cmp : Members) (candidate : Float)
    (baselineScore : Option Float) : Option (Bool × Float × Float) := do
  let drop ← n.toFloat ((member cmp (text "mitre_drop_pp")).getD (.float 0))
  let deltas ← object cmp (text "deltas")
  let mitre ← object deltas (text "mitre_accuracy")
  let fallback := (baselineScore.filter nonzero).getD candidate
  let baseline ← n.toFloat ((member mitre (text "baseline")).getD (.float fallback))
  some (flag cmp (text "regressed"), drop, baseline)

def computedFigures (n : Numbers) (candidate : Float) (baselineScore : Option Float)
    (maxRegressionPp : Float) : Bool × Float × Float :=
  let baseline := baselineScore.getD candidate
  let drop := roundedDrop n baseline candidate
  (decide (maxRegressionPp ≤ drop), drop, baseline)

/-- Whether the score regressed, by how much and from which baseline. -/
def figures (n : Numbers) (cmp : Members) (candidate : Float) (baselineScore : Option Float)
    (maxRegressionPp : Float) : Option (Bool × Float × Float) :=
  if flag cmp (text "available") then reportedFigures n cmp candidate baselineScore
  else some (computedFigures n candidate baselineScore maxRegressionPp)

def evaluateReport (n : Numbers) (report : Members) (baselineScore : Option Float)
    (maxRegressionPp : Float) (now : String) : Option Verdict := do
  let candidate ← candidateScore n report
  let cmp ← objectOrEmpty report (text "baseline_compare")
  let (regressed, drop, baseline) ← figures n cmp candidate baselineScore maxRegressionPp
  let allPassed := flag report (text "all_passed")
  some ⟨now, candidate, allPassed, baseline, drop, maxRegressionPp, regressed,
    !regressed && allPassed⟩

/-- The number that a float is; there is none for the infinities and the NaN. -/
def exact (x : Float) : Option ℚ :=
  match PythonValue.floatNumber x with
  | .dyadic m e => some (m * 2 ^ e)
  | _ => none

/-- The column takes no verdict with an infinity or the NaN. -/
def Verdict.storable (v : Verdict) : Bool :=
  (exact v.candidate).isSome && (exact v.baseline).isSome && (exact v.dropPp).isSome &&
    (exact v.maxRegressionPp).isSome

/-- The candidate lies below the baseline by less than the limit. -/
def belowByLess (candidate baseline maxRegressionPp : Float) : Bool :=
  match exact candidate, exact baseline, exact maxRegressionPp with
  | some c, some b, some l => (b - c) * 100 < l
  | _, _, _ => false

/-- Without a stored baseline there is nothing to lie below. -/
def withinLimit (candidate : Float) (baselineScore : Option Float) (maxRegressionPp : Float) :
    Bool :=
  baselineScore.all fun baseline => belowByLess candidate baseline maxRegressionPp

/-- What the gate asks of a report. -/
def passes (n : Numbers) (report : Members) (baselineScore : Option Float)
    (maxRegressionPp : Float) : Bool :=
  flag report (text "all_passed") && (candidateScore n report).any fun candidate =>
    withinLimit candidate baselineScore maxRegressionPp

/-- A block that is said to be available does not hide a drop, and rounding does not either. -/
def Trustworthy (n : Numbers) (report : Members) (baselineScore : Option Float)
    (maxRegressionPp : Float) : Prop :=
  ∀ candidate cmp, candidateScore n report = some candidate →
    objectOrEmpty report (text "baseline_compare") = some cmp →
      flag report (text "all_passed") = true →
        (if flag cmp (text "available") then flag cmp (text "regressed") = true
          else ∀ baseline, baselineScore = some baseline →
            maxRegressionPp ≤ roundedDrop n baseline candidate) ∨
          withinLimit candidate baselineScore maxRegressionPp = true

variable {n : Numbers} {report : Members} {baselineScore : Option Float} {limit : Float}
  {now : String} {v : Verdict}

/-- A verdict on a report that can be trusted passes only what the gate asks for. -/
theorem passes_of_verdict (htrust : Trustworthy n report baselineScore limit)
    (h : evaluateReport n report baselineScore limit now = some v) (hpassed : v.passed = true) :
    passes n report baselineScore limit = true := by
  obtain ⟨candidate, hcandidate, h⟩ := Option.bind_eq_some_iff.mp h
  obtain ⟨cmp, hcmp, h⟩ := Option.bind_eq_some_iff.mp h
  obtain ⟨⟨regressed, drop, baseline⟩, hfigures, h⟩ := Option.bind_eq_some_iff.mp h
  cases h
  rw [Bool.and_eq_true, Bool.not_eq_true'] at hpassed
  obtain ⟨hregressed, hall⟩ := hpassed
  rw [passes, hall, hcandidate, Bool.true_and, Option.any_some]
  rcases htrust candidate cmp hcandidate hcmp hall with hnot | hwithin
  · rw [figures] at hfigures
    by_cases havailable : flag cmp (text "available") = true
    · rw [if_pos havailable] at hnot hfigures
      obtain ⟨d, -, hfigures⟩ := Option.bind_eq_some_iff.mp hfigures
      obtain ⟨deltas, -, hfigures⟩ := Option.bind_eq_some_iff.mp hfigures
      obtain ⟨mitre, -, hfigures⟩ := Option.bind_eq_some_iff.mp hfigures
      obtain ⟨b, -, hfigures⟩ := Option.bind_eq_some_iff.mp hfigures
      cases hfigures
      exact absurd (hnot.symm.trans hregressed) nofun
    · rw [if_neg havailable] at hnot hfigures
      cases hfigures
      cases hb : baselineScore with
      | none => rfl
      | some b =>
        rw [hb, Option.getD_some, decide_eq_false_iff_not] at hregressed
        exact absurd (hnot b hb) hregressed
  · exact hwithin

end EvalGate
