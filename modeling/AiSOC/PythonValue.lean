import AiSOC.CodeText
import AiSOC.FloatOrder

/-! # Values and their comparisons

The values of the interpreter with its operators on them: equality, order, membership, truth and
iteration. What objects of other classes do is a parameter. An operator can fail, with a
`TypeError` where it does not apply. -/
namespace PythonValue

open CodeText

inductive PyError where
  | typeError
  | other (name : Text)
  deriving DecidableEq

abbrev Outcome := Except PyError

theorem bind_ok {ε β γ : Type} {x : Except ε β} {f : β → Except ε γ} {y : γ}
    (h : (x >>= f) = .ok y) : ∃ b, x = .ok b ∧ f b = .ok y := by
  cases x with
  | error e => cases h
  | ok b => exact ⟨b, rfl, h⟩

/-- The dictionaries have no two entries of one key. -/
inductive Value (Ω : Type) where
  | none
  | bool (b : Bool)
  | int (n : ℤ)
  | float (x : Float)
  | str (s : Text)
  | list (items : List (Value Ω))
  | tuple (items : List (Value Ω))
  | dict (entries : List (Value Ω × Value Ω))
  | object (o : Ω)

abbrev Dict (Ω : Type) := List (Value Ω × Value Ω)

/-- A comparison by order. -/
inductive Rich where
  | lt | le | gt | ge
  deriving DecidableEq

def Rich.holds : Rich → Ordering → Bool
  | .lt, o => o.isLT
  | .le, o => o.isLE
  | .gt, o => o.isGT
  | .ge, o => o.isGE

/-- What other classes do, and what `str` makes of a value. -/
structure Objects (Ω : Type) where
  str : Value Ω → Outcome Text
  truthy : Ω → Outcome Bool
  items : Ω → Outcome (List (Value Ω))
  /-- If at least one of the two is an object. -/
  eq : Value Ω → Value Ω → Outcome Bool
  rich : Rich → Value Ω → Value Ω → Outcome Bool
  contains : Ω → Value Ω → Outcome Bool
  isSet : Ω → Bool

/-- Integers and floating-point numbers compare as the numbers they are. -/
inductive Number where
  | nan
  | infinity (negative : Bool)
  | dyadic (m e : ℤ)

def floatNumber (x : Float) : Number :=
  match x.toModel.unpack with
  | .notANumber => .nan
  | .infinity .negative => .infinity true
  | .infinity .positive => .infinity false
  | .zero _ => .dyadic 0 0
  | .finite .negative m e _ => .dyadic (-m) e
  | .finite .positive m e _ => .dyadic m e

/-- Nothing is ordered with the NaN. -/
def Number.compare : Number → Number → Option Ordering
  | .nan, _ => Option.none
  | _, .nan => Option.none
  | .infinity a, .infinity b => some (Ord.compare b a)
  | .infinity negative, .dyadic _ _ => some (if negative then .lt else .gt)
  | .dyadic _ _, .infinity negative => some (if negative then .gt else .lt)
  | .dyadic m e, .dyadic m' e' =>
    let k := min e e'
    some (Ord.compare (m * 2 ^ (e - k).toNat) (m' * 2 ^ (e' - k).toNat))

variable {Ω : Type}

def number : Value Ω → Option Number
  | .bool b => some (.dyadic (if b then 1 else 0) 0)
  | .int n => some (.dyadic n 0)
  | .float x => some (floatNumber x)
  | _ => Option.none

variable (objects : Objects Ω)

mutual

/-- The operator `==`. -/
def eqValue : Value Ω → Value Ω → Outcome Bool
  | .object o, b => objects.eq (.object o) b
  | a, .object o => objects.eq a (.object o)
  | .none, .none => .ok true
  | .str s, .str t => .ok (s = t)
  | .list xs, .list ys => eqItems xs ys
  | .tuple xs, .tuple ys => eqItems xs ys
  | .dict es, .dict fs => if es.length = fs.length then eqEntries es fs else .ok false
  | a, b => match number a, number b with
    | some m, some n => .ok (m.compare n = some .eq)
    | _, _ => .ok false

def eqItems : List (Value Ω) → List (Value Ω) → Outcome Bool
  | [], [] => .ok true
  | x :: xs, y :: ys => do if ← eqValue x y then eqItems xs ys else .ok false
  | _, _ => .ok false

/-- The entries are all found in the other dictionary. -/
def eqEntries : Dict Ω → Dict Ω → Outcome Bool
  | [], _ => .ok true
  | (k, v) :: es, fs => do
    match ← fs.findM? fun f => eqValue k f.1 with
    | Option.none => .ok false
    | some f => if ← eqValue v f.2 then eqEntries es fs else .ok false

end

mutual

/-- The operators `<`, `<=`, `>` and `>=`. -/
def richValue (op : Rich) : Value Ω → Value Ω → Outcome Bool
  | .object o, b => objects.rich op (.object o) b
  | a, .object o => objects.rich op a (.object o)
  | .str s, .str t => .ok (op.holds (compare s t))
  | .list xs, .list ys => richItems op xs ys
  | .tuple xs, .tuple ys => richItems op xs ys
  | a, b => match number a, number b with
    | some m, some n => .ok ((m.compare n).any op.holds)
    | _, _ => .error .typeError

/-- By the first items that differ, else by length. -/
def richItems (op : Rich) : List (Value Ω) → List (Value Ω) → Outcome Bool
  | [], [] => .ok (op.holds .eq)
  | [], _ :: _ => .ok (op.holds .lt)
  | _ :: _, [] => .ok (op.holds .gt)
  | x :: xs, y :: ys => do
    if ← eqValue objects x y then richItems op xs ys else richValue op x y

end

/-- Membership in the items. -/
def memItems (items : List (Value Ω)) (a : Value Ω) : Outcome Bool :=
  items.anyM fun item => eqValue objects item a

/-- The operator `in`. -/
def contains (a : Value Ω) : Value Ω → Outcome Bool
  | .str t => match a with
    | .str s => .ok (s <:+: t)
    | _ => .error .typeError
  | .list items => memItems objects items a
  | .tuple items => memItems objects items a
  | .dict entries => memItems objects (entries.map Prod.fst) a
  | .object o => objects.contains o a
  | _ => .error .typeError

def truthy : Value Ω → Outcome Bool
  | .none => .ok false
  | .bool b => .ok b
  | .int n => .ok (n ≠ 0)
  | .float x => .ok (x != 0)
  | .str s => .ok (s ≠ [])
  | .list items => .ok !items.isEmpty
  | .tuple items => .ok !items.isEmpty
  | .dict entries => .ok !entries.isEmpty
  | .object o => objects.truthy o

/-- What `list` makes of a value. -/
def toItems : Value Ω → Outcome (List (Value Ω))
  | .str s => .ok (s.map fun c => .str [c])
  | .list items => .ok items
  | .tuple items => .ok items
  | .dict entries => .ok (entries.map Prod.fst)
  | .object o => objects.items o
  | _ => .error .typeError

/-- `list`, of nothing if the value is missing or false. -/
def toItemsOrEmpty (value : Option (Value Ω)) : Outcome (List (Value Ω)) := do
  match value with
  | Option.none => .ok []
  | some v => if ← truthy objects v then toItems objects v else .ok []

def isKey (k : Text) : Value Ω → Bool
  | .str s => s = k
  | _ => false

def Dict.get (d : Dict Ω) (k : Text) : Option (Value Ω) :=
  (d.find? fun e => isKey k e.1).map Prod.snd

def Dict.set (d : Dict Ω) (k : Text) (v : Value Ω) : Dict Ω :=
  if (d.get k).isSome then d.map fun e => if isKey k e.1 then (e.1, v) else e
  else d ++ [(.str k, v)]

theorem isKey_inj {k k' : Text} {v : Value Ω} (h : isKey k v = true) (h' : isKey k' v = true) :
    k = k' := by
  cases v with
  | str s => exact (of_decide_eq_true h).symm.trans (of_decide_eq_true h')
  | _ => cases h

theorem Dict.get_set (d : Dict Ω) (k k' : Text) (v : Value Ω) :
    Dict.get (Dict.set d k v) k' = if k' = k then some v else Dict.get d k' := by
  have hkey (e : Value Ω × Value Ω) : (if isKey k e.1 then (e.1, v) else e).1 = e.1 := by
    split_ifs <;> rfl
  rw [Dict.set]
  split_ifs with hsome hk hk
  · obtain ⟨u, hu⟩ := Option.isSome_iff_exists.mp hsome
    obtain ⟨e, he, -⟩ := Option.map_eq_some_iff.mp hu
    have hmatch : isKey k e.1 = true := by
      simpa using List.find?_some he
    rw [hk, Dict.get, List.find?_map]
    simp only [Function.comp_def, hkey, he, hmatch, Option.map_some, if_true]
  · rw [Dict.get, Dict.get, List.find?_map]
    simp only [Function.comp_def, hkey]
    cases he : d.find? fun e => isKey k' e.1 with
    | none => rfl
    | some e =>
      have hmatch : isKey k' e.1 = true := by
        simpa using List.find?_some he
      have hother : ¬ isKey k e.1 = true := fun h => hk (isKey_inj hmatch h)
      simp only [Option.map_some, if_neg hother]
  · have hnone : d.find? (fun e => isKey k e.1) = none := by
      rw [← Option.map_eq_none_iff, ← Option.not_isSome_iff_eq_none]
      exact hsome
    rw [hk, Dict.get, List.find?_append, hnone]
    simp [isKey]
  · rw [Dict.get, List.find?_append, Dict.get]
    have hother : ¬ k = k' := fun h => hk h.symm
    cases d.find? fun e => isKey k' e.1 with
    | none => simp [isKey, hother]
    | some e => rfl

end PythonValue
