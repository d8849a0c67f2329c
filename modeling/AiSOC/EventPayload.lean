import Mathlib.Algebra.GroupWithZero.Nat
import AiSOC.JsonWriter

/-! # Event payloads

The values that an event can hold, with the texts the interpreter makes of them: `str` and
`repr`, and the JSON text in the characters of the payload, of which only the size in UTF-8
matters. -/
namespace EventPayload

open CodeText JsonWriter

/-- An object of some other class, by what `str` and `repr` make of it. -/
structure PyObject where
  str : Text
  repr : Text
  deriving DecidableEq

inductive PyFloat where
  | finite (repr : Text)
  | nan | infinity | negInfinity
  deriving DecidableEq

/-- A key that is no string comes with the text that the encoder writes for it, if any. -/
inductive Key where
  | str (s : Text)
  | other (object : PyObject) (json : Option Text)
  deriving DecidableEq

/-- The entries of a dictionary in their order; a payload has no two of one key. -/
inductive Value where
  | none
  | bool (b : Bool)
  | int (n : ℤ)
  | float (x : PyFloat)
  | str (s : Text)
  | list (items : List Value)
  | tuple (items : List Value)
  | dict (entries : List (Key × Value))
  | object (o : PyObject)

abbrev Dict := List (Key × Value)

def Key.pyStr : Key → Text
  | .str s => s
  | .other object _ => object.str

def Key.json : Key → Option Text
  | .str s => some s
  | .other _ json => json

def separated (parts : List Text) : Text := List.intercalate (text ", ") parts

def hexDigits (width n : ℕ) : Text :=
  (List.range width).reverse.map fun i => hexDigit (Fin.ofNat 16 (n / 16 ^ i))

def reprChar (isPrintable : CodePoint → Bool) (quote c : CodePoint) : Text :=
  if c = quote ∨ c = cp '\\' then [cp '\\', c]
  else if c = cp '\n' then text "\\n"
  else if c = cp '\r' then text "\\r"
  else if c = cp '\t' then text "\\t"
  else if 0x20 ≤ c.val ∧ c.val < 0x7f then [c]
  else if 0x7f < c.val ∧ isPrintable c then [c]
  else if c.val ≤ 0xff then text "\\x" ++ hexDigits 2 c.val
  else if c.val ≤ 0xffff then text "\\u" ++ hexDigits 4 c.val
  else text "\\U" ++ hexDigits 8 c.val

/-- In double quotes only if there are single quotes inside and no double ones. -/
def reprText (isPrintable : CodePoint → Bool) (s : Text) : Text :=
  let quote := if cp '\'' ∈ s ∧ cp '"' ∉ s then cp '"' else cp '\''
  quote :: s.flatMap (reprChar isPrintable quote) ++ [quote]

def reprKey (isPrintable : CodePoint → Bool) : Key → Text
  | .str s => reprText isPrintable s
  | .other object _ => object.repr

/-- Refuses integers of more digits than the interpreter writes. -/
def intText (n : ℤ) : Option Text :=
  if n.natAbs < 10 ^ maxIntDigits then some (decimal n) else none

def PyFloat.repr : PyFloat → Text
  | .finite repr => repr
  | .nan => text "nan"
  | .infinity => text "inf"
  | .negInfinity => text "-inf"

def PyFloat.json : PyFloat → Text
  | .finite repr => repr
  | .nan => text "NaN"
  | .infinity => text "Infinity"
  | .negInfinity => text "-Infinity"

def reprTuple : List Text → Text
  | [part] => text "(" ++ part ++ text ",)"
  | parts => text "(" ++ separated parts ++ text ")"

mutual

def reprValue (isPrintable : CodePoint → Bool) : Value → Option Text
  | .none => some (text "None")
  | .bool b => some (if b then text "True" else text "False")
  | .int n => intText n
  | .float x => some x.repr
  | .str s => some (reprText isPrintable s)
  | .list items => (reprItems isPrintable items).map fun parts =>
      text "[" ++ separated parts ++ text "]"
  | .tuple items => (reprItems isPrintable items).map reprTuple
  | .dict entries => (reprEntries isPrintable entries).map fun parts =>
      text "\x7b" ++ separated parts ++ text "\x7d"
  | .object o => some o.repr

def reprItems (isPrintable : CodePoint → Bool) : List Value → Option (List Text)
  | [] => some []
  | v :: vs => do return (← reprValue isPrintable v) :: (← reprItems isPrintable vs)

def reprEntries (isPrintable : CodePoint → Bool) : Dict → Option (List Text)
  | [] => some []
  | (k, v) :: es => do
    return (reprKey isPrintable k ++ text ": " ++ (← reprValue isPrintable v)) ::
      (← reprEntries isPrintable es)

end

def pyStr (isPrintable : CodePoint → Bool) : Value → Option Text
  | .str s => some s
  | .object o => some o.str
  | value => reprValue isPrintable value

/-- The encoder leaves all but quotes, backslashes and control characters as they are. -/
def jsonChar (c : CodePoint) : Text :=
  match shortEscape c with
  | some d => [cp '\\', d]
  | none => if c.val < 0x20 then hexEscape c.val else [c]

def jsonText (s : Text) : Text := cp '"' :: s.flatMap jsonChar ++ [cp '"']

mutual

/-- Nothing for what the encoder cannot write; an object is written as its `str`. -/
def dumps : Value → Option Text
  | .none => some (text "null")
  | .bool b => some (if b then text "true" else text "false")
  | .int n => intText n
  | .float x => some x.json
  | .str s => some (jsonText s)
  | .list items => (dumpsItems items).map fun parts => text "[" ++ separated parts ++ text "]"
  | .tuple items => (dumpsItems items).map fun parts => text "[" ++ separated parts ++ text "]"
  | .dict entries => (dumpsEntries entries).map fun parts =>
      text "\x7b" ++ separated parts ++ text "\x7d"
  | .object o => some (jsonText o.str)

def dumpsItems : List Value → Option (List Text)
  | [] => some []
  | v :: vs => do return (← dumps v) :: (← dumpsItems vs)

def dumpsEntries : Dict → Option (List Text)
  | [] => some []
  | (k, v) :: es => do
    return (jsonText (← k.json) ++ text ": " ++ (← dumps v)) :: (← dumpsEntries es)

end

def isSurrogate (c : CodePoint) : Bool := 0xd800 ≤ c.val ∧ c.val ≤ 0xdfff

def utf8Width (c : CodePoint) : ℕ :=
  if c.val < 0x80 then 1 else if c.val < 0x800 then 2 else if c.val < 0x10000 then 3 else 4

/-- A lone surrogate has no encoding. -/
def utf8Size (t : Text) : Option ℕ :=
  if t.any isSurrogate then none else some (t.map utf8Width).sum

/-- The size of the JSON text in UTF-8, of what has one. -/
def jsonSize (value : Value) : Option ℕ := (dumps value).bind utf8Size

theorem utf8Size_append (s t : Text) :
    utf8Size (s ++ t) = (utf8Size s).bind fun m => (utf8Size t).map (m + ·) := by
  unfold utf8Size
  rw [List.any_append, List.map_append, List.sum_append]
  cases s.any isSurrogate <;> cases t.any isSurrogate <;> rfl

theorem separated_cons (part : Text) (parts : List Text) : separated (part :: parts) =
    part ++ if parts = [] then [] else text ", " ++ separated parts := by
  cases parts with
  | nil => simp [separated, List.intercalate]
  | cons next parts => simp [separated, List.intercalate]

/-- A separator is two bytes. -/
theorem utf8Size_separated {parts : List Text} {sizes : List ℕ}
    (h : List.Forall₂ (fun part size => utf8Size part = some size) parts sizes) :
    utf8Size (separated parts) = some (sizes.sum + 2 * (sizes.length - 1)) := by
  have hseparator : utf8Size (text ", ") = some 2 := by decide
  induction h with
  | nil => rfl
  | cons hpart htail ih =>
    rename_i part size parts sizes
    rw [separated_cons, utf8Size_append, hpart]
    cases htail with
    | nil => rfl
    | cons hnext htail =>
      rw [if_neg (List.cons_ne_nil _ _), utf8Size_append, hseparator, ih]
      simp only [Option.bind_some, Option.map_some, List.sum_cons, List.length_cons,
        Option.some.injEq]
      omega

theorem utf8Size_separated_none {parts : List Text} {part : Text} (hmem : part ∈ parts)
    (h : utf8Size part = none) : utf8Size (separated parts) = none := by
  induction parts with
  | nil => cases hmem
  | cons head parts ih =>
    rw [separated_cons, utf8Size_append]
    rcases List.mem_cons.mp hmem with rfl | htail
    · rw [h]
      rfl
    · rw [if_neg (List.ne_nil_of_mem htail), utf8Size_append, ih htail]
      cases utf8Size head <;> cases utf8Size (text ", ") <;> rfl

theorem dumpsItems_iff {items : List Value} {parts : List Text} : dumpsItems items = some parts ↔
    List.Forall₂ (fun v part => dumps v = some part) items parts := by
  induction items generalizing parts with
  | nil =>
    rw [dumpsItems, List.forall₂_nil_left_iff, Option.some.injEq]
    exact eq_comm
  | cons v vs ih =>
    rw [dumpsItems, List.forall₂_cons_left_iff]
    constructor
    · intro h
      rcases hv : dumps v with _ | part
      · rw [hv] at h
        cases h
      rcases hvs : dumpsItems vs with _ | rest
      · rw [hv, hvs] at h
        cases h
      · rw [hv, hvs] at h
        cases h
        exact ⟨part, rest, rfl, ih.mp hvs, rfl⟩
    · rintro ⟨part, rest, hv, hvs, rfl⟩
      rw [hv, ih.mpr hvs]
      rfl

/-- A list is the brackets, the items and two bytes for each separator. -/
theorem jsonSize_list {items : List Value} {sizes : List ℕ}
    (h : List.Forall₂ (fun v size => jsonSize v = some size) items sizes) :
    jsonSize (.list items) = some (2 + sizes.sum + 2 * (sizes.length - 1)) := by
  have hparts : ∃ parts, List.Forall₂ (fun v part => dumps v = some part) items parts ∧
      List.Forall₂ (fun part size => utf8Size part = some size) parts sizes := by
    induction h with
    | nil => exact ⟨[], .nil, .nil⟩
    | cons hv _ ih =>
      obtain ⟨parts, hdumps, hsizes⟩ := ih
      obtain ⟨part, hpart, hsize⟩ := Option.bind_eq_some_iff.mp hv
      exact ⟨part :: parts, .cons hpart hdumps, .cons hsize hsizes⟩
  obtain ⟨parts, hdumps, hsizes⟩ := hparts
  have hopen : utf8Size (text "[") = some 1 := by decide
  have hclose : utf8Size (text "]") = some 1 := by decide
  rw [jsonSize, dumps, dumpsItems_iff.mpr hdumps, Option.map_some, Option.bind_some,
    utf8Size_append, utf8Size_append, hopen, hclose, utf8Size_separated hsizes]
  simp only [Option.bind_some, Option.map_some, Option.some.injEq]
  omega

theorem mem_dumpsItems {items : List Value} {parts : List Text}
    (h : List.Forall₂ (fun v part => dumps v = some part) items parts) {v : Value}
    (hmem : v ∈ items) : ∃ part ∈ parts, dumps v = some part := by
  induction h with
  | nil => cases hmem
  | cons hpart _ ih =>
    rcases List.mem_cons.mp hmem with rfl | htail
    · exact ⟨_, List.mem_cons_self, hpart⟩
    · obtain ⟨part, hin, hdumps⟩ := ih htail
      exact ⟨part, List.mem_cons_of_mem _ hin, hdumps⟩

/-- One item without a size leaves the list without one. -/
theorem jsonSize_list_none {items : List Value} {v : Value} (hmem : v ∈ items)
    (h : jsonSize v = none) : jsonSize (.list items) = none := by
  rcases hparts : dumpsItems items with _ | parts
  · rw [jsonSize, dumps, hparts]
    rfl
  · obtain ⟨part, hin, hpart⟩ := mem_dumpsItems (dumpsItems_iff.mp hparts) hmem
    have hsize : utf8Size part = none := by
      rw [jsonSize, hpart] at h
      exact h
    have hopen : utf8Size (text "[") = some 1 := by decide
    rw [jsonSize, dumps, hparts, Option.map_some, Option.bind_some, utf8Size_append,
      utf8Size_append, hopen, utf8Size_separated_none hin hsize]
    rfl

end EventPayload
