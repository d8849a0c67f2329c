import AiSOC.CodeText

/-! # Integers in a text

What `int` of the standard library reads: blanks around the number, a sign, digits of any script
with single underscores between them, and the prefix of the base 16.
`decimalDigit` gives the decimal digits of the Unicode database. -/
namespace IntegerText

open CodeText

def isBlank (c : CodePoint) : Bool := (0x09 ≤ c.val ∧ c.val ≤ 0x0d) ∨ c.val = 0x20

/-- The value as a digit of any base up to 36. -/
def digitValue (c : CodePoint) : Option ℕ :=
  if between '0' '9' c then some (c.val - '0'.toNat)
  else if between 'a' 'z' c then some (c.val - 'a'.toNat + 10)
  else if between 'A' 'Z' c then some (c.val - 'A'.toNat + 10)
  else none

/-- Single underscores may stand between digits; `afterDigit` is whether one may come now. -/
def digitsFrom (base : ℕ) (afterDigit : Bool) (n : ℕ) : Text → Option ℕ
  | [] => if afterDigit then some n else none
  | c :: t =>
    if c = cp '_' then if afterDigit then digitsFrom base false n t else none
    else
      match digitValue c with
      | none => none
      | some d => if d < base then digitsFrom base true (n * base + d) t else none

/-- The text without `0x` and an underscore behind it. -/
def hexBody : Text → Text
  | zero :: x :: t =>
    if zero = cp '0' ∧ (x = cp 'x' ∨ x = cp 'X') then
      match t with
      | c :: rest => if c = cp '_' then rest else t
      | [] => []
    else zero :: x :: t
  | t => t

def maxDigits : ℕ := 4300

/-- Only decimal texts have a limit to their length. -/
def magnitude (base : ℕ) (t : Text) : Option ℕ :=
  if base = 10 ∧ maxDigits < (t.filter (· ≠ cp '_')).length then none
  else digitsFrom base false 0 (if base = 16 then hexBody t else t)

section
variable (decimalDigit : CodePoint → Option ℕ)

/-- Decimal digits and white space of all scripts become those of ASCII. -/
def toAscii (c : CodePoint) : CodePoint :=
  if c.val < 0x7f then c
  else if isSpace c then cp ' '
  else
    match decimalDigit c with
    | some d => Fin.ofNat 0x110000 ('0'.toNat + d)
    | none => cp '?'

/-- `int(text, base)` for the bases 10 and 16, where `none` is a `ValueError`. -/
def int (base : ℕ) (t : Text) : Option ℤ :=
  match ((t.map (toAscii decimalDigit)).dropWhile isBlank).rdropWhile isBlank with
  | [] => none
  | c :: t =>
    if c = cp '-' then (magnitude base t).map fun n => -(n : ℤ)
    else (magnitude base (if c = cp '+' then t else c :: t)).map fun n => (n : ℤ)

end

end IntegerText
