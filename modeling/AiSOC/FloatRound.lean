import AiSOC.FloatOrder

/-! # Rounding to decimal places

`round(x, digits)`: the number nearest to the decimal that is nearest to `x`, ties going to the
even last digit. -/
namespace FloatRound

open Float.Model.UnpackedFloat (Sign)
open FloatOrder (trueDiv)

/-- The natural number nearest to a quotient. -/
def halfEven (n d : ℕ) : ℕ :=
  if 2 * (n % d) < d then n / d else if d < 2 * (n % d) then n / d + 1 else n / d + n / d % 2

def withSign : Sign → Float → Float
  | .negative, x => -x
  | .positive, x => x

/-- The nearest number of decimal units of the last place. -/
def decimal (digits m : ℕ) (e : ℤ) : ℕ :=
  halfEven (m * 10 ^ digits * 2 ^ e.toNat) (2 ^ (-e).toNat)

/-- Infinities, the NaN and zeros stay. -/
def roundTo (digits : ℕ) (x : Float) : Float :=
  match x.toModel.unpack with
  | .finite s m e _ =>
    withSign s (trueDiv (decimal digits m e) (10 ^ digits : ℕ))
  | _ => x

example : roundTo 2 2.675 = 2.67 ∧ roundTo 2 0.125 = 0.12 ∧ roundTo 2 (-1.005) = -1 := by decide

def signText : Sign → String
  | .negative => "-"
  | .positive => ""

def fixedDigits (digits q : ℕ) : String :=
  let fraction := toString (q % 10 ^ digits)
  toString (q / 10 ^ digits) ++ "." ++
    String.ofList (List.replicate (digits - fraction.length) '0') ++ fraction

/-- The text of `x` with the given number of decimal places, at least one. -/
def fixedText (digits : ℕ) (x : Float) : String :=
  match x.toModel.unpack with
  | .notANumber => "nan"
  | .infinity s => signText s ++ "inf"
  | .zero s => signText s ++ fixedDigits digits 0
  | .finite s m e _ => signText s ++ fixedDigits digits (decimal digits m e)

end FloatRound
