import SelectAlgebra.Toml.Text

/-!
# Numbers of TOML

Integers have 64 bits with a sign and may be written in base 2, 8 or 16 without one.  Single
underscores may stand between digits.  A floating-point number is kept as the decimal that is
written; one that is too large for a double is refused unless it is negative.
-/

namespace SelectAlgebra.Toml

open Reader

/-- A floating-point number as it is written. -/
inductive FloatLiteral where
  /-- The digits, as a number, times a power of ten. -/
  | decimal (negative : Bool) (digits : Nat) (exponent : Int)
  | infinity (negative : Bool)
  | notANumber (negative : Bool)
deriving DecidableEq

/-! ## Digits -/

/-- A run of digits with single underscores between them.  Gives the digits alone. -/
def digitRun (isDigit : Char → Bool) : Reader (List Char) := do
  let first ← one isDigit
  let rest ← many (one isDigit <|> (do char '_'; one isDigit))
  return first :: rest

/-- An optional sign: whether it is a minus. -/
def sign : Reader Bool :=
  (do char '-'; return true) <|> (do char '+'; return false) <|> return false

/-- A decimal number without superfluous zeros in front: whether it is negative, and its digits. -/
def decimalDigits : Reader (Bool × List Char) := do
  let negative ← sign
  let digits ← (do char '0'; return ['0']) <|> digitRun Char.isDigit
  return (negative, digits)

/-- The number with a sign. -/
def signed (negative : Bool) (n : Nat) : Int :=
  if negative then -n else n

/-! ## Integers -/

/-- The number fits into 64 bits with a sign. -/
def fitsInt64 (n : Int) : Bool :=
  Int64.minValue.toInt ≤ n && n ≤ Int64.maxValue.toInt

/-- The digits of a base behind the letter that names it. -/
def basedDigits (letter : Char) (base : Nat) (isDigit : Char → Bool) : Reader Int := do
  char '0'
  char letter
  return (numeral base (← digitRun isDigit) : Nat)

/-- An integer. -/
def integer : Reader Int := do
  let n ←
    basedDigits 'x' 16 isHexDigit <|>
    basedDigits 'o' 8 (fun c => '0' ≤ c && c ≤ '7') <|>
    basedDigits 'b' 2 (fun c => c == '0' || c == '1') <|>
    (do
      let (negative, digits) ← decimalDigits
      return signed negative (numeral 10 digits))
  require (fitsInt64 n)
  return n

/-! ## Floating-point numbers -/

/-- A decimal number `digits` times ten to the `exponent` rounds to a double beyond the largest
finite one: it is at least half a unit of the last place above that. -/
def exceedsDouble (digits : Nat) (exponent : Int) : Bool :=
  let limit := Nat.pow 2 1024 - Nat.pow 2 970
  let size := (Nat.toDigits 10 digits).length + exponent
  if digits = 0 ∨ size < 300 then false
  else if 320 < size then true
  else if 0 ≤ exponent then decide (limit ≤ digits * Nat.pow 10 exponent.toNat)
  else decide (limit * Nat.pow 10 (-exponent).toNat ≤ digits)

/-- The exponent of a floating-point number. -/
def exponentPart : Reader Int := do
  char 'e' <|> char 'E'
  let negative ← sign
  return signed negative (numeral 10 (← digitRun Char.isDigit))

/-- The digits behind the point of a floating-point number. -/
def fractionPart : Reader (List Char) := do
  char '.'
  digitRun Char.isDigit

/-- A floating-point number with a fraction, an exponent or both. -/
def decimalFloat : Reader FloatLiteral := do
  let (negative, whole) ← decimalDigits
  let (fraction, exponent) ←
    (do return ([], ← exponentPart)) <|>
    (do
      let fraction ← fractionPart
      let exponent ← optional exponentPart
      return (fraction, exponent.getD 0))
  let digits := numeral 10 (whole ++ fraction)
  let exponent := exponent - fraction.length
  require (negative || !exceedsDouble digits exponent)
  return .decimal negative digits exponent

/-- Infinity or not a number. -/
def specialFloat : Reader FloatLiteral := do
  let negative ← sign
  (do word "inf"; return .infinity negative) <|> (do word "nan"; return .notANumber negative)

/-- A floating-point number. -/
def float : Reader FloatLiteral :=
  decimalFloat <|> specialFloat

end SelectAlgebra.Toml
