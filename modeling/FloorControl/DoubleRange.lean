/-!
# The range of double precision

A decimal number is readable if it does not overflow a double. The number is taken apart into a
significand of at most 64 bits and a power of ten, each of which is rounded to the 53 bits of a
double, and their product must not round to infinity. Numbers are never too small.
-/

namespace FloorControl.DoubleRange

/-- The nearest number of 53 significant bits; of two equally near, the one with the even
significand. -/
def round53 (n : Nat) : Nat :=
  let shift := n.log2 - 52
  let quotient := n / Nat.pow 2 shift
  let rest := 2 * (n % Nat.pow 2 shift)
  if Nat.pow 2 shift < rest ∨ (Nat.pow 2 shift = rest ∧ quotient % 2 = 1) then
    (quotient + 1) * Nat.pow 2 shift
  else quotient * Nat.pow 2 shift

/-- The least number that rounds to infinity. -/
def infinity : Nat := Nat.pow 2 1024 - Nat.pow 2 970

/-- Whether `significand` times the given power of ten is in range. -/
def holds (significand : Nat) (exponent : Int) : Bool :=
  if significand = 0 then true
  else
    match exponent with
    | .negSucc _ => true
    | .ofNat e => e ≤ 308 && round53 significand * round53 (Nat.pow 10 e) < infinity

/-- Take digits into a significand as long as it fits 64 bits, and count those that were taken. -/
def takeDigits : (significand : Nat) → (digits : List Nat) → Nat × Nat
  | significand, [] => (significand, 0)
  | significand, d :: digits =>
    if significand * 10 + d < UInt64.size then
      let (significand, taken) := takeDigits (significand * 10 + d) digits
      (significand, taken + 1)
    else (significand, 0)

/-- Whether a decimal number is in range, given its digits before and after the point and the
exponent. A digit before the point that does not fit the significand counts as a zero, one after
the point does not count. -/
def holdsDecimal (whole fraction : List Nat) (exponent : Int) : Bool :=
  let (significand, takenWhole) := takeDigits 0 whole
  let (significand, takenFraction) := takeDigits significand fraction
  holds significand
    (exponent + ((whole.length - takenWhole : Nat) : Int) - (takenFraction : Int))

end FloorControl.DoubleRange
