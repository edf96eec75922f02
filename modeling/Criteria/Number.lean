import Criteria.Text.Basic

/-!
Numbers and the texts that are numbers.

Binary64 numbers: every finite one is a whole number of steps of 2^-1074, so its size is a natural
number; sizes are equal exactly when the numbers are. Rounding a fraction to the nearest double is
then one division of natural numbers. Decimals have a nearest double, and a double has a shortest
decimal that reads back as it, which is written in one of two layouts.

An integer is a zero, or digits without a leading zero, after an optional sign. A decimal has digits
before or after a point and an optional power of ten. Digits are ASCII.
-/

namespace Criteria.Number

/-- The number of steps in one. -/
def stepsPerOne : Nat := 2 ^ 1074

/-- A double has at most 53 significant bits, and the finite ones end below 2^1024. -/
def FitsDouble (steps : Nat) : Prop :=
  steps.log2 < 2098 ∧ steps % 2 ^ (steps.log2 - 52) = 0

instance (steps : Nat) : Decidable (FitsDouble steps) := inferInstanceAs (Decidable (_ ∧ _))

/-- The size of a finite double, in steps. -/
structure Magnitude where
  steps : Nat
  fits : FitsDouble steps
deriving DecidableEq, Repr

/-- A binary64 number. The payload of a NaN is not kept. -/
inductive Double
  | finite (negative : Bool) (magnitude : Magnitude)
  | infinite (negative : Bool)
  | nan
deriving DecidableEq, Repr

theorem stepsPerOne_pos : 0 < stepsPerOne := by
  unfold stepsPerOne
  apply Nat.two_pow_pos

/-- The natural number nearest to a fraction; a half goes to the even neighbour. -/
def roundHalfEven (numerator denominator : Nat) : Nat :=
  let quotient := numerator / denominator
  let twice := 2 * (numerator % denominator)
  if twice < denominator ∨ (twice = denominator ∧ quotient % 2 = 0) then quotient else quotient + 1

/-- A significand of 53 bits that is shifted only when it fills them gives a double. -/
theorem fitsDouble_shift {significand shift : Nat} (small : significand < 2 ^ 53)
    (range : shift ≤ 2045) (full : shift = 0 ∨ 2 ^ 52 ≤ significand) :
    FitsDouble (significand * 2 ^ shift) := by
  rcases full with rfl | full
  · have short : (significand * 2 ^ 0).log2 < 53 := by
      by_cases zero : significand = 0
      · simp [zero]
      · simpa using (Nat.log2_lt zero).mpr small
    have unshifted : (significand * 2 ^ 0).log2 - 52 = 0 := by omega
    exact ⟨by omega, by rw [unshifted, Nat.pow_zero, Nat.mod_one]⟩
  · have positive : significand ≠ 0 := by
      have := Nat.two_pow_pos 52
      omega
    have top : (significand * 2 ^ shift).log2 = 52 + shift := by
      have product : significand * 2 ^ shift ≠ 0 :=
        Nat.mul_ne_zero positive (Nat.ne_of_gt (Nat.two_pow_pos shift))
      rw [Nat.log2_eq_iff product]
      constructor
      · rw [Nat.pow_add]
        exact Nat.mul_le_mul_right _ full
      · rw [show 52 + shift + 1 = 53 + shift by omega, Nat.pow_add]
        exact Nat.mul_lt_mul_of_pos_right small (Nat.two_pow_pos _)
    refine ⟨by omega, ?_⟩
    rw [top, Nat.add_sub_cancel_left]
    exact Nat.mul_mod_left _ _

namespace Magnitude

/-- The size of zero. -/
def zero : Magnitude := ⟨0, by decide⟩

/-- The size with a number of steps, if a finite double has it. -/
def ofSteps? (steps : Nat) : Option Magnitude :=
  if fits : FitsDouble steps then some ⟨steps, fits⟩ else none

/-- The size nearest to a fraction, of two equally near ones the one with an even significand;
    nothing if that is beyond the finite doubles. -/
def nearest? (numerator denominator : Nat) : Option Magnitude :=
  let steps := numerator * stepsPerOne
  let shift := (steps / denominator).log2 - 52
  ofSteps? (roundHalfEven steps (denominator * 2 ^ shift) * 2 ^ shift)

/-- The exponent and fraction fields of a size, read as one number. -/
def field (m : Magnitude) : Nat :=
  let shift := m.steps.log2 - 52
  shift * 2 ^ 52 + m.steps / 2 ^ shift

theorem ofSteps?_steps (m : Magnitude) : ofSteps? m.steps = some m := by
  simp [ofSteps?, m.fits]

/-- Rounding is exact on the values of the doubles. -/
theorem nearest?_steps (m : Magnitude) : nearest? m.steps stepsPerOne = some m := by
  have positive := stepsPerOne_pos
  have whole : m.steps * stepsPerOne / stepsPerOne = m.steps := Nat.mul_div_cancel _ positive
  have divides := Nat.dvd_of_mod_eq_zero m.fits.2
  have rounded : roundHalfEven (m.steps * stepsPerOne) (stepsPerOne * 2 ^ (m.steps.log2 - 52))
      = m.steps / 2 ^ (m.steps.log2 - 52) := by
    obtain ⟨quotient, equal⟩ := divides
    have power : 0 < 2 ^ (m.steps.log2 - 52) := Nat.two_pow_pos _
    generalize 2 ^ (m.steps.log2 - 52) = unit at *
    have product : m.steps * stepsPerOne = quotient * (stepsPerOne * unit) := by
      rw [equal, Nat.mul_comm unit, Nat.mul_assoc, Nat.mul_comm unit]
    have nonzero : 0 < stepsPerOne * unit := Nat.mul_pos positive power
    rw [product, equal]
    simp only [roundHalfEven, Nat.mul_mod_left, Nat.mul_div_cancel _ nonzero,
      Nat.mul_div_cancel_left _ power]
    simp [nonzero]
  simp only [nearest?, whole, rounded]
  rw [Nat.div_mul_cancel divides, ofSteps?_steps]

end Magnitude

namespace Double

/-- The number with an exponent field and a fraction field. -/
def ofFields (negative : Bool) (exponent fraction : Nat) (fractionFits : fraction < 2 ^ 52) :
    Double :=
  if exponent = 0 then
    .finite negative ⟨fraction * 2 ^ 0, fitsDouble_shift (by omega) (by decide) (.inl rfl)⟩
  else if range : exponent ≤ 2046 then
    .finite negative
      ⟨(2 ^ 52 + fraction) * 2 ^ (exponent - 1),
        fitsDouble_shift (by omega) (by omega) (.inr (by omega))⟩
  else if fraction = 0 then .infinite negative
  else .nan

/-- The number with an interchange encoding of 64 bits. -/
def ofBits (bits : UInt64) : Double :=
  let n := bits.toNat
  ofFields (2 ^ 63 ≤ n) (n / 2 ^ 52 % 2 ^ 11) (n % 2 ^ 52) (Nat.mod_lt _ (Nat.two_pow_pos _))

/-- The interchange encoding of a number; every NaN is written as the quiet one. -/
def toBits : Double → UInt64
  | .finite negative m => UInt64.ofNat (negative.toNat * 2 ^ 63 + m.field)
  | .infinite negative => UInt64.ofNat (negative.toNat * 2 ^ 63 + 2047 * 2 ^ 52)
  | .nan => UInt64.ofNat (4095 * 2 ^ 51)

end Double

/-- The number `digits * 10 ^ exponent`. -/
structure Decimal where
  digits : Nat
  exponent : Int
deriving DecidableEq, Repr

namespace Decimal

/-- The double nearest to a decimal; nothing if that is beyond the finite doubles. A decimal that is
    far outside their range is settled without computing a power of ten. -/
def magnitude? (d : Decimal) : Option Magnitude :=
  if d.digits = 0 then some .zero
  else if 400 < d.exponent then none
  else if d.exponent + d.digits.log2 < -400 then some .zero
  else Magnitude.nearest? (d.digits * 10 ^ d.exponent.toNat) (10 ^ (-d.exponent).toNat)

/-- The significant digits of a decimal and the place of its point among them: the decimal is the
    fraction after the point with these digits, times that power of ten. -/
def spelling (d : Decimal) : Text × Int :=
  let digits := Text.ofNat d.digits
  ((digits.reverse.dropWhile (· = '0')).reverse, digits.length + d.exponent)

/-- Digits with a point in place, and at least one digit on each side of it. -/
def positional (d : Decimal) : Text :=
  let (digits, point) := d.spelling
  if point ≤ 0 then
    ['0', '.'] ++ (if digits = [] then ['0'] else List.replicate (-point).toNat '0' ++ digits)
  else if point < digits.length then
    digits.take point.toNat ++ '.' :: digits.drop point.toNat
  else digits ++ List.replicate (point.toNat - digits.length) '0' ++ ['.', '0']

/-- One digit, the further digits after a point if there are any, and the power of ten. -/
def scientific (d : Decimal) : Text :=
  let (digits, point) := d.spelling
  let power := point - 1
  let sign := if power < 0 then ['-'] else []
  digits.take 1 ++ (if digits.length ≤ 1 then [] else '.' :: digits.drop 1) ++
    'e' :: (sign ++ Text.ofNat power.natAbs)

end Decimal

namespace Magnitude

/-- The least power of ten that a nonzero size is below. -/
def scale (m : Magnitude) : Int :=
  ((Text.ofNat (m.steps * 10 ^ 324 / stepsPerOne)).length : Int) - 324

/-- The two neighbours of a size among the multiples of `10 ^ exponent`, the nearer one first; of
    two equally near ones the greater comes first. -/
def neighbours (m : Magnitude) (exponent : Int) : List Decimal :=
  let numerator := m.steps * 10 ^ (-exponent).toNat
  let denominator := stepsPerOne * 10 ^ exponent.toNat
  let below : Decimal := ⟨numerator / denominator, exponent⟩
  let above : Decimal := ⟨numerator / denominator + 1, exponent⟩
  if 2 * (numerator % denominator) < denominator then [below, above] else [above, below]

/-- The exact value of a size. -/
def exactDecimal (m : Magnitude) : Decimal := ⟨m.steps * 5 ^ 1074, -1074⟩

/-- The decimal with the fewest digits that reads back as the size, of several the nearest. -/
def shortest (m : Magnitude) : Decimal :=
  if m.steps = 0 then ⟨0, 0⟩
  else
    ((List.range 17).findSome? fun (n : Nat) =>
      (m.neighbours (m.scale - (n + 1))).find? (·.magnitude? = some m)).getD m.exactDecimal

end Magnitude

/-- Whether a text begins with a minus sign, and what follows its sign if it has one. -/
def signed : Text → Bool × Text
  | [] => (false, [])
  | c :: r => if c = '-' then (true, r) else if c = '+' then (false, r) else (false, c :: r)

/-- The number with a size, and a sign that may be negative. -/
def withSign (negative : Bool) (size : Nat) : Int := if negative then -size else size

/-- The integer that a text denotes. A text whose integer does not fit 64 bits is no integer. -/
def integer? (t : Text) : Option Int64 :=
  let (negative, digits) := signed t
  if Text.IsDigits digits ∧ (digits.length ≤ 1 ∨ digits.head? ≠ some '0') then
    let n := withSign negative (Text.digitsValue digits)
    if -2 ^ 63 ≤ n ∧ n < 2 ^ 63 then some (Int64.ofInt n) else none
  else none

/-- The mark before the power of ten. -/
def isPowerMark (c : Char) : Bool := c = 'e' || c = 'E'

/-- The power of ten that the end of a decimal names, with its mark. -/
def power? : Text → Option Int
  | [] => some 0
  | _ :: r =>
    let (negative, digits) := signed r
    if Text.IsDigits digits then some (withSign negative (Text.digitsValue digits)) else none

/-- A text that is to be read as a decimal, taken apart: its sign, what stands before and after its point, and
    its power of ten with the mark. -/
structure Numeral where
  negative : Bool
  whole : Text
  fraction : Text
  power : Text
deriving DecidableEq, Repr

namespace Numeral

/-- The pieces of a text. A power mark ends the mantissa, and the first point divides it. -/
def ofText (t : Text) : Numeral :=
  let (negative, unsigned) := signed t
  let mantissa := unsigned.takeWhile (!isPowerMark ·)
  { negative := negative
    whole := mantissa.takeWhile (· ≠ '.')
    fraction := (mantissa.dropWhile (· ≠ '.')).drop 1
    power := unsigned.dropWhile (!isPowerMark ·) }

/-- The sign and the size of the decimal that is written with some pieces. -/
def decimal? (n : Numeral) : Option (Bool × Decimal) := do
  let power ← power? n.power
  if Text.IsDigits (n.whole ++ n.fraction) then
    some (n.negative, ⟨Text.digitsValue (n.whole ++ n.fraction), power - n.fraction.length⟩)
  else none

/-- The digits of a piece, at least one. -/
def orZero (digits : Text) : Text := if digits = [] then ['0'] else digits

/-- The one layout in which decimals are handed on to be rounded: a sign only if it is a minus, digits on both
    sides of a point, and the power of ten as it is written. -/
def standardForm (n : Numeral) : Text :=
  let power := match n.power with
    | [] => []
    | _ :: r => 'e' :: r
  (if n.negative then ['-'] else []) ++ (orZero n.whole ++ '.' :: (orZero n.fraction ++ power))

end Numeral

/-- The sign and the size of the decimal that a text denotes. -/
def decimal? (t : Text) : Option (Bool × Decimal) := (Numeral.ofText t).decimal?

/-- The standard form of a text that denotes a decimal. -/
def standardForm? (t : Text) : Option Text :=
  (decimal? t).map fun _ => (Numeral.ofText t).standardForm

/-- The finite double nearest to the decimal that a text in standard form denotes. -/
def round? (t : Text) : Option Double := do
  let (negative, decimal) ← decimal? t
  return .finite negative (← decimal.magnitude?)

/-- The finite double nearest to the decimal that a text denotes. -/
def double? (t : Text) : Option Double := (standardForm? t).bind round?

end Criteria.Number
