import Mathlib.Algebra.Order.Field.Rat
import Mathlib.Tactic.FieldSimp
import Mathlib.Tactic.Linarith
import Mathlib.Tactic.Positivity
import Mathlib.Tactic.Ring
import Criteria.Number

/-!
# The nearest double

Rounding divides natural numbers. What it gives is the nearest double of a fraction as a rational number: no
number with as many significant bits is nearer, and of two that are equally near it is the one with the even
significand. A fraction has no nearest finite double exactly when it is rounded beyond their range.

So the nearest double of a decimal depends on its value alone, not on how many zeros it is written with, and the
shortest decimal of a size is rounded to that size.
-/

namespace Criteria.Number

theorem roundHalfEven_mul {k : Nat} (positive : 0 < k) (x y : Nat) :
    roundHalfEven (k * x) (k * y) = roundHalfEven x y := by
  have quotient : k * x / (k * y) = x / y := Nat.mul_div_mul_left x y positive
  have rest : k * x % (k * y) = k * (x % y) := Nat.mul_mod_mul_left k x y
  have less : 2 * (k * (x % y)) < k * y ↔ 2 * (x % y) < y := by
    rw [Nat.mul_left_comm, Nat.mul_lt_mul_left positive]
  have equal : 2 * (k * (x % y)) = k * y ↔ 2 * (x % y) = y := by
    rw [Nat.mul_left_comm, Nat.mul_right_inj (Nat.ne_of_gt positive)]
  simp only [roundHalfEven, quotient, rest, less, equal]

/-- What is less than a half is rounded to nothing. -/
theorem roundHalfEven_eq_zero {x y : Nat} (small : 2 * x < y) : roundHalfEven x y = 0 := by
  have quotient : x / y = 0 := Nat.div_eq_of_lt (by omega)
  have rest : x % y = x := Nat.mod_eq_of_lt (by omega)
  simp [roundHalfEven, quotient, rest, small]

/-- Rounding goes up or down, never past a neighbour. -/
theorem le_roundHalfEven (x y : Nat) : x / y ≤ roundHalfEven x y := by
  simp only [roundHalfEven]
  split
  · exact Nat.le_refl _
  · exact Nat.le_succ _

namespace Magnitude

theorem nearest?_mul {k : Nat} (positive : 0 < k) (x y : Nat) : nearest? (k * x) (k * y) = nearest? x y := by
  simp only [nearest?, Nat.mul_assoc, Nat.mul_div_mul_left _ _ positive, roundHalfEven_mul positive]

/-- Equal fractions have the same nearest size. -/
theorem nearest?_congr {a b c d : Nat} (positive : 0 < b) (positive' : 0 < d) (same : a * d = c * b) :
    nearest? a b = nearest? c d := by
  rw [← nearest?_mul positive' a b, ← nearest?_mul positive c d, Nat.mul_comm d a, same, Nat.mul_comm c b,
    Nat.mul_comm d b]

/-- A fraction below half a step is rounded to zero. -/
theorem nearest?_eq_zero {a b : Nat} (small : 2 * (a * stepsPerOne) < b) : nearest? a b = some zero := by
  have quotient : a * stepsPerOne / b = 0 := Nat.div_eq_of_lt (by omega)
  have unshifted : Nat.log2 0 - 52 = 0 := by decide
  simp only [nearest?, quotient, unshifted, Nat.pow_zero, Nat.mul_one, roundHalfEven_eq_zero small]
  rfl

/-- No double is near a fraction that is beyond them all. -/
theorem nearest?_eq_none {a b k : Nat} (positive : 0 < b) (high : 1024 ≤ k) (large : b * 2 ^ k ≤ a) :
    nearest? a b = none := by
  simp only [nearest?]
  generalize whole : a * stepsPerOne / b = q
  have beyond : 2 ^ (k + 1074) ≤ q := by
    have split : 2 ^ (k + 1074) = 2 ^ k * stepsPerOne := by rw [stepsPerOne, ← Nat.pow_add]
    rw [← whole, Nat.le_div_iff_mul_le positive, split, Nat.mul_right_comm, Nat.mul_comm _ b]
    exact Nat.mul_le_mul_right stepsPerOne large
  have nonzero : q ≠ 0 := by
    rintro rfl
    exact Nat.not_le_of_gt (Nat.two_pow_pos _) beyond
  have log : k + 1074 ≤ q.log2 := (Nat.le_log2 nonzero).mpr beyond
  generalize shift : q.log2 - 52 = j
  -- the leading bit of the quotient is kept by the shift and by rounding
  have quotient : a * stepsPerOne / (b * 2 ^ j) = q / 2 ^ j := by rw [← whole, Nat.div_div_eq_div_mul]
  have top : 2 ^ q.log2 ≤ roundHalfEven (a * stepsPerOne) (b * 2 ^ j) * 2 ^ j := by
    have leading : 2 ^ 52 ≤ q / 2 ^ j := by
      rw [Nat.le_div_iff_mul_le (Nat.two_pow_pos j), ← Nat.pow_add, show 52 + j = q.log2 by omega]
      exact Nat.log2_self_le nonzero
    calc 2 ^ q.log2 = 2 ^ 52 * 2 ^ j := by rw [← Nat.pow_add, show 52 + j = q.log2 by omega]
      _ ≤ q / 2 ^ j * 2 ^ j := Nat.mul_le_mul_right _ leading
      _ ≤ _ := Nat.mul_le_mul_right _ (quotient ▸ le_roundHalfEven _ _)
  generalize roundHalfEven (a * stepsPerOne) (b * 2 ^ j) * 2 ^ j = steps at top
  have present : steps ≠ 0 := by
    have := Nat.two_pow_pos q.log2
    omega
  have unfit : ¬ FitsDouble steps := fun fits => by
    have high := (Nat.le_log2 present).mpr top
    have low := fits.1
    omega
  rw [ofSteps?, dif_neg unfit]

end Magnitude

namespace Decimal

/-- The value of a decimal is the fraction of its numerator and its denominator. -/
def numerator (d : Decimal) : Nat := d.digits * 10 ^ d.exponent.toNat

def denominator (d : Decimal) : Nat := 10 ^ (-d.exponent).toNat

theorem denominator_pos (d : Decimal) : 0 < d.denominator := Nat.pow_pos (by decide)

theorem numerator_of_places (digits places : Nat) : (⟨digits, -(places : Int)⟩ : Decimal).numerator = digits := by
  simp [numerator]

theorem denominator_of_places (digits places : Nat) :
    (⟨digits, -(places : Int)⟩ : Decimal).denominator = 5 ^ places * 2 ^ places := by
  simp [denominator, ← Nat.mul_pow]

/-- What a decimal is rounded to is the size nearest to its value, also where it is settled without a power of ten. -/
theorem magnitude?_eq_nearest? (d : Decimal) : d.magnitude? = Magnitude.nearest? d.numerator d.denominator := by
  unfold magnitude?
  by_cases zero : d.digits = 0
  · have nothing : d.numerator = 0 := by rw [numerator, zero, Nat.zero_mul]
    rw [if_pos zero, nothing, Magnitude.nearest?_eq_zero]
    rw [Nat.zero_mul]
    exact d.denominator_pos
  · rw [if_neg zero]
    by_cases large : 400 < d.exponent
    · rw [if_pos large]
      have power : 1024 ≤ 3 * d.exponent.toNat := by omega
      refine (Magnitude.nearest?_eq_none d.denominator_pos power ?_).symm
      have whole : d.denominator = 1 := by
        rw [denominator, show (-d.exponent).toNat = 0 by omega, Nat.pow_zero]
      calc d.denominator * 2 ^ (3 * d.exponent.toNat) = 2 ^ (3 * d.exponent.toNat) := by rw [whole, Nat.one_mul]
        _ ≤ 10 ^ d.exponent.toNat := by
          rw [Nat.pow_mul]
          exact Nat.pow_le_pow_left (by decide) _
        _ ≤ d.numerator := Nat.le_mul_of_pos_left _ (Nat.pos_of_ne_zero zero)
    · rw [if_neg large]
      by_cases small : d.exponent + d.digits.log2 < -400
      · rw [if_pos small]
        refine (Magnitude.nearest?_eq_zero ?_).symm
        have whole : d.numerator = d.digits := by
          rw [numerator, show d.exponent.toNat = 0 by omega, Nat.pow_zero, Nat.mul_one]
        have power : d.digits.log2 + 1 + 1074 + 1 ≤ 3 * (-d.exponent).toNat := by omega
        calc 2 * (d.numerator * stepsPerOne) < 2 * (2 ^ (d.digits.log2 + 1) * stepsPerOne) := by
              rw [whole, Nat.mul_lt_mul_left (by decide)]
              exact Nat.mul_lt_mul_of_pos_right Nat.lt_log2_self stepsPerOne_pos
          _ = 2 ^ (d.digits.log2 + 1 + 1074 + 1) := by rw [stepsPerOne, ← Nat.pow_add, ← Nat.pow_succ']
          _ ≤ 2 ^ (3 * (-d.exponent).toNat) := Nat.pow_le_pow_right (by decide) power
          _ ≤ d.denominator := by
            rw [Nat.pow_mul]
            exact Nat.pow_le_pow_left (by decide) _
      · rw [if_neg small]
        rfl

end Decimal

namespace Magnitude

/-- The shortest decimal of a size is rounded to it, also where no short decimal is found. -/
theorem magnitude?_shortest (m : Magnitude) : m.shortest.magnitude? = some m := by
  unfold shortest
  by_cases none : m.steps = 0
  · obtain ⟨steps, fits⟩ := m
    cases none
    rfl
  · rw [if_neg none]
    cases found : (List.range 17).findSome? fun (n : Nat) =>
        (m.neighbours (m.scale - (n + 1))).find? (·.magnitude? = some m) with
    | some d =>
      obtain ⟨n, -, tried⟩ := List.exists_of_findSome?_eq_some found
      simpa using List.find?_some tried
    | none =>
      rw [Option.getD_none, Decimal.magnitude?_eq_nearest?, ← nearest?_steps m]
      refine nearest?_congr (Decimal.denominator_pos _) stepsPerOne_pos ?_
      have exact : m.exactDecimal = ⟨m.steps * 5 ^ 1074, -((1074 : Nat) : Int)⟩ := rfl
      rw [exact, Decimal.numerator_of_places, Decimal.denominator_of_places, stepsPerOne, Nat.mul_assoc]

end Magnitude

/-- A number of steps has at most 53 significant bits. -/
def IsPrecise (steps : Nat) : Prop := steps % 2 ^ (steps.log2 - 52) = 0

/-- The significant bits of a number of steps. -/
def significand (steps : Nat) : Nat := steps / 2 ^ (steps.log2 - 52)

/-- The rational number that some steps make. -/
def ofSteps (steps : Nat) : ℚ := steps / stepsPerOne

/-- Some steps are the rounding of a rational number to 53 significant bits, however large it is. -/
structure IsRounding (x : ℚ) (steps : Nat) : Prop where
  precise : IsPrecise steps
  nearest : ∀ other, IsPrecise other → |x - ofSteps steps| ≤ |x - ofSteps other|
  even : ∀ other, IsPrecise other → other ≠ steps → |x - ofSteps steps| = |x - ofSteps other| →
    significand steps % 2 = 0

/-! ## Numbers of few bits -/

theorem log2_mul_two_pow {n : Nat} (nonzero : n ≠ 0) (k : Nat) : (n * 2 ^ k).log2 = n.log2 + k := by
  have product : n * 2 ^ k ≠ 0 := Nat.mul_ne_zero nonzero (Nat.ne_of_gt (Nat.two_pow_pos k))
  rw [Nat.log2_eq_iff product, Nat.pow_add, Nat.add_right_comm, Nat.pow_add]
  exact ⟨Nat.mul_le_mul_right _ (Nat.log2_self_le nonzero), Nat.mul_lt_mul_of_pos_right Nat.lt_log2_self (Nat.two_pow_pos k)⟩

theorem isPrecise_mul {n : Nat} (small : n ≤ 2 ^ 53) (k : Nat) : IsPrecise (n * 2 ^ k) := by
  have short {n : Nat} (small : n < 2 ^ 53) (k : Nat) : IsPrecise (n * 2 ^ k) := by
    by_cases zero : n = 0
    · simp [IsPrecise, zero]
    · have bits : n.log2 < 53 := (Nat.log2_lt zero).mpr small
      rw [IsPrecise, log2_mul_two_pow zero]
      apply Nat.mod_eq_zero_of_dvd
      exact Nat.dvd_mul_left_of_dvd (Nat.pow_dvd_pow 2 (by omega)) n
  rcases Nat.lt_or_eq_of_le small with less | rfl
  · exact short less k
  · rw [Nat.pow_succ, Nat.mul_assoc, ← Nat.pow_succ']
    exact short (by decide) (k + 1)

/-- A number that is shifted only if it fills 53 bits is its own significand. -/
theorem significand_mul {n k : Nat} (small : n < 2 ^ 53) (full : k = 0 ∨ 2 ^ 52 ≤ n) : significand (n * 2 ^ k) = n := by
  by_cases zero : n = 0
  · simp [significand, zero]
  · have bits : n.log2 < 53 := (Nat.log2_lt zero).mpr small
    have shift : n.log2 + k - 52 = k := by
      rcases full with rfl | full
      · omega
      · have := (Nat.le_log2 zero).mpr full
        omega
    rw [significand, log2_mul_two_pow zero, shift, Nat.mul_div_cancel _ (Nat.two_pow_pos k)]

theorem significand_two_pow (k : Nat) : significand (2 ^ 53 * 2 ^ k) = 2 ^ 52 := by
  rw [Nat.pow_succ, Nat.mul_assoc, ← Nat.pow_succ']
  exact significand_mul (by decide) (.inr (Nat.le_refl _))

/-- A number of few bits is its significand, shifted. -/
theorem IsPrecise.eq_mul {s : Nat} (h : IsPrecise s) : s = significand s * 2 ^ (s.log2 - 52) :=
  (Nat.div_mul_cancel (Nat.dvd_of_mod_eq_zero h)).symm

theorem significand_lt (s : Nat) : significand s < 2 ^ 53 := by
  rw [significand, Nat.div_lt_iff_lt_mul (Nat.two_pow_pos _), ← Nat.pow_add]
  exact Nat.lt_of_lt_of_le Nat.lt_log2_self (Nat.pow_le_pow_right (by decide) (by omega))

theorem significand_full (s : Nat) : s.log2 - 52 = 0 ∨ 2 ^ 52 ≤ significand s := by
  by_cases short : s.log2 ≤ 52
  · exact .inl (by omega)
  · right
    have nonzero : s ≠ 0 := by
      rintro rfl
      simp at short
    rw [significand, Nat.le_div_iff_mul_le (Nat.two_pow_pos _), ← Nat.pow_add, show 52 + (s.log2 - 52) = s.log2 by omega]
    exact Nat.log2_self_le nonzero

/-- A number of few bits is a multiple of a power of two, or too small to be one. -/
theorem IsPrecise.multiple_or_lt {s : Nat} (h : IsPrecise s) (k : Nat) : (∃ n, s = n * 2 ^ k) ∨ 0 < k ∧ s < 2 ^ 52 * 2 ^ k := by
  by_cases long : k ≤ s.log2 - 52
  · left
    refine ⟨significand s * 2 ^ (s.log2 - 52 - k), ?_⟩
    rw [Nat.mul_assoc, ← Nat.pow_add, Nat.sub_add_cancel long]
    exact h.eq_mul
  · right
    refine ⟨by omega, Nat.lt_of_lt_of_le Nat.lt_log2_self ?_⟩
    rw [← Nat.pow_add]
    exact Nat.pow_le_pow_right (by decide) (by omega)

/-- Rounding goes to a nearest integer, and to an even one from the middle. -/
theorem roundHalfEven_near {a b : Nat} (positive : 0 < b) : |(a : ℚ) / b - roundHalfEven a b| ≤ 1 / 2 ∧
    (|(a : ℚ) / b - roundHalfEven a b| = 1 / 2 → roundHalfEven a b % 2 = 0) := by
  have positive' : (0 : ℚ) < b := by exact_mod_cast positive
  have parts : (a : ℚ) = b * (a / b : Nat) + (a % b : Nat) := by exact_mod_cast (Nat.div_add_mod a b).symm
  have below := Nat.mod_lt a positive
  rw [roundHalfEven]
  generalize a / b = q at *
  generalize a % b = r at *
  have whole : (a : ℚ) / b = q + (r : ℚ) / b := by
    rw [parts]
    field_simp
  have half : (r : ℚ) / b ≤ 1 / 2 ↔ 2 * r ≤ b := by
    rw [div_le_div_iff₀ positive' two_pos, one_mul, mul_comm]
    exact_mod_cast Iff.rfl
  have middle : (r : ℚ) / b = 1 / 2 ↔ 2 * r = b := by
    rw [div_eq_div_iff positive'.ne' two_ne_zero, one_mul, mul_comm]
    exact_mod_cast Iff.rfl
  split
  · rename_i down
    have near : |(a : ℚ) / b - q| = r / b := by
      rw [whole, add_sub_cancel_left, abs_of_nonneg (by positivity)]
    rw [near, half, middle]
    omega
  · rename_i up
    have near : |(a : ℚ) / b - (q + 1 : Nat)| = 1 - r / b := by
      have : (r : ℚ) / b < 1 := (div_lt_one positive').mpr (by exact_mod_cast below)
      rw [whole, abs_of_nonpos (by push_cast; linarith)]
      push_cast
      ring
    have atLeast : 1 / 2 ≤ (r : ℚ) / b := by
      rw [div_le_div_iff₀ two_pos positive', one_mul, mul_comm]
      exact_mod_cast (by omega : b ≤ 2 * r)
    refine ⟨by rw [near]; linarith, fun tie => ?_⟩
    have even := middle.mp (by rw [near] at tie; linarith)
    omega

-- An integer that is at most a half away is a nearest one, and one as near is its neighbour.
private theorem nearest_of_half {z : ℚ} {r n : Nat} (near : |z - r| ≤ 1 / 2) (other : n ≠ r) :
    |z - r| ≤ |z - n| ∧ (|z - r| = |z - n| → |z - r| = 1 / 2) := by
  have apart : (1 : ℚ) ≤ |(n : ℚ) - r| := by
    have apart : (1 : ℤ) ≤ |(n : ℤ) - r| := Int.one_le_abs (by omega)
    exact_mod_cast apart
  have triangle : |(n : ℚ) - r| ≤ |z - n| + |z - r| := by
    have := abs_sub_le (n : ℚ) z r
    rwa [abs_sub_comm (n : ℚ) z] at this
  constructor
  · linarith
  · intro equal
    linarith

section
variable {x : ℚ} {r k : Nat}

private theorem abs_sub_ofSteps (x : ℚ) (steps : Nat) : |x - ofSteps steps| = |x * stepsPerOne - steps| / stepsPerOne := by
  have positive : (0 : ℚ) < stepsPerOne := by exact_mod_cast stepsPerOne_pos
  rw [ofSteps, eq_div_iff positive.ne', ← abs_of_pos positive, ← abs_mul, abs_of_pos positive, sub_mul,
    div_mul_cancel₀ _ positive.ne']

private theorem abs_sub_mul (w : ℚ) (n k : Nat) :
    |w - (n * 2 ^ k : Nat)| = (2 ^ k : Nat) * |w / (2 ^ k : Nat) - n| := by
  have positive : (0 : ℚ) < (2 ^ k : Nat) := by exact_mod_cast Nat.two_pow_pos k
  rw [← abs_of_pos positive, ← abs_mul, abs_of_pos positive, mul_sub, mul_div_cancel₀ _ positive.ne']
  push_cast
  ring_nf

-- Among the numbers of few bits, a nearest multiple of the right power of two is a nearest number.
private theorem nearest_of_multiple {w : ℚ} (near : |w / (2 ^ k : Nat) - r| ≤ 1 / 2)
    (full : k = 0 ∨ ((2 ^ 52 * 2 ^ k : Nat) : ℚ) ≤ w) {other : Nat} (precise : IsPrecise other) (apart : other ≠ r * 2 ^ k) :
    |w - (r * 2 ^ k : Nat)| ≤ |w - other| ∧
      (|w - (r * 2 ^ k : Nat)| = |w - other| → |w / (2 ^ k : Nat) - r| = 1 / 2) := by
  have positive : (0 : ℚ) < (2 ^ k : Nat) := by exact_mod_cast Nat.two_pow_pos k
  have multiple {n : Nat} (apart : n ≠ r) : |w - (r * 2 ^ k : Nat)| ≤ |w - (n * 2 ^ k : Nat)| ∧
      (|w - (r * 2 ^ k : Nat)| = |w - (n * 2 ^ k : Nat)| → |w / (2 ^ k : Nat) - r| = 1 / 2) := by
    obtain ⟨nearest, tie⟩ := nearest_of_half near apart
    rw [abs_sub_mul, abs_sub_mul]
    exact ⟨mul_le_mul_of_nonneg_left nearest positive.le, fun same => tie (mul_left_cancel₀ positive.ne' same)⟩
  rcases precise.multiple_or_lt k with ⟨n, rfl⟩ | ⟨shifted, small⟩
  · exact multiple (by rintro rfl; exact apart rfl)
  · -- a number between two multiples is below all that fill 53 bits, and the least of those is nearer
    have least : ((2 ^ 52 * 2 ^ k : Nat) : ℚ) ≤ w := full.resolve_left (Nat.ne_of_gt shifted)
    have below : (other : ℚ) < (2 ^ 52 * 2 ^ k : Nat) := by exact_mod_cast small
    have bound : |w - (r * 2 ^ k : Nat)| ≤ |w - (2 ^ 52 * 2 ^ k : Nat)| := by
      by_cases same : 2 ^ 52 = r
      · rw [same]
      · exact (multiple same).1
    rw [abs_of_nonneg (by linarith : (0 : ℚ) ≤ w - (2 ^ 52 * 2 ^ k : Nat))] at bound
    have far : |w - other| = w - other := abs_of_nonneg (by linarith)
    rw [far]
    refine ⟨by linarith, fun tie => ?_⟩
    linarith

theorem isRounding_of_half (near : |x * stepsPerOne / (2 ^ k : Nat) - r| ≤ 1 / 2)
    (tie : |x * stepsPerOne / (2 ^ k : Nat) - r| = 1 / 2 → r % 2 = 0)
    (below : x * stepsPerOne < (2 ^ 53 * 2 ^ k : Nat)) (full : k = 0 ∨ ((2 ^ 52 * 2 ^ k : Nat) : ℚ) ≤ x * stepsPerOne) :
    IsRounding x (r * 2 ^ k) := by
  have power : (0 : ℚ) < (2 ^ k : Nat) := by exact_mod_cast Nat.two_pow_pos k
  have steps : (0 : ℚ) < stepsPerOne := by exact_mod_cast stepsPerOne_pos
  have below' : x * stepsPerOne / (2 ^ k : Nat) < (2 ^ 53 : Nat) := by
    rw [div_lt_iff₀ power]
    exact_mod_cast below
  have full' : k = 0 ∨ ((2 ^ 52 : Nat) : ℚ) ≤ x * stepsPerOne / (2 ^ k : Nat) := by
    rw [le_div_iff₀ power]
    exact_mod_cast full
  have close := abs_le.mp near
  have small : r ≤ 2 ^ 53 := by
    generalize x * stepsPerOne / (2 ^ k : Nat) = z at close below'
    have bound : (r : ℚ) < (2 ^ 53 : Nat) + 1 := by linarith
    exact Nat.le_of_lt_succ (by exact_mod_cast bound)
  have large : k = 0 ∨ 2 ^ 52 ≤ r := by
    refine full'.imp_right fun least => ?_
    generalize x * stepsPerOne / (2 ^ k : Nat) = z at close least
    have bound : ((2 ^ 52 : Nat) : ℚ) < r + 1 := by linarith
    exact Nat.le_of_lt_succ (by exact_mod_cast bound)
  refine ⟨isPrecise_mul small k, fun other precise => ?_, fun other precise apart same => ?_⟩
  · by_cases apart : other = r * 2 ^ k
    · rw [apart]
    · rw [abs_sub_ofSteps, abs_sub_ofSteps]
      exact div_le_div_of_nonneg_right (nearest_of_multiple near full precise apart).1 steps.le
  · rw [abs_sub_ofSteps, abs_sub_ofSteps, div_left_inj' steps.ne'] at same
    have even := tie ((nearest_of_multiple near full precise apart).2 same)
    rcases Nat.lt_or_eq_of_le small with less | rfl
    · rw [significand_mul less large]
      exact even
    · rw [significand_two_pow]
      decide

end

theorem ofSteps_lt {s t : Nat} (less : s < t) : ofSteps s < ofSteps t := by
  have positive : (0 : ℚ) < stepsPerOne := by exact_mod_cast stepsPerOne_pos
  exact div_lt_div_of_pos_right (by exact_mod_cast less) positive

theorem ofSteps_le {s t : Nat} (atMost : s ≤ t) : ofSteps s ≤ ofSteps t := by
  rcases Nat.lt_or_eq_of_le atMost with less | rfl
  · exact (ofSteps_lt less).le
  · exact le_rfl

private theorem nearer_of_between {x low between high : ℚ} (middle : |x - low| = |x - high|) (above : low < between)
    (below : between < high) : |x - between| < |x - low| := by
  have sum : x - low = high - x := by
    rcases abs_eq_abs.mp middle with same | opposite <;> linarith
  rw [abs_of_nonneg (by linarith : 0 ≤ x - low), abs_lt]
  constructor <;> linarith

/-- A rational number has one rounding. -/
theorem IsRounding.unique {x : ℚ} {s t : Nat} (first : IsRounding x s) (second : IsRounding x t) : s = t := by
  have apart {s t : Nat} (first : IsRounding x s) (second : IsRounding x t) : ¬ s < t := by
    intro less
    have same := le_antisymm (first.nearest t second.precise) (second.nearest s first.precise)
    have even := first.even t second.precise (by omega) same
    have even' := second.even s first.precise (by omega) same.symm
    have small := significand_lt s
    have full := significand_full s
    have written := first.precise.eq_mul
    generalize s.log2 - 52 = k at *
    generalize significand s = n at *
    obtain ⟨j, rfl⟩ : ∃ j, t = j * 2 ^ k := by
      refine (second.precise.multiple_or_lt k).resolve_right ?_
      rintro ⟨shifted, low⟩
      have high : 2 ^ 52 * 2 ^ k ≤ n * 2 ^ k := Nat.mul_le_mul_right _ (full.resolve_left (by omega))
      omega
    have greater : n < j := Nat.lt_of_mul_lt_mul_right (written ▸ less)
    -- nothing lies between the two, so that the greater one has the next significand
    have next : j = n + 1 := by
      by_contra other
      have above : s < (n + 1) * 2 ^ k := by
        rw [written]
        exact Nat.mul_lt_mul_of_pos_right (Nat.lt_succ_self n) (Nat.two_pow_pos k)
      have below : (n + 1) * 2 ^ k < j * 2 ^ k := Nat.mul_lt_mul_of_pos_right (by omega) (Nat.two_pow_pos k)
      have nearer := nearer_of_between same (ofSteps_lt above) (ofSteps_lt below)
      exact absurd (first.nearest _ (isPrecise_mul small k)) (not_le.mpr nearer)
    rw [next, significand_mul (by omega) (full.imp_right (Nat.le_add_right_of_le ·))] at even'
    omega
  have := apart first second
  have := apart second first
  omega

/-- Half way between the numbers below a power of two and that power. -/
def middleBelow (k : Nat) : ℚ := (ofSteps ((2 ^ 53 - 1) * 2 ^ k) + ofSteps (2 ^ 53 * 2 ^ k)) / 2

/-- Half way between the greatest double and the number that would be the next one. -/
def overflow : ℚ := middleBelow 2045

theorem log2_lt_iff {s k : Nat} : s.log2 < 53 + k ↔ s < 2 ^ 53 * 2 ^ k := by
  rw [← Nat.pow_add]
  by_cases zero : s = 0
  · rw [zero, Nat.log2_zero]
    exact ⟨fun _ => Nat.two_pow_pos _, fun _ => by omega⟩
  · exact Nat.log2_lt zero

theorem IsPrecise.le_of_lt {s k : Nat} (h : IsPrecise s) (less : s < 2 ^ 53 * 2 ^ k) : s ≤ (2 ^ 53 - 1) * 2 ^ k := by
  have bits := log2_lt_iff.mpr less
  rw [h.eq_mul]
  exact Nat.mul_le_mul (Nat.le_sub_one_of_lt (significand_lt s)) (Nat.pow_le_pow_right (by decide) (by omega))

/-- A number is rounded to one below a power of two exactly when it is less than half way away. -/
theorem IsRounding.lt_iff {x : ℚ} {s : Nat} (h : IsRounding x s) (k : Nat) :
    s < 2 ^ 53 * 2 ^ k ↔ x < middleBelow k := by
  have preciseLow : IsPrecise ((2 ^ 53 - 1) * 2 ^ k) := isPrecise_mul (by decide) k
  have preciseHigh : IsPrecise (2 ^ 53 * 2 ^ k) := isPrecise_mul (Nat.le_refl _) k
  have power := Nat.two_pow_pos k
  have gap := ofSteps_lt (Nat.mul_lt_mul_of_pos_right (by decide : 2 ^ 53 - 1 < 2 ^ 53) power)
  have odd : significand ((2 ^ 53 - 1) * 2 ^ k) = 2 ^ 53 - 1 := significand_mul (by decide) (.inr (by decide))
  have atMost := h.precise.le_of_lt (k := k)
  rw [middleBelow]
  generalize 2 ^ 53 * 2 ^ k = high at *
  generalize (2 ^ 53 - 1) * 2 ^ k = low at *
  constructor
  · intro less
    by_contra beyond
    rw [not_lt] at beyond
    have below := ofSteps_le (atMost less)
    have far : |x - ofSteps s| = x - ofSteps s := abs_of_nonneg (by linarith)
    have close : |x - ofSteps high| ≤ x - ofSteps low := abs_le.mpr ⟨by linarith, by linarith⟩
    have nearest := h.nearest high preciseHigh
    have last : s = low := by
      refine Nat.le_antisymm (atMost less) (Nat.le_of_not_lt fun smaller => ?_)
      have := ofSteps_lt smaller
      linarith
    have even := h.even high preciseHigh (Nat.ne_of_gt less) (le_antisymm nearest (by linarith))
    rw [last, odd] at even
    exact absurd even (by decide)
  · intro less
    by_contra notBelow
    have above := ofSteps_le (Nat.le_of_not_lt notBelow)
    have far : |x - ofSteps s| = ofSteps s - x := by
      rw [abs_sub_comm]
      exact abs_of_nonneg (by linarith)
    have close : |x - ofSteps low| < ofSteps s - x := abs_lt.mpr ⟨by linarith, by linarith⟩
    have nearest := h.nearest low preciseLow
    linarith

theorem fitsDouble_iff {s : Nat} (h : IsPrecise s) : FitsDouble s ↔ s < 2 ^ 53 * 2 ^ 2045 := by
  rw [← log2_lt_iff]
  exact ⟨fun fits => fits.1, fun less => ⟨less, h⟩⟩

namespace Magnitude

/-- Rounding a fraction in steps gives its rounding as a rational number, and that is a double unless it is too large. -/
theorem nearest?_eq_ofSteps? {a b : Nat} (positive : 0 < b) :
    ∃ steps, IsRounding ((a : ℚ) / b) steps ∧ nearest? a b = ofSteps? steps := by
  refine ⟨_, ?_, rfl⟩
  have positive' : (0 : ℚ) < b := by exact_mod_cast positive
  generalize quotient : a * stepsPerOne / b = q
  generalize shift : q.log2 - 52 = k
  have power : (0 : ℚ) < (2 ^ k : Nat) := by exact_mod_cast Nat.two_pow_pos k
  have scaled : (a : ℚ) / b * stepsPerOne = ((a * stepsPerOne : Nat) : ℚ) / b := by
    push_cast
    rw [div_mul_eq_mul_div]
  have shifted : (a : ℚ) / b * stepsPerOne / (2 ^ k : Nat) = ((a * stepsPerOne : Nat) : ℚ) / ((b * 2 ^ k : Nat) : ℚ) := by
    rw [scaled, div_div]
    push_cast
    rfl
  obtain ⟨near, tie⟩ := roundHalfEven_near (a := a * stepsPerOne) (Nat.mul_pos positive (Nat.two_pow_pos k))
  rw [← shifted] at near tie
  refine isRounding_of_half near tie ?_ ?_
  · rw [scaled, div_lt_iff₀ positive']
    have : a * stepsPerOne < 2 ^ 53 * 2 ^ k * b := by
      rw [← Nat.div_lt_iff_lt_mul positive, quotient, ← Nat.pow_add]
      exact Nat.lt_of_lt_of_le Nat.lt_log2_self (Nat.pow_le_pow_right (by decide) (by omega))
    exact_mod_cast this
  · by_cases short : k = 0
    · exact .inl short
    · right
      have nonzero : q ≠ 0 := by
        rintro rfl
        simp at shift
        omega
      rw [scaled, le_div_iff₀ positive']
      have : 2 ^ 52 * 2 ^ k * b ≤ a * stepsPerOne := by
        rw [← Nat.le_div_iff_mul_le positive, quotient, ← Nat.pow_add, show 52 + k = q.log2 by omega]
        exact Nat.log2_self_le nonzero
      exact_mod_cast this

/-- The nearest double of a fraction is the rounding of the rational number. -/
theorem nearest?_eq_some_iff {a b : Nat} (positive : 0 < b) {m : Magnitude} :
    nearest? a b = some m ↔ IsRounding ((a : ℚ) / b) m.steps := by
  obtain ⟨steps, rounding, nearest⟩ := nearest?_eq_ofSteps? positive (a := a)
  rw [nearest, ofSteps?]
  constructor
  · split
    · rintro ⟨⟩
      exact rounding
    · rintro ⟨⟩
  · intro other
    obtain rfl := rounding.unique other
    exact ofSteps?_steps m

/-- A fraction has a nearest double exactly when it is below the end of their range. -/
theorem exists_isRounding_iff {a b : Nat} (positive : 0 < b) :
    (∃ m : Magnitude, IsRounding ((a : ℚ) / b) m.steps) ↔ (a : ℚ) / b < overflow := by
  obtain ⟨steps, rounding, -⟩ := nearest?_eq_ofSteps? positive (a := a)
  rw [overflow, ← rounding.lt_iff, ← fitsDouble_iff rounding.precise]
  constructor
  · rintro ⟨m, same⟩
    rw [rounding.unique same]
    exact m.fits
  · exact fun fits => ⟨⟨steps, fits⟩, rounding⟩

end Magnitude
end Criteria.Number
