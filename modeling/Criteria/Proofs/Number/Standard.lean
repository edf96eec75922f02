import Criteria.Proofs.Number.Nearest
import Criteria.Proofs.Number.Numeral

/-!
# What decimals denote

A decimal text denotes a sign and a rational number. The standard form in which it is handed on denotes the same
two, so that the double that is read is the one nearest to what the text denotes. A decimal that is written with
its point in place is read as a decimal of the same value.
-/

namespace Criteria

namespace Text

theorem digitsValue_append (t u : Text) : digitsValue (t ++ u) = digitsValue t * 10 ^ u.length + digitsValue u := by
  rw [digitsValue, Nat.ofDigitChars_append, Nat.ofDigitChars_eq_ofDigitChars_zero, Nat.mul_comm]
  rfl

theorem digitsValue_zeros (k : Nat) : digitsValue (List.replicate k '0') = 0 := Nat.ofDigitChars_replicate_zero

theorem digitsValue_append_zeros (t : Text) (k : Nat) :
    digitsValue (t ++ List.replicate k '0') = digitsValue t * 10 ^ k := by
  rw [digitsValue_append, digitsValue_zeros, List.length_replicate, Nat.add_zero]

theorem digitsValue_zeros_append (k : Nat) (t : Text) :
    digitsValue (List.replicate k '0' ++ t) = digitsValue t := by
  rw [digitsValue_append, digitsValue_zeros, Nat.zero_mul, Nat.zero_add]

/-- The zeros at the end of a text can be written apart. -/
theorem exists_zeros (t : Text) :
    ∃ k, t = (t.reverse.dropWhile (· = '0')).reverse ++ List.replicate k '0' := by
  have zeros : t.reverse.takeWhile (· = '0') = List.replicate (t.reverse.takeWhile (· = '0')).length '0' := by
    rw [List.eq_replicate_iff]
    refine ⟨rfl, fun c member => ?_⟩
    simpa using List.all_eq_true.mp List.all_takeWhile c member
  refine ⟨(t.reverse.takeWhile (· = '0')).length, ?_⟩
  rw [← List.reverse_replicate, ← zeros, ← List.reverse_append, List.takeWhile_append_dropWhile, List.reverse_reverse]

end Text

namespace Number

/-- Digits with a point between them are a decimal. -/
theorem decimal?_point (negative : Bool) {whole fraction : Text} (nonempty : whole ≠ [])
    (wholeDigits : ∀ c ∈ whole, c.isDigit) (fractionDigits : ∀ c ∈ fraction, c.isDigit) :
    decimal? ((if negative then ['-'] else []) ++ (whole ++ '.' :: fraction)) =
      some (negative, ⟨Text.digitsValue (whole ++ fraction), -(fraction.length : Int)⟩) := by
  have written := DecimalText.intro (.ofBool negative) (.point ⟨nonempty, wholeDigits⟩ fractionDigits) .none
  rw [List.append_nil] at written
  exact decimal?_eq_some_iff.mpr ⟨whole, fraction, 0, written, by rw [Int.zero_sub]⟩

/-! ## Decimals with a point in place -/

namespace Decimal

/-- Two decimals with one value. -/
def SameValue (d e : Decimal) : Prop := d.numerator * e.denominator = e.numerator * d.denominator

/-- Some digits with a point have the value of a decimal. -/
private def Spells (d : Decimal) (whole fraction : Text) : Prop :=
  whole ≠ [] ∧ (∀ c ∈ whole, c.isDigit) ∧ (∀ c ∈ fraction, c.isDigit) ∧
    d.SameValue ⟨Text.digitsValue (whole ++ fraction), -(fraction.length : Int)⟩

private theorem isDigit_replicate (k : Nat) : ∀ c ∈ List.replicate k '0', c.isDigit := by
  intro c member
  rw [(List.mem_replicate.mp member).2]
  decide

private theorem sameValue_of_places {d : Decimal} {value k j places : Nat} (digits : d.digits = value * 10 ^ k)
    (size : (k : Int) + d.exponent = (j : Int) - places) : d.SameValue ⟨value * 10 ^ j, -(places : Int)⟩ := by
  have powers : k + d.exponent.toNat + places = j + (-d.exponent).toNat := by omega
  have right : (-(-(places : Int))).toNat = places := by omega
  have left : (-(places : Int)).toNat = 0 := by omega
  simp only [SameValue, numerator, denominator, digits, left, right]
  rw [Nat.mul_assoc, Nat.mul_assoc, Nat.mul_assoc, Nat.mul_assoc, ← Nat.pow_add, ← Nat.pow_add, ← Nat.pow_add,
    ← Nat.pow_add, ← Nat.add_assoc, powers, Nat.zero_add]

private theorem exists_spelling (d : Decimal) :
    ∃ (front : Text) (k : Nat), Text.ofNat d.digits = front ++ List.replicate k '0' ∧
      d.spelling = (front, (front.length : Int) + k + d.exponent) := by
  obtain ⟨k, zeros⟩ := Text.exists_zeros (Text.ofNat d.digits)
  refine ⟨_, k, zeros, ?_⟩
  have length := congrArg List.length zeros
  rw [List.length_append, List.length_replicate] at length
  rw [spelling]
  simp only [Prod.mk.injEq, true_and]
  omega

section

variable {d : Decimal} {front : Text} {k : Nat} {p : Int} (isDigit : ∀ c ∈ front, c.isDigit)
  (digits : d.digits = Text.digitsValue front * 10 ^ k) (point : (front.length : Int) + k + d.exponent = p)

include digits in
private theorem spells_zero (none : front = []) : d.Spells ['0'] ['0'] := by
  refine ⟨by simp, by decide, by decide, ?_⟩
  have zero : d.digits = 0 := by rw [digits, none]; simp [Text.digitsValue]
  have value : Text.digitsValue ['0', '0'] = 0 := by decide
  simp [SameValue, numerator, zero, value]

include isDigit digits point

private theorem spells_of_nonpos (small : p ≤ 0) : d.Spells ['0'] (List.replicate (-p).toNat '0' ++ front) := by
  refine ⟨by simp, by decide, fun c member => ?_, ?_⟩
  · exact (List.mem_append.mp member).elim (isDigit_replicate _ c) (isDigit c)
  · have value : Text.digitsValue (['0'] ++ (List.replicate (-p).toNat '0' ++ front)) =
        Text.digitsValue front * 10 ^ 0 := by
      rw [← List.append_assoc, show ['0'] ++ List.replicate (-p).toNat '0' = List.replicate ((-p).toNat + 1) '0' from
        rfl, Text.digitsValue_zeros_append, Nat.pow_zero, Nat.mul_one]
    rw [value]
    apply sameValue_of_places digits
    simp
    omega

private theorem spells_of_lt (positive : 0 < p) (inside : p < front.length) :
    d.Spells (front.take p.toNat) (front.drop p.toNat) := by
  refine ⟨fun none => ?_, fun c member => isDigit c (List.mem_of_mem_take member),
    fun c member => isDigit c (List.mem_of_mem_drop member), ?_⟩
  · have size : (front.take p.toNat).length = 0 := by rw [none]; rfl
    rw [List.length_take] at size
    omega
  · rw [List.take_append_drop, ← Nat.mul_one (Text.digitsValue front), ← Nat.pow_zero 10]
    apply sameValue_of_places digits
    simp
    omega

private theorem spells_of_le (positive : 0 < p) (large : front.length ≤ p) :
    d.Spells (front ++ List.replicate (p.toNat - front.length) '0') ['0'] := by
  refine ⟨fun none => ?_, fun c member => ?_, by decide, ?_⟩
  · have size : (front ++ List.replicate (p.toNat - front.length) '0').length = 0 := by rw [none]; rfl
    rw [List.length_append, List.length_replicate] at size
    omega
  · exact (List.mem_append.mp member).elim (isDigit c) (isDigit_replicate _ c)
  · rw [List.append_assoc, ← List.replicate_succ', Text.digitsValue_append_zeros]
    apply sameValue_of_places digits
    simp
    omega

end

/-- A decimal is written as digits with a point between them that have its value. -/
theorem exists_positional (d : Decimal) :
    ∃ whole fraction, d.positional = whole ++ '.' :: fraction ∧ d.Spells whole fraction := by
  obtain ⟨front, k, zeros, spelled⟩ := exists_spelling d
  have isDigit : ∀ c ∈ front, c.isDigit := by
    intro c member
    exact (Text.isDigits_ofNat d.digits).2 c (by rw [zeros]; exact List.mem_append_left _ member)
  have digits : d.digits = Text.digitsValue front * 10 ^ k := by
    rw [← Text.digitsValue_append_zeros, ← zeros, Text.digitsValue_ofNat]
  unfold positional
  rw [spelled]
  dsimp only
  generalize point : (front.length : Int) + k + d.exponent = p
  split_ifs with small none inside
  · exact ⟨['0'], ['0'], rfl, spells_zero digits none⟩
  · exact ⟨['0'], _, rfl, spells_of_nonpos isDigit digits point small⟩
  · exact ⟨_, _, rfl, spells_of_lt isDigit digits point (by omega) inside⟩
  · exact ⟨_, ['0'], by simp, spells_of_le isDigit digits point (by omega) (by omega)⟩

end Decimal

open Text (IsDigits digitsValue)

/-- The size of digits before and after a point, times a power of ten. -/
def sizeOf (whole fraction : Text) (exponent : Int) : ℚ :=
  (digitsValue whole + digitsValue fraction / 10 ^ fraction.length) * 10 ^ exponent

/-- A decimal text denotes a sign and a size. -/
def Denotes (t : Text) (negative : Bool) (size : ℚ) : Prop :=
  ∃ whole fraction exponent, DecimalText t negative whole fraction exponent ∧ size = sizeOf whole fraction exponent

/-! ## Decimals as rational numbers -/

namespace Decimal

/-- The rational number that a decimal is. -/
def value (d : Decimal) : ℚ := d.digits * 10 ^ d.exponent

theorem value_eq (d : Decimal) : d.value = (d.numerator : ℚ) / d.denominator := by
  obtain ⟨digits, exponent⟩ := d
  rw [value, numerator, denominator]
  dsimp only
  by_cases large : 0 ≤ exponent
  · obtain ⟨e, rfl⟩ := Int.eq_ofNat_of_zero_le large
    simp
  · obtain ⟨e, rfl⟩ : ∃ e : Nat, exponent = -e := ⟨(-exponent).toNat, by omega⟩
    have none : (-(e : Int)).toNat = 0 := by omega
    simp [none, div_eq_mul_inv]

theorem sameValue_iff {d e : Decimal} : d.SameValue e ↔ d.value = e.value := by
  have positive : (d.denominator : ℚ) ≠ 0 := by exact_mod_cast d.denominator_pos.ne'
  have positive' : (e.denominator : ℚ) ≠ 0 := by exact_mod_cast e.denominator_pos.ne'
  rw [value_eq, value_eq, div_eq_div_iff positive positive', SameValue]
  exact_mod_cast Iff.rfl

/-- The size of a decimal is the rounding of the rational number. -/
theorem magnitude?_eq_some_iff {d : Decimal} {m : Magnitude} : d.magnitude? = some m ↔ IsRounding d.value m.steps := by
  rw [magnitude?_eq_nearest?, Magnitude.nearest?_eq_some_iff d.denominator_pos, value_eq]

/-- A decimal is rounded to a double exactly when it is below the end of their range. -/
theorem exists_isRounding_iff (d : Decimal) : (∃ m : Magnitude, IsRounding d.value m.steps) ↔ d.value < overflow := by
  rw [value_eq]
  exact Magnitude.exists_isRounding_iff d.denominator_pos

end Decimal

/-- Digits without their point are a size that is smaller by the places behind it. -/
theorem value_eq_sizeOf (whole fraction : Text) (exponent : Int) :
    Decimal.value ⟨digitsValue (whole ++ fraction), exponent - fraction.length⟩ = sizeOf whole fraction exponent := by
  have ten : (10 : ℚ) ≠ 0 := by norm_num
  rw [Decimal.value, sizeOf, Text.digitsValue_append, zpow_sub₀ ten, zpow_natCast]
  push_cast
  field_simp

/-- What a text denotes is what it is read as. -/
theorem denotes_iff {t : Text} {negative : Bool} {size : ℚ} :
    Denotes t negative size ↔ ∃ d, decimal? t = some (negative, d) ∧ size = d.value := by
  constructor
  · rintro ⟨whole, fraction, exponent, written, rfl⟩
    exact ⟨_, decimal?_eq_some_iff.mpr ⟨whole, fraction, exponent, written, rfl⟩,
      (value_eq_sizeOf whole fraction exponent).symm⟩
  · rintro ⟨d, read, rfl⟩
    obtain ⟨whole, fraction, exponent, written, rfl⟩ := decimal?_eq_some_iff.mp read
    exact ⟨whole, fraction, exponent, written, value_eq_sizeOf whole fraction exponent⟩

/-- A text denotes one sign and one size. -/
theorem Denotes.unique {t : Text} {negative other : Bool} {size size' : ℚ} (first : Denotes t negative size)
    (second : Denotes t other size') : negative = other ∧ size = size' := by
  obtain ⟨d, read, rfl⟩ := denotes_iff.mp first
  obtain ⟨e, read', rfl⟩ := denotes_iff.mp second
  cases read.symm.trans read'
  exact ⟨rfl, rfl⟩

/-- What a text denotes has a nearest double exactly when it is below the end of their range. -/
theorem Denotes.exists_isRounding_iff {t : Text} {negative : Bool} {size : ℚ} (h : Denotes t negative size) :
    (∃ m : Magnitude, IsRounding size m.steps) ↔ size < overflow := by
  obtain ⟨d, -, rfl⟩ := denotes_iff.mp h
  exact d.exists_isRounding_iff

theorem Denotes.exists_digit {t : Text} {negative : Bool} {size : ℚ} (h : Denotes t negative size) :
    ∃ c ∈ t, c.isDigit := by
  obtain ⟨_, _, _, written, -⟩ := h
  exact written.exists_digit

theorem sizeOf_orZero (whole fraction : Text) (exponent : Int) :
    sizeOf (Numeral.orZero whole) (Numeral.orZero fraction) exponent = sizeOf whole fraction exponent := by
  have zero : digitsValue ['0'] = 0 := by decide
  have zero' : digitsValue [] = 0 := rfl
  have wholes : digitsValue (Numeral.orZero whole) = digitsValue whole := by
    rw [Numeral.orZero]
    split
    · rename_i none
      rw [none, zero, zero']
    · rfl
  rw [sizeOf, wholes, Numeral.orZero]
  split
  · rename_i none
    rw [none, zero, sizeOf, zero']
    simp
  · rfl

theorem isDigits_orZero {digits : Text} (h : ∀ c ∈ digits, c.isDigit) : IsDigits (Numeral.orZero digits) := by
  rw [Numeral.orZero]
  split
  · decide
  · exact ⟨‹_›, h⟩

/-- The standard form of a decimal text is a decimal text with the same sign and power, and with a zero where a side
    of the point has no digit. -/
theorem DecimalText.standardForm {t whole fraction : Text} {negative : Bool} {exponent : Int}
    (h : DecimalText t negative whole fraction exponent) :
    DecimalText (Numeral.ofText t).standardForm negative (Numeral.orZero whole) (Numeral.orZero fraction) exponent := by
  obtain ⟨isSign, isMantissa, powered⟩ := h
  have digits := isMantissa.isDigits.2
  have wholeDigits := isDigits_orZero fun c member => digits c (List.mem_append_left _ member)
  have fractionDigits := isDigits_orZero fun c member => digits c (List.mem_append_right _ member)
  rw [ofText_append isSign isMantissa powered.marked, Numeral.standardForm]
  dsimp only
  rw [← List.cons_append, ← List.append_assoc (Numeral.orZero whole)]
  refine .intro (.ofBool negative) (.point wholeDigits fractionDigits.2) ?_
  cases powered with
  | none => exact .none
  | power _ signed isDigits => exact .power (.inl rfl) signed isDigits

/-- A text has a standard form exactly when it denotes something, and the standard form denotes the same. -/
theorem denotes_standardForm {t : Text} {negative : Bool} {size : ℚ} (h : Denotes t negative size) :
    ∃ standard, standardForm? t = some standard ∧ Denotes standard negative size := by
  obtain ⟨d, read, -⟩ := denotes_iff.mp h
  obtain ⟨whole, fraction, exponent, written, rfl⟩ := h
  exact ⟨(Numeral.ofText t).standardForm, by rw [standardForm?, read]; rfl, _, _, exponent, written.standardForm,
    (sizeOf_orZero whole fraction exponent).symm⟩

theorem exists_denotes_of_standardForm? {t standard : Text} (h : standardForm? t = some standard) :
    ∃ negative size, Denotes t negative size ∧ Denotes standard negative size := by
  obtain ⟨⟨negative, d⟩, read, -⟩ := Option.map_eq_some_iff.mp h
  have denoted : Denotes t negative d.value := denotes_iff.mpr ⟨d, read, rfl⟩
  obtain ⟨other, same, kept⟩ := denotes_standardForm denoted
  cases h.symm.trans same
  exact ⟨negative, d.value, denoted, kept⟩

theorem round?_eq_some_iff {t : Text} {x : Double} : round? t = some x ↔
    ∃ negative size m, Denotes t negative size ∧ IsRounding size m.steps ∧ x = .finite negative m := by
  constructor
  · intro h
    obtain ⟨⟨negative, d⟩, read, rounded⟩ := Option.bind_eq_some_iff.mp h
    obtain ⟨m, size, same⟩ := Option.bind_eq_some_iff.mp rounded
    cases same
    exact ⟨negative, d.value, m, denotes_iff.mpr ⟨d, read, rfl⟩, Decimal.magnitude?_eq_some_iff.mp size, rfl⟩
  · rintro ⟨negative, size, m, denoted, rounding, rfl⟩
    obtain ⟨d, read, rfl⟩ := denotes_iff.mp denoted
    simp [round?, read, Decimal.magnitude?_eq_some_iff.mpr rounding]

/-- The double that is read is the one nearest to what the text denotes. -/
theorem double?_eq_some_iff {t : Text} {x : Double} : double? t = some x ↔
    ∃ negative size m, Denotes t negative size ∧ IsRounding size m.steps ∧ x = .finite negative m := by
  constructor
  · intro h
    obtain ⟨standard, form, rounded⟩ := Option.bind_eq_some_iff.mp h
    obtain ⟨negative, size, m, denoted, rounding, rfl⟩ := round?_eq_some_iff.mp rounded
    obtain ⟨_, _, denoted', kept⟩ := exists_denotes_of_standardForm? form
    obtain ⟨rfl, rfl⟩ := denoted.unique kept
    exact ⟨_, _, m, denoted', rounding, rfl⟩
  · rintro ⟨negative, size, m, denoted, rounding, rfl⟩
    obtain ⟨standard, form, kept⟩ := denotes_standardForm denoted
    rw [double?, form]
    exact round?_eq_some_iff.mpr ⟨negative, size, m, kept, rounding, rfl⟩

end Number
end Criteria
