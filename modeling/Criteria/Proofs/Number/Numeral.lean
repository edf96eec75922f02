import Mathlib.Data.List.TakeWhile
import Criteria.Number

/-!
# The grammar of numerals

Which texts are integers and decimals, and what they denote, as a grammar of signs, digits, points and powers of
ten. The readers of numbers follow it exactly. A numeral holds digits, signs, a point and a power mark, and
nothing else.
-/

namespace Criteria.Number

open Text (IsDigits)

/-- An optional sign, and whether it is a minus. -/
inductive SignText : Text → Bool → Prop
  | none : SignText [] false
  | plus : SignText ['+'] false
  | minus : SignText ['-'] true

/-- Digits with at most one point, and what stands before and after it. A digit is missing on one side at most. -/
inductive MantissaText : Text → Text → Text → Prop
  | whole {whole : Text} (digits : IsDigits whole) : MantissaText whole whole []
  | point {whole fraction : Text} (digits : IsDigits whole) (fractionDigits : ∀ c ∈ fraction, c.isDigit) :
      MantissaText (whole ++ '.' :: fraction) whole fraction
  | fraction {fraction : Text} (digits : IsDigits fraction) : MantissaText ('.' :: fraction) [] fraction

/-- An optional power of ten: its mark and an integer. -/
inductive PowerText : Text → Int → Prop
  | none : PowerText [] 0
  | power {c : Char} {sign digits : Text} {negative : Bool} (mark : c = 'e' ∨ c = 'E') (signed : SignText sign negative)
      (isDigits : IsDigits digits) : PowerText (c :: (sign ++ digits)) (withSign negative (Text.digitsValue digits))

/-- A decimal text: its sign, its digits before and after the point, and its power of ten. -/
inductive DecimalText : Text → Bool → Text → Text → Int → Prop
  | intro {sign mantissa power whole fraction : Text} {negative : Bool} {exponent : Int}
      (signed : SignText sign negative) (digits : MantissaText mantissa whole fraction)
      (powered : PowerText power exponent) :
      DecimalText (sign ++ (mantissa ++ power)) negative whole fraction exponent

/-- An integer text and its value: a zero, or digits without a leading zero, after an optional sign. -/
inductive IntegerText : Text → Int → Prop
  | intro {sign digits : Text} {negative : Bool} (signed : SignText sign negative) (isDigits : IsDigits digits)
      (unpadded : digits = ['0'] ∨ digits.head? ≠ some '0') :
      IntegerText (sign ++ digits) (withSign negative (Text.digitsValue digits))

theorem SignText.ofBool (negative : Bool) : SignText (if negative then ['-'] else []) negative := by
  cases negative with
  | true => exact .minus
  | false => exact .none

/-- A text that does not begin with a sign. -/
def Unsigned (t : Text) : Prop := ∀ c ∈ t.head?, c ≠ '-' ∧ c ≠ '+'

theorem signed_unsigned {t : Text} (unsigned : Unsigned t) : signed t = (false, t) := by
  cases t with
  | nil => rfl
  | cons c r =>
    obtain ⟨notMinus, notPlus⟩ := unsigned c rfl
    simp [signed, notMinus, notPlus]

theorem SignText.signed_append {sign t : Text} {negative : Bool} (h : SignText sign negative) (unsigned : Unsigned t) :
    signed (sign ++ t) = (negative, t) := by
  cases h with
  | none => exact signed_unsigned unsigned
  | plus | minus => rfl

/-- A text is a sign and what is read behind it. -/
theorem exists_signText (t : Text) : ∃ sign, SignText sign (signed t).1 ∧ t = sign ++ (signed t).2 := by
  cases t with
  | nil => exact ⟨[], .none, rfl⟩
  | cons c r =>
    by_cases minus : c = '-'
    · exact ⟨['-'], by simpa [signed, minus] using SignText.minus, by simp [signed, minus]⟩
    · by_cases plus : c = '+'
      · exact ⟨['+'], by simpa [signed, plus] using SignText.plus, by simp [signed, plus]⟩
      · exact ⟨[], by simpa [signed, minus, plus] using SignText.none, by simp [signed, minus, plus]⟩

theorem ne_of_isDigit {c d : Char} (digit : c.isDigit) (other : d.isDigit = false) : c ≠ d := by
  rintro rfl
  rw [digit] at other
  cases other

theorem unsigned_of_isDigits {t : Text} (digits : IsDigits t) (u : Text) : Unsigned (t ++ u) := by
  obtain ⟨c, r, rfl⟩ := List.exists_cons_of_ne_nil digits.1
  intro d head
  obtain rfl : c = d := by simpa using head
  have digit := digits.2 c List.mem_cons_self
  exact ⟨ne_of_isDigit digit rfl, ne_of_isDigit digit rfl⟩

theorem MantissaText.unsigned {t whole fraction : Text} (h : MantissaText t whole fraction) (u : Text) :
    Unsigned (t ++ u) := by
  cases h with
  | whole digits => exact unsigned_of_isDigits digits u
  | point digits _ =>
    rw [List.append_assoc]
    exact unsigned_of_isDigits digits _
  | fraction _ =>
    intro c head
    obtain rfl : '.' = c := by simpa using head
    decide

/-! ## Integers -/

/-- The integers are the integer texts whose value has 64 bits. -/
theorem integer?_eq_some_iff {t : Text} {n : Int64} : integer? t = some n ↔ IntegerText t n.toInt := by
  constructor
  · intro h
    obtain ⟨sign, isSign, split⟩ := exists_signText t
    unfold integer? at h
    generalize signed t = s at *
    obtain ⟨negative, digits⟩ := s
    by_cases shaped : IsDigits digits ∧ (digits.length ≤ 1 ∨ digits.head? ≠ some '0')
    · by_cases range : -2 ^ 63 ≤ withSign negative (Text.digitsValue digits) ∧
          withSign negative (Text.digitsValue digits) < 2 ^ 63
      · simp only [if_pos shaped, if_pos range, Option.some.injEq] at h
        have value : n.toInt = withSign negative (Text.digitsValue digits) := by
          rw [← h, Int64.toInt_ofInt_of_le range.1 range.2]
        rw [split, value]
        refine .intro isSign shaped.1 ?_
        rcases shaped.2 with short | unpadded
        · obtain ⟨c, r, rfl⟩ := List.exists_cons_of_ne_nil shaped.1.1
          obtain rfl : r = [] := List.length_eq_zero_iff.mp (by simpa using short)
          by_cases zero : c = '0'
          · exact .inl (by rw [zero])
          · exact .inr (by simpa using zero)
        · exact .inr unpadded
      · simp only [if_pos shaped, if_neg range] at h
        cases h
    · simp only [if_neg shaped] at h
      cases h
  · generalize value : n.toInt = k
    rintro ⟨isSign, isDigits, unpadded⟩
    rename_i sign digits negative
    have unsigned : Unsigned digits := by simpa using unsigned_of_isDigits isDigits []
    have shaped : IsDigits digits ∧ (digits.length ≤ 1 ∨ digits.head? ≠ some '0') := by
      refine ⟨isDigits, ?_⟩
      rcases unpadded with rfl | unpadded
      · exact .inl (Nat.le_refl 1)
      · exact .inr unpadded
    have range : -2 ^ 63 ≤ n.toInt ∧ n.toInt < 2 ^ 63 := ⟨n.le_toInt, n.toInt_lt⟩
    simp only [integer?, isSign.signed_append unsigned, if_pos shaped, if_pos range, ← value, Int64.ofInt_toInt]

/-! ## Decimals -/

theorem isPowerMark_iff {c : Char} : isPowerMark c = true ↔ c = 'e' ∨ c = 'E' := by
  simp [isPowerMark]

/-- The powers of ten are those of the grammar. -/
theorem power?_eq_some_iff {t : Text} {exponent : Int} (marked : ∀ c ∈ t.head?, isPowerMark c) :
    power? t = some exponent ↔ PowerText t exponent := by
  constructor
  · intro h
    cases t with
    | nil =>
      obtain rfl : 0 = exponent := by simpa [power?] using h
      exact .none
    | cons c r =>
      obtain ⟨sign, isSign, split⟩ := exists_signText r
      simp only [power?] at h
      generalize signed r = s at *
      obtain ⟨negative, digits⟩ := s
      by_cases isDigits : IsDigits digits
      · obtain rfl : withSign negative (Text.digitsValue digits) = exponent := by simpa [isDigits] using h
        rw [split]
        exact .power (isPowerMark_iff.mp (marked c rfl)) isSign isDigits
      · simp [isDigits] at h
  · rintro (_ | ⟨mark, isSign, isDigits⟩)
    · rfl
    · have unsigned := unsigned_of_isDigits isDigits []
      rw [List.append_nil] at unsigned
      simp [power?, isSign.signed_append unsigned, isDigits]

theorem PowerText.marked {t : Text} {exponent : Int} (h : PowerText t exponent) : ∀ c ∈ t.head?, isPowerMark c := by
  cases h with
  | none => simp
  | power mark _ _ =>
    intro c head
    obtain rfl := Option.some.inj head
    exact isPowerMark_iff.mpr mark

/-- The digits of a mantissa, those before the point and those after it. -/
theorem MantissaText.isDigits {t whole fraction : Text} (h : MantissaText t whole fraction) :
    IsDigits (whole ++ fraction) := by
  cases h with
  | whole digits => simpa using digits
  | point digits fractionDigits =>
    refine ⟨by simp [digits.1], fun c member => ?_⟩
    exact (List.mem_append.mp member).elim (digits.2 c) (fractionDigits c)
  | fraction digits => exact digits

/-- A mantissa is what is before its point, and a point with what is after it unless there is nothing. -/
theorem mantissaText_iff {t whole fraction : Text} : MantissaText t whole fraction ↔
    IsDigits (whole ++ fraction) ∧ (t = whole ++ '.' :: fraction ∨ fraction = [] ∧ t = whole) := by
  constructor
  · intro h
    refine ⟨h.isDigits, ?_⟩
    cases h with
    | whole _ => exact .inr ⟨rfl, rfl⟩
    | point _ _ | fraction _ => exact .inl rfl
  · rintro ⟨digits, rfl | ⟨rfl, rfl⟩⟩
    · by_cases none : whole = []
      · subst none
        exact .fraction digits
      · exact .point ⟨none, fun c member => digits.2 c (List.mem_append_left _ member)⟩
          fun c member => digits.2 c (List.mem_append_right _ member)
    · rw [List.append_nil] at digits
      exact .whole digits

theorem MantissaText.unmarked {t whole fraction : Text} (h : MantissaText t whole fraction) :
    ∀ c ∈ t, (!isPowerMark c) = true := by
  obtain ⟨digits, shape⟩ := mantissaText_iff.mp h
  have unmarked {c : Char} (digit : c.isDigit) : (!isPowerMark c) = true := by
    simp [isPowerMark, ne_of_isDigit digit]
  intro c member
  rcases shape with rfl | ⟨rfl, rfl⟩
  · rcases List.mem_append.mp member with before | member
    · exact unmarked (digits.2 c (List.mem_append_left _ before))
    · rcases List.mem_cons.mp member with rfl | after
      · rfl
      · exact unmarked (digits.2 c (List.mem_append_right _ after))
  · exact unmarked (digits.2 c (List.mem_append_left _ member))

/-- The pieces of a decimal text are those of the grammar. -/
theorem ofText_append {sign mantissa power whole fraction : Text} {negative : Bool} (isSign : SignText sign negative)
    (isMantissa : MantissaText mantissa whole fraction) (marked : ∀ c ∈ power.head?, isPowerMark c) :
    Numeral.ofText (sign ++ (mantissa ++ power)) = ⟨negative, whole, fraction, power⟩ := by
  have mantissaEnds : power.takeWhile (!isPowerMark ·) = [] ∧ power.dropWhile (!isPowerMark ·) = power := by
    cases power with
    | nil => exact ⟨rfl, rfl⟩
    | cons c r => simp [marked c rfl]
  have front : (mantissa ++ power).takeWhile (!isPowerMark ·) = mantissa := by
    rw [List.takeWhile_append_of_pos isMantissa.unmarked, mantissaEnds.1, List.append_nil]
  have back : (mantissa ++ power).dropWhile (!isPowerMark ·) = power := by
    rw [List.dropWhile_append_of_pos isMantissa.unmarked, mantissaEnds.2]
  obtain ⟨digits, shape⟩ := mantissaText_iff.mp isMantissa
  have apart : ∀ c ∈ whole, decide (c ≠ '.') = true := fun c member =>
    decide_eq_true (ne_of_isDigit (digits.2 c (List.mem_append_left _ member)) rfl)
  have divided : mantissa.takeWhile (· ≠ '.') = whole ∧ (mantissa.dropWhile (· ≠ '.')).drop 1 = fraction := by
    rcases shape with rfl | ⟨rfl, rfl⟩
    · rw [List.takeWhile_append_of_pos apart, List.dropWhile_append_of_pos apart]
      simp
    · exact ⟨List.takeWhile_eq_self_iff.mpr apart, by rw [List.dropWhile_eq_nil_iff.mpr apart]; rfl⟩
  simp only [Numeral.ofText, isSign.signed_append (isMantissa.unsigned power), front, back, divided]

/-- A text is its sign, its mantissa and its power, and the mantissa has what stands on either side of the point. -/
theorem exists_pieces (t : Text) : ∃ sign mantissa, SignText sign (Numeral.ofText t).negative ∧
    t = sign ++ (mantissa ++ (Numeral.ofText t).power) ∧
    (mantissa = (Numeral.ofText t).whole ++ '.' :: (Numeral.ofText t).fraction ∨
      (Numeral.ofText t).fraction = [] ∧ mantissa = (Numeral.ofText t).whole) ∧
    ∀ c ∈ (Numeral.ofText t).power.head?, isPowerMark c := by
  obtain ⟨sign, isSign, split⟩ := exists_signText t
  generalize unsigned : (signed t).2 = u at split
  have ofText : Numeral.ofText t = ⟨(signed t).1, (u.takeWhile (!isPowerMark ·)).takeWhile (· ≠ '.'),
      ((u.takeWhile (!isPowerMark ·)).dropWhile (· ≠ '.')).drop 1, u.dropWhile (!isPowerMark ·)⟩ := by
    rw [← unsigned]
    rfl
  rw [ofText]
  refine ⟨sign, u.takeWhile (!isPowerMark ·), isSign, ?_, ?_, ?_⟩
  · rw [List.takeWhile_append_dropWhile]
    exact split
  · generalize u.takeWhile (!isPowerMark ·) = mantissa
    have whole := List.takeWhile_append_dropWhile (p := (decide <| · ≠ '.')) (l := mantissa)
    cases rest : mantissa.dropWhile (· ≠ '.') with
    | nil =>
      rw [rest, List.append_nil] at whole
      exact .inr ⟨rfl, whole.symm⟩
    | cons p fraction =>
      have stopped := List.head?_dropWhile_not (decide <| · ≠ '.') mantissa
      rw [rest] at stopped whole
      obtain rfl : p = '.' := by simpa using stopped
      exact .inl whole.symm
  · intro c head
    have stopped := List.head?_dropWhile_not (!isPowerMark ·) u
    rw [Option.mem_def.mp head] at stopped
    simpa using stopped

/-- The decimals are the decimal texts. -/
theorem decimal?_eq_some_iff {t : Text} {negative : Bool} {d : Decimal} : decimal? t = some (negative, d) ↔
    ∃ whole fraction exponent, DecimalText t negative whole fraction exponent ∧
      d = ⟨Text.digitsValue (whole ++ fraction), exponent - fraction.length⟩ := by
  constructor
  · intro h
    obtain ⟨sign, mantissa, isSign, split, shape, marked⟩ := exists_pieces t
    obtain ⟨exponent, powered, rest⟩ := Option.bind_eq_some_iff.mp h
    by_cases digits : IsDigits ((Numeral.ofText t).whole ++ (Numeral.ofText t).fraction)
    · obtain ⟨rfl, rfl⟩ : (Numeral.ofText t).negative = negative ∧ _ = d := by simpa [digits] using rest
      refine ⟨_, _, exponent, ?_, rfl⟩
      have written := DecimalText.intro isSign (mantissaText_iff.mpr ⟨digits, shape⟩)
        ((power?_eq_some_iff marked).mp powered)
      rwa [← split] at written
    · simp [digits] at rest
  · rintro ⟨whole, fraction, exponent, ⟨isSign, isMantissa, powered⟩, rfl⟩
    have read := (power?_eq_some_iff powered.marked).mpr powered
    simp [decimal?, Numeral.decimal?, ofText_append isSign isMantissa powered.marked, read, isMantissa.isDigits]

/-- A character that a numeral may hold. -/
def IsNumeralChar (c : Char) : Prop := c.isDigit ∨ c = '+' ∨ c = '-' ∨ c = '.' ∨ c = 'e' ∨ c = 'E'

private theorem numeralChar_of_isDigits {t : Text} (digits : IsDigits t) : ∀ c ∈ t, IsNumeralChar c :=
  fun c member => .inl (digits.2 c member)

private theorem SignText.numeralChar {t : Text} {negative : Bool} (h : SignText t negative) : ∀ c ∈ t, IsNumeralChar c := by
  cases h <;> simp [IsNumeralChar]

theorem IntegerText.numeralChar {t : Text} {n : Int} (h : IntegerText t n) : ∀ c ∈ t, IsNumeralChar c := by
  obtain ⟨isSign, isDigits, -⟩ := h
  intro c member
  exact (List.mem_append.mp member).elim (isSign.numeralChar c) (numeralChar_of_isDigits isDigits c)

/-- An integer has no point. -/
theorem IntegerText.not_pointed {t : Text} {n : Int} (h : IntegerText t n) : '.' ∉ t := by
  obtain ⟨isSign, isDigits, -⟩ := h
  intro pointed
  rcases List.mem_append.mp pointed with inSign | inDigits
  · cases isSign <;> simp at inSign
  · exact absurd (isDigits.2 _ inDigits) (by decide)

theorem exists_digit_of_isDigits {t : Text} (digits : IsDigits t) : ∃ c ∈ t, c.isDigit :=
  ⟨t.head digits.1, List.head_mem digits.1, digits.2 _ (List.head_mem digits.1)⟩

theorem IntegerText.exists_digit {t : Text} {n : Int} (h : IntegerText t n) : ∃ c ∈ t, c.isDigit := by
  obtain ⟨-, isDigits, -⟩ := h
  obtain ⟨c, member, digit⟩ := exists_digit_of_isDigits isDigits
  exact ⟨c, List.mem_append_right _ member, digit⟩

theorem DecimalText.exists_digit {t whole fraction : Text} {negative : Bool} {exponent : Int}
    (h : DecimalText t negative whole fraction exponent) : ∃ c ∈ t, c.isDigit := by
  obtain ⟨-, isMantissa, -⟩ := h
  obtain ⟨digits, shape⟩ := mantissaText_iff.mp isMantissa
  obtain ⟨c, member, digit⟩ := exists_digit_of_isDigits digits
  refine ⟨c, List.mem_append_right _ (List.mem_append_left _ ?_), digit⟩
  rcases shape with rfl | ⟨rfl, rfl⟩
  · exact (List.mem_append.mp member).elim (List.mem_append_left _ ·)
      fun after => List.mem_append_right _ (List.mem_cons_of_mem _ after)
  · rwa [List.append_nil] at member

theorem DecimalText.numeralChar {t whole fraction : Text} {negative : Bool} {exponent : Int}
    (h : DecimalText t negative whole fraction exponent) : ∀ c ∈ t, IsNumeralChar c := by
  obtain ⟨isSign, isMantissa, powered⟩ := h
  have digits {c : Char} (member : c ∈ whole ++ fraction) : IsNumeralChar c :=
    numeralChar_of_isDigits isMantissa.isDigits c member
  intro c member
  rcases List.mem_append.mp member with inSign | member
  · exact isSign.numeralChar c inSign
  · rcases List.mem_append.mp member with inMantissa | inPower
    · rcases (mantissaText_iff.mp isMantissa).2 with rfl | ⟨rfl, rfl⟩
      · rcases List.mem_append.mp inMantissa with before | inFraction
        · exact digits (List.mem_append_left _ before)
        · rcases List.mem_cons.mp inFraction with rfl | after
          · exact .inr (.inr (.inr (.inl rfl)))
          · exact digits (List.mem_append_right _ after)
      · exact digits (List.mem_append_left _ inMantissa)
    · cases powered with
      | none => simp at inPower
      | power mark isSign isDigits =>
        rcases List.mem_cons.mp inPower with rfl | inExponent
        · exact .inr (.inr (.inr (.inr mark)))
        · exact (List.mem_append.mp inExponent).elim (isSign.numeralChar c) (numeralChar_of_isDigits isDigits c)

/-- A text with another character is no number. -/
theorem not_number {t : Text} {c : Char} (member : c ∈ t) (other : ¬ IsNumeralChar c) :
    integer? t = none ∧ double? t = none := by
  constructor
  · rw [Option.eq_none_iff_forall_ne_some]
    intro n h
    exact other ((integer?_eq_some_iff.mp h).numeralChar c member)
  · have noDecimal : decimal? t = none := by
      rw [Option.eq_none_iff_forall_ne_some]
      rintro ⟨negative, d⟩ read
      obtain ⟨whole, fraction, exponent, written, -⟩ := decimal?_eq_some_iff.mp read
      exact other (written.numeralChar c member)
    rw [double?, standardForm?, noDecimal]
    rfl

end Criteria.Number
