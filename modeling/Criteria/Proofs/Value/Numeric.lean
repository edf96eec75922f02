import Criteria.Proofs.Number.Standard
import Criteria.Proofs.Value.Pieces

/-!
# Which values are numbers

A text that is no list is an integer exactly if it is an integer text in range, and a decimal exactly if it is any
other decimal text whose nearest double is finite. Reserved words apart, the rest are texts.
-/

namespace Criteria.Value

open Literal (Masked)
open Number (IntegerText Denotes IsRounding Magnitude)

private theorem eq_null_or_bool {t : Text} {v : Value} (h : ofReserved? t = some v) : v = null ∨ ∃ b, v = bool b := by
  have member : (t, v) ∈ reserved := by
    obtain ⟨front, back, split, -⟩ := List.lookup_eq_some_iff.mp h
    rw [split]
    simp
  simp only [reserved, List.mem_cons, Prod.mk.injEq, List.not_mem_nil, or_false] at member
  rcases member with ⟨-, rfl⟩ | ⟨-, rfl⟩ | ⟨-, rfl⟩
  · exact .inl rfl
  · exact .inr ⟨true, rfl⟩
  · exact .inr ⟨false, rfl⟩

theorem ofReserved?_eq_none_iff {t : Text} : ofReserved? t = none ↔ t ∉ reserved.map Prod.fst := by
  rw [ofReserved?, List.lookup_eq_none_iff]
  constructor
  · intro apart member
    obtain ⟨entry, isEntry, rfl⟩ := List.mem_map.mp member
    simpa using apart entry isEntry
  · intro other entry isEntry
    rw [bne_iff_ne]
    rintro rfl
    exact other (List.mem_map_of_mem isEntry)

theorem ofScalar_eq_int_iff {m : Masked} {t : Text} {n : Int64} :
    ofScalar m t = .int n ↔ ofReserved? t = none ∧ Number.integer? t = some n := by
  rw [ofScalar]
  cases word : ofReserved? t with
  | some v =>
    rcases eq_null_or_bool word with rfl | ⟨b, rfl⟩ <;> simp
  | none =>
    cases Number.integer? t with
    | some k => simp
    | none => cases Number.double? t <;> simp

theorem ofScalar_eq_float_iff {m : Masked} {t : Text} {x : Number.Double} :
    ofScalar m t = .float x ↔ ofReserved? t = none ∧ Number.integer? t = none ∧ Number.double? t = some x := by
  rw [ofScalar]
  cases word : ofReserved? t with
  | some v =>
    rcases eq_null_or_bool word with rfl | ⟨b, rfl⟩ <;> simp
  | none =>
    cases Number.integer? t with
    | some k => simp
    | none => cases Number.double? t <;> simp

/-- A number has a digit, which no reserved word has. -/
theorem ofReserved?_eq_none_of_digit {t : Text} (h : ∃ c ∈ t, c.isDigit) : ofReserved? t = none := by
  obtain ⟨c, member, digit⟩ := h
  exact ofReserved?_eq_none member (not_isLower (.inl digit))

theorem ofScalar_eq_int_iff_text {m : Masked} {t : Text} {n : Int64} : ofScalar m t = .int n ↔ IntegerText t n.toInt := by
  rw [ofScalar_eq_int_iff, Number.integer?_eq_some_iff]
  exact ⟨fun h => h.2, fun h => ⟨ofReserved?_eq_none_of_digit h.exists_digit, h⟩⟩

/-- A text has no comma but escaped ones. -/
inductive Unlisted : Text → Prop
  | nil : Unlisted []
  | bareEscape : Unlisted [Literal.escape]
  | escaped (c : Char) {t : Text} (rest : Unlisted t) : Unlisted (Literal.escape :: c :: t)
  | cons {c : Char} {t : Text} (notEscape : c ≠ Literal.escape) (notComma : c ≠ ',') (rest : Unlisted t) : Unlisted (c :: t)

theorem Unlisted.listPieces_eq {t : Text} (h : Unlisted t) : listPieces t = [t] := by
  induction h with
  | nil => rfl
  | bareEscape => exact listPieces_bareEscape
  | escaped c _ ih =>
    rw [listPieces_escape, ih]
    rfl
  | cons notEscape notComma _ ih =>
    rw [listPieces_cons notEscape notComma, ih]
    rfl

/-- A text is an integer in the range of 64 bits. -/
def IsInRange (t : Text) : Prop := ∃ k, IntegerText t k ∧ -2 ^ 63 ≤ k ∧ k ≤ 2 ^ 63 - 1

/-- The nearest double to what a text denotes is finite. -/
def HasDouble (t : Text) : Prop :=
  ∃ negative size, ∃ magnitude : Magnitude, Denotes t negative size ∧ IsRounding size magnitude.steps

theorem hasDouble_iff {t : Text} : HasDouble t ↔ ∃ negative size, Denotes t negative size ∧ size < Number.overflow := by
  constructor
  · rintro ⟨negative, size, magnitude, denoted, rounding⟩
    exact ⟨negative, size, denoted, denoted.exists_isRounding_iff.mp ⟨magnitude, rounding⟩⟩
  · rintro ⟨negative, size, denoted, below⟩
    obtain ⟨magnitude, rounding⟩ := denoted.exists_isRounding_iff.mpr below
    exact ⟨negative, size, magnitude, denoted, rounding⟩

theorem not_isInRange_iff {t : Text} : ¬ IsInRange t ↔ Number.integer? t = none := by
  rw [Option.eq_none_iff_forall_ne_some]
  constructor
  · intro none n read
    exact none ⟨n.toInt, Number.integer?_eq_some_iff.mp read, n.le_toInt, Int.le_sub_one_of_lt n.toInt_lt⟩
  · rintro none ⟨k, written, low, high⟩
    have value : (Int64.ofInt k).toInt = k := Int64.toInt_ofInt_of_le low (by omega)
    exact none (Int64.ofInt k) (Number.integer?_eq_some_iff.mpr (by rwa [value]))

/-- A text that is no list is an integer, a decimal or a text as the grammar of numbers has it: an integer if it is an
    integer text in range, with its value; a decimal if it is another decimal text whose nearest double is finite,
    with that double. A decimal is rounded from its standard form, which denotes the same sign and size. Whatever
    else is not a reserved word is a text. -/
theorem ofMasked_eq_number_iff (m : Masked) {t : Text} (unlisted : Unlisted t) :
    (∀ k, (∃ n : Int64, ofMasked m t = .int n ∧ n.toInt = k) ↔ IntegerText t k ∧ -2 ^ 63 ≤ k ∧ k ≤ 2 ^ 63 - 1) ∧
    (∀ x, ofMasked m t = .float x ↔ ¬ IsInRange t ∧ ∃ negative size, ∃ magnitude : Magnitude,
      Denotes t negative size ∧ IsRounding size magnitude.steps ∧ x = .finite negative magnitude) ∧
    (∀ negative size, Denotes t negative size ↔
      ∃ standard, Number.standardForm? t = some standard ∧ Denotes standard negative size) ∧
    (¬ IsInRange t → ¬ HasDouble t → t ∉ reserved.map Prod.fst → ofMasked m t = .text (m.reveal t)) := by
  have single : ofMasked m t = ofScalar m t := by rw [ofMasked, unlisted.listPieces_eq]
  rw [single]
  refine ⟨fun k => ⟨?_, ?_⟩, fun x => ?_, fun negative size => ⟨?_, ?_⟩, ?_⟩
  · rintro ⟨n, read, rfl⟩
    exact ⟨ofScalar_eq_int_iff_text.mp read, n.le_toInt, Int.le_sub_one_of_lt n.toInt_lt⟩
  · rintro ⟨written, low, high⟩
    have value : (Int64.ofInt k).toInt = k := Int64.toInt_ofInt_of_le low (by omega)
    exact ⟨Int64.ofInt k, ofScalar_eq_int_iff_text.mpr (by rwa [value]), value⟩
  · rw [ofScalar_eq_float_iff, Number.double?_eq_some_iff, not_isInRange_iff]
    refine ⟨fun h => h.2, fun h => ⟨?_, h⟩⟩
    obtain ⟨-, _, _, _, denoted, -⟩ := h
    exact ofReserved?_eq_none_of_digit denoted.exists_digit
  · exact Number.denotes_standardForm
  · rintro ⟨standard, form, kept⟩
    obtain ⟨_, _, denoted, kept'⟩ := Number.exists_denotes_of_standardForm? form
    obtain ⟨rfl, rfl⟩ := kept.unique kept'
    exact denoted
  · intro noInteger noDouble noWord
    have double : Number.double? t = none := by
      rw [Option.eq_none_iff_forall_ne_some]
      intro x read
      obtain ⟨negative, size, magnitude, denoted, rounding, -⟩ := Number.double?_eq_some_iff.mp read
      exact noDouble ⟨negative, size, magnitude, denoted, rounding⟩
    rw [ofScalar, ofReserved?_eq_none_iff.mpr noWord, not_isInRange_iff.mp noInteger, double]
    rfl

/-- A zero with a point keeps its sign: it is no integer but the negative zero. -/
theorem ofMasked_negativeZero : Unlisted ['-', '0', '.'] ∧ ¬ IsInRange ['-', '0', '.'] ∧
    ∃ size, Denotes ['-', '0', '.'] true size ∧ IsRounding size 0 := by
  have unlisted : Unlisted ['-', '0', '.'] :=
    .cons (by decide) (by decide) (.cons (by decide) (by decide) (.cons (by decide) (by decide) .nil))
  have read : ofMasked ⟨[], []⟩ ['-', '0', '.'] = .float (.finite true .zero) := by decide +kernel
  obtain ⟨noInteger, _, size, _, denoted, rounding, same⟩ := ((ofMasked_eq_number_iff _ unlisted).2.1 _).mp read
  cases same
  exact ⟨unlisted, noInteger, size, denoted, rounding⟩

end Criteria.Value
