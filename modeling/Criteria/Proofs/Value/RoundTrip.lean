import Criteria.Proofs.Filter.Alike
import Criteria.Proofs.Literal.Restore
import Criteria.Proofs.Number.Numeral
import Criteria.Proofs.Number.Standard
import Criteria.Value

/-!
# Values that are written and read back

Reserved words, integers and finite decimals are words without quotes that are read as the values they
were written for. A written value is masked to words with commas between them, one for each scalar, and every
word is read as its scalar under whatever number its literal got: of a masked text only the literals matter to its
values. So a written value is read back as itself if it is a finite scalar or a list of at least two of them.
Nothing else is ever read.
-/

namespace Criteria.Value

theorem listPieces_append {w : Text} (bare : ∀ c ∈ w, c ≠ Literal.escape ∧ c ≠ ',') (r : Text) :
    listPieces (w ++ r) = (listPieces r).modifyHead (w ++ ·) := by
  induction w with
  | nil =>
    rw [List.nil_append]
    cases listPieces r <;> rfl
  | cons c w ih =>
    obtain ⟨notEscape, notComma⟩ := bare c List.mem_cons_self
    rw [List.cons_append, listPieces.eq_def]
    simp only [notEscape, notComma, if_false]
    rw [ih fun d member => bare d (List.mem_cons_of_mem _ member), List.modifyHead_modifyHead]
    rfl

/-- A text without commas and backslashes is no list. -/
theorem ofMasked_eq_ofScalar (m : Literal.Masked) {t : Text} (bare : ∀ c ∈ t, c ≠ Literal.escape ∧ c ≠ ',') :
    ofMasked m t = ofScalar m t := by
  have whole := listPieces_append bare []
  rw [List.append_nil] at whole
  have single : listPieces t = [t] := by simpa [listPieces] using whole
  rw [ofMasked, single]

theorem ofMasked_of_literals {m m' : Literal.Masked} (same : m'.literals = m.literals) (t : Text) :
    ofMasked m' t = ofMasked m t := by
  have scalar : ofScalar m' = ofScalar m := by
    funext t
    rw [ofScalar, ofScalar, Literal.Masked.reveal_of_literals same]
  rw [ofMasked, ofMasked, scalar]

/-- Reserved words are written in small letters. -/
theorem ofReserved?_eq_none {t : Text} {c : Char} (member : c ∈ t) (other : ¬ c.isLower) : ofReserved? t = none := by
  have apart {w : Text} (lower : ∀ c ∈ w, c.isLower) : (t == w) = false := by
    rw [beq_eq_false_iff_ne]
    rintro rfl
    exact other (lower c member)
  simp [ofReserved?, reserved, List.lookup_cons, apart (w := ['n', 'u', 'l', 'l']) (by decide),
    apart (w := ['t', 'r', 'u', 'e']) (by decide), apart (w := ['f', 'a', 'l', 's', 'e']) (by decide)]

end Criteria.Value

namespace Criteria

open Text (IsDigits)

/-- A natural number with more than one digit does not begin with a zero. -/
theorem Text.head?_ofNat (n : Nat) : Text.ofNat n = ['0'] ∨ (Text.ofNat n).head? ≠ some '0' := by
  have positive (n : Nat) (h : 0 < n) : (Text.ofNat n).head? ≠ some '0' := by
    induction n using Nat.strongRecOn with
    | ind n ih =>
      by_cases small : n < 10
      · rw [Text.ofNat, Nat.toDigits_of_lt_base small]
        simp
        omega
      · have rest := ih (n / 10) (by omega) (by omega)
        obtain ⟨c, r, front⟩ := List.exists_cons_of_ne_nil (Text.isDigits_ofNat (n / 10)).1
        rw [front] at rest
        rw [Text.ofNat, Nat.toDigits_of_base_le (by decide) (by omega), ← Text.ofNat, front]
        exact rest
  by_cases zero : n = 0
  · left
    rw [zero]
    decide
  · exact .inr (positive n (by omega))

namespace Value

/-- An integer is read as the integer that it was written for. -/
theorem integer?_renderInt (n : Int64) : Number.integer? (renderInt n.toInt) = some n := by
  have digits := Text.isDigits_ofNat n.toInt.natAbs
  have written := Number.IntegerText.intro (.ofBool (n.toInt < 0)) digits (Text.head?_ofNat _)
  have value : Number.withSign (n.toInt < 0) (Text.digitsValue (Text.ofNat n.toInt.natAbs)) = n.toInt := by
    rw [Text.digitsValue_ofNat, Number.withSign]
    by_cases negative : n.toInt < 0
    · rw [if_pos (decide_eq_true negative)]
      omega
    · rw [if_neg (by simpa using negative)]
      omega
  rw [value] at written
  apply Number.integer?_eq_some_iff.mpr
  simpa only [renderInt, decide_eq_true_eq] using written

/-- A text with a point is no integer. -/
theorem integer?_eq_none {t : Text} (pointed : '.' ∈ t) : Number.integer? t = none := by
  rw [Option.eq_none_iff_forall_ne_some]
  intro n read
  exact (Number.integer?_eq_some_iff.mp read).not_pointed pointed

/-- A finite decimal is read as the decimal that it was written for. -/
theorem double?_render (negative : Bool) (m : Number.Magnitude) :
    Number.double? (Number.Double.finite negative m).render = some (.finite negative m) := by
  obtain ⟨whole, fraction, written, nonempty, wholeDigits, fractionDigits, same⟩ :=
    m.shortest.exists_positional
  have read := Number.decimal?_point negative nonempty wholeDigits fractionDigits
  rw [← written] at read
  exact Number.double?_eq_some_iff.mpr ⟨negative, m.shortest.value, m,
    Number.denotes_iff.mpr ⟨_, read, Number.Decimal.sameValue_iff.mp same⟩,
    Number.Decimal.magnitude?_eq_some_iff.mp m.magnitude?_shortest, rfl⟩

/-- The characters of written numbers. -/
def IsNumberChar (c : Char) : Prop := c.isDigit ∨ c = '-' ∨ c = '.'

private theorem numberChar_append (negative : Bool) {t : Text} (h : ∀ c ∈ t, IsNumberChar c) :
    ∀ c ∈ (if negative then ['-'] else []) ++ t, IsNumberChar c := by
  intro c member
  rcases List.mem_append.mp member with sign | member
  · split at sign
    · exact .inr (.inl (List.mem_singleton.mp sign))
    · simp at sign
  · exact h c member

/-- A value that is no list and no result of a failed computation. -/
def IsFiniteScalar : Value → Prop
  | .float (.finite _ _) => True
  | .float _ => False
  | .list _ => False
  | _ => True

/-- A word without quotes is read as a value. It is a reserved word or holds only characters of numbers. -/
structure IsWordOf (w : Text) (v : Value) : Prop where
  read : ∀ m, ofScalar m w = v
  plain : w ∈ reserved.map Prod.fst ∨ w ≠ [] ∧ ∀ c ∈ w, IsNumberChar c

theorem isWordOf_null : IsWordOf (render .null) .null :=
  ⟨fun _ => rfl, .inl (by decide)⟩

theorem isWordOf_bool (b : Bool) : IsWordOf (render (.bool b)) (.bool b) := by
  cases b
  · exact ⟨fun _ => rfl, .inl (by decide)⟩
  · exact ⟨fun _ => rfl, .inl (by decide)⟩

theorem not_isLower {c : Char} (number : IsNumberChar c) : ¬ c.isLower := by
  rcases number with digit | rfl | rfl
  · intro lower
    have letter : 'a'.val ≤ c.val := of_decide_eq_true (Bool.and_eq_true_iff.mp lower).1
    simp [Char.isDigit, UInt32.le_iff_toNat_le] at digit letter
    omega
  · decide
  · decide

theorem isWordOf_int (n : Int64) : IsWordOf (render (.int n)) (.int n) := by
  have chars : ∀ c ∈ renderInt n.toInt, IsNumberChar c := by
    have digits : ∀ c ∈ Text.ofNat n.toInt.natAbs, IsNumberChar c :=
      fun c member => .inl ((Text.isDigits_ofNat _).2 c member)
    simpa [renderInt] using numberChar_append (decide (n.toInt < 0)) digits
  have nonempty : renderInt n.toInt ≠ [] := by simp [renderInt, (Text.isDigits_ofNat _).1]
  refine ⟨fun m => ?_, .inr ⟨nonempty, chars⟩⟩
  obtain ⟨c, r, front⟩ := List.exists_cons_of_ne_nil nonempty
  have member : c ∈ renderInt n.toInt := by rw [front]; exact List.mem_cons_self
  rw [render, ofScalar, ofReserved?_eq_none member (not_isLower (chars c member)), integer?_renderInt]
  rfl

theorem isWordOf_float (negative : Bool) (m : Number.Magnitude) :
    IsWordOf (render (.float (.finite negative m))) (.float (.finite negative m)) := by
  obtain ⟨whole, fraction, written, -, wholeDigits, fractionDigits, -⟩ := m.shortest.exists_positional
  have chars : ∀ c ∈ (Number.Double.finite negative m).render, IsNumberChar c := by
    rw [Number.Double.render, Number.Double.signText, written]
    apply numberChar_append
    intro c member
    rcases List.mem_append.mp member with digits | member
    · exact .inl (wholeDigits c digits)
    · rcases List.mem_cons.mp member with rfl | digits
      · exact .inr (.inr rfl)
      · exact .inl (fractionDigits c digits)
  have pointed : '.' ∈ (Number.Double.finite negative m).render := by
    rw [Number.Double.render, written]
    simp
  refine ⟨fun masked => ?_, .inr ⟨List.ne_nil_of_mem pointed, chars⟩⟩
  rw [render, ofScalar, ofReserved?_eq_none pointed (by decide), integer?_eq_none pointed, double?_render]
  rfl

end Value
end Criteria

namespace Criteria.Value

open Literal (Masked Atom Spells maskFrom Ordinary placeholder)
open Text (isBlank)

/-! ## Values that can be read -/

theorem isFiniteScalar_ofScalar (m : Masked) (t : Text) : (ofScalar m t).IsFiniteScalar := by
  unfold ofScalar
  cases word : ofReserved? t with
  | some v =>
    simp only [ofReserved?, reserved, List.lookup_cons, List.lookup_nil] at word
    split at word
    · cases word
      trivial
    · split at word
      · cases word
        trivial
      · split at word
        · cases word
          trivial
        · cases word
  | none =>
    cases Number.integer? t with
    | some n => trivial
    | none =>
      cases number : Number.double? t with
      | none => trivial
      | some x =>
        obtain ⟨_, _, _, _, _, rfl⟩ := Number.double?_eq_some_iff.mp number
        trivial

theorem listPieces_ne_nil (t : Text) : listPieces t ≠ [] := by
  fun_induction listPieces t with
  | case1 | case2 | case4 => simp
  | case3 d r ih => simpa using ih
  | case5 c r _ _ ih => simpa using ih

/-- A value that is read is a finite scalar, or a list of at least two. -/
theorem ofMasked_cases (m : Masked) (t : Text) :
    (ofMasked m t).IsFiniteScalar ∨
      ∃ v w r, ofMasked m t = .list (v :: w :: r) ∧ ∀ u ∈ v :: w :: r, u.IsFiniteScalar := by
  unfold ofMasked
  match pieces : listPieces t with
  | [] => exact absurd pieces (listPieces_ne_nil t)
  | [_] => exact .inl (isFiniteScalar_ofScalar m t)
  | p :: q :: r =>
    refine .inr ⟨_, _, r.map fun piece => ofScalar m (Text.trim piece), rfl, fun u member => ?_⟩
    have held : u ∈ (p :: q :: r).map fun piece => ofScalar m (Text.trim piece) := member
    obtain ⟨piece, -, rfl⟩ := List.mem_map.mp held
    exact isFiniteScalar_ofScalar m _

/-- A finite scalar, or a list of at least two of them. -/
def IsWritable : Value → Prop
  | .list values => 2 ≤ values.length ∧ ∀ v ∈ values, v.IsFiniteScalar
  | v => v.IsFiniteScalar

theorem IsFiniteScalar.isWritable {v : Value} (scalar : v.IsFiniteScalar) : v.IsWritable := by
  cases v with
  | list => exact absurd scalar id
  | _ => exact scalar

theorem isWritable_ofMasked (m : Masked) (t : Text) : (ofMasked m t).IsWritable := by
  rcases ofMasked_cases m t with scalar | ⟨v, w, r, list, scalars⟩
  · exact scalar.isWritable
  · rw [list]
    exact ⟨by simp, scalars⟩

theorem bare_of_isNumberChar {c : Char} (h : IsNumberChar c) :
    Ordinary c ∧ ¬ isBlank c ∧ c ≠ '(' ∧ c ≠ ')' ∧ c ≠ ',' := by
  rcases h with digit | rfl | rfl
  · refine ⟨⟨?_, ?_, ?_⟩, Filter.not_isBlank_of_isDigit digit, ?_, ?_, ?_⟩ <;> rintro rfl <;> exact absurd digit (by decide)
  · decide
  · decide

/-- A word without quotes has nothing in it that divides a text or a list. -/
theorem IsWordOf.bare {w : Text} {v : Value} (h : IsWordOf w v) :
    w ≠ [] ∧ ∀ c ∈ w, Ordinary c ∧ ¬ isBlank c ∧ c ≠ '(' ∧ c ≠ ')' ∧ c ≠ ',' := by
  have words : ∀ w ∈ reserved.map Prod.fst, w ≠ [] ∧
      ∀ c ∈ w, Ordinary c ∧ ¬ isBlank c ∧ c ≠ '(' ∧ c ≠ ')' ∧ c ≠ ',' := by decide
  rcases h.plain with member | ⟨nonempty, chars⟩
  · exact words w member
  · exact ⟨nonempty, fun c member => bare_of_isNumberChar (chars c member)⟩

/-- A placeholder is read as the text that its literal holds. -/
theorem ofScalar_placeholder {m : Masked} {n : Nat} {content : Text} (held : m.literals[n]? = some content) :
    ofScalar m (placeholder n) = .text content := by
  have quoted : Literal.quote ∈ placeholder n := by simp [placeholder]
  have other : ¬ Number.IsNumeralChar Literal.quote := by simp [Number.IsNumeralChar, Literal.quote]
  obtain ⟨noInteger, noDouble⟩ := Number.not_number quoted other
  rw [ofScalar, ofReserved?_eq_none quoted (by decide), noInteger, noDouble, m.reveal_placeholder held]
  rfl

/-- A masked word that is read as a scalar, also as a piece of a list. -/
structure IsPieceOf (m : Masked) (w : Text) (v : Value) : Prop where
  read : ofScalar m w = v
  solid : ∀ c ∈ w, ¬ isBlank c
  bare : ∀ c ∈ w, c ≠ Literal.escape ∧ c ≠ ','

/-- A written scalar is masked to a word that is read as the scalar, whatever stands before it. -/
theorem exists_piece {v : Value} (scalar : v.IsFiniteScalar) :
    ∃ atoms, Spells v.render atoms ∧ ∀ m n, Masked.Holds m n atoms → IsPieceOf m (maskFrom n atoms) v := by
  have word {w : Text} (h : IsWordOf w v) :
      ∃ atoms, Spells w atoms ∧ ∀ m n, Masked.Holds m n atoms → IsPieceOf m (maskFrom n atoms) v := by
    obtain ⟨-, chars⟩ := h.bare
    have spelled := Spells.plain_append (fun c member => (chars c member).1) .nil
    rw [List.append_nil] at spelled
    refine ⟨_, spelled, fun m n _ => ?_⟩
    rw [Literal.maskFrom_plain_append, maskFrom, List.append_nil]
    refine ⟨h.read m, fun c member => (chars c member).2.1, fun c member => ?_⟩
    obtain ⟨ordinary, -, -, -, comma⟩ := chars c member
    exact ⟨ordinary.1, comma⟩
  cases v with
  | null => exact word isWordOf_null
  | bool b => exact word (isWordOf_bool b)
  | int n => exact word (isWordOf_int n)
  | float x =>
    cases x with
    | finite negative m => exact word (isWordOf_float negative m)
    | infinite | nan => exact scalar.elim
  | text content =>
    have spelled := Literal.spells_enquote content Spells.nil
    rw [List.append_nil] at spelled
    refine ⟨[.literal content], by rwa [render], fun m n held => ?_⟩
    have masked : maskFrom n [.literal content] = placeholder n := by simp [maskFrom]
    rw [masked]
    refine ⟨ofScalar_placeholder held.literal.1, fun c => Filter.not_isBlank_of_mem_placeholder, fun c member => ?_⟩
    rcases Filter.mem_placeholder member with rfl | digit
    · decide
    · refine ⟨?_, ?_⟩ <;> rintro rfl <;> exact absurd digit (by decide)
  | list => exact scalar.elim

/-! ## Written lists -/

theorem listPieces_comma (r : Text) : listPieces (',' :: r) = [] :: listPieces r := by
  rw [listPieces.eq_def]
  simp [Literal.escape]

/-- What the pieces of a masked text between its commas are read as. -/
def members (m : Masked) (t : Text) : List Value :=
  (listPieces t).map fun piece => ofScalar m (Text.trim piece)

theorem IsPieceOf.members {m : Masked} {w : Text} {v : Value} (h : IsPieceOf m w v) : members m w = [v] := by
  have whole := listPieces_append h.bare []
  rw [List.append_nil] at whole
  have single : listPieces w = [w] := by simpa [listPieces] using whole
  rw [Value.members, single, List.map_singleton, (Text.Trimmed.of_solid h.solid).trim_eq_self, h.read]

theorem IsPieceOf.members_append_comma {m : Masked} {w : Text} {v : Value} (h : IsPieceOf m w v) (t : Text) :
    Value.members m (w ++ ',' :: t) = v :: Value.members m t := by
  rw [Value.members, listPieces_append h.bare, listPieces_comma, List.modifyHead_cons, List.append_nil, List.map_cons,
    (Text.Trimmed.of_solid h.solid).trim_eq_self, h.read]
  rfl

/-- A text with several pieces is read as the list of them. -/
theorem ofMasked_of_members {m : Masked} {t : Text} (several : 2 ≤ (members m t).length) :
    ofMasked m t = .list (members m t) := by
  rw [members, List.length_map] at several
  unfold ofMasked
  match pieces : listPieces t with
  | [] | [_] => simp [pieces] at several
  | p :: q :: r => rw [members, pieces]

/-- A written list is masked to a text whose pieces are read as its members. -/
theorem exists_members {v : Value} {values : List Value} (scalars : ∀ u ∈ v :: values, u.IsFiniteScalar) :
    ∃ atoms, Spells (renderList (v :: values)) atoms ∧
      ∀ m n, Masked.Holds m n atoms → members m (maskFrom n atoms) = v :: values := by
  induction values generalizing v with
  | nil =>
    obtain ⟨atoms, spelled, piece⟩ := exists_piece (scalars v List.mem_cons_self)
    exact ⟨atoms, by rwa [renderList], fun m n held => (piece m n held).members⟩
  | cons u values ih =>
    obtain ⟨atoms, spelled, piece⟩ := exists_piece (scalars v List.mem_cons_self)
    obtain ⟨others, spelledRest, rest⟩ := ih fun w member => scalars w (List.mem_cons_of_mem _ member)
    obtain ⟨both, spelledBoth, masked, contents⟩ := Spells.append_cons (c := ',') (by decide) spelled spelledRest
    refine ⟨both, by rwa [renderList], fun m n held => ?_⟩
    obtain ⟨front, back⟩ := held.append contents
    rw [masked, (piece m n front).members_append_comma, rest m _ back]

/-- A value is read back from its written form exactly if it is a finite scalar or a list of at least two of
    them: a number as a number of its kind, a text as that text whatever it holds. -/
theorem ofMasked_render_iff {v : Value} :
    (∃ m, Literal.mask v.render = .ok m ∧ ofMasked m m.text = v) ↔ v.IsWritable := by
  constructor
  · rintro ⟨m, -, rfl⟩
    exact isWritable_ofMasked m m.text
  · intro writable
    by_cases scalar : v.IsFiniteScalar
    · obtain ⟨atoms, spelled, piece⟩ := exists_piece scalar
      have here := piece _ 0 (Masked.holds_ofAtoms atoms)
      exact ⟨_, Literal.mask_eq_ok_iff.mpr ⟨atoms, spelled, rfl⟩, (ofMasked_eq_ofScalar _ here.bare).trans here.read⟩
    · match v with
      | .list (u :: values) =>
        obtain ⟨several, scalars⟩ := writable
        obtain ⟨atoms, spelled, read⟩ := exists_members scalars
        have here := read _ 0 (Masked.holds_ofAtoms atoms)
        refine ⟨_, Literal.mask_eq_ok_iff.mpr ⟨atoms, by rwa [render], rfl⟩, ?_⟩
        rw [← here] at several
        exact (ofMasked_of_members several).trans (congrArg Value.list here)
      | .list [] => exact absurd writable.1 (by decide)
      | .null | .bool _ | .int _ | .float _ | .text _ => exact absurd writable scalar

private def misleading : Value :=
  .list [.text ['1', ',', '2'], .float (.finite true .zero), .text ['\'', '\\'], .int Int64.minValue, .text []]

/-- A negative zero, and texts that look like a list and like the ends of literals. -/
example : (Literal.mask misleading.render).map (fun m => ofMasked m m.text) = .ok misleading := by decide +kernel

end Criteria.Value
