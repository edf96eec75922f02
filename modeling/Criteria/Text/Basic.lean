/-!
Text as every query language here reads it: a list of characters, so that a rule is a recursion on
the characters and a cut is a cut of a list. Positions in a text are counted in UTF-8 bytes.

Blanks are the characters of the Unicode property `White_Space`. Texts are trimmed and divided into
words by them, wherever a language says that spacing does not matter. A text is also cut at a fixed
separator of several characters: its occurrences are taken from left to right and do not overlap.
-/

namespace Criteria.Text

/-- A set of code points: closed ranges, ascending and apart. -/
abbrev CodePoints := List (Nat × Nat)

namespace CodePoints

/-- Whether a code point lies in a range of a set. The ranges after one that begins later need not be
    looked at. -/
def contains (n : Nat) : CodePoints → Bool
  | [] => false
  | (first, last) :: r => first ≤ n && (n ≤ last || contains n r)

/-- The ranges of a set ascend: no range begins before the one in front of it. -/
def Ascending (s : CodePoints) : Prop := s.Pairwise fun a b => a.1 ≤ b.1

instance (s : CodePoints) : Decidable (Ascending s) :=
  inferInstanceAs (Decidable (List.Pairwise _ _))

/-- A code point is in a set exactly when one of the ranges holds it. -/
theorem contains_iff {n : Nat} {s : CodePoints} (ascending : Ascending s) :
    contains n s ↔ ∃ range ∈ s, range.1 ≤ n ∧ n ≤ range.2 := by
  induction s with
  | nil => simp [contains]
  | cons range r ih =>
    obtain ⟨later, rest⟩ := List.pairwise_cons.mp ascending
    simp only [contains, Bool.and_eq_true, Bool.or_eq_true, decide_eq_true_eq, ih rest]
    constructor
    · rintro ⟨begun, within | ⟨other, member, held⟩⟩
      · exact ⟨range, List.mem_cons_self, begun, within⟩
      · exact ⟨other, List.mem_cons_of_mem _ member, held⟩
    · rintro ⟨other, member, begun, within⟩
      rcases List.mem_cons.mp member with rfl | member
      · exact ⟨begun, .inl within⟩
      · exact ⟨Nat.le_trans (later other member) begun, .inr ⟨other, member, begun, within⟩⟩

end CodePoints
end Criteria.Text

namespace Criteria

-- Powers and sums of numbers mean the same here whichever algebra a module imports.
@[default_instance 10001]
instance (priority := 1100) power {M : Type} [NatPow M] : Pow M Nat := instPowNat

instance (priority := 1100) zero : Zero Nat := ⟨0⟩

/-- A text is the list of its characters. -/
abbrev Text := List Char

namespace Text

/-- A rule for the characters of a text is decided on these characters, never on all there are. -/
instance (priority := 1100) decidableForallMem (p : Char → Prop) [DecidablePred p] (t : Text) :
    Decidable (∀ c ∈ t, p c) := List.decidableBAll p t

/-- The number of bytes that a text takes in UTF-8. -/
def byteSize (t : Text) : Nat := (t.map Char.utf8Size).sum

@[simp] theorem byteSize_nil : byteSize [] = 0 := rfl

@[simp] theorem byteSize_cons (c : Char) (t : Text) : byteSize (c :: t) = c.utf8Size + byteSize t := rfl

@[simp] theorem byteSize_append (t u : Text) : byteSize (t ++ u) = byteSize t + byteSize u := by
  simp [byteSize]

/-- What follows `word` in a text that begins with it. -/
def after? : (word t : Text) → Option Text
  | [], t => some t
  | _ :: _, [] => none
  | w :: ws, c :: r => if w = c then after? ws r else none

/-- What stands before `word` in a text that ends with it. -/
def before? (word t : Text) : Option Text :=
  (after? word.reverse t.reverse).map List.reverse

/-- The decimal digits of a natural number, without leading zeros. -/
def ofNat (n : Nat) : Text := Nat.toDigits 10 n

/-- A text of ASCII digits, at least one. -/
def IsDigits (t : Text) : Prop := t ≠ [] ∧ ∀ c ∈ t, c.isDigit

instance (t : Text) : Decidable (IsDigits t) := inferInstanceAs (Decidable (_ ∧ _))

/-- The number that a text of ASCII digits denotes; zero for the empty text. -/
def digitsValue (t : Text) : Nat := Nat.ofDigitChars 10 t 0

/-- An index is a run of ASCII digits after an optional plus sign; leading zeros do not matter. -/
def index? (t : Text) : Option Nat :=
  let digits := (after? ['+'] t).getD t
  if IsDigits digits then some (digitsValue digits) else none

theorem after?_append (word t : Text) : after? word (word ++ t) = some t := by
  induction word with
  | nil => rfl
  | cons w ws ih => simp [after?, ih]

theorem eq_append_of_after? {word t rest : Text} (h : after? word t = some rest) :
    t = word ++ rest := by
  fun_induction after? word t with
  | case1 t => simpa using h
  | case2 => simp at h
  | case3 ws c r ih => simp [ih h]
  | case4 => simp at h

/-- A text begins with a word exactly when something is left after it. -/
theorem after?_eq_some_iff {word t rest : Text} : after? word t = some rest ↔ t = word ++ rest :=
  ⟨eq_append_of_after?, fun h => h ▸ after?_append word rest⟩

theorem before?_eq_some_iff {word t rest : Text} :
    before? word t = some rest ↔ t = rest ++ word := by
  simp only [before?, Option.map_eq_some_iff, after?_eq_some_iff]
  constructor
  · rintro ⟨a, h, rfl⟩
    simpa using congrArg List.reverse h
  · rintro rfl
    exact ⟨rest.reverse, by simp, by simp⟩

theorem isDigits_ofNat (n : Nat) : IsDigits (ofNat n) :=
  ⟨Nat.toDigits_ne_nil, fun _ member => Nat.isDigit_of_mem_toDigits (by decide) (by decide) member⟩

theorem digitsValue_ofNat (n : Nat) : digitsValue (ofNat n) = n :=
  Nat.ofDigitChars_toDigits (by decide) (by decide)

/-- Writing an index and reading it gives the index. -/
theorem index?_ofNat (n : Nat) : index? (ofNat n) = some n := by
  have digits := isDigits_ofNat n
  have unsigned : after? ['+'] (ofNat n) = none := by
    rw [Option.eq_none_iff_forall_ne_some]
    intro rest found
    have plus : '+' ∈ ofNat n := by simp [eq_append_of_after? found]
    exact absurd (digits.2 _ plus) (by decide)
  simp [index?, unsigned, digits, digitsValue_ofNat]

/-- The code points with the property `White_Space`. -/
def blanks : CodePoints :=
  [(0x0009, 0x000D), (0x0020, 0x0020), (0x0085, 0x0085), (0x00A0, 0x00A0), (0x1680, 0x1680),
   (0x2000, 0x200A), (0x2028, 0x2029), (0x202F, 0x202F), (0x205F, 0x205F), (0x3000, 0x3000)]

/-- A blank is a character with the property `White_Space`. -/
def isBlank (c : Char) : Bool := blanks.contains c.toNat

/-- A text without the blanks at its start. -/
def trimStart (t : Text) : Text := t.dropWhile isBlank

/-- A text without the blanks at its end. -/
def trimEnd (t : Text) : Text := (t.reverse.dropWhile isBlank).reverse

/-- A text without the blanks at its start and its end. -/
def trim (t : Text) : Text := trimEnd (trimStart t)

/-- The words of a text: its longest runs without a blank, in order. -/
def words (t : Text) : List Text := (t.splitOnP isBlank).filter (· ≠ [])

theorem trimStart_append_dropped (t : Text) : t.takeWhile isBlank ++ trimStart t = t :=
  List.takeWhile_append_dropWhile

/-- A trimmed text does not begin with a blank. -/
theorem trimStart_head {t r : Text} {c : Char} (h : trimStart t = c :: r) : ¬ isBlank c := by
  have stopped := List.head?_dropWhile_not isBlank t
  rw [show t.dropWhile isBlank = c :: r from h] at stopped
  simpa using stopped

theorem length_trim_le (t : Text) : (trim t).length ≤ t.length := by
  have front := (List.dropWhile_sublist isBlank (l := t)).length_le
  have back := (List.dropWhile_sublist isBlank (l := (trimStart t).reverse)).length_le
  simp only [List.length_reverse] at back
  simp only [trim, trimEnd, List.length_reverse]
  exact Nat.le_trans back front

theorem ne_nil_of_mem_words {t word : Text} (h : word ∈ words t) : word ≠ [] := by
  simpa using (List.mem_filter.mp h).2

/-- The pieces of a text between the occurrences of `mark`, of which `skip` characters are still
    to be passed over. -/
def cutFrom (mark : Text) (skip : Nat) : Text → List Text
  | [] => [[]]
  | c :: r =>
    match skip with
    | skip + 1 => cutFrom mark skip r
    | 0 =>
      if mark.isPrefixOf (c :: r) then [] :: cutFrom mark (mark.length - 1) r
      else (cutFrom mark 0 r).modifyHead (c :: ·)

/-- The pieces of a text between the occurrences of `mark`. -/
def cut (mark t : Text) : List Text := cutFrom mark 0 t

theorem cutFrom_ne_nil (mark : Text) (skip : Nat) (t : Text) : cutFrom mark skip t ≠ [] := by
  fun_induction cutFrom mark skip t with
  | case1 => simp
  | case2 _ _ _ ih => exact ih
  | case3 => simp
  | case4 _ _ _ ih => simpa using ih

theorem cutFrom_skip (mark : Text) (skip : Nat) (t : Text) (fits : skip ≤ t.length) :
    cutFrom mark skip t = cutFrom mark 0 (t.drop skip) := by
  induction skip generalizing t with
  | zero => rfl
  | succ skip ih =>
    cases t with
    | nil => simp at fits
    | cons c r => simpa [cutFrom] using ih r (by simpa using fits)

/-- At an occurrence of the separator a piece ends and the next one begins after it. -/
theorem cut_append_mark {mark : Text} (nonempty : mark ≠ []) (rest : Text) :
    cut mark (mark ++ rest) = [] :: cut mark rest := by
  cases mark with
  | nil => exact absurd rfl nonempty
  | cons m ms =>
    have begins : (m :: ms).isPrefixOf (m :: (ms ++ rest)) = true := by
      rw [List.isPrefixOf_iff_prefix]
      exact ⟨rest, rfl⟩
    rw [cut, List.cons_append, cutFrom]
    simp only [begins, if_true, List.length_cons, Nat.add_sub_cancel]
    rw [cutFrom_skip _ _ _ (by simp)]
    simp [cut]

/-- Where the separator does not begin, the character belongs to the first piece. -/
theorem cut_cons {mark : Text} {c : Char} {r : Text} (h : ¬ mark.isPrefixOf (c :: r)) :
    cut mark (c :: r) = (cut mark r).modifyHead (c :: ·) := by
  simp [cut, cutFrom, h]

end Text
end Criteria
