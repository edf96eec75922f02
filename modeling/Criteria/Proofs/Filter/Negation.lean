import Criteria.Proofs.Filter.RoundTrip
import Criteria.Proofs.Filter.Single
import Criteria.Proofs.Filter.Truth

/-!
# Negated conditions

With the word `not` in front a condition is read with the opposite operator. If it has one value, the
comparison is the opposite one. A list of values is a group of alternatives with either operator, though:
the comparisons are the opposite ones, and the group is not.
-/

namespace Criteria.Filter

open Literal (Masked)
open Text (isBlank)

/-- The comparison with the opposite operator. -/
def Comparison.negate (x : Comparison) : Comparison := { x with operator := x.operator.negate }

/-- The part with the opposite comparison. Marks stay. -/
def Part.negate : Part → Part
  | .leaf x => .leaf x.negate
  | mark => mark

/-- Of a comparison and its opposite always one is true. -/
def IsCoherent (truth : Comparison → Bool) : Prop := ∀ x : Comparison, truth x.negate = !truth x

theorem leaves_map_leaf (xs : List Comparison) : leaves (xs.map .leaf) = xs := by
  induction xs with
  | nil => rfl
  | cons x r ih => simp [ih]

theorem holdsFrom_map_leaf (truth : Comparison → Bool) (xs : List Comparison) (r : List Part) (here : Standing)
    (around : List Standing) :
    holdsFrom truth here around (xs.map .leaf ++ r) = holdsFrom truth (here.add (xs.map truth)) around r := by
  induction xs generalizing here with
  | nil => simp [Standing.add]
  | cons x rest ih =>
    rw [List.map_cons, List.cons_append, holdsFrom, ih, Standing.add_add]
    rfl

/-- The comparisons of a condition: one, or one for each value of a list. -/
def alternatives (field : Text) (o : Operator) : Value → List Comparison
  | .list values => values.map fun value => ⟨field, o, value⟩
  | value => [⟨field, o, value⟩]

section
variable (field : Text) (o : Operator) (v : Value)

theorem compare_list (values : List Value) :
    compare field o (.list values) = group .or ((alternatives field o (.list values)).map .leaf) := by
  rw [compare, alternatives, List.map_map]
  rfl

theorem leaves_compare : leaves (compare field o v) = alternatives field o v := by
  cases v with
  | list values => rw [compare_list, leaves_group, leaves_map_leaf]
  | _ => rfl

/-- A condition holds if one of its comparisons is true. -/
theorem holds_compare (truth : Comparison → Bool) :
    holds truth (compare field o v) = (alternatives field o v).any truth := by
  cases v with
  | list values =>
    rw [compare_list, holds, group, holdsFrom, holdsFrom_map_leaf, holdsFrom, Standing.holds_add, holdsFrom]
    simp [Standing.holds, Standing.add, Standing.begin, Connector.over]
  | _ => simp [compare, holds, holdsFrom, Standing.holds, Standing.add, Standing.begin, Connector.over, alternatives]

theorem alternatives_negate : alternatives field o.negate v = (alternatives field o v).map Comparison.negate := by
  cases v with
  | list values =>
    rw [alternatives, alternatives, List.map_map]
    rfl
  | _ => rfl

theorem map_negate_compare : (compare field o v).map Part.negate = compare field o.negate v := by
  cases v with
  | list values =>
    rw [compare_list, compare_list, alternatives_negate]
    simp [group, Part.negate]
  | _ => rfl

variable {field o v}

theorem operator_of_mem_alternatives {x : Comparison} (member : x ∈ alternatives field o v) : x.operator = o := by
  cases v with
  | list values =>
    obtain ⟨value, -, rfl⟩ := List.mem_map.mp member
    rfl
  | _ => rw [List.mem_singleton.mp member]

/-- A value that is read has a comparison. -/
theorem alternatives_ne_nil (m : Masked) (t : Text) : alternatives field o (Value.ofMasked m t) ≠ [] := by
  rcases Value.ofMasked_cases m t with scalar | ⟨v, w, r, list, -⟩
  · rw [← leaves_compare, compare_scalar field o scalar]
    exact List.cons_ne_nil _ _
  · rw [list]
    exact List.cons_ne_nil _ _

end

/-- Of two filters always one holds, if of a comparison and its opposite always one is true. -/
def AreOpposite (parts opposite : List Part) : Prop :=
  ∀ truth, IsCoherent truth → holds truth opposite = !holds truth parts

/-- Half of the operators: the other half are their opposites. -/
def Operator.isFirst : Operator → Bool
  | eq | gt | ge => true
  | ne | le | lt => false

theorem Operator.isFirst_negate (o : Operator) : o.negate.isFirst = !o.isFirst := by cases o <;> rfl

/-- Of two comparisons with the same operator one can be true and the other one not. -/
theorem exists_coherent {x y : Comparison} (same : x.operator = y.operator) (differ : x ≠ y) :
    ∃ truth, IsCoherent truth ∧ truth x = true ∧ truth y = false := by
  let truth (z : Comparison) : Bool :=
    if z.field = x.field ∧ z.value = x.value then z.operator.isFirst == x.operator.isFirst
    else z.operator.isFirst != x.operator.isFirst
  refine ⟨truth, fun z => ?_, ?_, ?_⟩
  · have flipped : truth z.negate = if z.field = x.field ∧ z.value = x.value
        then z.operator.negate.isFirst == x.operator.isFirst else z.operator.negate.isFirst != x.operator.isFirst := rfl
    simp only [flipped, truth, Operator.isFirst_negate]
    split <;> cases z.operator.isFirst <;> cases x.operator.isFirst <;> rfl
  · simp [truth]
  · have other : ¬ (y.field = x.field ∧ y.value = x.value) := by
      rintro ⟨field, value⟩
      obtain ⟨field', operator', value'⟩ := x
      cases y
      simp_all
    simp [truth, other, same]

theorem holds_negate_compare {truth : Comparison → Bool} (coherent : IsCoherent truth) {field : Text} {o : Operator}
    {v : Value} : holds truth (compare field o.negate v) = (alternatives field o v).any fun x => !truth x := by
  rw [holds_compare, alternatives_negate, List.any_map]
  exact congrArg _ (funext coherent)

theorem areOpposite_compare_iff {field : Text} {o : Operator} {v : Value} (nonempty : alternatives field o v ≠ []) :
    AreOpposite (compare field o v) (compare field o.negate v) ↔
      ∀ x ∈ alternatives field o v, ∀ y ∈ alternatives field o v, x = y := by
  constructor
  · intro opposite x member y member'
    by_contra differ
    have same := (operator_of_mem_alternatives member).trans (operator_of_mem_alternatives member').symm
    obtain ⟨truth, coherent, first, second⟩ := exists_coherent same differ
    have both := opposite truth coherent
    have held : holds truth (compare field o v) = true := by
      rw [holds_compare, List.any_eq_true]
      exact ⟨x, member, first⟩
    have heldNegated : holds truth (compare field o.negate v) = true := by
      rw [holds_negate_compare coherent, List.any_eq_true]
      exact ⟨y, member', by rw [second]; rfl⟩
    rw [held, heldNegated] at both
    cases both
  · intro alike truth coherent
    obtain ⟨x, member⟩ := List.exists_mem_of_ne_nil _ nonempty
    have single (test : Comparison → Bool) : (alternatives field o v).any test = test x := by
      rw [Bool.eq_iff_iff, List.any_eq_true]
      constructor
      · rintro ⟨y, member', held⟩
        rwa [alike x member y member']
      · intro held
        exact ⟨x, member, held⟩
    rw [holds_negate_compare coherent, holds_compare, single, single]

/-! ## What is written -/

/-- The text with the word `not` in front. -/
def negation (t : Text) : Text := notWord ++ ' ' :: t

/-- The blanks between the word `not` and a text stay when it is trimmed. -/
theorem trim_negation {t : Text} (nonblank : Text.trim t ≠ []) :
    ∃ a, (∀ c ∈ a, isBlank c) ∧ Text.trim (negation t) = negation (a ++ Text.trim t) := by
  obtain ⟨a, b, front, back, whole⟩ := Text.trim_between t
  refine ⟨a, front, ?_⟩
  have ends : (negation (a ++ Text.trim t)).getLast? = (Text.trim t).getLast? := by
    simp [negation, List.getLast?_append, List.getLast?_cons, List.getLast?_eq_some_getLast nonblank]
  have stretch : Text.Trimmed (negation (a ++ Text.trim t)) := by
    refine ⟨?_, by rw [ends]; exact (Text.trimmed_trim t).2⟩
    rintro _ ⟨⟩
    decide
  have same : [] ++ negation (a ++ Text.trim t) ++ b = negation t := by
    conv_rhs => rw [whole]
    simp [negation]
  rw [← same, Text.trim_eq (by simp) back stretch]

theorem mask_negation {t : Text} {m : Masked} (masked : Literal.mask (Text.trim t) = .ok m)
    (nonblank : Text.trim t ≠ []) :
    ∃ a, (∀ c ∈ a, isBlank c) ∧
      Literal.mask (Text.trim (negation t)) = .ok ⟨negation (a ++ m.text), m.literals⟩ := by
  obtain ⟨a, blank, trimmed⟩ := trim_negation nonblank
  have split (r : Text) : negation (a ++ r) = notWord ++ ' ' :: a ++ r := by simp [negation]
  have ordinary : ∀ c ∈ notWord ++ ' ' :: a, Literal.Ordinary c := by
    have letters : ∀ c ∈ notWord, Literal.Ordinary c := by decide
    intro c member
    rcases List.mem_append.mp member with member | member
    · exact letters c member
    · rcases List.mem_cons.mp member with rfl | member
      · decide
      · exact ordinary_of_isBlank (blank c member)
  obtain ⟨atoms, spelled, rfl⟩ := Literal.mask_eq_ok_iff.mp masked
  refine ⟨a, blank, ?_⟩
  rw [trimmed, split, Literal.mask_eq_ok_iff]
  refine ⟨_, spelled.plain_append ordinary, ?_⟩
  rw [Masked.ofAtoms, Literal.maskFrom_plain_append, Literal.contents_plain_append, split]
  rfl

theorem words_negation (t : Text) : Text.words (negation t) = notWord :: Text.words t := by
  rw [negation, Text.words_append_space]
  rfl

/-- Blanks in front of a text that does not begin with a connector put none between two spaces. -/
theorem not_infix_blanks_append {c : Connector} {t : Text} (uncut : ¬ c.between <:+: t)
    (first : (Text.words t).head? ≠ some c.word) {s : Text} (blank : ∀ d ∈ s, isBlank d) :
    ¬ c.between <:+: s ++ t := by
  induction s with
  | nil => exact uncut
  | cons b s ih =>
    have others : ∀ d ∈ s, isBlank d := fun d member => blank d (List.mem_cons_of_mem _ member)
    rw [List.cons_append, List.infix_cons_iff]
    rintro (⟨r, whole⟩ | within)
    · obtain ⟨-, rest⟩ := List.cons.inj whole
      have words := congrArg Text.words rest
      rw [List.append_eq, List.append_assoc, List.singleton_append, Text.words_append_space, c.words_word,
        Text.words_blanks_append others] at words
      exact first (by rw [← words]; rfl)
    · exact ih others within

/-- With the word `not` in front a text is still not divided, if it does not begin with a connector. -/
theorem IsUndivided.negation {t : Text} (undivided : IsUndivided t)
    (first : ∀ c : Connector, (Text.words t).head? ≠ some c.word) {s : Text} (blank : ∀ c ∈ s, isBlank c) :
    IsUndivided (negation (s ++ t)) where
  flat := by
    rw [words_negation, Filter.negation, Token.ofMasked_append_blank Text.isBlank_space,
      Token.ofMasked_blanks_append blank, undivided.flat, Text.words_blanks_append blank]
    rfl
  uncut := by
    intro c
    have spaced : ¬ c.between <:+: ' ' :: s ++ t := by
      refine not_infix_blanks_append (undivided.uncut c) (first c) fun d member => ?_
      rcases List.mem_cons.mp member with rfl | member
      · exact Text.isBlank_space
      · exact blank d member
    have letter {d : Char} {r : Text} (solid : ' ' ≠ d) (rest : ¬ c.between <:+: r) : ¬ c.between <:+: d :: r := by
      rw [List.infix_cons_iff]
      rintro (⟨_, whole⟩ | within)
      · exact solid (List.cons.inj whole).1
      · exact rest within
    exact letter (by decide) (letter (by decide) (letter (by decide) spaced))

/-! ## What is read -/

/-- A text that holds one condition and does not begin with the word `not`. -/
structure IsPositive (t : Text) (m : Masked) : Prop where
  nonblank : Text.trim t ≠ []
  masked : Literal.mask (Text.trim t) = .ok m
  undivided : IsUndivided m.text
  unnegated : (Text.words m.text).head? ≠ some notWord

/-- If such a text is read, it has the words of a comparison. -/
theorem IsPositive.exists_words {t : Text} {m : Masked} (positive : IsPositive t m) {parts : List Part}
    (read : parse t = .ok parts) :
    ∃ (field : Text) (o : Operator) (value : List Text),
      Text.words m.text = field :: o.word :: value ∧ readComparison m false field o.word value = .ok parts := by
  obtain ⟨nonblank, masked, undivided, unnegated⟩ := positive
  obtain ⟨g', reads⟩ : ∃ g', Yields (readText m m.text) [] parts g' := by
    rcases parse_eq_ok_iff.mp read with ⟨blank, -⟩ | ⟨-, m', g', masked', reads⟩
    · exact absurd blank nonblank
    · cases masked.symm.trans masked'
      exact ⟨g', reads⟩
  obtain ⟨condition, -⟩ := (yields_readText_iff undivided).mp reads
  match words : Text.words m.text with
  | [] => simp [readCondition, words] at condition
  | [token] =>
    obtain ⟨n, -, stored, -⟩ :=
      GroupTable.yields_take?_some_iff.mp ((yields_readCondition_single_iff words).mp condition)
    cases stored
  | first :: second :: rest =>
    obtain ⟨-, negated, field, keyword, value, split, -, compared⟩ := exists_of_yields_readCondition words condition
    obtain ⟨-, -, -, o, rfl, -⟩ := readComparison_eq_ok_iff.mp compared
    rw [words] at split unnegated
    cases negated with
    | false => exact ⟨field, o, value, split, compared⟩
    | true => exact absurd (by rw [split]; rfl) unnegated

/-- With the word `not` in front the opposite operator is read, and the rest as before. -/
theorem IsPositive.parse_negation {t : Text} {m : Masked} (positive : IsPositive t m) {parts : List Part}
    (read : parse t = .ok parts) :
    ∃ (field : Text) (o : Operator) (value : Text),
      parts = compare (m.restore field) o (Value.ofMasked m value) ∧
        parse (negation t) = .ok (compare (m.restore field) o.negate (Value.ofMasked m value)) := by
  obtain ⟨field, o, value, words, compared⟩ := positive.exists_words read
  obtain ⟨isField, unmarked, dangling, o, keyword, rfl⟩ := readComparison_eq_ok_iff.mp compared
  rw [keyword] at words
  refine ⟨field, o, [' '].intercalate value, rfl, ?_⟩
  obtain ⟨s, blank, masked⟩ := mask_negation positive.masked positive.nonblank
  have split : Text.words (negation (s ++ m.text)) =
      (if true then [notWord] else []) ++ field :: o.word :: value := by
    rw [words_negation, Text.words_blanks_append blank, words]
    rfl
  have undivided : IsUndivided (negation (s ++ m.text)) := by
    refine positive.undivided.negation (fun c head => ?_) blank
    rw [words] at head
    exact isField.1 c (Option.some.inj head)
  have nonblank : Text.trim (negation t) ≠ [] := by
    obtain ⟨_, -, whole⟩ := trim_negation positive.nonblank
    rw [whole]
    exact List.cons_ne_nil _ _
  have literals : Masked.literals ⟨negation (s ++ m.text), m.literals⟩ = m.literals := rfl
  refine parse_eq_ok_iff.mpr (.inr ⟨nonblank, _, [], masked, ?_⟩)
  refine yields_readText_of_readCondition undivided split ?_
  rw [readCondition_eq split fun _ => rfl, yields_lift_iff, readComparison_eq_ok_iff]
  refine ⟨⟨isField, unmarked, dangling, o, rfl, ?_⟩, rfl⟩
  rw [if_pos rfl, Masked.restore_of_literals literals, Value.ofMasked_of_literals literals]

/-- With the word `not` in front a condition is read as the opposite comparisons. Either condition holds as soon
    as one of its comparisons is true, so that they are opposite exactly if all comparisons are the same: always
    with one value, and with a list of values only if these are equal. -/
theorem negation_opposite_iff {t : Text} {m : Masked} (positive : IsPositive t m) {parts : List Part}
    (read : parse t = .ok parts) :
    parse (negation t) = .ok (parts.map Part.negate) ∧
      (∀ truth, IsCoherent truth →
        holds truth parts = (leaves parts).any truth ∧
          holds truth (parts.map Part.negate) = (leaves parts).any fun x => !truth x) ∧
      (AreOpposite parts (parts.map Part.negate) ↔ ∀ x ∈ leaves parts, ∀ y ∈ leaves parts, x = y) := by
  obtain ⟨field, o, value, rfl, readNegation⟩ := positive.parse_negation read
  rw [map_negate_compare, leaves_compare]
  refine ⟨readNegation, fun truth coherent => ?_, areOpposite_compare_iff (alternatives_ne_nil m value)⟩
  exact ⟨holds_compare _ o _ truth, holds_negate_compare coherent⟩

/-- A list of two values: with either of them the condition and its negation both hold. -/
theorem not_opposite_listed :
    IsPositive "a eq 1,2".toList ⟨"a eq 1,2".toList, []⟩ ∧
      parse "a eq 1,2".toList =
        .ok [.enter .or, .leaf ⟨['a'], .eq, .int 1⟩, .leaf ⟨['a'], .eq, .int 2⟩, .leave .or] ∧
      parse "not a eq 1,2".toList =
        .ok [.enter .or, .leaf ⟨['a'], .ne, .int 1⟩, .leaf ⟨['a'], .ne, .int 2⟩, .leave .or] ∧
      ¬ AreOpposite [.enter .or, .leaf ⟨['a'], .eq, .int 1⟩, .leaf ⟨['a'], .eq, .int 2⟩, .leave .or]
        [.enter .or, .leaf ⟨['a'], .ne, .int 1⟩, .leaf ⟨['a'], .ne, .int 2⟩, .leave .or] := by
  have words : Text.words "a eq 1,2".toList = [['a'], ['e', 'q'], ['1', ',', '2']] := by decide +kernel
  have bare : ¬ ('(' ∈ "a eq 1,2".toList ∨ ')' ∈ "a eq 1,2".toList) := by decide
  have positive : IsPositive "a eq 1,2".toList ⟨"a eq 1,2".toList, []⟩ := by
    have trimmed : Text.trim "a eq 1,2".toList = "a eq 1,2".toList := by decide +kernel
    refine ⟨by rw [trimmed]; decide, by decide +kernel, ⟨Token.ofMasked_of_bare bare, fun c => ?_⟩, by rw [words]; decide⟩
    refine Text.not_infix_of_not_mem_words c.word_ne_nil c.solid_word ?_
    rw [words]
    cases c <;> decide
  have read : parse "a eq 1,2".toList =
      .ok [.enter .or, .leaf ⟨['a'], .eq, .int 1⟩, .leaf ⟨['a'], .eq, .int 2⟩, .leave .or] := by
    rw [parse_eq_parseWithin]
    decide +kernel
  obtain ⟨negated, -, opposite⟩ := negation_opposite_iff positive read
  refine ⟨positive, read, negated, fun both => ?_⟩
  have same := opposite.mp both ⟨['a'], .eq, .int 1⟩ (by decide) ⟨['a'], .eq, .int 2⟩ (by decide)
  exact absurd same (by decide)

end Criteria.Filter
