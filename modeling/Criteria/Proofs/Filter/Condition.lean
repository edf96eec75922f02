import Criteria.Proofs.Filter.Grammar
import Criteria.Proofs.Filter.Reading

/-!
# Reading a condition

A text whose words are those of a condition is read as the parts of that condition. Conversely, what
is read from several words has a field and an operator, and its value neither begins nor ends with a
connector.
-/

namespace Criteria.Filter

open Literal (Masked)

namespace Connector

theorem word_ne_nil (c : Connector) : c.word ≠ [] := by
  cases c <;> simp [word]

theorem solid_word (c : Connector) : ∀ d ∈ c.word, ¬ Text.isBlank d := by
  cases c <;> decide

theorem head?_word_ne_sentinel (c : Connector) : c.word.head? ≠ some Literal.sentinel := by
  cases c <;> decide

theorem word_ne_notWord (c : Connector) : c.word ≠ notWord := by
  cases c <;> decide

theorem word_ne_operator (c : Connector) (o : Operator) : c.word ≠ o.word := by
  cases c <;> cases o <;> decide

theorem ofWord?_eq_none_iff {w : Text} : ofWord? w = none ↔ ∀ c : Connector, w ≠ c.word := by
  rw [Option.eq_none_iff_forall_ne_some]
  exact forall_congr' fun c => not_congr ofWord?_eq_some_iff

end Connector

theorem head?_notWord_ne_sentinel : notWord.head? ≠ some Literal.sentinel := by decide

theorem quotedInner?_eq_none_iff {w : Text} : Literal.quotedInner? w = none ↔
    ¬ (1 < w.length ∧ w.head? = some Literal.quote ∧ w.getLast? = some Literal.quote) := by
  match w with
  | [] => simp [Literal.quotedInner?]
  | [c] => simp [Literal.quotedInner?]
  | c :: d :: r => simp [Literal.quotedInner?]

theorem isField_iff {w : Text} :
    IsField w ↔ Connector.ofWord? w = none ∧ Literal.quotedInner? w = none := by
  rw [IsField, Connector.ofWord?_eq_none_iff, quotedInner?_eq_none_iff]

theorem dangling?_eq_none_iff {ws : List Text} : dangling? ws = none ↔
    (∀ w ∈ ws.head?, ∀ c : Connector, w ≠ c.word) ∧ ∀ w ∈ ws.getLast?, ∀ c : Connector, w ≠ c.word := by
  rw [dangling?, Option.orElse_eq_orElse, Option.orElse_eq_or, Option.or_eq_none_iff,
    Option.bind_eq_none_iff, Option.bind_eq_none_iff]
  simp only [Connector.ofWord?_eq_none_iff]
  rfl

theorem readOperator_eq_ok_iff {negated : Bool} {keyword : Text} {o : Operator} :
    readOperator negated keyword = .ok o ↔
      ∃ written, keyword = written.word ∧ o = if negated then written.negate else written := by
  unfold readOperator
  cases found : Operator.ofWord? keyword with
  | none =>
    constructor
    · intro h
      cases h
    · rintro ⟨written, rfl, -⟩
      rw [Operator.ofWord?_word] at found
      cases found
  | some written =>
    obtain rfl := Operator.ofWord?_eq_some_iff.mp found
    constructor
    · intro h
      cases h
      exact ⟨written, rfl, rfl⟩
    · rintro ⟨other, same, rfl⟩
      rw [same, Operator.ofWord?_word] at found
      cases found
      rfl

/-- When a comparison is read from its words, and what it is. -/
theorem readComparison_eq_ok_iff {m : Masked} {negated : Bool} {field keyword : Text} {value : List Text}
    {parts : List Part} : readComparison m negated field keyword value = .ok parts ↔
      IsField field ∧ field.head? ≠ some Literal.sentinel ∧ dangling? value = none ∧
        ∃ o : Operator, keyword = o.word ∧
          parts = compare (m.restore field) (if negated then o.negate else o)
            (Value.ofMasked m ([' '].intercalate value)) := by
  unfold readComparison
  rw [isField_iff]
  cases connector : Connector.ofWord? field with
  | some c => simp [throw, throwThe, MonadExceptOf.throw, bind, Except.bind]
  | none =>
    cases quoted : Literal.quotedInner? field with
    | some inner => simp [throw, throwThe, MonadExceptOf.throw, bind, Except.bind]
    | none =>
      by_cases marked : field.head? = some Literal.sentinel
      · simp [marked, throw, throwThe, MonadExceptOf.throw, bind, Except.bind]
      · cases dangling : dangling? value with
        | some c => simp [marked, throw, throwThe, MonadExceptOf.throw, bind, Except.bind]
        | none =>
          have opened : (∃ o, readOperator negated keyword = .ok o ∧
              compare (m.restore field) o (Value.ofMasked m ([' '].intercalate value)) = parts) ↔
              ∃ o : Operator, keyword = o.word ∧
                parts = compare (m.restore field) (if negated then o.negate else o)
                  (Value.ofMasked m ([' '].intercalate value)) := by
            simp only [readOperator_eq_ok_iff]
            constructor
            · rintro ⟨o, ⟨written, same, rfl⟩, rfl⟩
              exact ⟨written, same, rfl⟩
            · rintro ⟨written, same, rfl⟩
              exact ⟨_, ⟨written, same, rfl⟩, rfl⟩
          simp only [Option.isSome_none, Bool.false_eq_true, if_false, marked, bind, Except.bind, pure,
            Except.pure, not_false_eq_true, ne_eq, true_and, ← opened]
          cases readOperator negated keyword <;> simp

theorem readComparison_mark (m : Masked) (negated : Bool) (n : Nat) (keyword : Text) (words : List Text) :
    readComparison m negated (GroupTable.mark n) keyword words = .error .groupAsField := by
  have unnamed : Connector.ofWord? (GroupTable.mark n) = none := by
    rw [Connector.ofWord?_eq_none_iff]
    intro c same
    exact c.head?_word_ne_sentinel (same ▸ rfl)
  have unquoted : Literal.quotedInner? (GroupTable.mark n) = none := by
    simp [GroupTable.mark, GroupTable.markStart, Literal.quotedInner?, Literal.sentinel, Literal.quote]
  have marked : (GroupTable.mark n).head? = some Literal.sentinel := rfl
  simp [readComparison, unnamed, unquoted, marked, throw, throwThe, MonadExceptOf.throw, bind, Except.bind]

theorem readComparison_connector (m : Masked) (negated : Bool) (c : Connector) (keyword : Text) (words : List Text) :
    readComparison m negated c.word keyword words = .error .adjacentConnectors := by
  simp [readComparison, Connector.ofWord?_word, throw, throwThe, MonadExceptOf.throw, bind, Except.bind]

/-- A condition of one word is the mark of a group. -/
theorem yields_readCondition_single_iff {m : Masked} {t token : Text} (h : Text.words t = [token])
    {g g' : GroupTable} {parts : List Part} :
    Yields (readCondition m t) g parts g' ↔ Yields (GroupTable.take? token) g (some parts) g' := by
  simp only [readCondition, h, yields_bind_iff]
  constructor
  · rintro ⟨found, g₁, taken, rest⟩
    cases found with
    | none => exact absurd rest not_yields_throw
    | some other =>
      obtain ⟨rfl, rfl⟩ := yields_pure_iff.mp rest
      exact taken
  · intro taken
    exact ⟨some parts, g', taken, yields_pure_iff.mpr ⟨rfl, rfl⟩⟩

/-- A text of a field, a keyword and the words of a value, perhaps after `not`, is read as a
    comparison. -/
theorem readCondition_eq {m : Masked} {t field keyword : Text} {negated : Bool} {value : List Text}
    (h : Text.words t = (if negated then [notWord] else []) ++ field :: keyword :: value)
    (negates : field = notWord → negated = true) :
    readCondition m t = liftM (readComparison m negated field keyword value) := by
  cases negated with
  | true =>
    rw [if_pos rfl] at h
    simp [readCondition, h]
  | false =>
    have named : field ≠ notWord := fun same => Bool.false_ne_true (negates same)
    rw [if_neg Bool.false_ne_true, List.nil_append] at h
    simp [readCondition, h, named]

/-- What is read from several words. -/
theorem exists_of_yields_readCondition {m : Masked} {t first second : Text} {rest : List Text}
    (h : Text.words t = first :: second :: rest) {g g' : GroupTable} {parts : List Part}
    (read : Yields (readCondition m t) g parts g') :
    g' = g ∧ ∃ (negated : Bool) (field keyword : Text) (value : List Text),
      Text.words t = (if negated then [notWord] else []) ++ field :: keyword :: value ∧
        (field = notWord → negated = true) ∧
          readComparison m negated field keyword value = .ok parts := by
  by_cases negated : first = notWord
  · cases rest with
    | nil =>
      simp [readCondition, h, negated] at read
    | cons third rest =>
      have split : Text.words t = (if true then [notWord] else []) ++ second :: third :: rest := by
        rw [h, negated]
        rfl
      rw [readCondition_eq split fun _ => rfl, yields_lift_iff] at read
      exact ⟨read.2.symm, true, second, third, rest, split, fun _ => rfl, read.1⟩
  · have split : Text.words t = (if false then [notWord] else []) ++ first :: second :: rest := h
    rw [readCondition_eq split fun same => absurd same negated, yields_lift_iff] at read
    exact ⟨read.2.symm, false, first, second, rest, split, fun same => absurd same negated, read.1⟩

/-- What is read from several words begins neither with a connector nor with a mark. -/
theorem first_of_yields_readCondition {m : Masked} {t first second : Text} {rest : List Text}
    (h : Text.words t = first :: second :: rest) {g g' : GroupTable} {parts : List Part}
    (read : Yields (readCondition m t) g parts g') :
    (∀ c : Connector, first ≠ c.word) ∧ first.head? ≠ some Literal.sentinel := by
  obtain ⟨-, negated, field, keyword, value, split, -, compared⟩ := exists_of_yields_readCondition h read
  obtain ⟨isField, unmarked, -⟩ := readComparison_eq_ok_iff.mp compared
  rw [h] at split
  cases negated with
  | true =>
    obtain ⟨rfl, -⟩ := List.cons.inj split
    exact ⟨fun c same => Connector.word_ne_notWord c same.symm, head?_notWord_ne_sentinel⟩
  | false =>
    obtain ⟨rfl, -⟩ := List.cons.inj split
    exact ⟨isField.1, unmarked⟩

theorem Condition.plain_texts (c : Condition) (d : Connector) : d.word ∉ c.texts := by
  intro member
  rcases List.mem_append.mp member with first | member
  · cases negated : c.negated with
    | true =>
      rw [negated, if_pos rfl, List.mem_singleton] at first
      exact d.word_ne_notWord first
    | false => simp [negated] at first
  · rcases List.mem_cons.mp member with same | member
    · exact c.isField.1 d same.symm
    · rcases List.mem_cons.mp member with same | member
      · exact d.word_ne_operator c.operator same
      · exact c.plain d.word member d rfl

/-- The words of a condition are read as its parts. -/
theorem yields_condition (m : Masked) (c : Condition) {t : Text} (h : Text.words t = c.texts)
    (unmarked : c.field.head? ≠ some Literal.sentinel) (g : GroupTable) :
    Yields (readCondition m t) g (c.parts m) g := by
  rw [readCondition_eq h c.negated_of_not, yields_lift_iff, readComparison_eq_ok_iff]
  have edges : dangling? c.value = none := by
    rw [dangling?_eq_none_iff]
    exact ⟨fun w head => c.plain w (List.mem_of_head? head), fun w last => c.plain w (List.mem_of_getLast? last)⟩
  exact ⟨⟨c.isField, unmarked, edges, c.operator, rfl, rfl⟩, rfl⟩

variable {m : Masked}

theorem readCondition_unnegated {t first second : Text} {rest : List Text}
    (words : Text.words t = first :: second :: rest) (unnegated : first ≠ notWord) :
    readCondition m t = liftM (readComparison m false first second rest) := by
  have split : Text.words t = (if false then [notWord] else []) ++ first :: second :: rest := words
  exact readCondition_eq split fun same => absurd same unnegated

/-- A condition of several words takes out no group. -/
theorem exists_outcome_several (m : Masked) {t first second : Text} {rest : List Text}
    (words : Text.words t = first :: second :: rest) : ∃ result, ∀ g, outcome (readCondition m t) g = (result, g) := by
  by_cases negated : first = notWord
  · cases rest with
    | nil => exact ⟨.error (.incompleteCondition (m.restore (Text.trim t))), fun g => by
        simp [readCondition, words, negated, outcome_throw]⟩
    | cons third rest =>
      refine ⟨readComparison m true second third rest, fun g => ?_⟩
      rw [readCondition_eq (by rw [words, negated]; rfl) fun _ => rfl, outcome_lift]
  · refine ⟨readComparison m false first second rest, fun g => ?_⟩
    rw [readCondition_unnegated words negated, outcome_lift]

/-- A condition without marks is read as the same from every table. -/
theorem exists_outcome_unmarked (m : Masked) {t : Text} (unmarked : Literal.sentinel ∉ t) :
    ∃ result, ∀ g, outcome (readCondition m t) g = (result, g) := by
  match words : Text.words t with
  | [] => exact ⟨.error .emptyCondition, fun g => by simp [readCondition, words, outcome_throw]⟩
  | [token] =>
    have notMark : GroupTable.markNumber? token = none := by
      apply GroupTable.markNumber?_eq_none
      intro head
      have inside := Text.infix_of_mem_words (t := t) (w := token) (by simp [words])
      exact unmarked (inside.subset (List.mem_of_head? head))
    refine ⟨.error (.incompleteCondition (m.restore token)), fun g => ?_⟩
    simp [readCondition, words, outcome_bind, GroupTable.outcome_take?_of_not_mark notMark, outcome_throw]
  | first :: second :: rest => exact exists_outcome_several m words

end Criteria.Filter
