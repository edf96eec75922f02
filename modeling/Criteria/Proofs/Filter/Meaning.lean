import Criteria.Proofs.Filter.Condition
import Criteria.Proofs.Filter.Division
import Criteria.Proofs.Literal.Restore
import Criteria.Proofs.Number.Numeral
import Criteria.Proofs.Value.RoundTrip

/-!
# Alike texts mean the same

If literals that answer each other have the same content, then alike texts without marks are restored
to the same text, denote the same value and name a field or no field alike.
-/

namespace Criteria.Filter

open Literal (Masked)
open Text (isBlank)

/-- Literals that answer each other have the same content. -/
def Likeness.Agree (l : Likeness) (m m' : Masked) : Prop :=
  ∀ n n', l.literals n n' → ∃ content, m.literals[n]? = some content ∧ m'.literals[n']? = some content

/-- Literals agree where they stand in both masked texts under their numbers. -/
theorem agree_of_holds {atoms : List Literal.Atom} {n n' : Nat} {m m' : Masked} (held : m.Holds n atoms)
    (held' : m'.Holds n' atoms) :
    (Likeness.numbered (atoms.filterMap Literal.Atom.content?).length n n').Agree m m' := by
  rintro _ _ ⟨i, bound, rfl, rfl⟩
  exact ⟨_, by rw [held.getElem? bound, List.getElem?_eq_getElem bound],
    by rw [held'.getElem? bound, List.getElem?_eq_getElem bound]⟩

variable {l : Likeness} {m m' : Masked} {first : Bool} {t t' : Text}

namespace Alike

theorem restore_eq (h : Alike l first t t') (agree : l.Agree m m') (unmarked : ∀ n n', ¬ l.marks n n') :
    m.restore t = m'.restore t' := by
  induction h with
  | nil => rfl
  | bareEscape => rw [m.restore_bareEscape, m'.restore_bareEscape]
  | escaped c rest ih => rw [m.restore_escaped, m'.restore_escaped, ih]
  | plain ordinary allowed rest ih =>
    rw [m.restore_cons ordinary.1 ordinary.2.1, m'.restore_cons ordinary.1 ordinary.2.1, ih]
  | literal same rest ih =>
    obtain ⟨content, held, held'⟩ := agree _ _ same
    rw [m.restore_placeholder held, m'.restore_placeholder held', ih]
  | mark same => exact absurd same (unmarked _ _)

/-- Alike texts are equal or hold quotes. -/
theorem eq_or_quoted (h : Alike l first t t') (unmarked : ∀ n n', ¬ l.marks n n') :
    t = t' ∨ Literal.quote ∈ t ∧ Literal.quote ∈ t' := by
  induction h with
  | nil | bareEscape => exact .inl rfl
  | escaped c rest ih =>
    rcases ih with rfl | ⟨left, right⟩
    · exact .inl rfl
    · exact .inr ⟨by simp [left], by simp [right]⟩
  | plain ordinary allowed rest ih =>
    rcases ih with rfl | ⟨left, right⟩
    · exact .inl rfl
    · exact .inr ⟨by simp [left], by simp [right]⟩
  | literal same rest ih => exact .inr ⟨by simp [Literal.placeholder], by simp [Literal.placeholder]⟩
  | mark same => exact absurd same (unmarked _ _)

theorem unquote?_eq (h : Alike l first t t') (agree : l.Agree m m') (unmarked : ∀ n n', ¬ l.marks n n') :
    m.unquote? t = m'.unquote? t' := by
  have other {c : Char} {r : Text} (notQuote : c ≠ Literal.quote) : (c :: r).head? ≠ some Literal.quote := by
    simpa using notQuote
  cases h with
  | nil => rfl
  | bareEscape => rw [m.unquote?_eq_none (other (by decide)), m'.unquote?_eq_none (other (by decide))]
  | escaped c rest => rw [m.unquote?_eq_none (other (by decide)), m'.unquote?_eq_none (other (by decide))]
  | plain ordinary allowed rest =>
    rw [m.unquote?_eq_none (other ordinary.2.1), m'.unquote?_eq_none (other ordinary.2.1)]
  | @literal _ n n' r r' same rest =>
    by_cases empty : r = []
    · rw [empty, rest.eq_nil_iff.mp empty, List.append_nil, List.append_nil, m.unquote?_placeholder,
        m'.unquote?_placeholder]
      obtain ⟨content, held, held'⟩ := agree _ _ same
      rw [held, held']
    · rw [m.unquote?_placeholder_append n empty,
        m'.unquote?_placeholder_append n' fun none => empty (rest.eq_nil_iff.mpr none)]
  | mark same => exact absurd same (unmarked _ _)

/-- Alike tokens say the same. -/
theorem reveal_eq (h : Alike l first t t') (agree : l.Agree m m')
    (unmarked : ∀ n n', ¬ l.marks n n') : m.reveal t = m'.reveal t' := by
  rw [Masked.reveal, Masked.reveal, h.unquote?_eq agree unmarked, h.restore_eq agree unmarked]

/-- Alike texts have alike pieces between their commas. -/
theorem listPieces (h : Alike l first t t') (unmarked : ∀ n n', ¬ l.marks n n') :
    ∃ p r p' r', Value.listPieces t = p :: r ∧ Value.listPieces t' = p' :: r' ∧ Alike l first p p' ∧
      List.Forall₂ (Alike l true) r r' := by
  induction h with
  | nil first => exact ⟨[], [], [], [], rfl, rfl, .nil first, .nil⟩
  | bareEscape first =>
    have single : Value.listPieces [Literal.escape] = [[Literal.escape]] := by
      rw [Value.listPieces.eq_def]
      simp
    exact ⟨_, [], _, [], single, single, .bareEscape first, .nil⟩
  | escaped c rest ih =>
    obtain ⟨p, r, p', r', left, right, alike, later⟩ := ih
    refine ⟨_ :: c :: p, r, _ :: c :: p', r', ?_, ?_, .escaped c alike, later⟩
    · rw [Value.listPieces.eq_def]
      simp [left]
    · rw [Value.listPieces.eq_def]
      simp [right]
  | @plain first c t t' ordinary allowed rest ih =>
    obtain ⟨p, r, p', r', left, right, alike, later⟩ := ih
    by_cases comma : c = ','
    · refine ⟨[], p :: r, [], p' :: r', ?_, ?_, .nil first, .cons alike.begin later⟩
      · rw [Value.listPieces.eq_def]
        simp [comma, left, Literal.escape]
      · rw [Value.listPieces.eq_def]
        simp [comma, right, Literal.escape]
    · refine ⟨c :: p, r, c :: p', r', ?_, ?_, .plain ordinary allowed alike, later⟩
      · rw [Value.listPieces.eq_def]
        simp [ordinary.1, comma, left]
      · rw [Value.listPieces.eq_def]
        simp [ordinary.1, comma, right]
  | @literal first n n' t t' same rest ih =>
    have bare (n : Nat) : ∀ c ∈ Literal.placeholder n, c ≠ Literal.escape ∧ c ≠ ',' := by
      intro c member
      rcases mem_placeholder member with rfl | digit
      · decide
      · refine ⟨?_, ?_⟩ <;> rintro rfl <;> exact absurd digit (by decide)
    obtain ⟨p, r, p', r', left, right, alike, later⟩ := ih
    refine ⟨_ ++ p, r, _ ++ p', r', ?_, ?_, .literal same alike, later⟩
    · rw [Value.listPieces_append (bare n), left]
      rfl
    · rw [Value.listPieces_append (bare n'), right]
      rfl
  | mark same => exact absurd same (unmarked _ _)

theorem ofScalar_eq (h : Alike l first t t') (agree : l.Agree m m') (unmarked : ∀ n n', ¬ l.marks n n') :
    Value.ofScalar m t = Value.ofScalar m' t' := by
  have revealed := h.reveal_eq agree unmarked
  rcases h.eq_or_quoted unmarked with rfl | ⟨left, right⟩
  · rw [Value.ofScalar, Value.ofScalar, revealed]
  · have other : ¬ Number.IsNumeralChar Literal.quote := by simp [Number.IsNumeralChar, Literal.quote]
    obtain ⟨noInteger, noDouble⟩ := Number.not_number left other
    obtain ⟨noInteger', noDouble'⟩ := Number.not_number right other
    have other' : ¬ Literal.quote.isLower := by decide
    rw [Value.ofScalar, Value.ofScalar, revealed, Value.ofReserved?_eq_none left other', Value.ofReserved?_eq_none right other',
      noInteger, noInteger', noDouble, noDouble']

/-- Alike pieces are read as the same values. -/
theorem pieces_eq (agree : l.Agree m m') (unmarked : ∀ n n', ¬ l.marks n n') {ts ts' : List Text}
    (h : List.Forall₂ (Alike l true) ts ts') :
    (ts.map fun t => Value.ofScalar m (Text.trim t)) = ts'.map fun t => Value.ofScalar m' (Text.trim t) := by
  induction h with
  | nil => rfl
  | cons one others ih => rw [List.map_cons, List.map_cons, ih, one.trim.ofScalar_eq agree unmarked]

/-- Alike texts denote the same value. -/
theorem value_eq (h : Alike l first t t') (agree : l.Agree m m') (unmarked : ∀ n n', ¬ l.marks n n') :
    Value.ofMasked m t = Value.ofMasked m' t' := by
  obtain ⟨p, r, p', r', left, right, alike, later⟩ := h.listPieces unmarked
  have same := pieces_eq agree unmarked (.cons alike.begin later)
  rw [Value.ofMasked, Value.ofMasked, left, right]
  cases later with
  | nil => exact h.ofScalar_eq agree unmarked
  | cons one others => exact congrArg Value.list same

private theorem getLast?_append_eq_quote {x t : Text} (nonempty : t ≠ []) :
    (x ++ t).getLast? = some Literal.quote ↔ t.getLast? = some Literal.quote := by
  rw [List.getLast?_append, List.getLast?_eq_some_getLast nonempty, Option.some_or]

theorem ends_with_quote (h : Alike l first t t') (unmarked : ∀ n n', ¬ l.marks n n')
    (ends : t.getLast? = some Literal.quote) : t'.getLast? = some Literal.quote := by
  have keep {x x' r r' : Text} (empty : r = [] ↔ r' = []) (atEnd : (x ++ []).getLast? = some Literal.quote →
      (x' ++ []).getLast? = some Literal.quote) (ih : r.getLast? = some Literal.quote → r'.getLast? = some Literal.quote)
      (ends : (x ++ r).getLast? = some Literal.quote) : (x' ++ r').getLast? = some Literal.quote := by
    by_cases none : r = []
    · rw [none] at ends
      rw [empty.mp none]
      exact atEnd ends
    · rw [getLast?_append_eq_quote none] at ends
      rw [getLast?_append_eq_quote fun none' => none (empty.mpr none')]
      exact ih ends
  induction h with
  | nil | bareEscape => exact ends
  | escaped c rest ih => exact keep (x := [Literal.escape, c]) rest.eq_nil_iff id ih ends
  | @plain _ c _ _ ordinary allowed rest ih => exact keep (x := [c]) rest.eq_nil_iff id ih ends
  | literal same rest ih =>
    exact keep rest.eq_nil_iff (fun _ => by simp [Literal.placeholder, List.getLast?_cons]) ih ends
  | mark same => exact absurd same (unmarked _ _)

theorem head?_eq_quote (h : Alike l first t t') (unmarked : ∀ n n', ¬ l.marks n n')
    (begins : t.head? = some Literal.quote) : t'.head? = some Literal.quote := by
  cases h with
  | nil | bareEscape | escaped | plain => exact begins
  | literal => rfl
  | mark same => exact absurd same (unmarked _ _)

private theorem long (h : Alike l first t t') (begins : t.head? = some Literal.quote) : 1 < t.length := by
  cases h with
  | nil => simp at begins
  | bareEscape | escaped => simp [Literal.escape, Literal.quote] at begins
  | plain ordinary => exact absurd (by simpa using begins) ordinary.2.1
  | literal =>
    simp only [Literal.placeholder, List.length_append, List.length_cons]
    omega
  | mark => simp [GroupTable.mark, GroupTable.markStart, Literal.sentinel, Literal.quote] at begins

/-- Without marks no word begins like one. -/
theorem head?_ne_sentinel (h : Alike l first t t') (unmarked : ∀ n n', ¬ l.marks n n') :
    t.head? ≠ some Literal.sentinel := by
  cases h with
  | nil => nofun
  | bareEscape => decide
  | escaped => simp [Literal.escape, Literal.sentinel]
  | plain ordinary => simpa using ordinary.2.2
  | literal => simp [Literal.placeholder, Literal.quote, Literal.sentinel]
  | mark same => exact absurd same (unmarked _ _)

/-- A word that names a field does so in an alike text. -/
theorem isField (h : Alike l first t t') (unmarked : ∀ n n', ¬ l.marks n n') (field : IsField t) : IsField t' := by
  refine ⟨fun c same => field.1 c ((h.eq_word_iff c).mpr same), ?_⟩
  rintro ⟨long, front, back⟩
  have unmarked' : ∀ n n', ¬ l.flip.marks n n' := fun n n' => unmarked n' n
  have front' := h.symm.head?_eq_quote unmarked' front
  have back' := h.symm.ends_with_quote unmarked' back
  exact field.2 ⟨h.long front', front', back'⟩

end Alike
end Criteria.Filter
