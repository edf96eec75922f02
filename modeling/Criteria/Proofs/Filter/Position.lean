import Criteria.Proofs.Filter.Detach

/-!
# Positions in a derivation

Between the items of a derivation a position is before an operand, inside a condition or behind a
group. The position decides whether a connector has to come next, so that connectors can be taken off
the texts between groups exactly as a derivation demands.
-/

namespace Criteria.Filter

open Literal (Masked)

/-- Where the next item of a derivation stands. -/
inductive Position
  | operand
  | condition
  | behindGroup
deriving DecidableEq, Repr

/-- Items may follow at a position: operands and connectors take turns, and the last item belongs to
    an operand. -/
def Fits : Position → List Item → Prop
  | .operand, [] => False
  | .condition, [] => True
  | .behindGroup, [] => True
  | .operand, .group _ :: r => Fits .behindGroup r
  | .condition, .group _ :: _ => False
  | .behindGroup, .group _ :: _ => False
  | .operand, .word w :: r => (∀ c : Connector, w ≠ c.word) ∧ Fits .condition r
  | .condition, .word w :: r =>
    if (Connector.ofWord? w).isSome then Fits .operand r else Fits .condition r
  | .behindGroup, .word w :: r => (∃ c : Connector, w = c.word) ∧ Fits .operand r

theorem fits_condition_connector {c : Connector} {r : List Item} :
    Fits .condition (.word c.word :: r) ↔ Fits .operand r := by
  simp [Fits, Connector.ofWord?_word]

theorem fits_condition_word {w : Text} (plain : ∀ c : Connector, w ≠ c.word) {r : List Item} :
    Fits .condition (.word w :: r) ↔ Fits .condition r := by
  simp [Fits, Connector.ofWord?_eq_none_iff.mpr plain]

/-- What may follow an operand: nothing, or a connector and what may follow it. -/
private def FollowsOperand (r : List Item) : Prop :=
  r = [] ∨ ∃ (c : Connector) (rest : List Item), r = .word c.word :: rest ∧ Fits .operand rest

private theorem fits_words {ws : List Text} (plain : ∀ w ∈ ws, ∀ c : Connector, w ≠ c.word) {r : List Item}
    (h : Fits .condition r) : Fits .condition (ws.map .word ++ r) := by
  induction ws with
  | nil => exact h
  | cons w ws ih =>
    rw [List.map_cons, List.cons_append, fits_condition_word (plain w List.mem_cons_self)]
    exact ih fun v member => plain v (List.mem_cons_of_mem _ member)

private theorem Primary.fits (p : Primary) {r : List Item} (h : FollowsOperand r) : Fits .operand (p.items ++ r) := by
  have behind : Fits .condition r ∧ Fits .behindGroup r := by
    rcases h with rfl | ⟨c, rest, rfl, later⟩
    · exact ⟨trivial, trivial⟩
    · exact ⟨fits_condition_connector.mpr later, ⟨c, rfl⟩, later⟩
  cases p with
  | group a => exact behind.2
  | condition c =>
    have plain : ∀ w ∈ c.texts, ∀ d : Connector, w ≠ d.word := by
      rintro w member d rfl
      exact c.plain_texts d member
    obtain ⟨w, ws, texts⟩ := List.exists_cons_of_ne_nil (show c.texts ≠ [] by simp [Condition.texts])
    rw [Primary.items, texts, List.map_cons, List.cons_append]
    rw [texts] at plain
    exact ⟨plain w List.mem_cons_self, fits_words (fun v member => plain v (List.mem_cons_of_mem _ member)) behind.1⟩

private theorem Conjunction.fits (c : Conjunction) {r : List Item} (h : FollowsOperand r) :
    Fits .operand (c.items ++ r) := by
  cases c with
  | one p => exact p.fits h
  | more p rest =>
    rw [items, List.append_assoc, List.cons_append]
    exact p.fits (.inr ⟨.and, _, rfl, rest.fits h⟩)

private theorem Alternatives.fits_append (a : Alternatives) {r : List Item} (h : FollowsOperand r) :
    Fits .operand (a.items ++ r) := by
  cases a with
  | one c => exact c.fits h
  | more c rest =>
    rw [items, List.append_assoc, List.cons_append]
    exact c.fits (.inr ⟨.or, _, rfl, rest.fits_append h⟩)

theorem Alternatives.fits (a : Alternatives) : Fits .operand a.items := by
  simpa using a.fits_append (.inl rfl)

/-- Some items go on with a group or not at all. -/
def NoWordFirst : List Item → Prop
  | .word _ :: _ => False
  | _ => True

private theorem fits_after_words {at' : Position} {ws : List Text} (nonempty : ws ≠ []) {rest : List Item}
    (last : NoWordFirst rest) (h : Fits at' (ws.map .word ++ rest)) :
    (rest = [] ∧ ∀ w ∈ ws.getLast?, ∀ c : Connector, w ≠ c.word) ∨
      (Fits .operand rest ∧ ∃ c : Connector, ws.getLast? = some c.word) := by
  induction ws generalizing at' with
  | nil => exact absurd rfl nonempty
  | cons w ws ih =>
    -- a word is a connector and an operand follows, or it is none and the condition may go on
    have step : ((∃ c : Connector, w = c.word) ∧ Fits .operand (ws.map .word ++ rest)) ∨
        ((∀ c : Connector, w ≠ c.word) ∧ Fits .condition (ws.map .word ++ rest)) := by
      cases at' with
      | operand => exact .inr h
      | behindGroup => exact .inl h
      | condition =>
        by_cases connector : ∃ c : Connector, w = c.word
        · obtain ⟨c, rfl⟩ := connector
          exact .inl ⟨⟨c, rfl⟩, fits_condition_connector.mp h⟩
        · have plain : ∀ c : Connector, w ≠ c.word := fun c same => connector ⟨c, same⟩
          exact .inr ⟨plain, (fits_condition_word plain).mp h⟩
    cases ws with
    | nil =>
      rcases step with ⟨⟨c, rfl⟩, later⟩ | ⟨plain, later⟩
      · exact .inr ⟨later, c, rfl⟩
      · refine .inl ⟨?_, ?_⟩
        · cases rest with
          | nil => rfl
          | cons item rest =>
            cases item with
            | word v => exact absurd last id
            | group a => exact absurd later id
        · intro v same
          cases same
          exact plain
    | cons v ws =>
      rw [List.getLast?_cons_cons]
      rcases step with ⟨-, later⟩ | ⟨-, later⟩ <;> exact ih (by simp) later

private theorem eq_append_connector {t : Text} (piece : IsPiece t) {c : Connector}
    {before : List Text} (words : Text.words t = before ++ [c.word]) (nonempty : before ≠ []) :
    ∃ r, t = r ++ ' ' :: c.word := by
  obtain ⟨a, r, rfl, begins, -, front, back⟩ := Text.exists_of_words_eq_append words
  have none : r = [] := by
    rcases List.eq_nil_or_concat r with none | ⟨r, b, rfl⟩
    · exact none
    · have blank := Text.words_eq_nil_iff.mp back b (by simp)
      exact absurd blank (piece.trimmed.2 b (by simp))
  have apart : a ≠ [] := by
    rintro rfl
    exact nonempty (front.symm.trans Text.words_nil)
  obtain ⟨a, b, rfl⟩ := (List.eq_nil_or_concat a).resolve_left apart
  have blank : Text.isBlank b := begins b (by simp)
  rw [List.concat_eq_append, Text.words_append_blank blank, Text.words_nil, List.append_nil] at front
  obtain rfl := (piece.spaced c).before a b [] (by simp [none]) blank (by simp [Text.EndsWord]) (front ▸ nonempty)
  exact ⟨a, by simp [none]⟩

private theorem eq_connector_or_append {t : Text} (piece : IsPiece t) {c : Connector} {ws : List Text}
    (words : Text.words t = c.word :: ws) :
    (t = c.word ∧ ws = []) ∨ ∃ r, t = c.word ++ ' ' :: r ∧ Text.words r = ws ∧ ws ≠ [] := by
  obtain ⟨s, r, blank, whole, ends, others⟩ := Text.exists_of_words_eq_cons words
  have front : s = [] := by
    cases s with
    | nil => rfl
    | cons b s => exact absurd (blank b (by simp)) (piece.trimmed.1 b (by simp [whole]))
  rw [front, List.nil_append] at whole
  subst whole
  cases r with
  | nil => exact .inl ⟨List.append_nil c.word, others.symm.trans Text.words_nil⟩
  | cons b r =>
    have blank : Text.isBlank b := ends b rfl
    have nonempty : ws ≠ [] := by
      -- the text would end with blanks
      rintro rfl
      have blanks := Text.words_eq_nil_iff.mp others
      obtain ⟨r', d, last⟩ := (List.eq_nil_or_concat (b :: r)).resolve_left (by simp)
      exact absurd (blanks d (by rw [last]; simp)) (piece.trimmed.2 d (by rw [last]; simp))
    rw [Text.words_cons_blank blank] at others
    obtain rfl := (piece.spaced c).behind [] b r rfl blank (by simp [Text.BeginsWord]) (others ▸ nonempty)
    exact .inr ⟨r, rfl, others, nonempty⟩

-- A text that begins an operand loses a connector at its end exactly when more items follow.
private theorem detachEnd_of_fits {t : Text} (piece : IsPiece t) {rest : List Item} (last : NoWordFirst rest)
    {w : Text} {ws : List Text} (words : Text.words t = w :: ws) (h : Fits .operand ((w :: ws).map .word ++ rest)) :
    ((detachEnd t).2 = true ∧ Fits .operand rest) ∨ ((detachEnd t).2 = false ∧ rest = []) := by
  rcases fits_after_words (by simp) last h with ⟨none, plain⟩ | ⟨later, c, ends⟩
  · refine .inr ⟨?_, none⟩
    rw [Bool.eq_false_iff]
    intro detached
    obtain ⟨before, c, split⟩ := exists_of_detachEnd detached
    rw [words] at split
    rw [split] at plain
    exact plain c.word (by simp) c rfl
  · refine .inl ⟨?_, later⟩
    obtain ⟨before, split⟩ := List.getLast?_eq_some_iff.mp ends
    have nonempty : before ≠ [] := by
      rintro rfl
      obtain ⟨rfl, -⟩ := List.cons.inj split
      exact h.1 c rfl
    obtain ⟨r, rfl⟩ := eq_append_connector piece (words.trans split) nonempty
    have found : trailing? (r ++ ' ' :: c.word) = some (c, Text.trimEnd r) := trailing?_eq_some_iff.mpr ⟨r, rfl, rfl⟩
    simp [detachEnd, found]

private theorem ofWord?_eq_none {t w : Text} {ws : List Text} (words : Text.words t = w :: ws)
    (plain : ∀ c : Connector, w ≠ c.word) : Connector.ofWord? t = none := by
  rw [Connector.ofWord?_eq_none_iff]
  rintro c rfl
  rw [c.words_word] at words
  exact plain c (List.cons.inj words).1.symm

/-- Where a text and the items behind it go on a derivation, the connectors of the text can be taken
    off, and a connector stands last exactly when more items follow. -/
theorem exists_detach (m : Masked) {after : Bool} {t : Text} (piece : IsPiece t) {rest : List Item}
    (last : NoWordFirst rest)
    (h : Fits (if after then .operand else .behindGroup) ((Text.words t).map .word ++ rest)) :
    ∃ pieces next, detach m after t = .ok (pieces, next) ∧
      Fits (if next then .operand else .behindGroup) rest := by
  have follows {u : Text} {result : List Text × Bool}
      (done : ((detachEnd u).2 = true ∧ Fits .operand rest) ∨ ((detachEnd u).2 = false ∧ rest = []))
      (detached : detach m after t = .ok result) (same : result.2 = (detachEnd u).2) :
      ∃ pieces next, detach m after t = .ok (pieces, next) ∧ Fits (if next then .operand else .behindGroup) rest := by
    refine ⟨result.1, result.2, detached, ?_⟩
    rcases done with ⟨ends, later⟩ | ⟨ends, rfl⟩
    · rw [same, ends]
      exact later
    · rw [same, ends]
      trivial
  cases words : Text.words t with
  | nil =>
    obtain ⟨b, r, rfl⟩ := List.exists_cons_of_ne_nil piece.nonempty
    exact absurd (Text.words_eq_nil_iff.mp words b (by simp)) (piece.trimmed.1 b rfl)
  | cons w ws =>
    rw [words] at h
    cases after with
    | true =>
      rw [if_pos rfl] at h
      exact follows (detachEnd_of_fits piece last words h) (detach_after (ofWord?_eq_none words h.1)) rfl
    | false =>
      obtain ⟨⟨c, rfl⟩, later⟩ := h
      rcases eq_connector_or_append piece words with ⟨rfl, rfl⟩ | ⟨r, rfl, others, nonempty⟩
      · exact ⟨[c.word], true, detach_connector c, later⟩
      · obtain ⟨v, ws, rfl⟩ := List.exists_cons_of_ne_nil nonempty
        have named : Connector.ofWord? (c.word ++ ' ' :: r) = none := by
          rw [Connector.ofWord?_eq_none_iff]
          intro d same
          exact d.solid_word ' ' (by rw [← same]; simp) Text.isBlank_space
        have inner : Text.words (Text.trimStart r) = v :: ws := by rw [Text.words_trimStart, others]
        exact follows (detachEnd_of_fits piece.behind last inner later)
          (detach_behind named rfl (ofWord?_eq_none inner later.1)) rfl

end Criteria.Filter
