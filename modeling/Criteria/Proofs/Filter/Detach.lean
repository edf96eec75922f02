import Criteria.Proofs.Filter.Encoding
import Criteria.Proofs.Filter.Spacing

/-!
# Connectors at the ends of a text

Between groups, the connectors at the ends of a text are taken off and stand for themselves. The words
stay the same and in order. Where the items of a derivation go on, taking the connectors off succeeds.
-/

namespace Criteria.Filter

open Literal (Masked)

private theorem findSome?_connectors {find : Connector → Option Text} {rest : Text → Text}
    (apart : ∀ x y, ¬ (find .or = some x ∧ find .and = some y)) {c : Connector} {t : Text} :
    ([Connector.or, .and].findSome? fun c => (find c).map fun r => (c, rest r)) = some (c, t) ↔
      ∃ r, find c = some r ∧ t = rest r := by
  cases first : find .or with
  | some x =>
    cases c with
    | or => simp [first, eq_comm]
    | and =>
      have none : ∀ y, find .and ≠ some y := fun y second => apart x y ⟨first, second⟩
      simp [first, none]
  | none =>
    cases second : find .and with
    | some y => cases c <;> simp [first, second, eq_comm]
    | none => cases c <;> simp [first, second]

theorem leading?_eq_some_iff {t rest : Text} {c : Connector} :
    leading? t = some (c, rest) ↔ ∃ r, t = c.word ++ ' ' :: r ∧ rest = Text.trimStart r := by
  rw [leading?, findSome?_connectors]
  · simp [Text.after?_eq_some_iff]
  · rintro x y ⟨first, second⟩
    have same := (Text.after?_eq_some_iff.mp first).symm.trans (Text.after?_eq_some_iff.mp second)
    simp [Connector.word] at same

theorem trailing?_eq_some_iff {t rest : Text} {c : Connector} :
    trailing? t = some (c, rest) ↔ ∃ r, t = r ++ ' ' :: c.word ∧ rest = Text.trimEnd r := by
  rw [trailing?, findSome?_connectors]
  · simp [Text.before?_eq_some_iff]
  · rintro x y ⟨first, second⟩
    have same := (Text.before?_eq_some_iff.mp first).symm.trans (Text.before?_eq_some_iff.mp second)
    have last := congrArg List.getLast? same
    simp [Connector.word] at last

theorem Connector.words_word (c : Connector) : Text.words c.word = [c.word] :=
  Text.words_eq_singleton c.word_ne_nil c.solid_word

/-- The rest of a text and the connector behind it, if one stands there. -/
def detachEnd (t : Text) : List Text × Bool :=
  match trailing? t with
  | some (c, rest) => ([rest, c.word], true)
  | none => ([t], false)

private theorem finish_eq (front : List Text) (body : Text) :
    (match trailing? body with
      | some (c, rest) => (return (front ++ [rest, c.word], true) : Except SyntaxError (List Text × Bool))
      | none => return (front ++ [body], false)) =
      .ok (front ++ (detachEnd body).1, (detachEnd body).2) := by
  unfold detachEnd
  cases trailing? body <;> rfl

section
variable {m : Masked} {t : Text}

theorem detach_connector (c : Connector) : detach m false c.word = .ok ([c.word], true) := by
  simp [detach, Connector.ofWord?_word, pure, Except.pure]

theorem detach_after (named : Connector.ofWord? t = none) : detach m true t = .ok (detachEnd t) := by
  simp only [detach, named, if_true]
  exact finish_eq [] t

theorem detach_behind {c : Connector} {r : Text} (named : Connector.ofWord? t = none)
    (front : t = c.word ++ ' ' :: r) (apart : Connector.ofWord? (Text.trimStart r) = none) :
    detach m false t =
      .ok (c.word :: (detachEnd (Text.trimStart r)).1, (detachEnd (Text.trimStart r)).2) := by
  have found : leading? t = some (c, Text.trimStart r) := leading?_eq_some_iff.mpr ⟨r, front, rfl⟩
  simp only [detach, named, found, apart]
  exact finish_eq [c.word] (Text.trimStart r)

/-- Taking the connectors off succeeds in no other case. -/
theorem detach_cases {after : Bool} {result : List Text × Bool} (h : detach m after t = .ok result) :
    (∃ c : Connector, t = c.word ∧ after = false) ∨ (Connector.ofWord? t = none ∧ after = true) ∨
      Connector.ofWord? t = none ∧ after = false ∧
        ∃ (c : Connector) (r : Text), t = c.word ++ ' ' :: r ∧ Connector.ofWord? (Text.trimStart r) = none := by
  cases named : Connector.ofWord? t with
  | some c =>
    cases after with
    | true =>
      simp only [detach, named] at h
      cases h
    | false => exact .inl ⟨c, Connector.ofWord?_eq_some_iff.mp named, rfl⟩
  | none =>
    cases after with
    | true => exact .inr (.inl ⟨rfl, rfl⟩)
    | false =>
      cases found : leading? t with
      | none =>
        simp only [detach, named, found] at h
        cases h
      | some pair =>
        obtain ⟨c, rest⟩ := pair
        obtain ⟨r, front, rfl⟩ := leading?_eq_some_iff.mp found
        cases apart : Connector.ofWord? (Text.trimStart r) with
        | some d =>
          simp only [detach, named, found, apart] at h
          cases h
        | none => exact .inr (.inr ⟨rfl, rfl, c, r, front, apart⟩)

end

theorem words_detachEnd (t : Text) : (detachEnd t).1.flatMap Text.words = Text.words t := by
  unfold detachEnd
  split
  · rename_i c rest found
    obtain ⟨r, rfl, rfl⟩ := trailing?_eq_some_iff.mp found
    simp [Text.words_append_space, Connector.words_word]
  · simp

/-- A connector is taken off the end only where one stands. -/
theorem exists_of_detachEnd {t : Text} (h : (detachEnd t).2 = true) :
    ∃ ws, ∃ c : Connector, Text.words t = ws ++ [c.word] := by
  unfold detachEnd at h
  split at h
  · rename_i c rest found
    obtain ⟨r, rfl, rfl⟩ := trailing?_eq_some_iff.mp found
    exact ⟨Text.words r, c, by rw [Text.words_append_space, c.words_word]⟩
  · cases h

/-- The words of a text stay when its connectors are taken off, and only a connector counts as one. -/
theorem words_of_detach {m : Masked} {after after' : Bool} {t : Text} {pieces : List Text}
    (h : detach m after t = .ok (pieces, after')) :
    pieces.flatMap Text.words = Text.words t ∧
      (after' = true → ∃ ws, ∃ c : Connector, Text.words t = ws ++ [c.word]) := by
  rcases detach_cases h with ⟨c, rfl, rfl⟩ | ⟨named, rfl⟩ | ⟨named, rfl, c, r, rfl, apart⟩
  · rw [detach_connector] at h
    cases h
    exact ⟨by simp, fun _ => ⟨[], c, c.words_word⟩⟩
  · rw [detach_after named] at h
    have same : detachEnd t = (pieces, after') := Except.ok.inj h
    obtain ⟨rfl, rfl⟩ := Prod.mk.inj same
    exact ⟨words_detachEnd t, exists_of_detachEnd⟩
  · rw [detach_behind named rfl apart] at h
    cases h
    have words : Text.words (c.word ++ ' ' :: r) = c.word :: Text.words r := by
      rw [Text.words_append_space, c.words_word]
      rfl
    refine ⟨?_, ?_⟩
    · rw [List.flatMap_cons, words_detachEnd, Text.words_trimStart, c.words_word, words]
      rfl
    · intro ends
      obtain ⟨ws, d, tail⟩ := exists_of_detachEnd ends
      exact ⟨c.word :: ws, d, by rw [words, ← Text.words_trimStart r, tail]; rfl⟩

theorem subset_of_detachEnd {t : Text} : ∀ p ∈ (detachEnd t).1, p ⊆ t := by
  unfold detachEnd
  split
  · rename_i c rest found
    obtain ⟨r, rfl, rfl⟩ := trailing?_eq_some_iff.mp found
    obtain ⟨s, -, whole⟩ := Text.trimEnd_append_dropped r
    have front : Text.trimEnd r ⊆ r := by
      intro d inside
      rw [whole]
      exact List.mem_append_left s inside
    intro p member
    rcases List.mem_cons.mp member with rfl | member
    · exact List.subset_append_of_subset_left _ front
    · rw [List.mem_singleton.mp member]
      exact List.subset_append_of_subset_right r (List.subset_cons_self ' ' c.word)
  · simp

/-- Taking the connectors off a text leaves pieces of it. -/
theorem subset_of_detach {m : Masked} {after next : Bool} {t : Text} {pieces : List Text}
    (h : detach m after t = .ok (pieces, next)) : ∀ p ∈ pieces, p ⊆ t := by
  rcases detach_cases h with ⟨c, rfl, rfl⟩ | ⟨named, rfl⟩ | ⟨named, rfl, c, r, rfl, apart⟩
  · rw [detach_connector] at h
    cases h
    simp
  · rw [detach_after named] at h
    have held := subset_of_detachEnd (t := t)
    rwa [Except.ok.inj h] at held
  · rw [detach_behind named rfl apart] at h
    cases h
    obtain ⟨s, -, whole⟩ := Text.trimStart_prefix_dropped r
    have back : Text.trimStart r ⊆ c.word ++ ' ' :: r := by
      intro d inside
      rw [whole]
      simp [inside]
    intro p member
    rcases List.mem_cons.mp member with rfl | member
    · exact List.subset_append_left c.word _
    · exact List.Subset.trans (subset_of_detachEnd p member) back

/-- A text between brackets or a piece of it: something without blanks at its ends, with spaces around its
    connectors. -/
structure IsPiece (t : Text) : Prop where
  nonempty : t ≠ []
  trimmed : Text.Trimmed t
  spaced : Connector.Spaced t

theorem IsPiece.of_solid {t : Text} (nonempty : t ≠ []) (solid : ∀ c ∈ t, ¬ Text.isBlank c) : IsPiece t :=
  ⟨nonempty, .of_solid solid, fun _ => .of_solid solid⟩

/-- Pieces that are put together with spaces have spaces around their connectors. -/
theorem spaced_intercalate {pieces : List Text} (h : ∀ p ∈ pieces, IsPiece p) :
    Connector.Spaced ([' '].intercalate pieces) :=
  fun c => .intercalate_space c.solid_word fun p member =>
    ⟨(h p member).nonempty, (h p member).trimmed, (h p member).spaced c⟩

private theorem isPiece_detachEnd {t : Text} (piece : IsPiece t) : ∀ p ∈ (detachEnd t).1, IsPiece p := by
  unfold detachEnd
  split
  · rename_i c rest found
    obtain ⟨r, rfl, rfl⟩ := trailing?_eq_some_iff.mp found
    intro p member
    rcases List.mem_cons.mp member with rfl | member
    · obtain ⟨b, r, rfl⟩ : ∃ b r', r = b :: r' := by
        cases r with
        | nil => exact absurd Text.isBlank_space (piece.trimmed.1 ' ' rfl)
        | cons b r => exact ⟨b, r, rfl⟩
      have letter : ¬ Text.isBlank b := piece.trimmed.1 b rfl
      have same : Text.trimEnd (b :: r) = Text.trim (b :: r) := by
        rw [Text.trim, Text.trimStart_eq_self (by simpa using letter)]
      have words : Text.words (b :: r) ≠ [] := Text.words_ne_nil_iff.mpr ⟨b, List.mem_cons_self, letter⟩
      rw [same]
      refine ⟨fun none => words ?_, Text.trimmed_trim _, piece.spaced.stretch
        ((Text.isStretch_trim _).trans (Text.isStretch_before_blank Text.isBlank_space _ _))⟩
      rw [← Text.words_trim, none, Text.words_nil]
    · rw [List.mem_singleton.mp member]
      exact .of_solid c.word_ne_nil c.solid_word
  · intro p member
    rwa [List.mem_singleton.mp member]

theorem IsPiece.behind {c : Connector} {r : Text} (piece : IsPiece (c.word ++ ' ' :: r)) :
    IsPiece (Text.trimStart r) := by
  refine ⟨fun none => ?_, ?_, piece.spaced.stretch
    ((Text.isStretch_trimStart r).trans (Text.isStretch_behind_blank Text.isBlank_space c.word r))⟩
  · have blank : ∀ d ∈ r, Text.isBlank d := by
      rw [← Text.words_eq_nil_iff, ← Text.words_trimStart, none, Text.words_nil]
    rcases List.eq_nil_or_concat r with rfl | ⟨r, d, rfl⟩
    · exact piece.trimmed.2 ' ' (by simp) Text.isBlank_space
    · exact piece.trimmed.2 d (by simp [List.getLast?_cons]) (blank d (by simp))
  · apply Text.Trimmed.trimStart_of_append (a := c.word ++ [' '])
    rw [List.append_assoc, List.singleton_append]
    exact piece.trimmed

/-- Taking the connectors off a piece leaves pieces. -/
theorem isPiece_of_detach {m : Masked} {after after' : Bool} {t : Text} {pieces : List Text} (piece : IsPiece t)
    (h : detach m after t = .ok (pieces, after')) : ∀ p ∈ pieces, IsPiece p := by
  rcases detach_cases h with ⟨c, rfl, rfl⟩ | ⟨named, rfl⟩ | ⟨named, rfl, c, r, rfl, apart⟩
  · rw [detach_connector] at h
    cases h
    intro p member
    rwa [List.mem_singleton.mp member]
  · rw [detach_after named] at h
    have same : detachEnd t = (pieces, after') := Except.ok.inj h
    have held := isPiece_detachEnd piece
    rwa [same] at held
  · rw [detach_behind named rfl apart] at h
    cases h
    intro p member
    rcases List.mem_cons.mp member with rfl | member
    · exact .of_solid c.word_ne_nil c.solid_word
    · exact isPiece_detachEnd piece.behind p member

/-- If a connector counts as one, it is the last piece. -/
theorem getLast?_of_detach {m : Masked} {after : Bool} {t : Text} {pieces : List Text}
    (h : detach m after t = .ok (pieces, true)) : ∃ c : Connector, pieces.getLast? = some c.word := by
  have ends {t : Text} (found : (detachEnd t).2 = true) : ∃ c : Connector, (detachEnd t).1.getLast? = some c.word := by
    unfold detachEnd at found ⊢
    split at found
    · rename_i c rest trailing
      exact ⟨c, by simp⟩
    · cases found
  rcases detach_cases h with ⟨c, rfl, rfl⟩ | ⟨named, rfl⟩ | ⟨named, rfl, c, r, rfl, apart⟩
  · rw [detach_connector] at h
    cases h
    exact ⟨c, rfl⟩
  · rw [detach_after named] at h
    have same : detachEnd t = (pieces, true) := Except.ok.inj h
    obtain ⟨c, last⟩ := ends (t := t) (by rw [same])
    exact ⟨c, by rwa [same] at last⟩
  · rw [detach_behind named rfl apart] at h
    have same := Prod.mk.inj (Except.ok.inj h)
    obtain ⟨d, last⟩ := ends same.2
    refine ⟨d, ?_⟩
    rw [← same.1, List.getLast?_cons, last]
    rfl

end Criteria.Filter
