import Criteria.Proofs.Text.Words

/-!
# Squeezed texts

A squeezed text has one space wherever a text has a run of blanks. It has the same words, and without the
space at its ends it is these words with a space between any two of them.
-/

namespace Criteria.Text

/-- A text with one space for each run of blanks; `gap` tells whether the text goes on in the middle of a run. -/
def squeezeFrom (gap : Bool) : Text → Text
  | [] => []
  | c :: r =>
    if isBlank c then
      if gap then squeezeFrom true r else ' ' :: squeezeFrom true r
    else c :: squeezeFrom false r

/-- A text with one space for each run of blanks. -/
def squeeze (t : Text) : Text := squeezeFrom false t

variable {gap : Bool} {t : Text}

@[simp] theorem squeezeFrom_nil (gap : Bool) : squeezeFrom gap [] = [] := rfl

theorem squeezeFrom_cons {c : Char} (letter : ¬ isBlank c) (gap : Bool) (r : Text) :
    squeezeFrom gap (c :: r) = c :: squeezeFrom false r := by
  rw [squeezeFrom, if_neg letter]

theorem squeezeFrom_blank {b : Char} (blank : isBlank b) (r : Text) :
    squeezeFrom true (b :: r) = squeezeFrom true r ∧ squeezeFrom false (b :: r) = ' ' :: squeezeFrom true r := by
  simp [squeezeFrom, blank]

theorem squeezeFrom_solid_append {w : Text} (nonempty : w ≠ []) (solid : ∀ c ∈ w, ¬ isBlank c) (gap : Bool) (r : Text) :
    squeezeFrom gap (w ++ r) = w ++ squeezeFrom false r := by
  induction w generalizing gap with
  | nil => exact absurd rfl nonempty
  | cons c w ih =>
    rw [List.cons_append, squeezeFrom_cons (solid c List.mem_cons_self)]
    cases w with
    | nil => rfl
    | cons d w =>
      rw [ih (by simp) fun e member => solid e (List.mem_cons_of_mem _ member)]
      rfl

theorem squeezeFrom_blanks_append {s : Text} (blank : ∀ c ∈ s, isBlank c) (t : Text) :
    squeezeFrom true (s ++ t) = squeezeFrom true t := by
  induction s with
  | nil => rfl
  | cons b s ih =>
    rw [List.cons_append, (squeezeFrom_blank (blank b List.mem_cons_self) (s ++ t)).1]
    exact ih fun c member => blank c (List.mem_cons_of_mem _ member)

theorem spacesOnly_squeezeFrom (gap : Bool) (t : Text) : SpacesOnly (squeezeFrom gap t) := by
  intro c member blank
  induction t generalizing gap with
  | nil => simp at member
  | cons d t ih =>
    rw [squeezeFrom] at member
    split at member
    · split at member
      · exact ih _ member
      · exact (List.mem_cons.mp member).elim id (ih _)
    · rename_i letter
      rcases List.mem_cons.mp member with rfl | member
      · exact absurd blank letter
      · exact ih _ member

-- In the middle of a run of blanks the words come with a space between any two of them, and perhaps a space behind
-- them.
private theorem exists_squeezeFrom_true {ws : List Text} (h : words t = ws) :
    ∃ b, (∀ c ∈ b, isBlank c) ∧ squeezeFrom true t = [' '].intercalate ws ++ b := by
  induction ws generalizing t with
  | nil =>
    have gone := squeezeFrom_blanks_append (words_eq_nil_iff.mp h) []
    rw [List.append_nil] at gone
    exact ⟨[], by simp, by simpa using gone⟩
  | cons w ws ih =>
    have member : w ∈ words t := by
      rw [h]
      exact List.mem_cons_self
    obtain ⟨s, r, blank, rfl, ends, rest⟩ := exists_of_words_eq_cons h
    rw [List.append_assoc, squeezeFrom_blanks_append blank,
      squeezeFrom_solid_append (ne_nil_of_mem_words member) (solid_of_mem_words member)]
    cases r with
    | nil =>
      rw [← rest, words_nil, List.intercalate_singleton]
      exact ⟨[], by simp, rfl⟩
    | cons d r =>
      rw [words_cons_blank (ends d rfl)] at rest
      obtain ⟨b, behind, squeezed⟩ := ih rest
      rw [(squeezeFrom_blank (ends d rfl) r).2, squeezed]
      cases ws with
      | nil =>
        refine ⟨' ' :: b, fun c inside => ?_, by simp⟩
        rcases List.mem_cons.mp inside with rfl | inside
        · exact isBlank_space
        · exact behind c inside
      | cons v ws =>
        refine ⟨b, behind, ?_⟩
        rw [List.intercalate_cons_cons]
        simp

theorem intercalate_words_trimmed (t : Text) : Trimmed ([' '].intercalate (words t)) :=
  trimmed_intercalate_space fun _ member => ⟨ne_nil_of_mem_words member, .of_solid (solid_of_mem_words member)⟩

/-- A squeezed text, without the space at its ends, is its words with a space between any two of them. -/
theorem trim_squeezeFrom (gap : Bool) (t : Text) : trim (squeezeFrom gap t) = [' '].intercalate (words t) := by
  obtain ⟨b, back, squeezed⟩ := exists_squeezeFrom_true (t := t) rfl
  obtain ⟨a, front, whole⟩ : ∃ a, (∀ c ∈ a, isBlank c) ∧ squeezeFrom gap t = a ++ squeezeFrom true t := by
    cases gap with
    | true => exact ⟨[], by simp, rfl⟩
    | false =>
      cases t with
      | nil => exact ⟨[], by simp, rfl⟩
      | cons c r =>
        by_cases blank : isBlank c
        · refine ⟨[' '], by simpa using isBlank_space, ?_⟩
          rw [(squeezeFrom_blank blank r).1, (squeezeFrom_blank blank r).2]
          rfl
        · exact ⟨[], by simp, by rw [squeezeFrom_cons blank, squeezeFrom_cons blank]; rfl⟩
  rw [whole, squeezed, ← List.append_assoc, trim_eq front back (intercalate_words_trimmed t)]

@[simp] theorem words_squeezeFrom (gap : Bool) (t : Text) : words (squeezeFrom gap t) = words t := by
  rw [← words_trim, trim_squeezeFrom, words_intercalate_space]
  have single : ∀ w ∈ words t, words w = [w] := fun w member =>
    words_eq_singleton (ne_nil_of_mem_words member) (solid_of_mem_words member)
  rw [List.flatMap_def, List.map_congr_left single]
  exact List.flatMap_singleton' (words t)

end Criteria.Text
