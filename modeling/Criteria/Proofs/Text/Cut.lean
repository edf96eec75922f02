import Criteria.Proofs.Text.Stretch
import Criteria.Text.Basic

/-!
# Cutting at a separator

Joining the pieces of a cut gives the text back, and no piece holds the separator. When the separator
is a word between spaces, a text whose blanks are spaces is cut at each such word that has neighbours
on both sides.
-/

namespace Criteria.Text

variable {mark : Text}

@[simp] theorem cut_nil (mark : Text) : cut mark [] = [[]] := rfl

theorem cut_ne_nil (mark t : Text) : cut mark t ≠ [] := cutFrom_ne_nil mark 0 t

/-- Reading a text from left to right: the separator stands at the front, or a character of the first
    piece does. -/
theorem cut_induction (nonempty : mark ≠ []) {motive : Text → Prop} (nil : motive [])
    (found : ∀ r, motive r → motive (mark ++ r))
    (other : ∀ c r, ¬ mark <+: c :: r → motive r → motive (c :: r)) (t : Text) : motive t := by
  match t with
  | [] => exact nil
  | c :: r =>
    by_cases front : mark <+: c :: r
    · obtain ⟨rest, whole⟩ := front
      have size := congrArg List.length whole
      have positive := List.length_pos_iff.mpr nonempty
      rw [List.length_append, List.length_cons] at size
      have shorter : rest.length < r.length + 1 := by omega
      rw [← whole]
      exact found rest (cut_induction nonempty nil found other rest)
    · exact other c r front (cut_induction nonempty nil found other r)
termination_by t.length

theorem cut_cons_of_not_begins {c : Char} {r : Text} (h : ¬ mark <+: c :: r) :
    cut mark (c :: r) = (cut mark r).modifyHead (c :: ·) :=
  cut_cons (by rwa [List.isPrefixOf_iff_prefix])

/-- Writing the separator between the pieces gives the text back. -/
theorem intercalate_cut (nonempty : mark ≠ []) (t : Text) : mark.intercalate (cut mark t) = t := by
  induction t using cut_induction nonempty with
  | nil => simp
  | found r ih =>
    obtain ⟨p, ps, pieces⟩ := List.exists_cons_of_ne_nil (cut_ne_nil mark r)
    rw [cut_append_mark nonempty, pieces, List.intercalate_cons_cons, ← pieces, ih]
    simp
  | other c r front ih =>
    obtain ⟨p, ps, pieces⟩ := List.exists_cons_of_ne_nil (cut_ne_nil mark r)
    rw [cut_cons_of_not_begins front, pieces, List.modifyHead_cons]
    rw [pieces] at ih
    cases ps with
    | nil =>
      rw [List.intercalate_singleton] at ih ⊢
      rw [ih]
    | cons q ps =>
      rw [List.intercalate_cons_cons] at ih ⊢
      simp [← ih]

/-- The first piece begins the text. -/
theorem prefix_of_cut {t p : Text} {ps : List Text} (nonempty : mark ≠ []) (h : cut mark t = p :: ps) :
    p <+: t := by
  have whole := intercalate_cut nonempty t
  rw [h] at whole
  cases ps with
  | nil => exact ⟨[], by simpa using whole⟩
  | cons q ps =>
    rw [List.intercalate_cons_cons, List.append_assoc] at whole
    exact ⟨_, whole⟩

theorem infix_of_mem_cut (nonempty : mark ≠ []) {t p : Text} (h : p ∈ cut mark t) : p <:+: t := by
  induction t using cut_induction nonempty generalizing p with
  | nil =>
    rw [cut_nil, List.mem_singleton] at h
    subst h
    exact List.nil_infix
  | found r ih =>
    rw [cut_append_mark nonempty] at h
    rcases List.mem_cons.mp h with rfl | h
    · exact List.nil_infix
    · exact (ih h).trans (List.suffix_append mark r).isInfix
  | other c r front ih =>
    obtain ⟨q, qs, pieces⟩ := List.exists_cons_of_ne_nil (cut_ne_nil mark r)
    rw [cut_cons_of_not_begins front, pieces, List.modifyHead_cons] at h
    rw [pieces] at ih
    rcases List.mem_cons.mp h with rfl | h
    · have begins : c :: q <+: c :: r := by simpa using prefix_of_cut nonempty pieces
      exact begins.isInfix
    · exact (ih (List.mem_cons_of_mem _ h)).trans (List.suffix_cons c r).isInfix

/-- The separator does not occur in a piece. -/
theorem not_infix_of_mem_cut (nonempty : mark ≠ []) {t p : Text} (h : p ∈ cut mark t) :
    ¬ mark <:+: p := by
  induction t using cut_induction nonempty generalizing p with
  | nil =>
    rw [cut_nil, List.mem_singleton] at h
    rw [h, List.infix_nil]
    exact nonempty
  | found r ih =>
    rw [cut_append_mark nonempty] at h
    rcases List.mem_cons.mp h with rfl | h
    · rw [List.infix_nil]
      exact nonempty
    · exact ih h
  | other c r front ih =>
    obtain ⟨q, qs, pieces⟩ := List.exists_cons_of_ne_nil (cut_ne_nil mark r)
    rw [cut_cons_of_not_begins front, pieces, List.modifyHead_cons] at h
    rw [pieces] at ih
    rcases List.mem_cons.mp h with rfl | h
    · rw [List.infix_cons_iff]
      rintro (within | within)
      · have begins : c :: q <+: c :: r := by simpa using prefix_of_cut nonempty pieces
        exact front (within.trans begins)
      · exact ih List.mem_cons_self within
    · exact ih (List.mem_cons_of_mem _ h)

/-- A text without the separator is one piece. -/
theorem cut_eq_singleton {t : Text} (h : ¬ mark <:+: t) : cut mark t = [t] := by
  induction t with
  | nil => rfl
  | cons c r ih =>
    rw [List.infix_cons_iff, not_or] at h
    rw [cut_cons_of_not_begins h.1, ih h.2]
    rfl

/-- The first piece ends at the first occurrence of the separator. -/
theorem cut_append (nonempty : mark ≠ []) {a : Text} (first : ¬ mark <:+: a ++ mark.dropLast) (r : Text) :
    cut mark (a ++ mark ++ r) = a :: cut mark r := by
  induction a with
  | nil => exact cut_append_mark nonempty r
  | cons c a ih =>
    rw [List.cons_append, List.infix_cons_iff, not_or] at first
    have front : ¬ mark <+: c :: (a ++ mark ++ r) := by
      intro begins
      have size : mark.length ≤ (c :: (a ++ mark.dropLast)).length := by
        have positive := List.length_pos_iff.mpr nonempty
        simp
        omega
      have whole : c :: (a ++ mark.dropLast) <+: c :: (a ++ mark ++ r) := by
        refine ⟨mark.getLast nonempty :: r, ?_⟩
        have split := List.dropLast_concat_getLast nonempty
        calc c :: (a ++ mark.dropLast) ++ mark.getLast nonempty :: r
            = c :: (a ++ (mark.dropLast ++ [mark.getLast nonempty]) ++ r) := by simp
          _ = c :: (a ++ mark ++ r) := by rw [split]
      exact first.1 (List.prefix_of_prefix_length_le begins whole size)
    rw [List.cons_append, List.cons_append, cut_cons_of_not_begins front, ih first.2]
    rfl

/-- Where a text holds the separator, it holds it a first time. -/
theorem exists_first (nonempty : mark ≠ []) {t : Text} (h : mark <:+: t) :
    ∃ x y, t = x ++ mark ++ y ∧ ¬ mark <:+: x ++ mark.dropLast := by
  have positive := List.length_pos_iff.mpr nonempty
  induction t using cut_induction nonempty with
  | nil => exact absurd (List.infix_nil.mp h) nonempty
  | found r ih =>
    refine ⟨[], r, by simp, ?_⟩
    intro within
    have size := within.length_le
    simp at size
    omega
  | other c r front ih =>
    rcases List.infix_cons_iff.mp h with begins | later
    · exact absurd begins front
    · obtain ⟨x, y, rfl, first⟩ := ih later
      refine ⟨c :: x, y, rfl, ?_⟩
      rw [List.cons_append, List.infix_cons_iff]
      rintro (begins | within)
      · have shorter : c :: (x ++ mark.dropLast) <+: c :: (x ++ mark ++ y) := by
          rw [List.append_assoc, List.cons_prefix_cons, List.prefix_append_right_inj]
          exact ⟨rfl, (List.dropLast_prefix mark).trans (List.prefix_append mark y)⟩
        exact front (begins.trans shorter)
      · exact first within

/-- Reading a text piece by piece: it holds no separator, or a first piece and a separator stand before the rest. -/
theorem piece_induction (nonempty : mark ≠ []) {motive : Text → Prop} (last : ∀ t, ¬ mark <:+: t → motive t)
    (more : ∀ x y, ¬ mark <:+: x ++ mark.dropLast → motive y → motive (x ++ mark ++ y)) (t : Text) : motive t := by
  have positive := List.length_pos_iff.mpr nonempty
  induction size : t.length using Nat.strongRecOn generalizing t with
  | ind n ih =>
    by_cases within : mark <:+: t
    · obtain ⟨x, y, rfl, first⟩ := exists_first nonempty within
      rw [List.length_append, List.length_append] at size
      exact more x y first (ih y.length (by omega) y rfl)
    · exact last t within

variable {w : Text}

theorem between_ne_nil (w : Text) : between w ≠ [] := by simp [between]

/-- No word is cut in two. -/
theorem isStretch_of_mem_cut {t p : Text} (member : p ∈ cut (between w) t) : IsStretch p t := by
  have stretch := isStretch_of_mem_intercalate (between_ne_nil w)
    (by simp [BeginsWord, between, List.getLast?_cons, isBlank_space]) (by simp [EndsWord, between, isBlank_space]) member
  rwa [intercalate_cut (between_ne_nil w)] at stretch

/-- A text between whose words there is no `w` is not cut at `w`, even with one more behind it. -/
theorem not_infix_of_not_mem_words (nonempty : w ≠ []) (solid : ∀ c ∈ w, ¬ isBlank c) {t : Text}
    (absent : w ∉ words t) : ¬ between w <:+: t := by
  rintro ⟨a, r, whole⟩
  apply absent
  rw [← whole, words_append_between nonempty solid]
  simp

theorem cut_word (nonempty : w ≠ []) (solid : ∀ c ∈ w, ¬ isBlank c) {a : Text} (absent : w ∉ words a)
    (r : Text) : cut (between w) (a ++ between w ++ r) = a :: cut (between w) r := by
  apply cut_append (between_ne_nil w)
  rintro ⟨x, y, whole⟩
  -- an earlier occurrence would leave room for a word after it, and put `w` among the words of `a`
  have dropped : (between w).dropLast = ' ' :: w := by
    rw [between, ← List.cons_append, List.dropLast_concat]
  have wordsWhole : words (a ++ (between w).dropLast) = words a ++ [w] := by
    rw [dropped, words_append_space, words_eq_singleton nonempty solid]
  have more : words y ≠ [] := by
    intro none
    have blankEnd : ∀ c ∈ (between w ++ y).getLast?, isBlank c := by
      intro c last
      rw [between, ← List.cons_append, List.append_assoc, List.getLast?_append] at last
      have member : c ∈ ' ' :: y := List.mem_of_getLast? (by simpa using last)
      rcases List.mem_cons.mp member with rfl | member
      · exact isBlank_space
      · exact words_eq_nil_iff.mp none c member
    have ends : (between w ++ y).getLast? = some (w.getLast nonempty) := by
      have last := congrArg List.getLast? whole
      rw [dropped, List.append_assoc, List.getLast?_append, List.getLast?_append] at last
      simp [between, List.getLast?_cons, List.getLast?_eq_some_getLast nonempty] at last ⊢
      exact last
    exact solid _ (List.getLast_mem nonempty) (blankEnd _ ends)
  rw [← whole, words_append_between nonempty solid] at wordsWhole
  obtain ⟨ys, d, concat⟩ : ∃ ys d, words y = ys ++ [d] :=
    ⟨_, _, (List.dropLast_concat_getLast more).symm⟩
  rw [concat, ← List.cons_append, ← List.append_assoc] at wordsWhole
  have same := (List.append_inj' wordsWhole rfl).1
  apply absent
  rw [← same]
  simp

end Criteria.Text
