import Criteria.Proofs.Filter.Token
import Criteria.Proofs.Text.Squeeze
import Criteria.Proofs.Text.Stretch
import Criteria.Proofs.Value.RoundTrip

/-!
# Pieces of lists

The value of a condition is read from the words of a text, with one space between any two of them. That takes
nothing away from the pieces of a list but the blanks that do not count: each piece is read from its own words.
-/

namespace Criteria.Value

open Literal (Masked)
open Text (isBlank squeezeFrom squeeze)

theorem listPieces_bareEscape : listPieces [Literal.escape] = [[Literal.escape]] := by
  rw [listPieces.eq_def]
  simp

theorem listPieces_escape (d : Char) (r : Text) :
    listPieces (Literal.escape :: d :: r) = (listPieces r).modifyHead (Literal.escape :: d :: ·) := by
  rw [listPieces.eq_def]
  simp

theorem listPieces_cons {c : Char} (notEscape : c ≠ Literal.escape) (notComma : c ≠ ',') (r : Text) :
    listPieces (c :: r) = (listPieces r).modifyHead (c :: ·) := by
  rw [listPieces.eq_def]
  simp [notEscape, notComma]

theorem exists_listPieces (t : Text) : ∃ p ps, listPieces t = p :: ps :=
  List.exists_cons_of_ne_nil (listPieces_ne_nil t)

/-- A text of one piece is that piece. -/
theorem listPieces_eq_singleton {t : Text} (single : (listPieces t).length = 1) : listPieces t = [t] := by
  have longer {r : Text} (w : Text) (ih : (listPieces r).length = 1 → listPieces r = [r])
      (single : ((listPieces r).modifyHead (w ++ ·)).length = 1) : (listPieces r).modifyHead (w ++ ·) = [w ++ r] := by
    rw [List.length_modifyHead] at single
    rw [ih single]
    rfl
  fun_induction listPieces t with
  | case1 | case2 => rfl
  | case3 d r ih => exact longer [_, d] ih single
  | case4 r =>
    obtain ⟨p, ps, pieces⟩ := exists_listPieces r
    simp [pieces] at single
  | case5 c r _ _ ih => exact longer [c] ih single

/-- A comma ends a piece unless a backslash before it takes it. -/
theorem listPieces_append_comma {t : Text} (whole : Filter.Token.Whole t) (r : Text) :
    listPieces (t ++ ',' :: r) = listPieces t ++ listPieces r := by
  have longer {x y : List Text} (nonempty : x ≠ []) (f : Text → Text) :
      (x ++ y).modifyHead f = x.modifyHead f ++ y := by
    obtain ⟨p, ps, rfl⟩ := List.exists_cons_of_ne_nil nonempty
    rfl
  induction whole with
  | nil => exact listPieces_comma r
  | escaped c _ ih =>
    rw [List.cons_append, List.cons_append, listPieces_escape, listPieces_escape, ih, longer (listPieces_ne_nil _)]
  | @plain c t notEscape _ ih =>
    by_cases comma : c = ','
    · rw [comma, List.cons_append, listPieces_comma, listPieces_comma, ih]
      rfl
    · rw [List.cons_append, listPieces_cons notEscape comma, listPieces_cons notEscape comma, ih,
        longer (listPieces_ne_nil _)]

private theorem ordinary_of_isBlank {b : Char} (blank : isBlank b) : b ≠ Literal.escape ∧ b ≠ ',' := by
  refine ⟨?_, ?_⟩ <;> rintro rfl <;> revert blank <;> decide

private theorem listPieces_squeezeFrom {t p : Text} {ps : List Text} (pieces : listPieces t = p :: ps) (gap : Bool) :
    listPieces (squeezeFrom gap t) = squeezeFrom gap p :: ps.map squeeze := by
  have notBlank : ¬ isBlank Literal.escape := by decide
  fun_induction listPieces t generalizing p ps gap with
  | case1 =>
    cases pieces
    rfl
  | case2 =>
    cases pieces
    rw [Text.squeezeFrom_cons notBlank, Text.squeezeFrom_nil, listPieces_bareEscape]
    rfl
  | case3 d r ih =>
    obtain ⟨q, qs, rest⟩ := exists_listPieces r
    rw [rest] at pieces
    cases pieces
    rw [Text.squeezeFrom_cons notBlank, Text.squeezeFrom_cons notBlank]
    by_cases blank : isBlank d
    · rw [(Text.squeezeFrom_blank blank r).2, (Text.squeezeFrom_blank blank q).2, listPieces_escape, ih rest]
      rfl
    · rw [Text.squeezeFrom_cons blank, Text.squeezeFrom_cons blank, listPieces_escape, ih rest]
      rfl
  | case4 r _ ih =>
    obtain ⟨q, qs, rest⟩ := exists_listPieces r
    rw [rest] at pieces
    cases pieces
    rw [Text.squeezeFrom_cons (by decide), listPieces_comma, ih rest]
    rfl
  | case5 c r notEscape notComma ih =>
    obtain ⟨q, qs, rest⟩ := exists_listPieces r
    rw [rest] at pieces
    cases pieces
    by_cases blank : isBlank c
    · cases gap with
      | true => rw [(Text.squeezeFrom_blank blank r).1, (Text.squeezeFrom_blank blank q).1, ih rest]
      | false =>
        rw [(Text.squeezeFrom_blank blank r).2, (Text.squeezeFrom_blank blank q).2,
          listPieces_cons (by decide) (by decide), ih rest]
        rfl
    · rw [Text.squeezeFrom_cons blank, Text.squeezeFrom_cons blank, listPieces_cons notEscape notComma, ih rest]
      rfl

theorem listPieces_squeeze (t : Text) : listPieces (squeeze t) = (listPieces t).map squeeze := by
  obtain ⟨p, ps, pieces⟩ := exists_listPieces t
  rw [squeeze, listPieces_squeezeFrom pieces, pieces]
  rfl

private theorem listPieces_append_blanks {s : Text} (blank : ∀ c ∈ s, isBlank c) (t : Text) :
    Text.Widened s (listPieces t) (listPieces (t ++ s)) := by
  have bare {s : Text} (blank : ∀ c ∈ s, isBlank c) : listPieces s = [s] := by
    have whole := listPieces_append (fun c member => ordinary_of_isBlank (blank c member)) []
    simpa [listPieces] using whole
  fun_induction listPieces t with
  | case1 =>
    rw [List.nil_append, bare blank]
    exact .single s []
  | case2 =>
    cases s with
    | nil => exact .single [] [Literal.escape]
    | cons b s =>
      rw [List.cons_append, List.nil_append, listPieces_escape, bare fun c member => blank c (List.mem_cons_of_mem _ member)]
      exact .single (b :: s) [Literal.escape]
  | case3 d r ih =>
    rw [List.cons_append, List.cons_append, listPieces_escape]
    exact ih.modifyHead [Literal.escape, d]
  | case4 r _ ih =>
    rw [List.cons_append, listPieces_comma]
    exact ih.cons []
  | case5 c r notEscape notComma ih =>
    rw [List.cons_append, listPieces_cons notEscape notComma]
    exact ih.modifyHead [c]

/-- Blanks at the ends of a list only widen its first and its last piece. -/
theorem map_trim_listPieces_trim (t : Text) :
    (listPieces (Text.trim t)).map Text.trim = (listPieces t).map Text.trim := by
  obtain ⟨a, b, front, back, whole⟩ := Text.trim_between t
  obtain ⟨before, last, same, widened⟩ := listPieces_append_blanks back (a ++ Text.trim t)
  obtain ⟨p, ps, pieces⟩ := exists_listPieces (Text.trim t)
  have first : listPieces (a ++ Text.trim t) = (a ++ p) :: ps := by
    rw [listPieces_append fun c member => ordinary_of_isBlank (front c member), pieces]
    rfl
  have narrow : (before ++ [last ++ b]).map Text.trim = (before ++ [last]).map Text.trim := by
    simp [Text.trim_append_blanks back]
  conv_rhs => rw [whole]
  rw [widened, narrow, ← same, first, pieces, List.map_cons, List.map_cons, Text.trim_blanks_append front]

/-- Every piece of a list is read from its own words. -/
theorem members_intercalate_words (m : Masked) (t : Text) :
    members m ([' '].intercalate (Text.words t)) =
      (listPieces t).map fun p => ofScalar m ([' '].intercalate (Text.words p)) := by
  have pieces := map_trim_listPieces_trim (squeeze t)
  rw [squeeze, Text.trim_squeezeFrom, ← squeeze, listPieces_squeeze, List.map_map] at pieces
  have joined : (Text.trim ∘ squeeze) = fun p => [' '].intercalate (Text.words p) :=
    funext fun p => Text.trim_squeezeFrom false p
  rw [joined] at pieces
  have read := congrArg (List.map (ofScalar m)) pieces
  rwa [List.map_map, List.map_map] at read

/-- A comma between two texts stands between their members. -/
theorem members_words_append_comma (m : Masked) {t : Text} (whole : Filter.Token.Whole t) (r : Text) :
    members m ([' '].intercalate (Text.words (t ++ ',' :: r))) =
      members m ([' '].intercalate (Text.words t)) ++ members m ([' '].intercalate (Text.words r)) := by
  rw [members_intercalate_words, members_intercalate_words, members_intercalate_words, listPieces_append_comma whole,
    List.map_append]

end Criteria.Value
