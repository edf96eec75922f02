import Criteria.Proofs.Filter.Alike
import Criteria.Proofs.Filter.Detach

/-!
# Alike texts are divided alike

Brackets, connectors between spaces and connectors at the ends of a text are found at the same places
of alike texts, so that the pieces are alike again.
-/

namespace Criteria.Filter

open Text (isBlank)

namespace Likeness

/-- The likeness of a text inside some brackets; outside of all brackets no bracket stands without a
    backslash. -/
def inside (l : Likeness) (depth : Nat) : Likeness :=
  { l with plain := fun c => l.plain c ∧ (depth = 0 → c ≠ '(' ∧ c ≠ ')') }

/-- The likeness of texts between groups. -/
def flat (l : Likeness) : Likeness := l.inside 0

end Likeness

/-- Segments are alike if their texts are. -/
inductive SegmentAlike (l : Likeness) : Segment → Segment → Prop
  | text {t t' : Text} (alike : Alike l.flat true t t') : SegmentAlike l (.text t) (.text t')
  | group {t t' : Text} (alike : Alike l true t t') : SegmentAlike l (.group t) (.group t')

variable {l : Likeness} {first : Bool} {t t' : Text}

namespace Alike

theorem ofInside {depth : Nat} (h : Alike (l.inside depth) first t t') : Alike l first t t' :=
  h.mono (fun _ allowed => allowed.1) (fun _ _ same => same) (fun _ _ same => same)

/-- Texts without marks that hold the same numbers are equal. -/
theorem eq_of_numbered {count n : Nat} (h : Alike (Likeness.numbered count n n).flat.unmarked first t t') : t = t' := by
  refine h.eq_of_same ?_ fun _ _ => False.elim
  rintro _ _ ⟨i, -, rfl, rfl⟩
  rfl

private theorem ofText (h : Alike l.flat first t t') :
    List.Forall₂ (SegmentAlike l) (Segment.ofText t) (Segment.ofText t') := by
  have trimmed := h.trim
  unfold Segment.ofText
  by_cases blank : Text.trim t = []
  · rw [if_pos blank, if_pos (trimmed.eq_nil_iff.mp blank)]
    exact .nil
  · rw [if_neg blank, if_neg fun none => blank (trimmed.eq_nil_iff.mpr none)]
    exact .cons (.text trimmed) .nil

theorem bare_of_mem_placeholder {n : Nat} {c : Char} (member : c ∈ Literal.placeholder n) :
    c ≠ Literal.escape ∧ c ≠ '(' ∧ c ≠ ')' := by
  rcases mem_placeholder member with rfl | digit
  · decide
  · refine ⟨?_, ?_, ?_⟩ <;> rintro rfl <;> exact absurd digit (by decide)

-- Inside some brackets more characters stand for themselves than outside of all.
private theorem inside_succ {depth outer : Nat} (h : Alike (l.inside depth) first t t') :
    Alike (l.inside (outer + 1)) first t t' :=
  h.mono (fun _ allowed => ⟨allowed.1, by simp⟩) (fun _ _ same => same) (fun _ _ same => same)

-- The induction follows the characters of both texts; what is scanned of the first text tells which bracket each is.
private theorem scans (h : Alike l first t t') (unmarked : ∀ n n', ¬ l.marks n n') {depth : Nat} {x : Text}
    {segments : List Segment} (read : Segment.Scans depth t x segments) :
    ∃ x' segments', Segment.Scans depth t' x' segments' ∧ Alike (l.inside depth) first x x' ∧
      List.Forall₂ (SegmentAlike l) segments segments' := by
  induction h generalizing depth x segments with
  | nil first =>
    cases read
    exact ⟨[], [], .nil, .nil first, .nil⟩
  | bareEscape first =>
    cases read with
    | bareEscape => exact ⟨[Literal.escape], [], .bareEscape, .bareEscape first, .nil⟩
    | plain notEscape => exact absurd rfl notEscape
  | escaped c rest ih =>
    cases read with
    | escaped _ read =>
      obtain ⟨x', segments', read', alike, later⟩ := ih read
      exact ⟨_, segments', .escaped c read', .escaped c alike, later⟩
    | plain notEscape => exact absurd rfl notEscape
  | literal same rest ih =>
    have bare (n : Nat) : ∀ c ∈ Literal.placeholder n, c ≠ Literal.escape ∧ c ≠ '(' ∧ c ≠ ')' :=
      fun c => bare_of_mem_placeholder
    obtain ⟨y, rfl, behind⟩ := (Segment.scans_append_iff (bare _)).mp read
    obtain ⟨x', segments', read', alike, later⟩ := ih behind
    exact ⟨_, segments', (Segment.scans_append_iff (bare _)).mpr ⟨x', rfl, read'⟩, .literal same alike, later⟩
  | mark same => exact absurd same (unmarked _ _)
  | plain ordinary allowed rest ih =>
    cases read with
    | bareEscape | escaped => exact absurd rfl ordinary.1
    | groupOpens read =>
      obtain ⟨x', segments', read', alike, later⟩ := ih read
      exact ⟨[], _, .groupOpens read', .nil _, .cons (.group alike.ofInside.trim) later⟩
    | opens read =>
      obtain ⟨x', segments', read', alike, later⟩ := ih read
      exact ⟨_, segments', .opens read', .plain ordinary ⟨allowed, by simp⟩ alike.inside_succ, later⟩
    | groupCloses read =>
      obtain ⟨x', segments', read', alike, later⟩ := ih read
      exact ⟨[], _, .groupCloses read', .nil _, List.rel_append alike.ofText later⟩
    | closes read =>
      obtain ⟨x', segments', read', alike, later⟩ := ih read
      exact ⟨_, segments', .closes read', .plain ordinary ⟨allowed, by simp⟩ alike.inside_succ, later⟩
    | plain notEscape notOpening notClosing read =>
      obtain ⟨x', segments', read', alike, later⟩ := ih read
      exact ⟨_, segments', .plain notEscape notOpening notClosing read',
        .plain ordinary ⟨allowed, fun _ => ⟨notOpening, notClosing⟩⟩ alike, later⟩

/-- Alike texts have alike segments. -/
theorem segments (h : Alike l first t t') (unmarked : ∀ n n', ¬ l.marks n n') {segments : List Segment}
    (divided : Segment.ofMasked t = .ok segments) :
    ∃ segments', Segment.ofMasked t' = .ok segments' ∧ List.Forall₂ (SegmentAlike l) segments segments' := by
  obtain ⟨x, others, read, rfl⟩ := Segment.exists_scans divided
  obtain ⟨x', others', read', alike, later⟩ := h.scans unmarked read
  have flat : List.Forall₂ (SegmentAlike l) (Segment.ofText x) (Segment.ofText x') := ofText alike
  exact ⟨_, map_eq_ok_iff.mpr ⟨_, read'.scan_eq, rfl⟩, List.rel_append flat later⟩

/-- Alike texts leave as many brackets open. -/
theorem nest_eq (h : Alike l first t t') (unmarked : ∀ n n', ¬ l.marks n n') (depth : Nat) :
    Token.nest depth (Token.ofMasked t) = Token.nest depth (Token.ofMasked t') := by
  induction h generalizing depth with
  | nil | bareEscape => rfl
  | escaped c rest ih => rw [Token.nest_escaped, Token.nest_escaped, ih]
  | @plain first c t t' ordinary allowed rest ih =>
    by_cases opening : c = '('
    · rw [opening, Token.nest_opening, Token.nest_opening, ih]
    · by_cases closing : c = ')'
      · rw [closing]
        cases depth with
        | zero => rw [Token.nest_closing_zero, Token.nest_closing_zero]
        | succ depth => rw [Token.nest_closing_succ, Token.nest_closing_succ, ih]
      · rw [Token.nest_cons ordinary.1 opening closing, Token.nest_cons ordinary.1 opening closing, ih]
  | literal same rest ih =>
    rw [Token.nest_bare_append fun c => bare_of_mem_placeholder, Token.nest_bare_append fun c => bare_of_mem_placeholder,
      ih]
  | mark same => exact absurd same (unmarked _ _)

/-- The brackets of alike texts pair up alike. -/
theorem balanced (h : Alike l first t t') (unmarked : ∀ n n', ¬ l.marks n n')
    (balanced : Token.Balanced (Token.ofMasked t)) : Token.Balanced (Token.ofMasked t') :=
  (h.nest_eq unmarked 0).symm.trans balanced

/-- If no unescaped bracket divides a text, then none divides an alike text. -/
theorem undivided (h : Alike l first t t') (unmarked : ∀ n n', ¬ l.marks n n') (flat : Token.scan t = (t, [])) :
    Token.scan t' = (t', []) := by
  induction h with
  | nil | bareEscape => exact flat
  | escaped c rest ih =>
    rw [Token.scan_escape, Prod.mk.injEq, List.cons.injEq, List.cons.injEq] at flat
    rw [Token.scan_escape, ih (Prod.ext flat.1.2.2 flat.2)]
  | @plain first c t t' ordinary allowed rest ih =>
    by_cases opening : c = '('
    · rw [opening, Token.scan_opening] at flat
      cases flat
    · by_cases closing : c = ')'
      · rw [closing, Token.scan_closing] at flat
        cases flat
      · rw [Token.scan_cons ordinary.1 opening closing, Prod.mk.injEq, List.cons.injEq] at flat
        rw [Token.scan_cons ordinary.1 opening closing, ih (Prod.ext flat.1.2 flat.2)]
  | literal same rest ih =>
    rw [Token.scan_bare_append fun c => bare_of_mem_placeholder, Prod.mk.injEq, List.append_cancel_left_eq] at flat
    rw [Token.scan_bare_append fun c => bare_of_mem_placeholder, ih (Prod.ext flat.1 flat.2)]
  | mark same => exact absurd same (unmarked _ _)

theorem whole (h : Alike l first t t') (unmarked : ∀ n n', ¬ l.marks n n') (whole : Token.Whole t) :
    Token.Whole t' := by
  have bare (n : Nat) : ∀ c ∈ Literal.placeholder n, c ≠ Literal.escape :=
    fun c member => (bare_of_mem_placeholder member).1
  induction h with
  | nil | bareEscape => exact whole
  | escaped c rest ih =>
    rw [Token.whole_escaped_iff] at whole ⊢
    exact ih whole
  | plain ordinary allowed rest ih =>
    rw [Token.whole_cons_iff ordinary.1] at whole ⊢
    exact ih whole
  | literal same rest ih =>
    rw [Token.whole_bare_append_iff (bare _)] at whole ⊢
    exact ih whole
  | mark same => exact absurd same (unmarked _ _)

private theorem bare_word (c : Connector) : ∀ d ∈ c.word, d ≠ Literal.quote ∧ d ≠ Literal.sentinel := by
  cases c <;> decide

theorem eq_word_iff (h : Alike l first t t') (c : Connector) : t = c.word ↔ t' = c.word := by
  constructor
  · rintro rfl
    exact (h.eq_of_bare (bare_word c)).symm
  · rintro rfl
    exact (h.symm.eq_of_bare (bare_word c)).symm

/-- Where one of two alike texts has a connector among its words, the other one has it. -/
theorem word_mem_words (h : Alike l first t t') {c : Connector} (member : c.word ∈ Text.words t) :
    c.word ∈ Text.words t' := by
  obtain ⟨w', among, alike⟩ := exists_of_forall₂ h.words member
  rwa [← (alike.eq_word_iff c).mp rfl]

theorem ofWord?_eq (h : Alike l first t t') : Connector.ofWord? t = Connector.ofWord? t' := by
  ext c
  rw [Connector.ofWord?_eq_some_iff, Connector.ofWord?_eq_some_iff, h.eq_word_iff]

private theorem leading {c : Connector} {r : Text} (h : Alike l first (c.word ++ ' ' :: r) t') :
    Alike l first c.word c.word ∧ ∃ r', t' = c.word ++ ' ' :: r' ∧ Alike l true r r' := by
  obtain ⟨w', r', rfl, left, right⟩ := h.split_blank Text.isBlank_space
  obtain rfl := left.eq_of_bare (bare_word c)
  exact ⟨left, r', rfl, right⟩

private theorem trailing {c : Connector} {r : Text} (h : Alike l first (r ++ ' ' :: c.word) t') :
    Alike l true c.word c.word ∧ ∃ r', t' = r' ++ ' ' :: c.word ∧ Alike l first r r' := by
  obtain ⟨r', w', rfl, left, right⟩ := h.split_blank Text.isBlank_space
  obtain rfl := right.eq_of_bare (bare_word c)
  exact ⟨right, r', rfl, left⟩

private theorem detachEnd (h : Alike l true t t') :
    List.Forall₂ (Alike l true) (detachEnd t).1 (detachEnd t').1 ∧ (detachEnd t).2 = (detachEnd t').2 := by
  cases found : trailing? t with
  | some pair =>
    obtain ⟨c, rest⟩ := pair
    obtain ⟨r, rfl, rfl⟩ := trailing?_eq_some_iff.mp found
    obtain ⟨word, r', rfl, alike⟩ := h.trailing
    have found' : trailing? (r' ++ ' ' :: c.word) = some (c, Text.trimEnd r') :=
      trailing?_eq_some_iff.mpr ⟨r', rfl, rfl⟩
    simp only [Filter.detachEnd, found, found', and_true]
    exact .cons alike.trimEnd (.cons word .nil)
  | none =>
    have none' : trailing? t' = none := by
      rw [Option.eq_none_iff_forall_ne_some]
      rintro ⟨c, rest⟩ found'
      obtain ⟨r', rfl, rfl⟩ := trailing?_eq_some_iff.mp found'
      obtain ⟨-, r, rfl, -⟩ := h.symm.trailing
      rw [trailing?_eq_some_iff.mpr ⟨r, rfl, rfl⟩] at found
      cases found
    simp only [Filter.detachEnd, found, none', and_true]
    exact .cons h .nil

/-- The connectors at the ends of alike texts are the same, and what is left of the texts is alike. -/
theorem detach (h : Alike l true t t') {m m' : Literal.Masked} {after after' : Bool} {pieces : List Text}
    (read : Filter.detach m after t = .ok (pieces, after')) :
    ∃ pieces', Filter.detach m' after t' = .ok (pieces', after') ∧ List.Forall₂ (Alike l true) pieces pieces' := by
  rcases detach_cases read with ⟨c, rfl, rfl⟩ | ⟨named, rfl⟩ | ⟨named, rfl, c, r, rfl, apart⟩
  · obtain rfl := h.eq_of_bare (bare_word c)
    rw [detach_connector] at read ⊢
    cases read
    exact ⟨_, rfl, .cons h .nil⟩
  · rw [detach_after named] at read
    rw [detach_after (h.ofWord?_eq ▸ named)]
    have same : Filter.detachEnd t = (pieces, after') := Except.ok.inj read
    obtain ⟨alike, ends⟩ := h.detachEnd
    rw [same] at alike ends
    exact ⟨_, by rw [show after' = _ from ends], alike⟩
  · obtain ⟨word, r', rfl, alike⟩ := h.leading
    rw [detach_behind named rfl apart] at read
    rw [detach_behind (h.ofWord?_eq ▸ named) rfl (alike.trimStart.ofWord?_eq ▸ apart)]
    cases read
    obtain ⟨pieces, ends⟩ := alike.trimStart.detachEnd
    exact ⟨_, by rw [ends], .cons word pieces⟩

private theorem between_eq (c : Connector) (x y : Text) :
    x ++ c.between ++ y = (x ++ ' ' :: c.word) ++ ' ' :: y := by
  simp [Connector.between]

private theorem split_between {c : Connector} {x y : Text} (h : Alike l first (x ++ c.between ++ y) t') :
    ∃ x' y', t' = x' ++ c.between ++ y' ∧ Alike l first x x' ∧ Alike l true y y' ∧
      Alike l first (x ++ ' ' :: c.word) (x' ++ ' ' :: c.word) := by
  rw [between_eq] at h
  obtain ⟨u', y', rfl, front, back⟩ := h.split_blank Text.isBlank_space
  obtain ⟨-, x', rfl, left⟩ := front.trailing
  exact ⟨x', y', (between_eq c x' y').symm, left, back, front⟩

private theorem infix_between {c : Connector} (h : Alike l first t t') (within : c.between <:+: t) :
    c.between <:+: t' := by
  obtain ⟨x, y, rfl⟩ := within
  obtain ⟨x', y', rfl, -⟩ := h.split_between
  exact ⟨x', y', rfl⟩

/-- Alike texts are cut into alike pieces. -/
theorem cut (c : Connector) (h : Alike l true t t') :
    List.Forall₂ (Alike l true) (Text.cut c.between t) (Text.cut c.between t') := by
  have separator : c.between ≠ [] := Text.between_ne_nil c.word
  have dropped : c.between.dropLast = ' ' :: c.word := by
    rw [Connector.between, ← List.cons_append, List.dropLast_concat]
  induction t using Text.piece_induction separator generalizing t' with
  | last t bare =>
    have bare' : ¬ c.between <:+: t' := fun inside => bare (h.symm.infix_between inside)
    rw [Text.cut_eq_singleton bare, Text.cut_eq_singleton bare']
    exact .cons h .nil
  | more x y first ih =>
    obtain ⟨x', y', rfl, left, right, front⟩ := h.split_between
    have first' : ¬ c.between <:+: x' ++ c.between.dropLast := by
      intro within'
      rw [dropped] at within' first
      exact first (front.symm.infix_between within')
    rw [Text.cut_append separator first, Text.cut_append separator first']
    exact .cons left (ih right)

end Alike
end Criteria.Filter
