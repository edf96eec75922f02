import Criteria.Proofs.Filter.Condition
import Criteria.Proofs.Filter.Detach

/-!
# Texts that are not divided

A text that no bracket and no connector divides is read as one condition. Where it holds an escaped bracket,
it goes the way of the texts with groups; what comes back is the same text, trimmed, unless a connector
stands last. A condition has no connector there either.
-/

namespace Criteria.Filter

open Literal (Masked)
open Text (isBlank)

namespace Token

private theorem scan_rest (t : Text) :
    scan t = (t, []) ∨ ∃ r, (scan t).2 = .opening :: r ∨ (scan t).2 = .closing :: r := by
  fun_induction scan t with
  | case1 | case2 => exact .inl rfl
  | case3 d r ih => exact ih.imp (fun whole => by rw [whole]) id
  | case4 r => exact .inr ⟨_, .inl rfl⟩
  | case5 r => exact .inr ⟨_, .inr rfl⟩
  | case6 c r _ _ _ ih => exact ih.imp (fun whole => by rw [whole]) id

/-- A text whose tokens are words has no bracket among them. -/
theorem scan_of_flat {t : Text} {ws : List Text} (flat : ofMasked t = ws.map .word) : scan t = (t, []) := by
  rcases scan_rest t with whole | ⟨r, bracket⟩
  · exact whole
  · have member {token : Token} (first : (scan t).2 = token :: r) : token ∈ ws.map Token.word := by
      rw [← flat, ofMasked, ofRun, first]
      exact List.mem_append_right _ List.mem_cons_self
    rcases bracket with first | first <;> simpa using member first

/-- Texts without brackets stay without them side by side. -/
theorem scan_append_cons {c : Char} (notEscape : c ≠ Literal.escape) (notOpening : c ≠ '(') (notClosing : c ≠ ')')
    {t u : Text} (flat : scan t = (t, [])) (flat' : scan u = (u, [])) : scan (t ++ c :: u) = (t ++ c :: u, []) := by
  fun_induction scan t with
  | case1 => rw [List.nil_append, scan_cons notEscape notOpening notClosing, flat']
  | case2 => rw [List.cons_append, List.nil_append, scan_escape, flat']
  | case3 d r ih =>
    have rest : scan r = (r, []) := by simpa [Prod.ext_iff] using flat
    rw [List.cons_append, List.cons_append, scan_escape, ih rest]
  | case4 | case5 => cases flat
  | case6 d r notEscape' notOpening' notClosing' ih =>
    have rest : scan r = (r, []) := by simpa [Prod.ext_iff] using flat
    rw [List.cons_append, scan_cons notEscape' notOpening' notClosing', ih rest]

end Token

namespace Segment

theorem scan_of_flat {t : Text} (flat : Token.scan t = (t, [])) : scan 0 t = .ok (t, []) := by
  fun_induction Token.scan t with
  | case1 => rfl
  | case2 => rw [scan_bareEscape, if_pos rfl]
  | case3 d r ih =>
    have rest : Token.scan r = (r, []) := by simpa [Prod.ext_iff] using flat
    rw [scan_escape, ih rest]
    rfl
  | case4 | case5 => cases flat
  | case6 c r notEscape notOpening notClosing ih =>
    have rest : Token.scan r = (r, []) := by simpa [Prod.ext_iff] using flat
    rw [scan_cons notEscape notOpening notClosing, ih rest]
    rfl

theorem ofMasked_of_flat {t : Text} (flat : Token.ofMasked t = (Text.words t).map .word)
    (nonblank : Text.trim t ≠ []) :
    ofMasked t = .ok [.text (Text.trim t)] := by
  rw [ofMasked, scan_of_flat (Token.scan_of_flat flat)]
  simp [Except.map, ofText, nonblank]

end Segment

/-- Neither a bracket nor a connector between spaces divides the text. -/
structure IsUndivided (t : Text) : Prop where
  flat : Token.ofMasked t = (Text.words t).map .word
  uncut : ∀ c : Connector, ¬ c.between <:+: t

section
variable {m : Masked} {t : Text} {g g' : GroupTable} {parts : List Part}

theorem readCondition_trim (m : Masked) (t : Text) : readCondition m (Text.trim t) = readCondition m t := by
  rw [readCondition, readCondition, Text.words_trim, (Text.trimmed_trim t).trim_eq_self]

/-- Several words of a condition do not end with a connector. -/
theorem last_of_yields_readCondition {first second : Text} {rest : List Text}
    (several : Text.words t = first :: second :: rest) (read : Yields (readCondition m t) g parts g') (ws : List Text)
    (c : Connector) : Text.words t ≠ ws ++ [c.word] := by
  obtain ⟨-, negated, field, keyword, value, split, -, compared⟩ := exists_of_yields_readCondition several read
  obtain ⟨-, -, dangling, operator, rfl, -⟩ := readComparison_eq_ok_iff.mp compared
  intro ends
  have last : value.getLast?.getD operator.word = c.word := by
    have same := congrArg List.getLast? (split.symm.trans ends)
    simpa [List.getLast?_cons] using same
  cases tail : value.getLast? with
  | none =>
    rw [tail] at last
    exact c.word_ne_operator operator last.symm
  | some w =>
    rw [tail] at last
    exact (dangling?_eq_none_iff.mp dangling).2 w tail c last

/-- A level that is not cut is read as a condition. -/
theorem yields_readFlat_iff (uncut : ∀ c : Connector, ¬ c.between <:+: t) :
    Yields (readFlat m t) g parts g' ↔ Yields (readCondition m t) g parts g' := by
  have whole (c : Connector) : Text.cut c.between t = [t] := Text.cut_eq_singleton (uncut c)
  have single {f : Text → Reading (List Part)} (c : Connector) :
      Yields (do let members ← [t].mapM f; return join c members) g parts g' ↔ Yields (f t) g parts g' := by
    simp only [yields_bind_iff, yields_mapM_cons_iff, yields_mapM_nil_iff, yields_pure_iff]
    constructor
    · rintro ⟨_, _, ⟨parts, _, _, rfl, read, rfl, rfl⟩, rfl, rfl⟩
      exact read
    · intro read
      exact ⟨_, _, ⟨parts, _, _, rfl, read, rfl, rfl⟩, rfl, rfl⟩
  rw [readFlat, whole, single, whole, single]

/-- Without a connector at its end, what is left of a text after its connectors is the text. -/
theorem eq_of_detach_after {front : List Text} (h : detach m true t = .ok (front, false)) : front = [t] := by
  rcases detach_cases h with ⟨c, -, ⟨⟩⟩ | ⟨named, -⟩ | ⟨-, ⟨⟩, -⟩
  rw [detach_after named, detachEnd] at h
  split at h <;> cases h
  rfl

theorem detach_after_eq (named : Connector.ofWord? t = none)
    (unended : ∀ (c : Connector) (r : Text), t ≠ r ++ ' ' :: c.word) :
    detach m true t = .ok ([t], false) := by
  have none : trailing? t = none := by
    rw [Option.eq_none_iff_forall_ne_some]
    rintro ⟨c, rest⟩ found
    obtain ⟨r, whole, -⟩ := trailing?_eq_some_iff.mp found
    exact unended c r whole
  rw [detach_after named, detachEnd, none]

/-- A text that is not divided is read as a condition. With an escaped bracket it may not end with a connector. -/
theorem yields_readText_iff (undivided : IsUndivided t) :
    Yields (readText m t) g parts g' ↔
      Yields (readCondition m t) g parts g' ∧
        ('(' ∈ t ∨ ')' ∈ t → detach m true (Text.trim t) = .ok ([Text.trim t], false)) := by
  by_cases brackets : '(' ∈ t ∨ ')' ∈ t
  · obtain ⟨a, b, front, back, whole⟩ := Text.trim_between t
    have nonblank : Text.trim t ≠ [] := by
      intro blank
      rw [blank, List.append_nil] at whole
      have blanks (c : Char) (member : c ∈ t) : isBlank c := by
        rw [whole] at member
        exact (List.mem_append.mp member).elim (front c) (back c)
      rcases brackets with inside | inside <;> exact absurd (blanks _ inside) (by decide)
    have uncut (c : Connector) : ¬ c.between <:+: Text.trim t :=
      fun within => undivided.uncut c (within.trans ⟨a, b, whole.symm⟩)
    have flat : Yields (readFlat m ([' '].intercalate [Text.trim t])) g parts g' ↔
        Yields (readCondition m t) g parts g' := by
      rw [List.intercalate_singleton, yields_readFlat_iff uncut, readCondition_trim]
    rw [readText_segments brackets (Segment.ofMasked_of_flat undivided.flat nonblank) (by simp), yields_bind_iff]
    constructor
    · rintro ⟨pieces, h, segments, read⟩
      obtain ⟨front, next, back, detached, rest, rfl⟩ := yields_readSegments_text_iff.mp segments
      obtain ⟨rfl, rfl, rfl⟩ := yields_readSegments_nil_iff.mp rest
      obtain rfl := eq_of_detach_after detached
      exact ⟨flat.mp read, fun _ => detached⟩
    · rintro ⟨read, detached⟩
      refine ⟨[Text.trim t], g, ?_, flat.mpr read⟩
      exact yields_readSegments_text_iff.mpr
        ⟨_, false, [], detached brackets, yields_readSegments_nil_iff.mpr ⟨rfl, rfl, rfl⟩, rfl⟩
  · rw [readText_flat brackets, yields_readFlat_iff undivided.uncut]
    exact (and_iff_left fun inside => absurd inside brackets).symm

/-- A condition of several words ends with no connector, so that it is read in any case. -/
theorem yields_readText_of_readCondition (undivided : IsUndivided t) {first second : Text} {rest : List Text}
    (several : Text.words t = first :: second :: rest) (read : Yields (readCondition m t) g parts g') :
    Yields (readText m t) g parts g' := by
  have trimmed : Text.words (Text.trim t) = first :: second :: rest := by rw [Text.words_trim, several]
  refine (yields_readText_iff undivided).mpr ⟨read, fun _ => detach_after_eq ?_ fun c r ends => ?_⟩
  · rw [Connector.ofWord?_eq_none_iff]
    intro c same
    rw [same, c.words_word] at trimmed
    cases trimmed
  · have last := last_of_yields_readCondition several read (Text.words r) c
    rw [← Text.words_trim, ends, Text.words_append_space, c.words_word] at last
    exact last rfl

end
end Criteria.Filter
