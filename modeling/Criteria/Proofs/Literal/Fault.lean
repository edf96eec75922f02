import Criteria.Proofs.Literal.Atom

/-!
# Where the masking of a text fails

A text cannot be masked at its first fault: a quote that opens a literal which is never closed, or a NUL outside
every literal. The place that is reported is the range of that fault in bytes.
-/

namespace Criteria

open Literal (quote escape sentinel Quoted Spells EndsInEscape)
open Text (byteSize)

namespace Literal

/-- The atoms of a text are complete, and a character put behind it is not escaped. -/
def EndsOutside (t : Text) : Prop := (∃ atoms, Spells t atoms) ∧ ¬ EndsInEscape t

/-- No quote of a text closes the literal that begins in front of it. -/
def NeverCloses (t : Text) : Prop := ∀ inner content r, Quoted inner content → t ≠ inner ++ quote :: r

/-- What keeps a text from being masked. -/
inductive Fault : Text → SyntaxError → Prop
  | unclosed {front r : Text} (outside : EndsOutside front) (unclosed : NeverCloses r) :
      Fault (front ++ quote :: r) (.unterminatedLiteral (byteSize front) (byteSize (front ++ quote :: r)))
  | control {front : Text} (r : Text) (outside : EndsOutside front) :
      Fault (front ++ sentinel :: r) (.controlCharacter (byteSize front))

theorem neverCloses_bareEscape : NeverCloses [escape] := by
  intro inner content r quoted same
  cases quoted with
  | nil => exact absurd (List.head_eq_of_cons_eq same) (by decide)
  | plain | escaped => simp at same

theorem not_neverCloses_quote (r : Text) : ¬ NeverCloses (quote :: r) :=
  fun unclosed => unclosed [] [] r .nil rfl

theorem neverCloses_cons_iff {c : Char} (notQuote : c ≠ quote) (notEscape : c ≠ escape) (r : Text) :
    NeverCloses (c :: r) ↔ NeverCloses r := by
  constructor
  · rintro unclosed inner content rest quoted rfl
    exact unclosed (c :: inner) _ rest (.plain notQuote notEscape quoted) rfl
  · intro unclosed inner content rest quoted same
    cases quoted with
    | nil => exact notQuote (List.head_eq_of_cons_eq same)
    | plain _ _ quoted => exact unclosed _ _ rest quoted (List.tail_eq_of_cons_eq same)
    | escaped d _ => exact notEscape (List.head_eq_of_cons_eq same)

theorem neverCloses_escaped_iff (c : Char) (r : Text) : NeverCloses (escape :: c :: r) ↔ NeverCloses r := by
  constructor
  · rintro unclosed inner content rest quoted rfl
    exact unclosed (escape :: c :: inner) _ rest (.escaped c quoted) rfl
  · intro unclosed inner content rest quoted same
    cases quoted with
    | nil => exact absurd (List.head_eq_of_cons_eq same) (by decide)
    | plain _ notEscape _ => exact notEscape (List.head_eq_of_cons_eq same).symm
    | escaped d quoted =>
      exact unclosed _ _ rest quoted (List.tail_eq_of_cons_eq (List.tail_eq_of_cons_eq same))

theorem neverCloses_of_unquoted {t : Text} (unquoted : quote ∉ t) : NeverCloses t := by
  rintro inner content r _ rfl
  simp at unquoted

/-- A text without quotes does not close the literal in front of it. -/
theorem NeverCloses.append {t u : Text} (h : NeverCloses t) (unquoted : quote ∉ u) : NeverCloses (t ++ u) := by
  match t with
  | [] => exact neverCloses_of_unquoted unquoted
  | c :: r =>
    by_cases isQuote : c = quote
    · exact absurd (isQuote ▸ h) (not_neverCloses_quote r)
    · by_cases isEscape : c = escape
      · subst isEscape
        match r with
        | [] =>
          cases u with
          | nil => exact neverCloses_bareEscape
          | cons d u =>
            exact (neverCloses_escaped_iff d u).mpr
              (neverCloses_of_unquoted fun member => unquoted (List.mem_cons_of_mem _ member))
        | d :: r => exact (neverCloses_escaped_iff d _).mpr (((neverCloses_escaped_iff d r).mp h).append unquoted)
      · exact (neverCloses_cons_iff isQuote isEscape _).mpr (((neverCloses_cons_iff isQuote isEscape r).mp h).append unquoted)
termination_by structural t

/-- What is scanned behind a text is scanned from the position at its end. -/
theorem Spells.scan_append {front : Text} {atoms : List Atom} (h : Spells front atoms) (ended : ¬ EndsInEscape front)
    (position : Nat) (r : Text) :
    Atom.scan position (front ++ r) = (Atom.scan (position + byteSize front) r).map (atoms ++ ·) := by
  induction h generalizing position with
  | nil =>
    cases scanned : Atom.scan position r <;> simp [scanned, Except.map]
  | bareEscape => exact absurd endsInEscape_bareEscape ended
  | @escaped c t _ _ ih =>
    rw [endsInEscape_escaped_iff] at ended
    have behind : position + byteSize (escape :: c :: t) = position + escape.utf8Size + c.utf8Size + byteSize t := by
      simp only [Text.byteSize_cons, Nat.add_assoc]
    rw [List.cons_append, List.cons_append, Atom.scan_escaped, ih ended, behind]
    cases Atom.scan _ r <;> rfl
  | @plain c t _ ordinary _ ih =>
    rw [endsInEscape_cons_iff ordinary.1] at ended
    have behind : position + byteSize (c :: t) = position + c.utf8Size + byteSize t := by
      simp only [Text.byteSize_cons, Nat.add_assoc]
    rw [List.cons_append, Atom.scan_plain ordinary, ih ended, behind]
    cases Atom.scan _ r <;> rfl
  | @literal inner content t _ quoted _ ih =>
    rw [endsInEscape_literal_iff] at ended
    have behind : position + byteSize (quote :: (inner ++ quote :: t)) =
        position + byteSize (quote :: (inner ++ [quote])) + byteSize t := by
      simp only [Text.byteSize_cons, Text.byteSize_append, Text.byteSize_nil]
      omega
    rw [List.cons_append, List.append_assoc, List.cons_append, scan_literal_append quoted, ih ended, behind]
    cases Atom.scan _ r <;> rfl

/-- A literal that is never closed runs to the end of the text. -/
theorem scanLiteral_of_neverCloses {t : Text} (unclosed : NeverCloses t) (start position : Nat) :
    Atom.scanLiteral start position t = .error (.unterminatedLiteral start (position + byteSize t)) := by
  match t with
  | [] => rfl
  | c :: r =>
    by_cases isQuote : c = quote
    · exact absurd (isQuote ▸ unclosed) (not_neverCloses_quote r)
    · by_cases isEscape : c = escape
      · subst isEscape
        match r with
        | [] => rw [Atom.scanLiteral_bareEscape]; rfl
        | d :: r =>
          rw [neverCloses_escaped_iff] at unclosed
          rw [Atom.scanLiteral_escaped, scanLiteral_of_neverCloses unclosed, Text.byteSize_cons, Text.byteSize_cons,
            Nat.add_assoc, Nat.add_assoc]
          rfl
      · rw [neverCloses_cons_iff isQuote isEscape] at unclosed
        rw [Atom.scanLiteral_plain isQuote isEscape, scanLiteral_of_neverCloses unclosed, Text.byteSize_cons, Nat.add_assoc]
        rfl
termination_by structural t

/-- A literal is closed or it never is. -/
theorem closes_or_neverCloses (t : Text) :
    NeverCloses t ∨ ∃ inner content r, Quoted inner content ∧ t = inner ++ quote :: r := by
  by_cases unclosed : NeverCloses t
  · exact .inl unclosed
  · simp only [NeverCloses, not_forall, not_not] at unclosed
    obtain ⟨inner, content, r, quoted, same⟩ := unclosed
    exact .inr ⟨inner, content, r, quoted, same⟩

theorem endsOutside_nil : EndsOutside [] := ⟨⟨[], .nil⟩, not_endsInEscape_nil⟩

theorem EndsOutside.append {t u : Text} (h : EndsOutside t) (h' : EndsOutside u) : EndsOutside (t ++ u) := by
  obtain ⟨⟨atoms, spelled⟩, ended⟩ := h
  obtain ⟨⟨others, spelled'⟩, ended'⟩ := h'
  exact ⟨⟨atoms ++ others, spelled.append ended spelled'⟩, fun ends => ended' ((endsInEscape_append ended u).mp ends)⟩

theorem endsOutside_of_ordinary {t : Text} (ordinary : ∀ c ∈ t, Ordinary c) : EndsOutside t := by
  induction t with
  | nil => exact endsOutside_nil
  | cons c t ih =>
    have single : EndsOutside [c] :=
      ⟨⟨_, .plain (ordinary c List.mem_cons_self) .nil⟩,
        not_endsInEscape_concat (ordinary c List.mem_cons_self).1 []⟩
    exact single.append (ih fun d member => ordinary d (List.mem_cons_of_mem _ member))

/-- A fault stays one between a text that ends outside its literals and one without quotes. It moves by the size of the
    former, and a literal that is never closed runs to the end of the latter. -/
theorem Fault.surrounded {t x y : Text} {e : SyntaxError} (h : Fault t e) (outside : EndsOutside x) (unquoted : quote ∉ y) :
    ∃ e', Fault (x ++ (t ++ y)) e' ∧
      ((∃ start stop, e = .unterminatedLiteral start stop ∧
          e' = .unterminatedLiteral (byteSize x + start) (byteSize (x ++ (t ++ y)))) ∨
        ∃ position, e = .controlCharacter position ∧ e' = .controlCharacter (byteSize x + position)) := by
  cases h with
  | @unclosed front r front' unclosed =>
    have fault := Fault.unclosed (outside.append front') (unclosed.append unquoted)
    have whole : (x ++ front) ++ quote :: (r ++ y) = x ++ ((front ++ quote :: r) ++ y) := by simp
    rw [whole, Text.byteSize_append] at fault
    exact ⟨_, fault, .inl ⟨_, _, rfl, rfl⟩⟩
  | @control front r front' =>
    have fault := Fault.control (r ++ y) (outside.append front')
    have whole : (x ++ front) ++ sentinel :: (r ++ y) = x ++ ((front ++ sentinel :: r) ++ y) := by simp
    rw [whole, Text.byteSize_append] at fault
    exact ⟨_, fault, .inr ⟨_, rfl, rfl⟩⟩

theorem Fault.behind {t x : Text} {e : SyntaxError} (h : Fault t e) (outside : EndsOutside x) : ∃ e', Fault (x ++ t) e' := by
  obtain ⟨e', fault, -⟩ := h.surrounded (y := []) outside (by simp)
  rw [List.append_nil] at fault
  exact ⟨e', fault⟩

/-- A text has atoms or a fault. -/
theorem spells_or_fault (t : Text) : (∃ atoms, Spells t atoms) ∨ ∃ e, Fault t e := by
  induction size : t.length using Nat.strongRecOn generalizing t with
  | ind n ih =>
    have behind {x r : Text} (whole : t = x ++ r) (nonempty : x ≠ []) (outside : EndsOutside x) :
        (∃ atoms, Spells t atoms) ∨ ∃ e, Fault t e := by
      have shorter : r.length < n := by
        have := List.length_pos_iff.mpr nonempty
        simp only [← size, whole, List.length_append]
        omega
      rw [whole]
      rcases ih r.length shorter r rfl with ⟨others, spelled⟩ | ⟨e, fault⟩
      · obtain ⟨⟨atoms, spelled'⟩, ended⟩ := outside
        exact .inl ⟨_, spelled'.append ended spelled⟩
      · exact .inr (fault.behind outside)
    cases t with
    | nil => exact .inl ⟨[], .nil⟩
    | cons c r =>
      by_cases isEscape : c = escape
      · subst isEscape
        cases r with
        | nil => exact .inl ⟨_, .bareEscape⟩
        | cons d r =>
          have outside : EndsOutside [escape, d] :=
            ⟨⟨_, .escaped d .nil⟩, fun ends => not_endsInEscape_nil ((endsInEscape_escaped_iff d []).mp ends)⟩
          exact behind (x := [escape, d]) rfl (by simp) outside
      · by_cases isQuote : c = quote
        · subst isQuote
          rcases closes_or_neverCloses r with unclosed | ⟨inner, content, r, quoted, rfl⟩
          · exact .inr ⟨_, .unclosed endsOutside_nil unclosed⟩
          · have outside : EndsOutside (quote :: (inner ++ quote :: [])) :=
              ⟨⟨_, .literal quoted .nil⟩, fun ends => not_endsInEscape_nil ((endsInEscape_literal_iff inner []).mp ends)⟩
            exact behind (x := quote :: (inner ++ [quote])) (r := r) (by simp) (by simp) outside
        · by_cases isSentinel : c = sentinel
          · subst isSentinel
            exact .inr ⟨_, .control r endsOutside_nil⟩
          · have ordinary : ∀ d ∈ [c], Ordinary d := by simpa using ⟨isEscape, isQuote, isSentinel⟩
            exact behind (x := [c]) rfl (by simp) (endsOutside_of_ordinary ordinary)

/-- A text cannot be masked exactly if it has a fault, and the fault is the cause. -/
theorem mask_eq_error_iff {t : Text} {e : SyntaxError} : mask t = .error e ↔ Fault t e := by
  have scanned {e : SyntaxError} (h : Fault t e) : Atom.scan 0 t = .error e := by
    cases h with
    | @unclosed front r outside unclosed =>
      obtain ⟨⟨atoms, spelled⟩, ended⟩ := outside
      rw [spelled.scan_append ended, Atom.scan_quote, scanLiteral_of_neverCloses unclosed, Nat.zero_add,
        Text.byteSize_append, Text.byteSize_cons, Nat.add_assoc]
      rfl
    | @control front r outside =>
      obtain ⟨⟨atoms, spelled⟩, ended⟩ := outside
      rw [spelled.scan_append ended, Atom.scan_sentinel, Nat.zero_add]
      rfl
  rw [mask, map_eq_error_iff]
  constructor
  · intro failed
    rcases spells_or_fault t with ⟨atoms, spelled⟩ | ⟨e', fault⟩
    · rw [spelled.scan 0] at failed
      cases failed
    · rw [scanned fault] at failed
      cases failed
      exact fault
  · exact scanned

end Literal

namespace Span

open Literal (EndsOutside NeverCloses Fault)

/-- A range points at a fault of a text: it is not empty, ends within the text, and begins at a quote that opens a
    literal which is never closed and ends with the text, or is a NUL outside every literal and not escaped. -/
structure PointsInto (s : Span) (t : Text) : Prop where
  nonempty : s.start < s.stop
  inside : s.stop ≤ byteSize t
  place : (∃ front r, t = front ++ quote :: r ∧ s.start = byteSize front ∧ EndsOutside front ∧ NeverCloses r ∧
      s.stop = byteSize t) ∨
    ∃ front r, t = front ++ sentinel :: r ∧ s.start = byteSize front ∧ EndsOutside front ∧ s.stop = s.start + 1

/-- The range that is reported for a text points at its fault, and there is only one such range. -/
theorem pointsInto_iff {s : Span} {t : Text} : s.PointsInto t ↔ ∃ e, Literal.mask t = .error e ∧ e.span? = some s := by
  simp only [Literal.mask_eq_error_iff]
  constructor
  · rintro ⟨-, -, ⟨front, r, rfl, first, outside, unclosed, last⟩ | ⟨front, r, rfl, first, outside, last⟩⟩
    · exact ⟨_, .unclosed outside unclosed, by rw [SyntaxError.span?, ← first, ← last]⟩
    · exact ⟨_, .control r outside, by rw [SyntaxError.span?, ← first, ← last]⟩
  · rintro ⟨e, fault, placed⟩
    cases fault with
    | @unclosed front r outside unclosed =>
      cases placed
      have size := quote.utf8Size_pos
      refine ⟨?_, Nat.le_refl _, .inl ⟨front, r, rfl, rfl, outside, unclosed, rfl⟩⟩
      simp only [Text.byteSize_append, Text.byteSize_cons]
      omega
    | @control front r outside =>
      cases placed
      have size := sentinel.utf8Size_pos
      refine ⟨Nat.lt_succ_self _, ?_, .inr ⟨front, r, rfl, rfl, outside, rfl⟩⟩
      simp only [Text.byteSize_append, Text.byteSize_cons]
      omega

end Span
end Criteria
