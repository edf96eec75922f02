import Criteria.Filter.Segment
import Criteria.Proofs.Text.Words

/-!
# Tokens

A masked text as brackets and words: an unescaped bracket is a token, and so is every word between two
brackets. Cutting a text at its outermost brackets succeeds exactly when the brackets among its tokens
pair up, and the segments then hold its tokens in order.
-/

namespace Criteria.Filter

/-- A token of a masked text. -/
inductive Token
  | opening
  | closing
  | word (w : Text)
deriving DecidableEq, Repr

namespace Token

/-- The tokens of a text from its first unescaped bracket on, after the words of the text before it. -/
def ofRun (run : Text × List Token) : List Token := (Text.words run.1).map .word ++ run.2

/-- The text up to the first unescaped bracket, and the tokens from there on. -/
def scan : Text → Text × List Token
  | [] => ([], [])
  | c :: r =>
    if c = Literal.escape then
      match r with
      | [] => ([c], [])
      | d :: r => (c :: d :: (scan r).1, (scan r).2)
    else if c = '(' then ([], .opening :: ofRun (scan r))
    else if c = ')' then ([], .closing :: ofRun (scan r))
    else (c :: (scan r).1, (scan r).2)

/-- The tokens of a masked text. -/
def ofMasked (t : Text) : List Token := ofRun (scan t)

/-- How many brackets are open after some tokens that begin inside `depth` brackets; nothing if a
    bracket is closed that was not opened. -/
def nest (depth : Nat) : List Token → Option Nat
  | [] => some depth
  | .opening :: r => nest (depth + 1) r
  | .closing :: r =>
    match depth with
    | 0 => none
    | depth + 1 => nest depth r
  | .word _ :: r => nest depth r

/-- Every closing bracket closes an opening one before it, and every opening one is closed. -/
def Balanced (tokens : List Token) : Prop := nest 0 tokens = some 0

theorem scan_escape (d : Char) (r : Text) :
    scan (Literal.escape :: d :: r) = (Literal.escape :: d :: (scan r).1, (scan r).2) := by
  simp [scan]

theorem scan_opening (r : Text) : scan ('(' :: r) = ([], .opening :: ofRun (scan r)) := by
  rw [scan.eq_def]
  simp [Literal.escape]

theorem scan_closing (r : Text) : scan (')' :: r) = ([], .closing :: ofRun (scan r)) := by
  rw [scan.eq_def]
  simp [Literal.escape]

theorem scan_cons {c : Char} (notEscape : c ≠ Literal.escape) (notOpening : c ≠ '(') (notClosing : c ≠ ')')
    (r : Text) : scan (c :: r) = (c :: (scan r).1, (scan r).2) := by
  rw [scan.eq_def]
  simp [notEscape, notOpening, notClosing]

theorem scan_bare_append {w : Text} (bare : ∀ c ∈ w, c ≠ Literal.escape ∧ c ≠ '(' ∧ c ≠ ')') (t : Text) :
    scan (w ++ t) = (w ++ (scan t).1, (scan t).2) := by
  induction w with
  | nil => rfl
  | cons c w ih =>
    obtain ⟨notEscape, notOpening, notClosing⟩ := bare c List.mem_cons_self
    rw [List.cons_append, scan_cons notEscape notOpening notClosing,
      ih fun d member => bare d (List.mem_cons_of_mem _ member)]
    rfl

@[simp] theorem ofMasked_nil : ofMasked [] = [] := by simp [ofMasked, scan, ofRun]

theorem ordinary_of_isBlank {b : Char} (blank : Text.isBlank b) :
    b ≠ Literal.escape ∧ b ≠ '(' ∧ b ≠ ')' := by
  refine ⟨?_, ?_, ?_⟩ <;> rintro rfl <;> revert blank <;> decide

theorem scan_cons_blank {b : Char} (blank : Text.isBlank b) (t : Text) :
    scan (b :: t) = (b :: (scan t).1, (scan t).2) := by
  obtain ⟨notEscape, notOpening, notClosing⟩ := ordinary_of_isBlank blank
  exact scan_cons notEscape notOpening notClosing t

/-- A blank is in no token, also when a backslash stands before it. -/
theorem scan_append_blank {b : Char} (blank : Text.isBlank b) (x y : Text) :
    scan (x ++ b :: y) =
      if (scan x).2 = [] then ((scan x).1 ++ b :: (scan y).1, (scan y).2)
      else ((scan x).1, (scan x).2 ++ ofMasked y) := by
  have run (x : Text) (ih : scan (x ++ b :: y) =
      if (scan x).2 = [] then ((scan x).1 ++ b :: (scan y).1, (scan y).2)
      else ((scan x).1, (scan x).2 ++ ofMasked y)) :
      ofRun (scan (x ++ b :: y)) = ofRun (scan x) ++ ofMasked y := by
    rw [ih]
    split
    · rename_i flat
      simp [ofRun, flat, ofMasked, Text.words_append_blank blank]
    · simp [ofRun]
  fun_induction scan x with
  | case1 => simp [scan_cons_blank blank]
  | case2 => simp [scan_escape]
  | case3 d r ih =>
    rw [List.cons_append, List.cons_append, scan_escape, ih]
    split <;> simp
  | case4 r notEscape ih =>
    rw [List.cons_append, scan_opening, run r ih]
    simp
  | case5 r notEscape notOpening ih =>
    rw [List.cons_append, scan_closing, run r ih]
    simp
  | case6 c r notEscape notOpening notClosing ih =>
    rw [List.cons_append, scan_cons notEscape notOpening notClosing, ih]
    split <;> simp

theorem ofMasked_append_blank {b : Char} (blank : Text.isBlank b) (x y : Text) :
    ofMasked (x ++ b :: y) = ofMasked x ++ ofMasked y := by
  rw [ofMasked, scan_append_blank blank]
  split
  · rename_i flat
    simp [ofRun, flat, ofMasked, Text.words_append_blank blank]
  · simp [ofRun, ofMasked]

theorem ofMasked_cons_blank {b : Char} (blank : Text.isBlank b) (t : Text) :
    ofMasked (b :: t) = ofMasked t := by
  simpa using ofMasked_append_blank blank [] t

theorem ofMasked_blanks_append {s : Text} (blank : ∀ c ∈ s, Text.isBlank c) (t : Text) :
    ofMasked (s ++ t) = ofMasked t := by
  induction s with
  | nil => rfl
  | cons b s ih =>
    rw [List.cons_append, ofMasked_cons_blank (blank b List.mem_cons_self)]
    exact ih fun c member => blank c (List.mem_cons_of_mem _ member)

theorem ofMasked_append_blanks {s : Text} (blank : ∀ c ∈ s, Text.isBlank c) (t : Text) :
    ofMasked (t ++ s) = ofMasked t := by
  cases s with
  | nil => rw [List.append_nil]
  | cons b s =>
    have rest := ofMasked_blanks_append (fun c member => blank c (List.mem_cons_of_mem _ member)) []
    rw [List.append_nil, ofMasked_nil] at rest
    rw [ofMasked_append_blank (blank b List.mem_cons_self), rest, List.append_nil]

@[simp] theorem ofMasked_trim (t : Text) : ofMasked (Text.trim t) = ofMasked t := by
  obtain ⟨a, b, front, back, whole⟩ := Text.trim_between t
  have same := ofMasked_append_blanks back (a ++ Text.trim t)
  rw [ofMasked_blanks_append front, ← whole] at same
  exact same.symm

@[simp] theorem nest_words_append (depth : Nat) (ws : List Text) (tokens : List Token) :
    nest depth (ws.map .word ++ tokens) = nest depth tokens := by
  induction ws with
  | nil => rfl
  | cons w ws ih => exact ih

theorem nest_ofRun (depth : Nat) (run : Text × List Token) : nest depth (ofRun run) = nest depth run.2 :=
  nest_words_append depth _ _

theorem nest_append (depth : Nat) (x y : List Token) :
    nest depth (x ++ y) = (nest depth x).bind (nest · y) := by
  induction x generalizing depth with
  | nil => rfl
  | cons token x ih =>
    cases token with
    | opening => exact ih (depth + 1)
    | word w => exact ih depth
    | closing =>
      cases depth with
      | zero => rfl
      | succ depth => exact ih depth

/-- Brackets that pair up do so inside any others. -/
theorem nest_add {depth after : Nat} {tokens : List Token} (h : nest depth tokens = some after) (k : Nat) :
    nest (depth + k) tokens = some (after + k) := by
  induction tokens generalizing depth with
  | nil =>
    cases h
    rfl
  | cons token r ih =>
    cases token with
    | opening =>
      have opened : nest (depth + 1) r = some after := h
      have inner := ih opened
      rwa [Nat.add_right_comm] at inner
    | word w =>
      have skipped : nest depth r = some after := h
      exact ih skipped
    | closing =>
      cases depth with
      | zero => cases h
      | succ depth =>
        have closed : nest depth r = some after := h
        rw [Nat.add_right_comm]
        exact ih closed

theorem Balanced.nest_append {x : List Token} (h : Balanced x) (depth : Nat) (y : List Token) :
    nest depth (x ++ y) = nest depth y := by
  have inside := nest_add h depth
  rw [Nat.zero_add] at inside
  rw [Token.nest_append, inside]
  rfl

/-- Two texts with paired brackets that are followed by a closing bracket are equal as soon as one is
    written where the other is. -/
theorem Balanced.append_closing_inj {x x' y y' : List Token} (h : Balanced x) (h' : Balanced x')
    (same : x ++ .closing :: y = x' ++ .closing :: y') : x = x' ∧ y = y' := by
  have unclosed {x x' z : List Token} (h : Balanced x) (h' : Balanced x') :
      x' ≠ x ++ .closing :: z := by
    rintro rfl
    rw [Balanced, h.nest_append] at h'
    cases h'
  rcases Text.append_cons_eq_append_cons_iff.mp same with ⟨z, longer, -⟩ | ⟨front, -, tail⟩ | ⟨z, longer, -⟩
  · exact absurd longer (unclosed h' h)
  · exact ⟨front.symm, tail.symm⟩
  · exact absurd longer (unclosed h h')

/-- A text whose last backslash, if it has one, escapes a character of the text. -/
inductive Whole : Text → Prop
  | nil : Whole []
  | escaped (c : Char) {t : Text} (rest : Whole t) : Whole (Literal.escape :: c :: t)
  | plain {c : Char} {t : Text} (notEscape : c ≠ Literal.escape) (rest : Whole t) : Whole (c :: t)

/-- Any other text has one backslash more. -/
theorem whole_or (t : Text) : Whole t ∨ ∃ w, Whole w ∧ t = w ++ [Literal.escape] := by
  match t with
  | [] => exact .inl .nil
  | c :: r =>
    by_cases isEscape : c = Literal.escape
    · subst isEscape
      match r with
      | [] => exact .inr ⟨[], .nil, rfl⟩
      | d :: r =>
        rcases whole_or r with whole | ⟨w, whole, rfl⟩
        · exact .inl (.escaped d whole)
        · exact .inr ⟨_, .escaped d whole, rfl⟩
    · rcases whole_or r with whole | ⟨w, whole, rfl⟩
      · exact .inl (.plain isEscape whole)
      · exact .inr ⟨_, .plain isEscape whole, rfl⟩

theorem not_whole_bareEscape : ¬ Whole [Literal.escape] := by
  intro whole
  cases whole with
  | plain notEscape => exact notEscape rfl

theorem whole_cons_iff {c : Char} (notEscape : c ≠ Literal.escape) {t : Text} : Whole (c :: t) ↔ Whole t := by
  constructor
  · intro whole
    cases whole with
    | escaped => exact absurd rfl notEscape
    | plain _ rest => exact rest
  · exact .plain notEscape

theorem whole_escaped_iff {c : Char} {t : Text} : Whole (Literal.escape :: c :: t) ↔ Whole t := by
  constructor
  · intro whole
    cases whole with
    | escaped _ rest => exact rest
    | plain notEscape => exact absurd rfl notEscape
  · exact .escaped c

theorem whole_bare_append_iff {w t : Text} (bare : ∀ c ∈ w, c ≠ Literal.escape) : Whole (w ++ t) ↔ Whole t := by
  induction w with
  | nil => rfl
  | cons c w ih =>
    rw [List.cons_append, whole_cons_iff (bare c List.mem_cons_self)]
    exact ih fun d member => bare d (List.mem_cons_of_mem _ member)

theorem nest_ofMasked (depth : Nat) (t : Text) : nest depth (ofMasked t) = nest depth (scan t).2 :=
  nest_ofRun depth (scan t)

theorem nest_escaped (depth : Nat) (c : Char) (t : Text) :
    nest depth (ofMasked (Literal.escape :: c :: t)) = nest depth (ofMasked t) := by
  rw [nest_ofMasked, nest_ofMasked, scan_escape]

theorem nest_opening (depth : Nat) (t : Text) :
    nest depth (ofMasked ('(' :: t)) = nest (depth + 1) (ofMasked t) := by
  rw [nest_ofMasked, scan_opening]
  rfl

theorem nest_closing_succ (depth : Nat) (t : Text) :
    nest (depth + 1) (ofMasked (')' :: t)) = nest depth (ofMasked t) := by
  rw [nest_ofMasked, scan_closing]
  rfl

theorem nest_closing_zero (t : Text) : nest 0 (ofMasked (')' :: t)) = none := by
  rw [nest_ofMasked, scan_closing]
  rfl

theorem nest_cons {c : Char} (notEscape : c ≠ Literal.escape) (notOpening : c ≠ '(') (notClosing : c ≠ ')')
    (depth : Nat) (t : Text) : nest depth (ofMasked (c :: t)) = nest depth (ofMasked t) := by
  rw [nest_ofMasked, nest_ofMasked, scan_cons notEscape notOpening notClosing]

theorem nest_bare_append {w : Text} (bare : ∀ c ∈ w, c ≠ Literal.escape ∧ c ≠ '(' ∧ c ≠ ')') (depth : Nat)
    (t : Text) : nest depth (ofMasked (w ++ t)) = nest depth (ofMasked t) := by
  induction w with
  | nil => rfl
  | cons c w ih =>
    obtain ⟨notEscape, notOpening, notClosing⟩ := bare c List.mem_cons_self
    rw [List.cons_append, nest_cons notEscape notOpening notClosing]
    exact ih fun d member => bare d (List.mem_cons_of_mem _ member)

theorem Whole.nest_append {x : Text} (h : Whole x) (depth : Nat) (y : Text) :
    nest depth (ofMasked (x ++ y)) = (nest depth (ofMasked x)).bind (nest · (ofMasked y)) := by
  induction h generalizing depth with
  | nil =>
    rw [List.nil_append, ofMasked_nil]
    rfl
  | escaped c rest ih => rw [List.cons_append, List.cons_append, nest_escaped, nest_escaped, ih]
  | @plain c t notEscape rest ih =>
    rw [List.cons_append]
    by_cases opening : c = '('
    · rw [opening, nest_opening, nest_opening, ih]
    · by_cases closing : c = ')'
      · rw [closing]
        cases depth with
        | zero =>
          rw [nest_closing_zero, nest_closing_zero]
          rfl
        | succ depth => rw [nest_closing_succ, nest_closing_succ, ih]
      · rw [nest_cons notEscape opening closing, nest_cons notEscape opening closing, ih]

/-- A bracket behind a text closes one of those that are open, unless a backslash of the text takes it. -/
theorem nest_append_closing {x : Text} [Decidable (Whole x)] {n : Nat} (nested : nest 0 (ofMasked x) = some n)
    (depth : Nat) (r : Text) :
    nest (depth + 1) (ofMasked (x ++ ')' :: r)) = nest (depth + (n + if Whole x then 0 else 1)) (ofMasked r) := by
  have inside {w : Text} (nested : nest 0 (ofMasked w) = some n) :
      nest (depth + 1) (ofMasked w) = some (depth + n + 1) := by
    have deeper := nest_add nested (depth + 1)
    rw [Nat.zero_add] at deeper
    rw [deeper, Nat.add_comm n, Nat.add_right_comm]
  by_cases whole : Whole x
  · rw [if_pos whole, whole.nest_append, inside nested, Option.bind_some, nest_closing_succ, Nat.add_zero]
  · obtain ⟨w, rest, rfl⟩ := (whole_or x).resolve_left whole
    rw [rest.nest_append, Option.bind_eq_some_iff] at nested
    obtain ⟨after, nested, ends⟩ := nested
    obtain rfl : after = n := by
      rw [nest_ofMasked] at ends
      simpa [scan, nest] using ends
    rw [if_neg whole, List.append_assoc, List.singleton_append, rest.nest_append, inside nested, Option.bind_some,
      nest_escaped, Nat.add_assoc]

/-- A text without brackets is one run of words. -/
theorem scan_of_bare {t : Text} (bare : ¬ ('(' ∈ t ∨ ')' ∈ t)) : scan t = (t, []) := by
  fun_induction scan t with
  | case1 | case2 => rfl
  | case3 d r ih => rw [ih fun inside => bare (inside.imp (by simp_all) (by simp_all))]
  | case4 => simp at bare
  | case5 => simp at bare
  | case6 c r notEscape notOpening notClosing ih =>
    rw [ih fun inside => bare (inside.imp (List.mem_cons_of_mem _) (List.mem_cons_of_mem _))]

theorem ofMasked_of_bare {t : Text} (bare : ¬ ('(' ∈ t ∨ ')' ∈ t)) : ofMasked t = (Text.words t).map .word := by
  rw [ofMasked, scan_of_bare bare, ofRun, List.append_nil]

/-- A text without brackets has nothing to pair up. -/
theorem balanced_of_bare {t : Text} (bare : ¬ ('(' ∈ t ∨ ')' ∈ t)) : Balanced (ofMasked t) := by
  rw [Balanced, nest_ofMasked, scan_of_bare bare]
  rfl

end Token
end Criteria.Filter
