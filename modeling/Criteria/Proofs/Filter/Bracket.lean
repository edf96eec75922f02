import Criteria.Proofs.Filter.Segment

/-!
# Brackets and segments

The unescaped brackets of a text, and what it means for them to pair up, said without a division of the text. A text
is divided exactly when its brackets pair up. Its segments written one after the other, the groups in brackets, are
the text but for blanks at their borders.
-/

namespace Criteria.Filter

/-- The unescaped brackets of a text, in order. -/
def brackets : Text → Text
  | [] => []
  | c :: r =>
    if c = Literal.escape then
      match r with
      | [] => []
      | _ :: r => brackets r
    else if c = '(' ∨ c = ')' then c :: brackets r
    else brackets r

/-- How many unescaped brackets open in a text. -/
def opened (t : Text) : Nat := (brackets t).count '('

/-- How many unescaped brackets close in a text. -/
def closed (t : Text) : Nat := (brackets t).count ')'

/-- The unescaped brackets of a text pair up: nowhere are more of them closed than were opened before, and in the
    end all are closed. -/
structure Paired (t : Text) : Prop where
  opened_before : ∀ front, front <+: t → closed front ≤ opened front
  all_closed : opened t = closed t

theorem brackets_opening (r : Text) : brackets ('(' :: r) = '(' :: brackets r := by
  rw [brackets.eq_def]
  simp [Literal.escape]

theorem brackets_closing (r : Text) : brackets (')' :: r) = ')' :: brackets r := by
  rw [brackets.eq_def]
  simp [Literal.escape]

theorem brackets_cons {c : Char} (notEscape : c ≠ Literal.escape) (notOpening : c ≠ '(') (notClosing : c ≠ ')')
    (r : Text) : brackets (c :: r) = brackets r := by
  rw [brackets.eq_def]
  simp [notEscape, notOpening, notClosing]

/-- The bracket that a token is. -/
def Token.bracket? : Token → Option Char
  | .opening => some '('
  | .closing => some ')'
  | .word _ => none

theorem filterMap_bracket?_words (ws : List Text) : (ws.map Token.word).filterMap Token.bracket? = [] := by
  rw [List.filterMap_map]
  exact List.filterMap_eq_nil_iff.mpr fun _ _ => rfl

/-- The brackets of a text are those among its tokens. -/
theorem filterMap_bracket?_ofMasked (t : Text) : (Token.ofMasked t).filterMap Token.bracket? = brackets t := by
  have behind (run : Text × List Token) :
      (Token.ofRun run).filterMap Token.bracket? = run.2.filterMap Token.bracket? := by
    rw [Token.ofRun, List.filterMap_append, filterMap_bracket?_words, List.nil_append]
  rw [Token.ofMasked, behind]
  fun_induction brackets t with
  | case1 => rfl
  | case2 => simp [Token.scan]
  | case3 d r ih => rw [Token.scan_escape, ih]
  | case4 c r notEscape bracket ih =>
    rcases bracket with rfl | rfl
    · rw [Token.scan_opening]
      exact congrArg ('(' :: ·) ((behind _).trans ih)
    · rw [Token.scan_closing]
      exact congrArg (')' :: ·) ((behind _).trans ih)
  | case5 c r notEscape bracket ih =>
    rw [not_or] at bracket
    rw [Token.scan_cons notEscape bracket.1 bracket.2, ih]

@[simp] theorem brackets_trim (t : Text) : brackets (Text.trim t) = brackets t := by
  rw [← filterMap_bracket?_ofMasked, Token.ofMasked_trim, filterMap_bracket?_ofMasked]

@[simp] theorem opened_nil : opened [] = 0 := rfl

@[simp] theorem closed_nil : closed [] = 0 := rfl

theorem opened_opening (r : Text) : opened ('(' :: r) = opened r + 1 := by
  rw [opened, brackets_opening, List.count_cons_self, opened]

theorem closed_opening (r : Text) : closed ('(' :: r) = closed r := by
  rw [closed, brackets_opening, List.count_cons_of_ne (by decide), closed]

theorem opened_closing (r : Text) : opened (')' :: r) = opened r := by
  rw [opened, brackets_closing, List.count_cons_of_ne (by decide), opened]

theorem closed_closing (r : Text) : closed (')' :: r) = closed r + 1 := by
  rw [closed, brackets_closing, List.count_cons_self, closed]

/-! ## Following the brackets -/

private theorem forall_prefix_cons_iff {P : Text → Prop} {c : Char} {r : Text} :
    (∀ front, front <+: c :: r → P front) ↔ P [] ∧ ∀ front, front <+: r → P (c :: front) := by
  simp only [List.prefix_cons_iff]
  constructor
  · intro all
    exact ⟨all [] (.inl rfl), fun front begins => all _ (.inr ⟨front, rfl, begins⟩)⟩
  · rintro ⟨none, more⟩ front (rfl | ⟨front, rfl, begins⟩)
    · exact none
    · exact more front begins

/-- A text that begins inside `depth` brackets ends inside `after` of them exactly if it closes nowhere more than are
    open and the counts of its brackets make up the difference. -/
theorem nest_eq_some_iff {depth after : Nat} {t : Text} : Token.nest depth (Token.ofMasked t) = some after ↔
    (∀ front, front <+: t → closed front ≤ depth + opened front) ∧ depth + opened t = after + closed t := by
  -- every beginning but the empty one has the first character, which is what moves the depth
  fun_induction brackets t generalizing depth with
  | case1 => simp [Token.nest]
  | case2 =>
    rw [Token.nest_ofMasked]
    simp [Token.scan, Token.nest, forall_prefix_cons_iff, opened, closed, brackets]
  | case3 d r ih =>
    rw [Token.nest_escaped, ih]
    simp [forall_prefix_cons_iff, opened, closed, brackets]
  | case4 c r notEscape bracket ih =>
    rcases bracket with rfl | rfl
    · rw [Token.nest_opening, ih]
      simp only [forall_prefix_cons_iff, opened_opening, closed_opening, opened_nil, closed_nil]
      grind
    · cases depth with
      | zero =>
        rw [Token.nest_closing_zero]
        simp only [forall_prefix_cons_iff, opened_closing, closed_closing, reduceCtorEq, false_iff]
        rintro ⟨⟨-, more⟩, -⟩
        exact absurd (more [] (List.nil_prefix)) (by simp)
      | succ depth =>
        rw [Token.nest_closing_succ, ih]
        simp only [forall_prefix_cons_iff, opened_closing, closed_closing, opened_nil, closed_nil]
        grind
  | case5 c r notEscape bracket ih =>
    rw [not_or] at bracket
    rw [Token.nest_cons notEscape bracket.1 bracket.2, ih]
    simp [forall_prefix_cons_iff, opened, closed, brackets_cons notEscape bracket.1 bracket.2, brackets]

theorem balanced_iff_paired {t : Text} : Token.Balanced (Token.ofMasked t) ↔ Paired t := by
  rw [Token.Balanced, nest_eq_some_iff]
  simp only [Nat.zero_add]
  constructor
  · rintro ⟨before, all⟩
    exact ⟨before, all⟩
  · intro paired
    exact ⟨paired.opened_before, paired.all_closed⟩

theorem not_paired_iff {t : Text} :
    ¬ Paired t ↔ (∃ front, front <+: t ∧ opened front < closed front) ∨ opened t ≠ closed t := by
  constructor
  · intro unpaired
    by_cases same : opened t = closed t
    · refine .inl (Classical.byContradiction fun never => unpaired ⟨fun front begins => ?_, same⟩)
      exact Nat.le_of_not_lt fun more => never ⟨front, begins, more⟩
    · exact .inr same
  · rintro (⟨front, begins, more⟩ | different) paired
    · exact absurd (paired.opened_before front begins) (Nat.not_le_of_lt more)
    · exact different paired.all_closed

private theorem exists_nest_iff {t : Text} : (∃ after, Token.nest 0 (Token.ofMasked t) = some after) ↔
    ∀ front, front <+: t → closed front ≤ opened front := by
  simp only [nest_eq_some_iff, Nat.zero_add]
  constructor
  · rintro ⟨after, before, -⟩
    exact before
  · intro before
    have whole := before t (List.prefix_refl t)
    exact ⟨opened t - closed t, before, by omega⟩

/-- The brackets of a text cannot be followed to its end exactly if too many of them are closed at some place. -/
theorem nest_eq_none_iff {t : Text} :
    Token.nest 0 (Token.ofMasked t) = none ↔ ∃ front, front <+: t ∧ opened front < closed front := by
  have followed := not_congr (Option.ne_none_iff_exists'.trans (exists_nest_iff (t := t)))
  simpa using followed

namespace Segment

/-- A text is rejected for a closing bracket exactly if at some place of it more brackets are closed than were
    opened. -/
theorem ofMasked_eq_unbalanced_iff {t : Text} :
    ofMasked t = .error .unbalancedClosing ↔ ∃ front, front <+: t ∧ opened front < closed front := by
  rw [ofMasked_eq_error_iff, ← nest_eq_none_iff]
  rcases Token.nest 0 (Token.ofMasked t) with _ | _ | _ <;> simp [fault?]

/-- A text is rejected for an opening bracket exactly if there is no such place and not all brackets are closed. -/
theorem ofMasked_eq_unclosed_iff {t : Text} : ofMasked t = .error .unclosedOpening ↔
    (∀ front, front <+: t → closed front ≤ opened front) ∧ closed t < opened t := by
  have open_more : fault? (Token.nest 0 (Token.ofMasked t)) = some .unclosedOpening ↔
      ∃ k, Token.nest 0 (Token.ofMasked t) = some (k + 1) := by
    rcases Token.nest 0 (Token.ofMasked t) with _ | _ | _ <;> simp [fault?]
  rw [ofMasked_eq_error_iff, open_more]
  simp only [nest_eq_some_iff, Nat.zero_add, exists_and_left, and_congr_right_iff]
  intro before
  constructor
  · rintro ⟨k, whole⟩
    omega
  · intro more
    exact ⟨opened t - closed t - 1, by omega⟩

private theorem Scans.brackets_eq_nil {t x : Text} {segments : List Segment} (h : Scans 0 t x segments) :
    brackets x = [] := by
  rw [← filterMap_bracket?_ofMasked, Token.ofMasked, h.flat, Token.ofRun, List.append_nil, filterMap_bracket?_words]

private theorem brackets_of_mem_ofText {t u : Text} (flat : brackets t = []) (member : .text u ∈ ofText t) :
    brackets u = [] := by
  unfold ofText at member
  split at member
  · simp at member
  · cases List.mem_singleton.mp member
    rw [brackets_trim, flat]

private theorem Scans.brackets_of_mem {depth : Nat} {t x : Text} {segments : List Segment}
    (h : Scans depth t x segments) : ∀ u, .text u ∈ segments → brackets u = [] := by
  induction h with
  | nil | bareEscape => simp
  | escaped _ _ ih | opens _ ih | closes _ ih | plain _ _ _ _ ih => exact ih
  | groupOpens rest ih => simpa using ih
  | groupCloses rest ih =>
    intro u member
    rcases List.mem_append.mp member with here | later
    · exact brackets_of_mem_ofText rest.brackets_eq_nil here
    · exact ih u later

/-- A text between groups has no unescaped bracket. -/
theorem brackets_of_mem_ofMasked {t u : Text} {segments : List Segment} (divided : ofMasked t = .ok segments)
    (member : .text u ∈ segments) : brackets u = [] := by
  obtain ⟨x, later, read, rfl⟩ := exists_scans divided
  rcases List.mem_append.mp member with here | member
  · exact brackets_of_mem_ofText read.brackets_eq_nil here
  · exact read.brackets_of_mem u member

private theorem trimmed_of_mem_ofText {t : Text} {s : Segment} (member : s ∈ ofText t) : Text.Trimmed s.content := by
  unfold ofText at member
  split at member
  · simp at member
  · rw [List.mem_singleton.mp member]
    exact Text.trimmed_trim t

private theorem Scans.trimmed {depth : Nat} {t x : Text} {segments : List Segment} (h : Scans depth t x segments) :
    ∀ s ∈ segments, Text.Trimmed s.content := by
  induction h with
  | nil | bareEscape => simp
  | escaped _ _ ih | opens _ ih | closes _ ih | plain _ _ _ _ ih => exact ih
  | @groupOpens r inner segments rest ih => exact List.forall_mem_cons.mpr ⟨Text.trimmed_trim inner, ih⟩
  | groupCloses rest ih => exact List.forall_mem_append.mpr ⟨fun _ => trimmed_of_mem_ofText, ih⟩

theorem trimmed_of_mem_ofMasked {t : Text} {s : Segment} {segments : List Segment}
    (divided : ofMasked t = .ok segments) (member : s ∈ segments) : Text.Trimmed s.content := by
  obtain ⟨x, later, read, rfl⟩ := exists_scans divided
  exact (List.mem_append.mp member).elim trimmed_of_mem_ofText (read.trimmed s)

/-- A text that is written with some segments one after the other, groups in brackets, and with nothing but blanks
    around segments and at both ends of what a group holds. -/
inductive Spaced : List Segment → Text → Prop
  | nil {s : Text} (blank : ∀ c ∈ s, Text.isBlank c) : Spaced [] s
  | text {s u r : Text} {segments : List Segment} (blank : ∀ c ∈ s, Text.isBlank c) (rest : Spaced segments r) :
      Spaced (.text u :: segments) (s ++ u ++ r)
  | group {s a inner b r : Text} {segments : List Segment} (blank : ∀ c ∈ s, Text.isBlank c)
      (front : ∀ c ∈ a, Text.isBlank c) (back : ∀ c ∈ b, Text.isBlank c) (rest : Spaced segments r) :
      Spaced (.group inner :: segments) (s ++ '(' :: (a ++ inner ++ b ++ ')' :: r))

theorem Spaced.blanks_append {s t : Text} {segments : List Segment} (blank : ∀ c ∈ s, Text.isBlank c)
    (h : Spaced segments t) : Spaced segments (s ++ t) := by
  have both {s' : Text} (blank' : ∀ c ∈ s', Text.isBlank c) : ∀ c ∈ s ++ s', Text.isBlank c :=
    fun c member => (List.mem_append.mp member).elim (blank c) (blank' c)
  cases h with
  | nil blank' => exact .nil (both blank')
  | text blank' rest =>
    rw [← List.append_assoc, ← List.append_assoc]
    exact .text (both blank') rest
  | group blank' front back rest =>
    rw [← List.append_assoc]
    exact .group (both blank') front back rest

/-- A stretch between groups is a text and blanks around it, or blanks alone. -/
theorem Spaced.ofText_append {r : Text} {segments : List Segment} (h : Spaced segments r) (x : Text) :
    Spaced (ofText x ++ segments) (x ++ r) := by
  obtain ⟨a, b, front, back, whole⟩ := Text.trim_between x
  unfold ofText
  split
  · rename_i none
    exact h.blanks_append (Text.words_eq_nil_iff.mp (Text.trim_eq_nil_iff.mp none))
  · conv => rhs; rw [whole, List.append_assoc]
    exact .text front (h.blanks_append back)

private theorem Scans.spaced {depth : Nat} {t x : Text} {segments : List Segment} (h : Scans depth t x segments) :
    ∃ r, t = x ++ (if depth = 0 then r else ')' :: r) ∧ Spaced segments r := by
  induction h with
  | nil | bareEscape => exact ⟨[], by simp, .nil (by simp)⟩
  | escaped _ _ ih | plain _ _ _ _ ih =>
    obtain ⟨behind, whole, spaced⟩ := ih
    exact ⟨behind, by rw [whole]; rfl, spaced⟩
  | opens _ ih | closes _ ih =>
    obtain ⟨behind, whole, spaced⟩ := ih
    exact ⟨behind, by simp [whole], spaced⟩
  | @groupOpens r inner segments rest ih =>
    obtain ⟨behind, whole, spaced⟩ := ih
    obtain ⟨a, b, front, back, padded⟩ := Text.trim_between inner
    have written : '(' :: r = [] ++ '(' :: (a ++ Text.trim inner ++ b ++ ')' :: behind) := by
      rw [whole, ← padded]
      rfl
    refine ⟨'(' :: r, rfl, ?_⟩
    rw [written]
    exact .group (by simp) front back spaced
  | @groupCloses r x segments rest ih =>
    obtain ⟨behind, whole, spaced⟩ := ih
    refine ⟨r, rfl, ?_⟩
    rw [whole]
    exact spaced.ofText_append x

theorem spaced_of_ofMasked {t : Text} {segments : List Segment} (divided : ofMasked t = .ok segments) :
    Spaced segments t := by
  obtain ⟨x, later, read, rfl⟩ := exists_scans divided
  obtain ⟨behind, whole, spaced⟩ := read.spaced
  rw [whole]
  exact spaced.ofText_append x

/-! ## Exact divisions -/

/-- The brackets of a segment as it is written, those around a group among them. -/
def allBrackets : Segment → Text
  | .text t => brackets t
  | .group inner => '(' :: (brackets inner ++ [')'])

/-- Segments that a text is divided into exactly: all are trimmed, no text between groups is blank or has an unescaped
    bracket, no two of them stand side by side, the brackets inside a group pair up, and what is written with the
    segments is the text, with the same brackets, but for blanks at the borders. -/
structure Divides (segments : List Segment) (t : Text) : Prop where
  trimmed : ∀ s ∈ segments, Text.Trimmed s.content
  nonblank : ∀ u, .text u ∈ segments → ∃ c ∈ u, ¬ Text.isBlank c
  flat : ∀ u, .text u ∈ segments → brackets u = []
  apart : ∀ front u v back, segments ≠ front ++ .text u :: .text v :: back
  paired : ∀ inner, .group inner ∈ segments → Paired inner
  spaced : Spaced segments t
  same_brackets : brackets t = segments.flatMap allBrackets

theorem Apart.ne_append {segments : List Segment} (h : Apart segments) (front : List Segment) (u v : Text)
    (back : List Segment) : segments ≠ front ++ .text u :: .text v :: back := by
  rintro rfl
  induction front with
  | nil => exact absurd h.1 (by simp [beginsWithText])
  | cons s front ih =>
    cases s with
    | text t => exact ih h.2
    | group inner => exact ih h

theorem Sound.nonblank {u : Text} (h : Sound (.text u)) : ∃ c ∈ u, ¬ Text.isBlank c := by
  obtain ⟨trimmed, nonempty⟩ := h
  obtain ⟨c, r, rfl⟩ := List.exists_cons_of_ne_nil nonempty
  exact ⟨c, List.mem_cons_self, trimmed.1 c rfl⟩

/-- The brackets of a text are those around its groups and inside of them. -/
theorem brackets_eq_flatMap {t : Text} {segments : List Segment} (divided : ofMasked t = .ok segments) :
    brackets t = segments.flatMap allBrackets := by
  rw [← filterMap_bracket?_ofMasked, ← flatMap_tokens divided, List.filterMap_flatMap]
  rw [List.flatMap_def, List.flatMap_def]
  refine congrArg List.flatten (List.map_congr_left fun s member => ?_)
  cases s with
  | text u =>
    rw [tokens, allBrackets, filterMap_bracket?_words, brackets_of_mem_ofMasked divided member]
  | group inner =>
    rw [allBrackets, ← filterMap_bracket?_ofMasked]
    simp [tokens, Token.bracket?]

theorem divides_of_ofMasked {t : Text} {segments : List Segment} (divided : ofMasked t = .ok segments) :
    Divides segments t where
  trimmed := fun _ member => trimmed_of_mem_ofMasked divided member
  nonblank := fun _ member => (sound_of_mem_ofMasked divided member).nonblank
  flat := fun _ member => brackets_of_mem_ofMasked divided member
  apart := (apart_ofMasked divided).ne_append
  paired := fun _ member => balanced_iff_paired.mp (sound_of_mem_ofMasked divided member)
  spaced := spaced_of_ofMasked divided
  same_brackets := brackets_eq_flatMap divided

theorem exists_segments_iff {t : Text} : (∃ segments, ofMasked t = .ok segments) ↔ Paired t :=
  (ofMasked_isOk_iff t).trans balanced_iff_paired

theorem exists_error_iff {t : Text} : (∃ e, ofMasked t = .error e) ↔ ¬ Paired t := by
  rw [← exists_segments_iff]
  cases ofMasked t <;> simp

/-- A text is rejected exactly if its unescaped brackets do not pair up, with the error that says how. Any other text
    is divided exactly, and so is what stands inside of its groups. -/
theorem ofMasked_divides (t : Text) :
    ((∃ e, ofMasked t = .error e) ↔
      (∃ front, front <+: t ∧ opened front < closed front) ∨ opened t ≠ closed t) ∧
    (ofMasked t = .error .unbalancedClosing ↔ ∃ front, front <+: t ∧ opened front < closed front) ∧
    (ofMasked t = .error .unclosedOpening ↔
      (∀ front, front <+: t → closed front ≤ opened front) ∧ closed t < opened t) ∧
    ∀ segments, ofMasked t = .ok segments → Divides segments t ∧
      ∀ inner, .group inner ∈ segments → ∃ nested, ofMasked inner = .ok nested := by
  refine ⟨exists_error_iff.trans not_paired_iff, ofMasked_eq_unbalanced_iff, ofMasked_eq_unclosed_iff, ?_⟩
  intro segments divided
  have division := divides_of_ofMasked divided
  exact ⟨division, fun inner member => exists_segments_iff.mpr (division.paired inner member)⟩

/-- The first bracket is escaped and ends nothing. The blank at the end of the group is escaped too, but it is taken off
    and leaves its backslash behind. -/
theorem ofMasked_divides_escaped :
    ofMasked "a\\) or ( (b) c\\ )".toList = .ok [.text "a\\) or".toList, .group "(b) c\\".toList] ∧
    Divides [.text "a\\) or".toList, .group "(b) c\\".toList] "a\\) or ( (b) c\\ )".toList ∧
    ∃ nested, ofMasked "(b) c\\".toList = .ok nested := by
  have divided : ofMasked "a\\) or ( (b) c\\ )".toList =
      .ok [.text "a\\) or".toList, .group "(b) c\\".toList] := by cbv
  obtain ⟨-, -, -, accepted⟩ := ofMasked_divides "a\\) or ( (b) c\\ )".toList
  obtain ⟨division, again⟩ := accepted _ divided
  exact ⟨divided, division, again _ (by simp)⟩

end Segment
end Criteria.Filter
