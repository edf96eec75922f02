import Criteria.Proofs.Text.Words

/-!
# Stretches of a text

A stretch of a text that divides no word keeps what holds at the words of the text. What matters to whoever
looks for a word with spaces around it is that a blank beside that word is a space; elsewhere any blanks may
stand.
-/

namespace Criteria.Text

variable {p t w : Text}

theorem EndsWord.append {r s : Text} (h : EndsWord r) (h' : EndsWord s) : EndsWord (r ++ s) := by
  cases r with
  | nil => exact h'
  | cons c r => exact h

theorem BeginsWord.append {a s : Text} (h : BeginsWord s) (h' : BeginsWord a) : BeginsWord (a ++ s) := by
  rcases List.eq_nil_or_concat s with rfl | ⟨s, b, rfl⟩
  · rwa [List.append_nil]
  · intro c last
    exact h c (by simpa using last)

instance decidableEndsWord : (r : Text) → Decidable (EndsWord r)
  | [] => .isTrue (by simp [EndsWord])
  | c :: _ => decidable_of_iff (isBlank c) (by simp [EndsWord])

instance (a : Text) : Decidable (BeginsWord a) :=
  decidable_of_iff (EndsWord a.reverse) (by simp [EndsWord, BeginsWord])

/-- A stretch of a text that divides none of its words. -/
def IsStretch (p t : Text) : Prop := ∃ a r, t = a ++ p ++ r ∧ BeginsWord a ∧ EndsWord r

theorem IsStretch.refl (t : Text) : IsStretch t t := ⟨[], [], by simp, by simp [BeginsWord], by simp [EndsWord]⟩

theorem IsStretch.trans {q : Text} (h : IsStretch p q) (h' : IsStretch q t) : IsStretch p t := by
  obtain ⟨a, r, rfl, begins, ends⟩ := h
  obtain ⟨a', r', rfl, begins', ends'⟩ := h'
  exact ⟨a' ++ a, r ++ r', by simp, begins.append begins', ends.append ends'⟩

theorem isStretch_before_blank {b : Char} (blank : isBlank b) (t r : Text) : IsStretch t (t ++ b :: r) :=
  ⟨[], b :: r, rfl, by simp [BeginsWord], by simpa [EndsWord] using blank⟩

theorem isStretch_behind_blank {b : Char} (blank : isBlank b) (a t : Text) : IsStretch t (a ++ b :: t) :=
  ⟨a ++ [b], [], by simp, by simpa [BeginsWord] using blank, by simp [EndsWord]⟩

theorem isStretch_before_between (t r : Text) : IsStretch t (t ++ between w ++ r) := by
  simpa [between] using isStretch_before_blank isBlank_space t (w ++ ' ' :: r)

theorem isStretch_behind_between (a t : Text) : IsStretch t (a ++ between w ++ t) := by
  simpa [between] using isStretch_behind_blank isBlank_space (a ++ ' ' :: w) t

/-- What is left between blanks is a stretch. -/
theorem isStretch_of_blanks {a r : Text} (front : ∀ c ∈ a, isBlank c) (back : ∀ c ∈ r, isBlank c) (p : Text) :
    IsStretch p (a ++ p ++ r) :=
  ⟨a, r, rfl, fun c last => front c (List.mem_of_getLast? last), fun c head => back c (List.mem_of_head? head)⟩

theorem isStretch_trim (t : Text) : IsStretch (trim t) t := by
  obtain ⟨a, b, front, back, whole⟩ := trim_between t
  have stretch := isStretch_of_blanks front back (trim t)
  rwa [← whole] at stretch

theorem isStretch_trimStart (t : Text) : IsStretch (trimStart t) t := by
  obtain ⟨s, blank, whole⟩ := trimStart_prefix_dropped t
  have stretch := isStretch_of_blanks (r := []) blank (by simp) (trimStart t)
  rwa [List.append_nil, ← whole] at stretch

/-- A piece between separators with blanks at both ends is a stretch. -/
theorem isStretch_of_mem_intercalate {mark : Text} (nonempty : mark ≠ []) (begins : BeginsWord mark)
    (ends : EndsWord mark) {pieces : List Text} (member : p ∈ pieces) : IsStretch p (mark.intercalate pieces) := by
  induction pieces with
  | nil => simp at member
  | cons q pieces ih =>
    cases pieces with
    | nil =>
      rw [List.mem_singleton.mp member, List.intercalate_singleton]
      exact .refl q
    | cons q' pieces =>
      obtain ⟨c, r, rfl⟩ := List.exists_cons_of_ne_nil nonempty
      rw [List.intercalate_cons_cons]
      rcases List.mem_cons.mp member with rfl | later
      · refine ⟨[], (c :: r) ++ (c :: r).intercalate (q' :: pieces), by simp, by simp [BeginsWord], ?_⟩
        exact fun d head => ends d head
      · refine (ih later).trans ⟨q ++ c :: r, [], by rw [List.append_nil], ?_, by simp [EndsWord]⟩
        intro d last
        exact begins d (by simpa [List.getLast?_append, List.getLast?_cons] using last)

/-- The pieces of a text, and its pieces when a stretch is put behind it that belongs to the last one. -/
def Widened (s : Text) (pieces longer : List Text) : Prop :=
  ∃ front last, pieces = front ++ [last] ∧ longer = front ++ [last ++ s]

namespace Widened

variable {s : Text} {pieces longer : List Text}

theorem single (s p : Text) : Widened s [p] [p ++ s] := ⟨[], p, rfl, rfl⟩

theorem cons (h : Widened s pieces longer) (p : Text) : Widened s (p :: pieces) (p :: longer) := by
  obtain ⟨front, last, rfl, rfl⟩ := h
  exact ⟨p :: front, last, rfl, rfl⟩

theorem modifyHead (h : Widened s pieces longer) (w : Text) :
    Widened s (pieces.modifyHead (w ++ ·)) (longer.modifyHead (w ++ ·)) := by
  obtain ⟨front, last, rfl, rfl⟩ := h
  cases front with
  | nil => exact ⟨[], w ++ last, rfl, by simp⟩
  | cons p front => exact ⟨(w ++ p) :: front, last, rfl, rfl⟩

end Widened

theorem words_append_of_ends {r : Text} (ends : EndsWord r) (t : Text) : words (t ++ r) = words t ++ words r := by
  cases r with
  | nil => simp
  | cons b r => rw [words_append_blank (ends b rfl), words_cons_blank (ends b rfl)]

theorem words_append_of_begins {a : Text} (begins : BeginsWord a) (t : Text) : words (a ++ t) = words a ++ words t := by
  rcases List.eq_nil_or_concat a with rfl | ⟨a, b, rfl⟩
  · rfl
  · have blank : isBlank b := begins b (by simp)
    rw [List.concat_eq_append, List.append_assoc, List.singleton_append, words_append_blank blank,
      words_append_blank blank, words_nil, List.append_nil]

/-- The words of a stretch stand side by side among those of the text. -/
theorem IsStretch.words (h : IsStretch p t) : words p <:+: words t := by
  obtain ⟨a, r, rfl, begins, ends⟩ := h
  rw [words_append_of_ends ends, words_append_of_begins begins]
  exact ⟨_, _, rfl⟩

theorem words_append_of_endsWord (nonempty : w ≠ []) (solid : ∀ c ∈ w, ¬ isBlank c) {r : Text} (ends : EndsWord r) :
    words (w ++ r) = w :: words r := by
  rw [words_append_of_ends ends, words_eq_singleton nonempty solid, List.singleton_append]

/-- Whatever stands between blanks is a word. -/
theorem mem_words_append (nonempty : w ≠ []) (solid : ∀ c ∈ w, ¬ isBlank c) {a r : Text} (begins : BeginsWord a)
    (ends : EndsWord r) : w ∈ words (a ++ (w ++ r)) := by
  rw [words_append_of_begins begins, words_append_of_endsWord nonempty solid ends]
  exact List.mem_append_right _ List.mem_cons_self

/-- A word of two texts with a letter between them stands in one of them, or holds the letter. -/
theorem mem_words_append_cons {x y : Text} {c : Char} (member : w ∈ words (x ++ c :: y)) :
    w ∈ words x ∨ w ∈ words y ∨ c ∈ w := by
  obtain ⟨before, after, split⟩ := List.append_of_mem member
  obtain ⟨a, r, whole, begins, ends, -, -⟩ := exists_of_words_eq_append split
  have nonempty := ne_nil_of_mem_words member
  have solid := solid_of_mem_words member
  by_cases inside : c ∈ w
  · exact .inr (.inr inside)
  rw [List.append_assoc] at whole
  rcases append_eq_append_cons_iff.mp whole.symm with ⟨z, rfl, rfl⟩ | ⟨z, rfl, behind⟩
  · refine .inr (.inl (mem_words_append nonempty solid (fun e last => ?_) ends))
    exact begins e (by simp [List.getLast?_cons, Option.mem_def.mp last])
  · obtain ⟨z, rfl, rfl⟩ := exists_of_append_eq behind inside
    refine .inl (mem_words_append nonempty solid begins fun e head => ?_)
    exact ends e (by simp [Option.mem_def.mp head])

/-! ## Spaces around a word -/

/-- Where `w` stands behind another word of a text there is a space before it, and where it stands before
    another word there is a space behind it. -/
structure SpacedAround (w t : Text) : Prop where
  before : ∀ a b r, t = a ++ b :: (w ++ r) → isBlank b → EndsWord r → words a ≠ [] → b = ' '
  behind : ∀ a b r, t = a ++ (w ++ b :: r) → isBlank b → BeginsWord a → words r ≠ [] → b = ' '

theorem spacedAround_iff : SpacedAround w t ↔ ∀ a b s, t = a ++ b :: s → isBlank b → b ≠ ' ' →
    (w <+: s → EndsWord (s.drop w.length) → words a = []) ∧
      (w <:+ a → BeginsWord (a.take (a.length - w.length)) → words s = []) := by
  have front (a : Text) : (a ++ w).take ((a ++ w).length - w.length) = a := by simp
  constructor
  · intro h a b s whole blank other
    refine ⟨?_, ?_⟩
    · rintro ⟨r, rfl⟩ ends
      rw [List.drop_left] at ends
      exact Decidable.byContradiction fun others => other (h.before a b r whole blank ends others)
    · rintro ⟨a, rfl⟩ begins
      rw [front] at begins
      rw [List.append_assoc] at whole
      exact Decidable.byContradiction fun others => other (h.behind a b s whole blank begins others)
  · intro h
    constructor
    · intro a b r whole blank ends others
      refine Decidable.byContradiction fun other => ?_
      exact others ((h a b (w ++ r) whole blank other).1 ⟨r, rfl⟩ (by rwa [List.drop_left]))
    · intro a b r whole blank begins others
      refine Decidable.byContradiction fun other => ?_
      rw [← List.append_assoc] at whole
      exact others ((h (a ++ w) b r whole blank other).2 ⟨a, rfl⟩ (by rwa [front]))

/-- The places of a text may be looked at one by one. -/
theorem forall_place_iff {P : Text → Char → Text → Prop} :
    (∀ a b s, t = a ++ b :: s → P a b s) ↔ ∀ i, (inside : i < t.length) → P (t.take i) t[i] (t.drop (i + 1)) := by
  constructor
  · exact fun h i inside => h _ _ _ (by simp)
  · rintro h a b s rfl
    simpa using h a.length (by simp)

instance (w t : Text) : Decidable (SpacedAround w t) :=
  decidable_of_iff' _ (spacedAround_iff.trans forall_place_iff)

theorem SpacesOnly.around (spaces : SpacesOnly t) (w : Text) : SpacedAround w t := by
  constructor
  · rintro a b r rfl blank - -
    exact spaces b (by simp) blank
  · rintro a b r rfl blank - -
    exact spaces b (by simp) blank

theorem words_ne_nil_iff : words t ≠ [] ↔ ∃ c ∈ t, ¬ isBlank c := by
  rw [Ne, words_eq_nil_iff]
  simp

/-! ## From right to left -/

theorem endsWord_reverse {a : Text} : EndsWord a.reverse ↔ BeginsWord a := by
  rw [EndsWord, BeginsWord, List.head?_reverse]

theorem beginsWord_reverse {r : Text} : BeginsWord r.reverse ↔ EndsWord r := by
  rw [EndsWord, BeginsWord, List.getLast?_reverse]

theorem words_reverse_ne_nil {t : Text} : words t.reverse ≠ [] ↔ words t ≠ [] := by
  simp [words_ne_nil_iff]

theorem mem_words_of_reverse (nonempty : w ≠ []) (solid : ∀ c ∈ w, ¬ isBlank c)
    (member : w.reverse ∈ words t.reverse) : w ∈ words t := by
  obtain ⟨before, after, split⟩ := List.append_of_mem member
  obtain ⟨a, r, whole, begins, ends, -, -⟩ := exists_of_words_eq_append split
  obtain rfl : t = r.reverse ++ (w ++ a.reverse) := by simpa using congrArg List.reverse whole
  exact mem_words_append nonempty solid (beginsWord_reverse.mpr ends) (endsWord_reverse.mpr begins)

/-- Where `w` stands behind another word of a text there is a space before it. What stands behind it is the same
    read from right to left. -/
def SpacedBefore (w t : Text) : Prop :=
  ∀ a b r, t = a ++ b :: (w ++ r) → isBlank b → EndsWord r → words a ≠ [] → b = ' '

theorem SpacedAround.reverse (h : SpacedAround w t) : SpacedAround w.reverse t.reverse := by
  constructor
  · intro a b r whole blank ends others
    refine h.behind r.reverse b a.reverse ?_ blank (beginsWord_reverse.mpr ends) (words_reverse_ne_nil.mpr others)
    simpa using congrArg List.reverse whole
  · intro a b r whole blank begins others
    refine h.before r.reverse b a.reverse ?_ blank (endsWord_reverse.mpr begins) (words_reverse_ne_nil.mpr others)
    simpa using congrArg List.reverse whole

theorem SpacedAround.of_before (h : SpacedBefore w t) (h' : SpacedBefore w.reverse t.reverse) : SpacedAround w t := by
  refine ⟨h, fun a b r whole blank begins others => ?_⟩
  refine h' r.reverse b a.reverse ?_ blank (endsWord_reverse.mpr begins) (words_reverse_ne_nil.mpr others)
  simp [whole]

namespace SpacedBefore

variable {q : Text}

/-- Behind a space a text goes on that does not begin with a blank. -/
theorem append_space (h : SpacedBefore w p) (h' : SpacedBefore w q) (begins : ∀ c ∈ q.head?, ¬ isBlank c)
    (apart : ' ' ∉ w) : SpacedBefore w (p ++ ' ' :: q) := by
  intro a b r whole blank ends others
  rcases append_cons_eq_append_cons_iff.mp whole with ⟨x, rfl, tail⟩ | ⟨-, rfl, -⟩ | ⟨x, rfl, rfl⟩
  · obtain ⟨x, rfl, rfl⟩ := exists_of_append_eq tail apart
    refine h a b x rfl blank ?_ others
    intro c head
    exact ends c (by simp [Option.mem_def.mp head])
  · rfl
  · -- the word stands in the second text, and not first
    refine h' x b r rfl blank ends fun none => ?_
    rw [words_eq_nil_iff] at none
    cases x with
    | nil => exact begins b rfl blank
    | cons e x => exact begins e rfl (none e List.mem_cons_self)

/-- Behind the word itself a text goes on that does not begin with the word. -/
theorem append_between (nonempty : w ≠ []) (solid : ∀ c ∈ w, ¬ isBlank c) (h : SpacedBefore w p)
    (h' : SpacedBefore w q) (first : (words q).head? ≠ some w) : SpacedBefore w (p ++ between w ++ q) := by
  have apart {b : Char} (blank : isBlank b) : b ∉ w := fun member => solid b member blank
  have split : p ++ between w ++ q = p ++ ' ' :: (w ++ ' ' :: q) := by simp [between]
  rw [split]
  intro a b r whole blank ends others
  rcases append_cons_eq_append_cons_iff.mp whole with ⟨x, rfl, rest⟩ | ⟨-, rfl, -⟩ | ⟨x, rfl, rest⟩
  · obtain ⟨x, rfl, rfl⟩ := exists_of_append_eq rest (apart isBlank_space)
    refine h a b x rfl blank ?_ others
    intro c head
    exact ends c (by simp [Option.mem_def.mp head])
  · rfl
  · obtain ⟨x, rfl, later⟩ := exists_of_append_eq rest (apart blank)
    cases x with
    | nil => exact (List.cons.inj later).1.symm
    | cons d x =>
      -- the word stands in the second text, and not first
      obtain ⟨rfl, rfl⟩ := List.cons.inj later
      refine h' x b r rfl blank ends fun none => first ?_
      rw [List.append_eq, words_append_blank blank, none, words_append_of_endsWord nonempty solid ends]
      rfl

end SpacedBefore

namespace SpacedAround

theorem stretch (h : SpacedAround w t) (stretch : IsStretch p t) : SpacedAround w p := by
  obtain ⟨a', r', rfl, begins, ends⟩ := stretch
  have grows {x s : Text} (left right : Text) (some : words x ≠ []) : words (left ++ x ++ right) ≠ [] := by
    obtain ⟨c, member, letter⟩ := words_ne_nil_iff.mp some
    exact words_ne_nil_iff.mpr ⟨c, by simp [member], letter⟩
  constructor
  · rintro a b r rfl blank word others
    refine h.before (a' ++ a) b (r ++ r') (by simp) blank (word.append ends) ?_
    simpa using grows (s := []) a' [] others
  · rintro a b r rfl blank word others
    refine h.behind (a' ++ a) b (r ++ r') (by simp) blank (word.append begins) ?_
    simpa using grows (s := []) [] r' others

/-- Between other words it has a space on both sides. -/
theorem exists_between (h : SpacedAround w t) {before after : List Text} (split : words t = before ++ w :: after)
    (front : before ≠ []) (back : after ≠ []) :
    ∃ a r, t = a ++ between w ++ r ∧ words a = before ∧ words r = after := by
  obtain ⟨a, r, whole, begins, ends, left, right⟩ := exists_of_words_eq_append split
  have aNonempty : a ≠ [] := by
    rintro rfl
    exact front (left ▸ words_nil)
  have rNonempty : r ≠ [] := by
    rintro rfl
    exact back (right ▸ words_nil)
  obtain ⟨a', b, rfl⟩ := (List.eq_nil_or_concat a).resolve_left aNonempty
  obtain ⟨d, r', rfl⟩ := List.exists_cons_of_ne_nil rNonempty
  rw [List.concat_eq_append] at begins left whole
  have bBlank : isBlank b := begins b (by simp)
  have dBlank : isBlank d := ends d (by simp)
  rw [words_append_blank bBlank, words_nil, List.append_nil] at left
  rw [words_cons_blank dBlank] at right
  obtain rfl := h.before a' b (d :: r') (by simp [whole]) bBlank ends (left ▸ front)
  obtain rfl := h.behind (a' ++ [' ']) d r' (by simp [whole]) dBlank begins (right ▸ back)
  exact ⟨a', r', by simp [whole, between], left, right⟩

/-- A text without the word, or without blanks, has nothing to look at. -/
theorem of_not_mem (nonempty : w ≠ []) (solid : ∀ c ∈ w, ¬ isBlank c) (absent : w ∉ words t) : SpacedAround w t := by
  constructor
  · rintro a b r rfl blank ends -
    have member := mem_words_append nonempty solid (a := a ++ [b]) (by simpa [BeginsWord] using blank) ends
    rw [List.append_assoc] at member
    exact absurd member absent
  · rintro a b r rfl blank begins -
    exact absurd (mem_words_append nonempty solid begins (by simpa [EndsWord] using blank)) absent

theorem of_solid (solid : ∀ c ∈ t, ¬ isBlank c) : SpacedAround w t := by
  constructor
  · rintro a b r rfl blank - -
    exact absurd blank (solid b (by simp))
  · rintro a b r rfl blank - -
    exact absurd blank (solid b (by simp))

/-- Texts may be put together with a space between them. -/
theorem append_space {q : Text} (h : SpacedAround w p) (h' : SpacedAround w q) (trimmed : Trimmed p)
    (trimmed' : Trimmed q) (solid : ∀ c ∈ w, ¬ isBlank c) : SpacedAround w (p ++ ' ' :: q) := by
  have apart : ' ' ∉ w := fun member => solid _ member isBlank_space
  apply of_before
  · exact .append_space h.before h'.before trimmed'.1 apart
  · have mirrored := SpacedBefore.append_space h'.reverse.before h.reverse.before (by simpa using trimmed.2)
      (by simpa using apart)
    simpa using mirrored

/-- Between two texts the word may stand with spaces around it, if it is not in the first one and does not begin
    the second one. -/
theorem append_between {q : Text} (nonempty : w ≠ []) (solid : ∀ c ∈ w, ¬ isBlank c) (absent : w ∉ words p)
    (first : (words q).head? ≠ some w) (h : SpacedAround w q) : SpacedAround w (p ++ between w ++ q) := by
  have around := of_not_mem nonempty solid absent
  have last : (words p.reverse).head? ≠ some w.reverse := fun head =>
    absent (mem_words_of_reverse nonempty solid (List.mem_of_head? head))
  apply of_before
  · exact .append_between nonempty solid around.before h.before first
  · have mirrored := SpacedBefore.append_between (w := w.reverse) (by simpa using nonempty) (by simpa using solid)
      h.reverse.before around.reverse.before last
    simpa [between] using mirrored

theorem intercalate_space {pieces : List Text} (solid : ∀ c ∈ w, ¬ isBlank c)
    (h : ∀ p ∈ pieces, p ≠ [] ∧ Trimmed p ∧ SpacedAround w p) : SpacedAround w ([' '].intercalate pieces) := by
  induction pieces with
  | nil => exact .of_solid (by simp)
  | cons p pieces ih =>
    obtain ⟨nonempty, trimmed, around⟩ := h p List.mem_cons_self
    have later := fun p member => h p (List.mem_cons_of_mem _ member)
    cases pieces with
    | nil => rwa [List.intercalate_singleton]
    | cons q pieces =>
      rw [List.intercalate_cons_cons, List.append_assoc, List.singleton_append]
      exact around.append_space (ih later) trimmed
        (trimmed_intercalate_space fun p member => ⟨(later p member).1, (later p member).2.1⟩) solid

end SpacedAround
end Criteria.Text
