import Criteria.Text.Basic

/-!
# Words

What the words of a text are when the text is put together from others, and where the words of a
text stand in it. A text whose blanks are all spaces is divided by its words alone.
-/

namespace Criteria.Text

/-- Every blank of a text is a space. -/
def SpacesOnly (t : Text) : Prop := ∀ c ∈ t, isBlank c → c = ' '

theorem SpacesOnly.mono {t u : Text} (h : SpacesOnly t) (sub : u ⊆ t) : SpacesOnly u :=
  fun c member => h c (sub member)

theorem isBlank_space : isBlank ' ' := by decide

@[simp] theorem words_nil : words [] = [] := by simp [words]

theorem words_append_blank {b : Char} (blank : isBlank b) (x y : Text) :
    words (x ++ b :: y) = words x ++ words y := by
  unfold words
  rw [List.splitOnP_append_cons x y blank, List.filter_append]

theorem words_cons_blank {b : Char} (blank : isBlank b) (t : Text) : words (b :: t) = words t := by
  simpa using words_append_blank blank [] t

theorem words_append_space (x y : Text) : words (x ++ ' ' :: y) = words x ++ words y :=
  words_append_blank isBlank_space x y

theorem words_blanks_append {s : Text} (blank : ∀ c ∈ s, isBlank c) (t : Text) :
    words (s ++ t) = words t := by
  induction s with
  | nil => rfl
  | cons b s ih =>
    rw [List.cons_append, words_cons_blank (blank b List.mem_cons_self)]
    exact ih fun c member => blank c (List.mem_cons_of_mem _ member)

theorem words_append_blanks {s : Text} (blank : ∀ c ∈ s, isBlank c) (t : Text) :
    words (t ++ s) = words t := by
  cases s with
  | nil => rw [List.append_nil]
  | cons b s =>
    have rest := words_blanks_append (fun c member => blank c (List.mem_cons_of_mem _ member)) []
    rw [List.append_nil] at rest
    rw [words_append_blank (blank b List.mem_cons_self), rest]
    simp

/-- A nonempty text without blanks is its own only word. -/
theorem words_eq_singleton {w : Text} (nonempty : w ≠ []) (solid : ∀ c ∈ w, ¬ isBlank c) :
    words w = [w] := by
  rw [words, List.splitOnP_eq_singleton (by simpa using solid)]
  simp [nonempty]

theorem words_intercalate_space (pieces : List Text) :
    words ([' '].intercalate pieces) = pieces.flatMap words := by
  induction pieces with
  | nil => simp
  | cons p r ih =>
    cases r with
    | nil => simp
    | cons q r =>
      rw [List.intercalate_cons_cons, List.append_assoc, List.singleton_append, words_append_space, ih]
      rfl

/-! ## Trimming -/

theorem trimEnd_append_dropped (t : Text) : ∃ s, (∀ c ∈ s, isBlank c) ∧ t = trimEnd t ++ s := by
  refine ⟨(t.reverse.takeWhile isBlank).reverse, ?_, ?_⟩
  · intro c member
    exact List.all_takeWhile (l := t.reverse) |> List.all_eq_true.mp |> (· c (by simpa using member))
  · rw [trimEnd, ← List.reverse_append, List.takeWhile_append_dropWhile, List.reverse_reverse]

theorem trimStart_prefix_dropped (t : Text) : ∃ s, (∀ c ∈ s, isBlank c) ∧ t = s ++ trimStart t := by
  refine ⟨t.takeWhile isBlank, ?_, (trimStart_append_dropped t).symm⟩
  intro c member
  exact List.all_takeWhile (l := t) |> List.all_eq_true.mp |> (· c member)

@[simp] theorem words_trimStart (t : Text) : words (trimStart t) = words t := by
  obtain ⟨s, blank, whole⟩ := trimStart_prefix_dropped t
  have same := words_blanks_append blank (trimStart t)
  rw [← whole] at same
  exact same.symm

@[simp] theorem words_trimEnd (t : Text) : words (trimEnd t) = words t := by
  obtain ⟨s, blank, whole⟩ := trimEnd_append_dropped t
  have same := words_append_blanks blank (trimEnd t)
  rw [← whole] at same
  exact same.symm

@[simp] theorem words_trim (t : Text) : words (trim t) = words t := by
  rw [trim, words_trimEnd, words_trimStart]

/-- A trimmed text is a stretch of the text between blanks. -/
theorem trim_between (t : Text) :
    ∃ a b, (∀ c ∈ a, isBlank c) ∧ (∀ c ∈ b, isBlank c) ∧ t = a ++ trim t ++ b := by
  obtain ⟨a, front, whole⟩ := trimStart_prefix_dropped t
  obtain ⟨b, back, rest⟩ := trimEnd_append_dropped (trimStart t)
  refine ⟨a, b, front, back, ?_⟩
  rw [trim, List.append_assoc, ← rest]
  exact whole

theorem trim_subset (t : Text) : trim t ⊆ t := by
  obtain ⟨a, b, -, -, whole⟩ := trim_between t
  intro c inside
  rw [whole]
  exact List.mem_append_left b (List.mem_append_right a inside)

/-- A trimmed text does not end with a blank. -/
theorem trimEnd_last {t : Text} {c : Char} (last : (trimEnd t).getLast? = some c) : ¬ isBlank c := by
  have stopped := List.head?_dropWhile_not isBlank t.reverse
  rw [trimEnd, List.getLast?_reverse] at last
  rw [last] at stopped
  simpa using stopped

/-- A text that neither begins nor ends with a blank. -/
def Trimmed (t : Text) : Prop := (∀ c ∈ t.head?, ¬ isBlank c) ∧ ∀ c ∈ t.getLast?, ¬ isBlank c

/-- A text without blanks is trimmed. -/
theorem Trimmed.of_solid {t : Text} (solid : ∀ c ∈ t, ¬ isBlank c) : Trimmed t :=
  ⟨fun c head => solid c (List.mem_of_head? head), fun c last => solid c (List.mem_of_getLast? last)⟩

/-- Whatever stands between two trimmed texts, the whole is trimmed. -/
theorem Trimmed.append {t u : Text} (h : Trimmed t) (nonempty : t ≠ []) (x : Text) (h' : Trimmed u)
    (nonempty' : u ≠ []) : Trimmed (t ++ (x ++ u)) := by
  constructor
  · obtain ⟨c, r, rfl⟩ := List.exists_cons_of_ne_nil nonempty
    exact fun d head => h.1 d head
  · intro d last
    rw [← List.append_assoc, List.getLast?_append, List.getLast?_eq_some_getLast nonempty'] at last
    exact h'.2 d (by rwa [List.getLast?_eq_some_getLast nonempty'])

/-- Trimmed texts with spaces between them are trimmed together. -/
theorem trimmed_intercalate_space {pieces : List Text} (h : ∀ p ∈ pieces, p ≠ [] ∧ Trimmed p) :
    Trimmed ([' '].intercalate pieces) := by
  induction pieces with
  | nil => exact .of_solid (by simp)
  | cons p pieces ih =>
    obtain ⟨nonempty, trimmed⟩ := h p List.mem_cons_self
    have later := fun p member => h p (List.mem_cons_of_mem _ member)
    cases pieces with
    | nil => rwa [List.intercalate_singleton]
    | cons q pieces =>
      have nonempty' : [' '].intercalate (q :: pieces) ≠ [] := by
        cases pieces with
        | nil => simpa using (later q List.mem_cons_self).1
        | cons => simp [List.intercalate_cons_cons]
      rw [List.intercalate_cons_cons, List.append_assoc]
      exact trimmed.append nonempty [' '] (ih later) nonempty'

theorem trimmed_trim (t : Text) : Trimmed (trim t) := by
  have front : ∀ c ∈ (trimStart t).head?, ¬ isBlank c := by
    intro c head
    obtain ⟨r, rest⟩ := List.head?_eq_some_iff.mp head
    exact trimStart_head rest
  constructor
  · intro c head
    obtain ⟨s, -, whole⟩ := trimEnd_append_dropped (trimStart t)
    apply front c
    obtain ⟨r, rest⟩ := List.head?_eq_some_iff.mp head
    rw [whole, ← trim, rest]
    rfl
  · intro c last
    exact trimEnd_last last

/-- What is left of the end of a trimmed text, without the blanks before it, is trimmed. -/
theorem Trimmed.trimStart_of_append {a r : Text} (h : Trimmed (a ++ r)) : Trimmed (trimStart r) := by
  constructor
  · intro c head
    obtain ⟨rest, front⟩ := List.head?_eq_some_iff.mp head
    exact trimStart_head front
  · intro c last
    obtain ⟨s, -, whole⟩ := trimStart_prefix_dropped r
    obtain ⟨rest, back⟩ := List.getLast?_eq_some_iff.mp last
    exact h.2 c (by rw [whole, back]; simp)

theorem trimStart_blanks_append {s : Text} (blank : ∀ c ∈ s, isBlank c) (t : Text) :
    trimStart (s ++ t) = trimStart t := by
  induction s with
  | nil => rfl
  | cons b s ih =>
    have first : isBlank b := blank b List.mem_cons_self
    rw [List.cons_append, trimStart, List.dropWhile_cons_of_pos first]
    exact ih fun c member => blank c (List.mem_cons_of_mem _ member)

theorem trimStart_eq_self {t : Text} (front : ∀ c ∈ t.head?, ¬ isBlank c) : trimStart t = t := by
  cases t with
  | nil => rfl
  | cons c t => exact List.dropWhile_cons_of_neg (front c rfl)

theorem trimEnd_append_blanks {s : Text} (blank : ∀ c ∈ s, isBlank c) (t : Text) :
    trimEnd (t ++ s) = trimEnd t := by
  have front := trimStart_blanks_append (s := s.reverse) (by simpa using blank) t.reverse
  rw [trimEnd, List.reverse_append]
  exact congrArg List.reverse front

theorem trimEnd_eq_self {t : Text} (back : ∀ c ∈ t.getLast?, ¬ isBlank c) : trimEnd t = t := by
  have front := trimStart_eq_self (t := t.reverse) (by simpa using back)
  rw [trimEnd]
  exact (congrArg List.reverse front).trans t.reverse_reverse

/-- A stretch between blanks that neither begins nor ends with one is the trimmed text. -/
theorem trim_eq {a m b : Text} (front : ∀ c ∈ a, isBlank c) (back : ∀ c ∈ b, isBlank c) (trimmed : Trimmed m) :
    trim (a ++ m ++ b) = m := by
  rw [trim, List.append_assoc, trimStart_blanks_append front]
  cases m with
  | nil =>
    have rest := trimStart_blanks_append back []
    rw [List.append_nil] at rest
    rw [List.nil_append, rest]
    rfl
  | cons c m =>
    rw [trimStart_eq_self (by simpa using trimmed.1), trimEnd_append_blanks back]
    exact trimEnd_eq_self trimmed.2

theorem Trimmed.trim_eq_self {t : Text} (trimmed : Trimmed t) : trim t = t := by
  simpa using trim_eq (a := []) (b := []) (by simp) (by simp) trimmed

theorem trim_blanks_append {s : Text} (blank : ∀ c ∈ s, isBlank c) (t : Text) : trim (s ++ t) = trim t := by
  rw [trim, trim, trimStart_blanks_append blank]

theorem trim_append_blanks {s : Text} (blank : ∀ c ∈ s, isBlank c) (t : Text) : trim (t ++ s) = trim t := by
  obtain ⟨a, b, front, back, whole⟩ := trim_between t
  have behind : ∀ c ∈ b ++ s, isBlank c := fun c member => (List.mem_append.mp member).elim (back c) (blank c)
  have between := trim_eq front behind (trimmed_trim t)
  rwa [← List.append_assoc, ← whole] at between

/-! ## Where words stand -/

section

variable {α : Type} {x t a r : List α} {b c : α}

/-- A letter of two texts in a row stands in the first or in the second. -/
theorem append_eq_append_cons_iff : x ++ t = a ++ b :: r ↔
    (∃ z, x = a ++ b :: z ∧ r = z ++ t) ∨ ∃ z, a = x ++ z ∧ t = z ++ b :: r := by
  constructor
  · intro whole
    rcases List.append_eq_append_iff.mp whole with ⟨z, rfl, rest⟩ | ⟨z, rfl, rest⟩
    · exact .inr ⟨z, rfl, rest⟩
    · cases z with
      | nil => exact .inr ⟨[], by simp, by simpa using rest.symm⟩
      | cons d z =>
        obtain ⟨rfl, rfl⟩ := List.cons.inj rest
        exact .inl ⟨z, rfl, rfl⟩
  · rintro (⟨z, rfl, rfl⟩ | ⟨z, rfl, rfl⟩) <;> simp

/-- Of two letters of a text either one stands before the other or they are one letter. -/
theorem append_cons_eq_append_cons_iff : x ++ c :: t = a ++ b :: r ↔
    (∃ z, x = a ++ b :: z ∧ r = z ++ c :: t) ∨ (a = x ∧ b = c ∧ r = t) ∨ ∃ z, a = x ++ c :: z ∧ t = z ++ b :: r := by
  rw [append_eq_append_cons_iff]
  refine or_congr_right ⟨?_, ?_⟩
  · rintro ⟨z, rfl, rest⟩
    cases z with
    | nil =>
      obtain ⟨rfl, rfl⟩ := List.cons.inj rest
      exact .inl ⟨List.append_nil x, rfl, rfl⟩
    | cons d z =>
      obtain ⟨rfl, rfl⟩ := List.cons.inj rest
      exact .inr ⟨z, rfl, rfl⟩
  · rintro (⟨rfl, rfl, rfl⟩ | ⟨z, rfl, rfl⟩)
    · exact ⟨[], by simp⟩
    · exact ⟨c :: z, rfl, rfl⟩

/-- A letter that is not in the front stretch of a text stands behind it. -/
theorem exists_of_append_eq (whole : x ++ t = a ++ b :: r) (absent : b ∉ x) : ∃ z, a = x ++ z ∧ t = z ++ b :: r := by
  rcases append_eq_append_cons_iff.mp whole with ⟨z, rfl, -⟩ | behind
  · exact absurd (by simp) absent
  · exact behind

end

private theorem solid_of_mem_splitOnP {t w : Text} (h : w ∈ t.splitOnP isBlank) :
    ∀ c ∈ w, ¬ isBlank c := by
  induction t generalizing w with
  | nil =>
    rw [List.splitOnP_nil, List.mem_singleton] at h
    simp [h]
  | cons b t ih =>
    obtain ⟨p, r, split⟩ := List.exists_cons_of_ne_nil (List.splitOnP_ne_nil isBlank t)
    rw [List.splitOnP_cons_eq_if_modifyHead, split] at h
    rw [split] at ih
    by_cases blank : isBlank b
    · rw [if_pos blank] at h
      rcases List.mem_cons.mp h with rfl | h
      · simp
      · exact ih h
    · rw [if_neg blank, List.modifyHead_cons] at h
      rcases List.mem_cons.mp h with rfl | h
      · intro c inside
        rcases List.mem_cons.mp inside with rfl | inside
        · exact blank
        · exact ih List.mem_cons_self c inside
      · exact ih (List.mem_cons_of_mem _ h)

/-- A word holds no blank. -/
theorem solid_of_mem_words {t w : Text} (h : w ∈ words t) : ∀ c ∈ w, ¬ isBlank c :=
  solid_of_mem_splitOnP (List.mem_filter.mp h).1

/-- A text without words is blank. -/
theorem words_eq_nil_iff {t : Text} : words t = [] ↔ ∀ c ∈ t, isBlank c := by
  constructor
  · intro none c member
    induction t with
    | nil => simp at member
    | cons b t ih =>
      by_cases blank : isBlank b
      · rw [words_cons_blank blank] at none
        rcases List.mem_cons.mp member with rfl | member
        · exact blank
        · exact ih none member
      · obtain ⟨p, r, split⟩ := List.exists_cons_of_ne_nil (List.splitOnP_ne_nil isBlank t)
        rw [words, List.splitOnP_cons_eq_if_modifyHead, if_neg blank, split] at none
        simp at none
  · intro blank
    simpa using words_append_blanks blank []

theorem trim_eq_nil_iff {t : Text} : trim t = [] ↔ words t = [] := by
  rw [← words_trim, words_eq_nil_iff]
  constructor
  · intro none
    simp [none]
  · intro blank
    cases front : trim t with
    | nil => rfl
    | cons c r => exact absurd (blank c (by simp [front])) ((trimmed_trim t).1 c (by simp [front]))

/-- A stretch of a text ends where the text ends or a blank begins. -/
def EndsWord (r : Text) : Prop := ∀ c ∈ r.head?, isBlank c

/-- A stretch of a text begins where the text begins or after a blank. -/
def BeginsWord (a : Text) : Prop := ∀ c ∈ a.getLast?, isBlank c

/-- The first word of a text stands after blanks only and runs to the next blank. -/
theorem exists_of_words_eq_cons {t w : Text} {ws : List Text} (h : words t = w :: ws) :
    ∃ s r, (∀ c ∈ s, isBlank c) ∧ t = s ++ w ++ r ∧ EndsWord r ∧ words r = ws := by
  obtain ⟨s, blank, whole⟩ := trimStart_prefix_dropped t
  have rest : words (trimStart t) = w :: ws := by rw [words_trimStart, h]
  have head := List.head?_dropWhile_not isBlank t
  rw [show t.dropWhile isBlank = trimStart t from rfl] at head
  have divided : trimStart t = (trimStart t).takeWhile (!isBlank ·) ++ (trimStart t).dropWhile (!isBlank ·) :=
    List.takeWhile_append_dropWhile.symm
  have solid : ∀ c ∈ (trimStart t).takeWhile (!isBlank ·), ¬ isBlank c := by
    intro c member
    have all := List.all_eq_true.mp (List.all_takeWhile (l := trimStart t) (p := (!isBlank ·))) c member
    simpa using all
  have nonempty : (trimStart t).takeWhile (!isBlank ·) ≠ [] := by
    cases front : trimStart t with
    | nil =>
      rw [front] at rest
      simp at rest
    | cons c r =>
      have letter : isBlank c = false := by simpa [front] using head
      simp [letter]
  have after := List.head?_dropWhile_not (!isBlank ·) (trimStart t)
  generalize (trimStart t).takeWhile (!isBlank ·) = front at *
  generalize (trimStart t).dropWhile (!isBlank ·) = back at *
  cases back with
  | nil =>
    rw [divided, List.append_nil, words_eq_singleton nonempty solid] at rest
    obtain ⟨rfl, rfl⟩ := List.cons.inj rest
    exact ⟨s, [], blank, by rw [whole, divided, List.append_assoc], by simp [EndsWord], by simp⟩
  | cons b r =>
    have stop : isBlank b := by simpa using after
    rw [divided, words_append_blank stop, words_eq_singleton nonempty solid] at rest
    obtain ⟨rfl, rfl⟩ := List.cons.inj rest
    refine ⟨s, b :: r, blank, by rw [whole, divided, List.append_assoc], ?_, words_cons_blank stop r⟩
    simpa [EndsWord] using stop

/-- Every word of a text stands between the stretches that hold the words before and after it. -/
theorem exists_of_words_eq_append {t w : Text} {before after : List Text}
    (h : words t = before ++ w :: after) :
    ∃ a r, t = a ++ w ++ r ∧ BeginsWord a ∧ EndsWord r ∧ words a = before ∧ words r = after := by
  induction before generalizing t with
  | nil =>
    obtain ⟨s, r, blank, whole, ends, rest⟩ := exists_of_words_eq_cons h
    refine ⟨s, r, whole, ?_, ends, ?_, rest⟩
    · intro c last
      exact blank c (List.mem_of_getLast? last)
    · simpa using words_append_blanks blank []
  | cons v before ih =>
    obtain ⟨s, u, blank, whole, ends, rest⟩ := exists_of_words_eq_cons h
    obtain ⟨a, r, inner, begins, ends', left, right⟩ := ih rest
    have vMember : v ∈ words t := by
      rw [h]
      exact List.mem_cons_self
    have wMember : w ∈ words t := by
      rw [h]
      simp
    have apart : a ≠ [] := by
      -- without a blank between them the two words would be one
      rintro rfl
      obtain ⟨c, w', letter⟩ := List.exists_cons_of_ne_nil (ne_nil_of_mem_words wMember)
      have notBlank := solid_of_mem_words wMember c (by simp [letter])
      exact notBlank (ends c (by simp [inner, letter]))
    obtain ⟨b, a', gap⟩ := List.exists_cons_of_ne_nil apart
    have gapBlank : isBlank b := ends b (by simp [inner, gap])
    refine ⟨s ++ v ++ a, r, by rw [whole, inner]; simp, ?_, ends', ?_, right⟩
    · intro c last
      rw [List.getLast?_append, List.getLast?_eq_some_getLast apart, Option.some_or] at last
      exact begins c (by rw [List.getLast?_eq_some_getLast apart]; exact last)
    · rw [gap, List.append_assoc, words_blanks_append blank, words_append_blank gapBlank,
        words_eq_singleton (ne_nil_of_mem_words vMember) (solid_of_mem_words vMember),
        ← left, gap, words_cons_blank gapBlank]
      rfl

/-- A trimmed text of one word is this word. -/
theorem Trimmed.eq_of_words {t w : Text} (trimmed : Trimmed t) (single : words t = [w]) : t = w := by
  have alone : words t = [] ++ w :: [] := single
  obtain ⟨a, r, rfl, -, -, front, back⟩ := exists_of_words_eq_append alone
  have member : w ∈ words (a ++ w ++ r) := by
    rw [single]
    exact List.mem_cons_self
  have inner := trim_eq (words_eq_nil_iff.mp front) (words_eq_nil_iff.mp back) (.of_solid (solid_of_mem_words member))
  exact trimmed.trim_eq_self.symm.trans inner

/-- A word is a stretch of the text. -/
theorem infix_of_mem_words {t w : Text} (member : w ∈ words t) : w <:+: t := by
  obtain ⟨before, after, words⟩ := List.append_of_mem member
  obtain ⟨a, r, whole, -⟩ := exists_of_words_eq_append words
  exact ⟨a, r, whole.symm⟩

/-- A word as it stands between two others in a text whose blanks are spaces. -/
def between (w : Text) : Text := ' ' :: (w ++ [' '])

/-- A word with a space on both sides is one of the words between those before and after it. -/
theorem words_append_between {w : Text} (nonempty : w ≠ []) (solid : ∀ c ∈ w, ¬ isBlank c)
    (a r : Text) : words (a ++ between w ++ r) = words a ++ w :: words r := by
  rw [between, List.append_assoc, List.cons_append, words_append_space, List.append_assoc,
    List.singleton_append, words_append_space, words_eq_singleton nonempty solid]
  rfl

end Criteria.Text
