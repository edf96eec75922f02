import Mathlib.Data.List.Forall2
import Criteria.Filter.Parser
import Criteria.Proofs.Filter.Segment
import Criteria.Proofs.Literal.Atom
import Criteria.Proofs.Text.Cut

/-!
# Alike texts

Two masked texts are alike if they differ only in the numbers of their placeholders and of the marks
of their groups. What takes a text apart at blanks, brackets or connectors looks at no number, so it
takes alike texts apart in the same way. A text that is alike to itself has the form that masking
gives it.
-/

namespace Criteria.Filter

open Literal (Ordinary)
open Text (isBlank)

/-- What alike texts hold: which characters stand without a backslash, and which numbers of literals
    and of groups answer each other. -/
structure Likeness where
  plain : Char → Prop
  literals : Nat → Nat → Prop
  marks : Nat → Nat → Prop

namespace Likeness

/-- The likeness read from right to left. -/
def flip (l : Likeness) : Likeness := ⟨l.plain, fun n n' => l.literals n' n, fun n n' => l.marks n' n⟩

/-- The likeness of texts without marks. -/
def unmarked (l : Likeness) : Likeness := { l with marks := fun _ _ => False }

end Likeness

/-- Two texts are alike. Neither cuts a placeholder or an escape in two, and the mark of a group is a
    word of its own; `first` tells whether a word may begin with the texts. -/
inductive Alike (l : Likeness) : Bool → Text → Text → Prop
  | nil (first : Bool) : Alike l first [] []
  | bareEscape (first : Bool) : Alike l first [Literal.escape] [Literal.escape]
  | escaped {first : Bool} (c : Char) {t t' : Text} (rest : Alike l (isBlank c) t t') :
      Alike l first (Literal.escape :: c :: t) (Literal.escape :: c :: t')
  | plain {first : Bool} {c : Char} {t t' : Text} (ordinary : Ordinary c) (allowed : l.plain c)
      (rest : Alike l (isBlank c) t t') : Alike l first (c :: t) (c :: t')
  | literal {first : Bool} {n n' : Nat} {t t' : Text} (same : l.literals n n') (rest : Alike l false t t') :
      Alike l first (Literal.placeholder n ++ t) (Literal.placeholder n' ++ t')
  | mark {n n' : Nat} {t t' : Text} (same : l.marks n n') (ends : Text.EndsWord t) (ends' : Text.EndsWord t')
      (rest : Alike l false t t') : Alike l true (GroupTable.mark n ++ t) (GroupTable.mark n' ++ t')

theorem exists_of_forall₂ {A A' : Type} {R : A → A' → Prop} {as : List A} {as' : List A'}
    (h : List.Forall₂ R as as') {a : A} (member : a ∈ as) : ∃ a' ∈ as', R a a' := by
  induction h with
  | nil => simp at member
  | @cons b b' _ _ first rest ih =>
    rcases List.mem_cons.mp member with rfl | member
    · exact ⟨b', List.mem_cons_self, first⟩
    · obtain ⟨a', among, same⟩ := ih member
      exact ⟨a', List.mem_cons_of_mem _ among, same⟩

theorem ordinary_of_isBlank {b : Char} (blank : isBlank b) : Ordinary b := by
  refine ⟨?_, ?_, ?_⟩ <;> rintro rfl <;> revert blank <;> decide

private theorem mem_ofNat {n : Nat} {c : Char} (member : c ∈ Text.ofNat n) : c.isDigit :=
  (Text.isDigits_ofNat n).2 c member

theorem mem_placeholder {n : Nat} {c : Char} (member : c ∈ Literal.placeholder n) :
    c = Literal.quote ∨ c.isDigit := by
  simp only [Literal.placeholder, List.mem_cons, List.mem_append, List.not_mem_nil, or_false] at member
  rcases member with rfl | member | rfl
  · exact .inl rfl
  · exact .inr (mem_ofNat member)
  · exact .inl rfl

theorem mem_mark {n : Nat} {c : Char} (member : c ∈ GroupTable.mark n) :
    c = Literal.sentinel ∨ c = 'g' ∨ c.isDigit := by
  simp only [GroupTable.mark, GroupTable.markStart, List.mem_cons, List.mem_append, List.not_mem_nil, or_false]
    at member
  rcases member with (rfl | rfl) | member
  · exact .inl rfl
  · exact .inr (.inl rfl)
  · exact .inr (.inr (mem_ofNat member))

theorem not_isBlank_of_isDigit {c : Char} (digit : c.isDigit) : ¬ isBlank c := by
  obtain ⟨low, high⟩ := Char.isDigit_iff_toNat.mp digit
  intro blank
  rw [isBlank, Text.CodePoints.contains_iff (by decide)] at blank
  obtain ⟨range, member, above, below⟩ := blank
  simp only [Text.blanks, List.mem_cons, List.not_mem_nil, or_false] at member
  rcases member with rfl | rfl | rfl | rfl | rfl | rfl | rfl | rfl | rfl | rfl <;> simp at * <;> omega

theorem not_isBlank_of_mem_placeholder {n : Nat} {c : Char} (member : c ∈ Literal.placeholder n) : ¬ isBlank c := by
  rcases mem_placeholder member with rfl | digit
  · decide
  · exact not_isBlank_of_isDigit digit

theorem not_isBlank_of_mem_mark {n : Nat} {c : Char} (member : c ∈ GroupTable.mark n) : ¬ isBlank c := by
  rcases mem_mark member with rfl | rfl | digit
  · decide
  · decide
  · exact not_isBlank_of_isDigit digit

theorem words_mark (n : Nat) : Text.words (GroupTable.mark n) = [GroupTable.mark n] :=
  Text.words_eq_singleton (by simp [GroupTable.mark, GroupTable.markStart]) fun _ => not_isBlank_of_mem_mark

namespace Alike

variable {l : Likeness} {first : Bool} {t t' : Text}

/-- Where a word may begin, a text may stand that could stand anywhere. -/
theorem begin (h : Alike l first t t') : Alike l true t t' := by
  cases h with
  | nil => exact .nil true
  | bareEscape => exact .bareEscape true
  | escaped c rest => exact .escaped c rest
  | plain ordinary allowed rest => exact .plain ordinary allowed rest
  | literal same rest => exact .literal same rest
  | mark same ends ends' rest => exact .mark same ends ends' rest

theorem mono {k : Likeness} (h : Alike l first t t') (plain : ∀ c, l.plain c → k.plain c)
    (literals : ∀ n n', l.literals n n' → k.literals n n') (marks : ∀ n n', l.marks n n' → k.marks n n') :
    Alike k first t t' := by
  induction h with
  | nil first => exact .nil first
  | bareEscape first => exact .bareEscape first
  | escaped c rest ih => exact .escaped c ih
  | plain ordinary allowed rest ih => exact .plain ordinary (plain _ allowed) ih
  | literal same rest ih => exact .literal (literals _ _ same) ih
  | mark same ends ends' rest ih => exact .mark (marks _ _ same) ends ends' ih

theorem symm (h : Alike l first t t') : Alike l.flip first t' t := by
  induction h with
  | nil first => exact .nil first
  | bareEscape first => exact .bareEscape first
  | escaped c rest ih => exact .escaped c ih
  | plain ordinary allowed rest ih => exact .plain ordinary allowed ih
  | literal same rest ih => exact .literal same ih
  | mark same ends ends' rest ih => exact .mark same ends' ends ih

/-- A text without quotes and sentinels is alike only to itself. -/
theorem eq_of_bare (h : Alike l first t t') (bare : ∀ c ∈ t, c ≠ Literal.quote ∧ c ≠ Literal.sentinel) :
    t = t' := by
  induction h with
  | nil | bareEscape => rfl
  | escaped c rest ih =>
    rw [ih fun d member => bare d (List.mem_cons_of_mem _ (List.mem_cons_of_mem _ member))]
  | plain ordinary allowed rest ih => rw [ih fun d member => bare d (List.mem_cons_of_mem _ member)]
  | literal same rest ih => exact absurd rfl (bare Literal.quote (by simp [Literal.placeholder])).1
  | mark same ends ends' rest ih =>
    exact absurd rfl (bare Literal.sentinel (by simp [GroupTable.mark, GroupTable.markStart])).2

/-- Texts whose numbers are the same are equal. -/
theorem eq_of_same (h : Alike l first t t') (literals : ∀ n n', l.literals n n' → n = n')
    (marks : ∀ n n', l.marks n n' → n = n') : t = t' := by
  induction h with
  | nil | bareEscape => rfl
  | escaped c rest ih => rw [ih]
  | plain ordinary allowed rest ih => rw [ih]
  | literal same rest ih => rw [ih, literals _ _ same]
  | mark same ends ends' rest ih => rw [ih, marks _ _ same]

theorem eq_nil_iff (h : Alike l first t t') : t = [] ↔ t' = [] := by
  constructor
  · rintro rfl
    exact (h.eq_of_bare (by simp)).symm
  · rintro rfl
    exact (h.symm.eq_of_bare (by simp)).symm

private theorem endsWord_append_cons_iff {b : Char} (blank : isBlank b) (a r : Text) :
    Text.EndsWord (a ++ b :: r) ↔ Text.EndsWord a := by
  cases a with
  | nil => simp [Text.EndsWord, blank]
  | cons c a => simp [Text.EndsWord]

/-- Where one of two alike texts has a blank, the other one has it, and both sides are alike. -/
theorem split_blank {a r u : Text} {b : Char} (h : Alike l first (a ++ b :: r) u) (blank : isBlank b) :
    ∃ a' r', u = a' ++ b :: r' ∧ Alike l first a a' ∧ Alike l true r r' := by
  have notEscape : b ≠ Literal.escape := (ordinary_of_isBlank blank).1
  generalize whole : a ++ b :: r = t at h
  induction h generalizing a with
  | nil => simp at whole
  | bareEscape first =>
    cases a with
    | nil => exact absurd (List.cons.inj whole).1 notEscape
    | cons => simp at whole
  | escaped c rest ih =>
    match a with
    | [] => exact absurd (List.cons.inj whole).1 notEscape
    | [d] =>
      obtain ⟨rfl, same⟩ := List.cons.inj whole
      obtain ⟨rfl, rfl⟩ := List.cons.inj same
      rw [blank] at rest
      exact ⟨[Literal.escape], _, rfl, .bareEscape _, rest⟩
    | d :: e :: a =>
      obtain ⟨rfl, later⟩ := List.cons.inj whole
      obtain ⟨rfl, same⟩ := List.cons.inj later
      obtain ⟨a', r', rfl, left, right⟩ := ih same
      exact ⟨_, r', rfl, .escaped e left, right⟩
  | plain ordinary allowed rest ih =>
    cases a with
    | nil =>
      obtain ⟨rfl, rfl⟩ := List.cons.inj whole
      rw [blank] at rest
      exact ⟨[], _, rfl, .nil _, rest⟩
    | cons d a =>
      obtain ⟨rfl, same⟩ := List.cons.inj whole
      obtain ⟨a', r', rfl, left, right⟩ := ih same
      exact ⟨_, r', rfl, .plain ordinary allowed left, right⟩
  | literal same rest ih =>
    obtain ⟨a', rfl, tail⟩ :=
      Text.exists_of_append_eq whole.symm fun member => not_isBlank_of_mem_placeholder member blank
    obtain ⟨b', r', rfl, left, right⟩ := ih tail.symm
    exact ⟨_, r', (List.append_assoc ..).symm, .literal same left, right⟩
  | mark same ends ends' rest ih =>
    obtain ⟨a', rfl, tail⟩ := Text.exists_of_append_eq whole.symm fun member => not_isBlank_of_mem_mark member blank
    obtain ⟨b', r', rfl, left, right⟩ := ih tail.symm
    rw [tail] at ends
    exact ⟨_, r', (List.append_assoc ..).symm,
      .mark same ((endsWord_append_cons_iff blank _ _).mp ends) ((endsWord_append_cons_iff blank _ _).mp ends') left,
      right⟩

/-- Alike texts may be put together at a blank. -/
theorem append_blank {u u' : Text} {b : Char} (blank : isBlank b) (allowed : l.plain b)
    (h : Alike l first t t') (h' : Alike l true u u') : Alike l first (t ++ b :: u) (t' ++ b :: u') := by
  induction h with
  | nil first => exact .plain (ordinary_of_isBlank blank) allowed (by rwa [blank])
  | bareEscape first => exact .escaped b (by rwa [blank])
  | escaped c rest ih => exact .escaped c ih
  | plain ordinary allowed rest ih => exact .plain ordinary allowed ih
  | literal same rest ih =>
    rw [List.append_assoc, List.append_assoc]
    exact .literal same ih
  | mark same ends ends' rest ih =>
    rw [List.append_assoc, List.append_assoc]
    exact .mark same ((endsWord_append_cons_iff blank _ _).mpr ends) ((endsWord_append_cons_iff blank _ _).mpr ends') ih

/-- Alike texts have the same blanks at their ends. -/
theorem append_blanks {a s u : Text} (h : Alike l first (a ++ s) u) (blank : ∀ c ∈ s, isBlank c) :
    ∃ a', u = a' ++ s ∧ Alike l first a a' := by
  cases s with
  | nil => exact ⟨u, by simp, by simpa using h⟩
  | cons b s =>
    obtain ⟨a', r', rfl, left, right⟩ := h.split_blank (blank b List.mem_cons_self)
    have same : s = r' := right.eq_of_bare fun c member =>
      (ordinary_of_isBlank (blank c (List.mem_cons_of_mem _ member))).2
    exact ⟨a', by rw [same], left⟩

theorem blanks_append {s r u : Text} (h : Alike l true (s ++ r) u) (blank : ∀ c ∈ s, isBlank c) :
    ∃ r', u = s ++ r' ∧ Alike l true r r' := by
  induction s generalizing u with
  | nil => exact ⟨u, rfl, h⟩
  | cons b s ih =>
    obtain ⟨a', r', rfl, left, right⟩ := split_blank (a := []) h (blank b List.mem_cons_self)
    obtain rfl := left.eq_of_bare (by simp)
    obtain ⟨r', rfl, tail⟩ := ih right fun c member => blank c (List.mem_cons_of_mem _ member)
    exact ⟨r', rfl, tail⟩

/-- Where one of two alike texts has no blank, the other one has none. -/
theorem solid (h : Alike l first t t') (solid : ∀ c ∈ t, ¬ isBlank c) : ∀ c ∈ t', ¬ isBlank c := by
  intro b member blank
  obtain ⟨a', r', rfl⟩ := List.append_of_mem member
  obtain ⟨a, r, rfl, -, -⟩ := h.symm.split_blank blank
  exact solid b (by simp) blank

/-- Ordinary characters stand in both of two alike texts or in neither. -/
theorem mem_of_mem {c : Char} (other : c ≠ Literal.quote ∧ c ≠ Literal.sentinel ∧ c ≠ 'g' ∧ ¬ c.isDigit)
    (h : Alike l first t t') (member : c ∈ t) : c ∈ t' := by
  obtain ⟨notQuote, notSentinel, notG, notDigit⟩ := other
  induction h with
  | nil => exact member
  | bareEscape => exact member
  | escaped d rest ih =>
    simp only [List.mem_cons] at member ⊢
    exact member.imp_right (Or.imp_right ih)
  | plain ordinary allowed rest ih =>
    simp only [List.mem_cons] at member ⊢
    exact member.imp_right ih
  | literal same rest ih =>
    rcases List.mem_append.mp member with inside | later
    · rcases mem_placeholder inside with same | digit
      · exact absurd same notQuote
      · exact absurd digit notDigit
    · exact List.mem_append_right _ (ih later)
  | mark same ends ends' rest ih =>
    rcases List.mem_append.mp member with inside | later
    · rcases mem_mark inside with same | same | digit
      · exact absurd same notSentinel
      · exact absurd same notG
      · exact absurd digit notDigit
    · exact List.mem_append_right _ (ih later)

theorem brackets_iff (h : Alike l first t t') : '(' ∈ t ∨ ')' ∈ t ↔ '(' ∈ t' ∨ ')' ∈ t' :=
  ⟨Or.imp (h.mem_of_mem (by decide)) (h.mem_of_mem (by decide)),
    Or.imp (h.symm.mem_of_mem (by decide)) (h.symm.mem_of_mem (by decide))⟩

theorem trimmed (h : Alike l first t t') (trimmed : Text.Trimmed t) : Text.Trimmed t' := by
  constructor
  · intro b head blank
    obtain ⟨r', rfl⟩ := List.head?_eq_some_iff.mp head
    obtain ⟨a, r, rfl, left, -⟩ := split_blank (a := []) h.symm blank
    obtain rfl := left.eq_of_bare (by simp)
    exact trimmed.1 b rfl blank
  · intro b last blank
    obtain ⟨a', rfl⟩ := List.getLast?_eq_some_iff.mp last
    obtain ⟨a, r, rfl, -, right⟩ := split_blank h.symm blank
    obtain rfl := right.eq_of_bare (by simp)
    exact trimmed.2 b (by simp) blank

theorem trim (h : Alike l first t t') : Alike l true (Text.trim t) (Text.trim t') := by
  obtain ⟨a, b, front, back, whole⟩ := Text.trim_between t
  have start := h.begin
  rw [whole] at start
  obtain ⟨x', rfl, rest⟩ := start.append_blanks back
  obtain ⟨m', rfl, middle⟩ := rest.blanks_append front
  rwa [Text.trim_eq front back (middle.trimmed (Text.trimmed_trim t))]

theorem trimStart (h : Alike l first t t') : Alike l true (Text.trimStart t) (Text.trimStart t') := by
  obtain ⟨a, blank, whole⟩ := Text.trimStart_prefix_dropped t
  have start := h.begin
  rw [whole] at start
  obtain ⟨r', rfl, rest⟩ := start.blanks_append blank
  rw [Text.trimStart_blanks_append blank]
  have front : ∀ c ∈ r'.head?, ¬ isBlank c := by
    intro b head blank
    obtain ⟨r', rfl⟩ := List.head?_eq_some_iff.mp head
    obtain ⟨x, r, same, left, -⟩ := split_blank (a := []) rest.symm blank
    obtain rfl := left.eq_of_bare (by simp)
    exact Text.trimStart_head same blank
  rwa [Text.trimStart_eq_self front]

theorem trimEnd (h : Alike l first t t') : Alike l first (Text.trimEnd t) (Text.trimEnd t') := by
  obtain ⟨a, blank, whole⟩ := Text.trimEnd_append_dropped t
  have start := h
  rw [whole] at start
  obtain ⟨r', rfl, rest⟩ := start.append_blanks blank
  rw [Text.trimEnd_append_blanks blank]
  have back : ∀ c ∈ r'.getLast?, ¬ isBlank c := by
    intro b last blank
    obtain ⟨x', rfl⟩ := List.getLast?_eq_some_iff.mp last
    obtain ⟨x, r, same, -, right⟩ := split_blank rest.symm blank
    obtain rfl := right.eq_of_bare (by simp)
    exact Text.trimEnd_last (by rw [same]; simp) blank
  rwa [Text.trimEnd_eq_self back]

theorem words (h : Alike l first t t') : List.Forall₂ (Alike l true) (Text.words t) (Text.words t') := by
  generalize content : Text.words t = ws
  induction ws generalizing first t t' with
  | nil =>
    have blank := Text.words_eq_nil_iff.mp content
    have same : t = t' := h.eq_of_bare fun c member => (ordinary_of_isBlank (blank c member)).2
    rw [← same, content]
    exact .nil
  | cons w ws ih =>
    obtain ⟨s, r, blank, rfl, ends, rest⟩ := Text.exists_of_words_eq_cons content
    have start := h.begin
    rw [List.append_assoc] at start
    obtain ⟨x', rfl, tail⟩ := start.blanks_append blank
    have nonempty : w ≠ [] := Text.ne_nil_of_mem_words (by rw [content]; exact List.mem_cons_self)
    have solid : ∀ c ∈ w, ¬ isBlank c := Text.solid_of_mem_words (by rw [content]; exact List.mem_cons_self)
    rw [Text.words_blanks_append blank]
    cases r with
    | nil =>
      rw [List.append_nil] at tail
      have nonempty' : x' ≠ [] := fun none => nonempty (tail.eq_nil_iff.mpr none)
      have solid' : ∀ c ∈ x', ¬ isBlank c := tail.solid solid
      rw [Text.words_eq_singleton nonempty' solid', ← rest]
      exact .cons tail .nil
    | cons b r =>
      have stop : isBlank b := ends b rfl
      obtain ⟨w', r', rfl, left, right⟩ := tail.split_blank stop
      have nonempty' : w' ≠ [] := fun none => nonempty (left.eq_nil_iff.mpr none)
      have solid' : ∀ c ∈ w', ¬ isBlank c := left.solid solid
      rw [Text.words_append_blank stop, Text.words_eq_singleton nonempty' solid']
      rw [Text.words_cons_blank stop] at rest
      exact .cons left (ih right rest)

/-- Alike words with a space between any two of them are alike. -/
theorem intercalate_space (space : l.plain ' ') {ts ts' : List Text}
    (h : List.Forall₂ (Alike l true) ts ts') : Alike l true ([' '].intercalate ts) ([' '].intercalate ts') := by
  induction h with
  | nil => exact .nil true
  | cons one rest ih =>
    cases rest with
    | nil => simpa using one
    | cons next others =>
      rw [List.intercalate_cons_cons, List.intercalate_cons_cons, List.append_assoc, List.append_assoc]
      exact one.append_blank Text.isBlank_space space ih

end Alike

/-- The same atoms give alike texts, whatever the number of their first literal is. -/
theorem alike_maskFrom {l : Likeness} {t : Text} {atoms : List Literal.Atom} (h : Literal.Spells t atoms)
    (plain : ∀ c, .plain c ∈ atoms → l.plain c) (n n' : Nat)
    (literals : ∀ i < (atoms.filterMap Literal.Atom.content?).length, l.literals (n + i) (n' + i)) (first : Bool) :
    Alike l first (Literal.maskFrom n atoms) (Literal.maskFrom n' atoms) := by
  induction h generalizing n n' first with
  | nil => exact .nil first
  | bareEscape => exact .bareEscape first
  | escaped c rest ih =>
    exact .escaped c (ih (fun d member => plain d (List.mem_cons_of_mem _ member)) n n' literals _)
  | plain ordinary rest ih =>
    exact .plain ordinary (plain _ List.mem_cons_self)
      (ih (fun d member => plain d (List.mem_cons_of_mem _ member)) n n' literals _)
  | literal quoted rest ih =>
    refine .literal (literals 0 (Nat.succ_pos _)) ?_
    refine ih (fun d member => plain d (List.mem_cons_of_mem _ member)) (n + 1) (n' + 1) ?_ _
    intro i bound
    have moved := literals (i + 1) (Nat.succ_lt_succ bound)
    rwa [Nat.add_comm i, ← Nat.add_assoc, ← Nat.add_assoc] at moved

/-- The likeness of texts that hold the same literals under numbers from `n` and from `n'` on. -/
def Likeness.numbered (count n n' : Nat) : Likeness where
  plain := fun _ => True
  literals := fun k k' => ∃ i < count, k = n + i ∧ k' = n' + i
  marks := fun _ _ => False

theorem alike_numbered {t : Text} {atoms : List Literal.Atom} (h : Literal.Spells t atoms) (n n' : Nat) :
    Alike (Likeness.numbered (atoms.filterMap Literal.Atom.content?).length n n') true (Literal.maskFrom n atoms)
      (Literal.maskFrom n' atoms) :=
  alike_maskFrom (l := Likeness.numbered _ n n') h (fun _ _ => trivial) n n' (fun i bound => ⟨i, bound, rfl, rfl⟩)
    true

end Criteria.Filter
