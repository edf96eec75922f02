import Mathlib.Data.List.ReduceOption
import Criteria.Proofs.Filter.Simulation

/-!
# Levels

On one level of a text the groups have been read, and marks stand for them. Which numbers the marks have depends on
the table that the groups are stored in: a `Level` has the groups themselves in place of the marks, so that the text
of a level can be written for any table. A written level is cut and divided into words as the level is.
-/

namespace Criteria.Filter

/-- A character of a level or a group that stands in it. The groups inside it have left `skipped` empty slots in the
    table in front of its own. -/
inductive Symbol
  | char (c : Char)
  | group (skipped : Nat) (parts : List Part)

/-- The slots that a group takes up in the table. -/
def Symbol.slots : Symbol → GroupTable
  | .char _ => []
  | .group skipped parts => List.replicate skipped none ++ [some parts]

/-- A flat text in which groups stand. -/
abbrev Level := List Symbol

namespace Level

/-- The slots that the groups of a level take up in the table. -/
def slots (x : Level) : GroupTable := x.flatMap Symbol.slots

/-- The groups of a level, in order. -/
def groups (x : Level) : List (List Part) := (slots x).reduceOption

/-- The text of a level with the marks that its groups have if their slots begin at the number `n`. -/
def text (n : Nat) : Level → Text
  | [] => []
  | .char c :: r => c :: text n r
  | .group skipped _ :: r => GroupTable.mark (n + skipped) ++ text (n + skipped + 1) r

/-- The texts of levels whose slots follow each other. -/
def texts (n : Nat) : List Level → List Text
  | [] => []
  | x :: r => text n x :: texts (n + (slots x).length) r

/-- A text without groups. -/
def ofText (t : Text) : Level := t.map .char

variable {n : Nat} {x y p : Level} {t a r : Text}

@[simp] theorem slots_append (x y : Level) : slots (x ++ y) = slots x ++ slots y := List.flatMap_append

@[simp] theorem slots_ofText (t : Text) : slots (ofText t) = [] := by
  simp [slots, ofText, Symbol.slots, List.flatMap_map]

theorem flatMap_slots_ofText (front : List Text) : (front.map ofText).flatMap slots = [] := by
  simp [List.flatMap_map]

theorem slots_group (skipped : Nat) (parts : List Part) (back : Level) :
    slots (.group skipped parts :: back) = (Symbol.group skipped parts).slots ++ slots back := rfl

theorem reduceOption_slots_group (skipped : Nat) (parts : List Part) :
    (Symbol.group skipped parts).slots.reduceOption = [parts] := by
  simp [Symbol.slots, List.reduceOption_append, List.reduceOption_replicate_none]

theorem text_append (n : Nat) (x y : Level) : text n (x ++ y) = text n x ++ text (n + (slots x).length) y := by
  induction x generalizing n with
  | nil => rfl
  | cons s x ih =>
    cases s with
    | char c => exact congrArg (c :: ·) (ih n)
    | group skipped parts =>
      have size : n + (slots (.group skipped parts :: x)).length = n + skipped + 1 + (slots x).length := by
        simp [slots, Symbol.slots]
        omega
      rw [List.cons_append, text, text, ih, size, List.append_assoc]

@[simp] theorem text_ofText (n : Nat) (t : Text) : text n (ofText t) = t := by
  induction t with
  | nil => rfl
  | cons c t ih => exact congrArg (c :: ·) ih

theorem texts_ofText_append (n : Nat) (front : List Text) (back : List Level) :
    texts n (front.map ofText ++ back) = front ++ texts n back := by
  induction front with
  | nil => rfl
  | cons p front ih =>
    rw [List.map_cons, List.cons_append, texts, text_ofText, slots_ofText, List.length_nil, Nat.add_zero, ih]
    rfl

@[simp] theorem text_eq_nil_iff : text n x = [] ↔ x = [] := by
  cases x with
  | nil => simp [text]
  | cons s x => cases s <;> simp [text, GroupTable.mark, GroupTable.markStart]

/-- A character that is in no mark stands in the level if it stands in its text. -/
theorem exists_of_text_eq {b : Char} (unmarked : ∀ k, b ∉ GroupTable.mark k) (whole : text n x = a ++ b :: r) :
    ∃ front back, x = front ++ .char b :: back ∧ text n front = a ∧ text (n + (slots front).length) back = r := by
  induction x generalizing n a with
  | nil => simp [text] at whole
  | cons s x ih =>
    cases s with
    | char c =>
      cases a with
      | nil =>
        obtain ⟨rfl, rfl⟩ := List.cons.inj whole
        exact ⟨[], x, rfl, rfl, rfl⟩
      | cons d a =>
        obtain ⟨rfl, rest⟩ := List.cons.inj whole
        obtain ⟨front, back, rfl, rfl, rfl⟩ := ih rest
        exact ⟨.char c :: front, back, rfl, rfl, rfl⟩
    | group skipped parts =>
      obtain ⟨a', rfl, rest⟩ := Text.exists_of_append_eq whole (unmarked _)
      obtain ⟨front, back, rfl, rfl, rfl⟩ := ih rest
      refine ⟨.group skipped parts :: front, back, rfl, rfl, congrArg (text · back) ?_⟩
      simp [slots, Symbol.slots]
      omega

/-- A text of such characters stands in the level too. -/
theorem exists_of_text_append {w : Text} (nonempty : w ≠ []) (unmarked : ∀ b ∈ w, ∀ k, b ∉ GroupTable.mark k)
    (whole : text n x = a ++ w ++ r) :
    ∃ front back, x = front ++ ofText w ++ back ∧ text n front = a ∧ text (n + (slots front).length) back = r := by
  induction w generalizing n x a with
  | nil => exact absurd rfl nonempty
  | cons b w ih =>
    rw [List.append_assoc, List.cons_append] at whole
    obtain ⟨front, rest, rfl, rfl, behind⟩ := exists_of_text_eq (unmarked b List.mem_cons_self) whole
    by_cases last : w = []
    · subst last
      exact ⟨front, rest, by simp [ofText], rfl, behind⟩
    · obtain ⟨between, back, rfl, none, rfl⟩ :=
        ih (a := []) last (fun c member => unmarked c (List.mem_cons_of_mem b member)) behind
      obtain rfl := text_eq_nil_iff.mp none
      exact ⟨front, back, by simp [ofText], rfl, by simp [slots]⟩

theorem not_mem_mark_of_mem_between {c : Connector} {b : Char} (member : b ∈ c.between) (k : Nat) :
    b ∉ GroupTable.mark k := by
  intro inMark
  have letters : ∀ b ∈ c.between, b ≠ Literal.sentinel ∧ b ≠ 'g' ∧ ¬ b.isDigit := by cases c <;> decide
  obtain ⟨notSentinel, notLetter, notDigit⟩ := letters b member
  rcases mem_mark inMark with same | same | digit
  · exact notSentinel same
  · exact notLetter same
  · exact notDigit digit

/-- Connectors stand in the level, so that they stand in its text whatever numbers the marks have. -/
theorem infix_text {c : Connector} (within : c.between <:+: text n x) (k : Nat) : c.between <:+: text k x := by
  obtain ⟨a, r, whole⟩ := within
  obtain ⟨front, back, rfl, -, -⟩ := exists_of_text_append (Text.between_ne_nil c.word)
    (fun _ member => not_mem_mark_of_mem_between member) whole.symm
  rw [text_append, text_append, text_ofText]
  exact ⟨_, _, rfl⟩

/-- The text of a level is cut into the texts of the same levels, whatever numbers its marks have. -/
theorem exists_cut (c : Connector) (x : Level) : ∃ pieces : List Level,
    (∀ n, Text.cut c.between (text n x) = texts n pieces) ∧ slots x = pieces.flatMap slots ∧
      ∀ p ∈ pieces, p <:+: x := by
  have separator : c.between ≠ [] := Text.between_ne_nil c.word
  have dropped : c.between.dropLast = ' ' :: c.word := by
    rw [Connector.between, ← List.cons_append, List.dropLast_concat]
  induction size : x.length using Nat.strongRecOn generalizing x with
  | ind _ ih =>
    by_cases within : c.between <:+: text 0 x
    · obtain ⟨a, r, whole, first⟩ := Text.exists_first separator within
      obtain ⟨front, back, rfl, rfl, rfl⟩ :=
        exists_of_text_append separator (fun _ member => not_mem_mark_of_mem_between member) whole
      have shorter : back.length < (front ++ ofText c.between ++ back).length := by
        simp [ofText, Connector.between]
        omega
      obtain ⟨pieces, cut, table, inside⟩ := ih back.length (size ▸ shorter) back rfl
      refine ⟨front :: pieces, fun n => ?_, by simp [table], ?_⟩
      · have first' : ¬ c.between <:+: text n front ++ c.between.dropLast := by
          intro earlier
          rw [dropped] at earlier first
          have same (k : Nat) : text k front ++ ' ' :: c.word = text k (front ++ ofText (' ' :: c.word)) := by
            rw [text_append, text_ofText]
          rw [same] at earlier first
          exact first (infix_text earlier 0)
        rw [text_append, text_append, text_ofText, Text.cut_append separator first', cut, texts, slots_append,
          slots_ofText, List.append_nil]
      · intro p member
        rcases List.mem_cons.mp member with rfl | member
        · exact ⟨[], ofText c.between ++ back, by simp⟩
        · exact (inside p member).trans (List.suffix_append _ back).isInfix
    · refine ⟨[x], fun n => ?_, by simp, by simp⟩
      exact Text.cut_eq_singleton fun inside => within (infix_text inside 0)

/-- Each group of a level has spaces or nothing on both of its sides. -/
def Apart (x : Level) : Prop :=
  ∀ front skipped parts back, x = front ++ .group skipped parts :: back →
    (∀ s ∈ front.getLast?, s = .char ' ') ∧ ∀ s ∈ back.head?, s = .char ' '

theorem Apart.of_infix (h : Apart x) (inside : p <:+: x) : Apart p := by
  obtain ⟨u, v, rfl⟩ := inside
  rintro front skipped parts back rfl
  obtain ⟨before, behind⟩ := h (u ++ front) skipped parts (back ++ v) (by simp)
  exact ⟨fun s last => before s (List.mem_getLast?_append_of_mem_getLast? last),
    fun s first => behind s (List.mem_head?_append_of_mem_head? first)⟩

theorem apart_ofText (t : Text) : Apart (ofText t) := by
  intro front skipped parts back whole
  have member : .group skipped parts ∈ ofText t := by simp [whole]
  simp [ofText] at member

/-- A level is a text or has a first group. -/
theorem ofText_or_group (x : Level) :
    (∃ t, x = ofText t) ∨ ∃ t skipped parts back, x = ofText t ++ .group skipped parts :: back := by
  induction x with
  | nil => exact .inl ⟨[], rfl⟩
  | cons s x ih =>
    cases s with
    | group skipped parts => exact .inr ⟨[], skipped, parts, x, rfl⟩
    | char c =>
      rcases ih with ⟨t, rfl⟩ | ⟨t, skipped, parts, back, rfl⟩
      · exact .inl ⟨c :: t, rfl⟩
      · exact .inr ⟨c :: t, skipped, parts, back, rfl⟩

/-- Without a group a level is blank or not, and with one it is not, whatever numbers the marks have. -/
theorem words_text_eq_nil_or (x : Level) :
    (slots x = [] ∧ ∀ n, Text.words (text n x) = []) ∨ ∀ n, Text.words (text n x) ≠ [] := by
  rcases ofText_or_group x with ⟨t, rfl⟩ | ⟨t, skipped, parts, back, rfl⟩
  · by_cases blank : Text.words t = []
    · exact .inl ⟨slots_ofText t, fun n => by rwa [text_ofText]⟩
    · exact .inr fun n => by rwa [text_ofText]
  · refine .inr fun n => Text.words_ne_nil_iff.mpr ⟨Literal.sentinel, ?_, by decide⟩
    simp [text_append, text, GroupTable.mark, GroupTable.markStart]

/-- A group that has a space or nothing behind it is a word. -/
theorem words_text_group (skipped : Nat) (parts : List Part) {back : Level} (apart : ∀ s ∈ back.head?, s = .char ' ')
    (n : Nat) : Text.words (text n (.group skipped parts :: back)) =
      GroupTable.mark (n + skipped) :: Text.words (text (n + skipped + 1) back) := by
  cases back with
  | nil => simp [text, words_mark]
  | cons s back =>
    obtain rfl := apart s rfl
    change Text.words (_ ++ ' ' :: text _ back) = _ :: Text.words (' ' :: text _ back)
    rw [Text.words_append_space, words_mark, Text.words_cons_blank Text.isBlank_space]
    rfl

/-! ## Levels that are put together -/

/-- A piece of a level: a text or one group. -/
def IsPiece (p : Level) : Prop :=
  (∃ t, Literal.sentinel ∉ t ∧ p = ofText t) ∨ ∃ skipped parts, p = [.group skipped parts]

theorem Apart.append_space (h : Apart x) (h' : Apart y) : Apart (x ++ .char ' ' :: y) := by
  rintro front skipped parts back whole
  rcases Text.append_cons_eq_append_cons_iff.mp whole with ⟨a, rfl, rfl⟩ | ⟨-, group, -⟩ | ⟨a, rfl, rfl⟩
  · obtain ⟨before, behind⟩ := h front skipped parts a rfl
    refine ⟨before, fun s first => ?_⟩
    cases a with
    | nil => simpa [eq_comm] using first
    | cons d a => exact behind s (by simpa using first)
  · cases group
  · obtain ⟨before, behind⟩ := h' a skipped parts back rfl
    refine ⟨fun s last => ?_, behind⟩
    cases a with
    | nil => simpa [eq_comm] using last
    | cons d a => exact before s (by simpa [List.getLast?_append, List.getLast?_cons] using last)

theorem IsPiece.apart (h : IsPiece p) : Apart p := by
  rcases h with ⟨t, -, rfl⟩ | ⟨skipped, parts, rfl⟩
  · exact apart_ofText t
  · intro front skipped' parts' back whole
    cases front with
    | nil =>
      obtain ⟨-, rfl⟩ := List.cons.inj whole
      simp
    | cons s front => simp at whole

theorem IsPiece.unmarked (h : IsPiece p) : .char Literal.sentinel ∉ p := by
  rcases h with ⟨t, clean, rfl⟩ | ⟨skipped, parts, rfl⟩
  · simpa [ofText] using clean
  · simp

/-- Pieces that are put together with spaces. -/
def join (pieces : List Level) : Level := [Symbol.char ' '].intercalate pieces

@[simp] theorem join_singleton (p : Level) : join [p] = p := by simp [join]

theorem join_cons_cons (p q : Level) (pieces : List Level) :
    join (p :: q :: pieces) = p ++ .char ' ' :: join (q :: pieces) := by
  rw [join, List.intercalate_cons_cons, ← join, List.append_assoc, List.singleton_append]

theorem text_join (n : Nat) (pieces : List Level) : text n (join pieces) = [' '].intercalate (texts n pieces) := by
  induction pieces generalizing n with
  | nil => rfl
  | cons p pieces ih =>
    cases pieces with
    | nil => simp [texts]
    | cons q pieces =>
      rw [join_cons_cons, text_append, text, ih]
      change text n p ++ ([' '] ++ _) = [' '].intercalate (text n p :: text _ q :: texts _ pieces)
      rw [List.intercalate_cons_cons, List.append_assoc]
      rfl

theorem slots_join (pieces : List Level) : slots (join pieces) = pieces.flatMap slots := by
  induction pieces with
  | nil => rfl
  | cons p pieces ih =>
    cases pieces with
    | nil => simp
    | cons q pieces =>
      rw [join_cons_cons, slots_append, List.flatMap_cons, ← ih]
      rfl

theorem apart_join {pieces : List Level} (h : ∀ p ∈ pieces, IsPiece p) : Apart (join pieces) := by
  induction pieces with
  | nil => exact apart_ofText []
  | cons p pieces ih =>
    obtain ⟨first, others⟩ := List.forall_mem_cons.mp h
    cases pieces with
    | nil => simpa using first.apart
    | cons q pieces =>
      rw [join_cons_cons]
      exact first.apart.append_space (ih others)

theorem not_mem_join {s : Symbol} (other : s ≠ .char ' ') {pieces : List Level} (absent : ∀ p ∈ pieces, s ∉ p) :
    s ∉ join pieces := by
  induction pieces with
  | nil => exact List.not_mem_nil
  | cons p pieces ih =>
    obtain ⟨first, others⟩ := List.forall_mem_cons.mp absent
    cases pieces with
    | nil => simpa using first
    | cons q pieces =>
      rw [join_cons_cons, List.mem_append, List.mem_cons]
      exact not_or.mpr ⟨first, not_or.mpr ⟨other, ih others⟩⟩

/-! ## Levels whose groups are led -/

/-- A level whose groups stand apart, each first or behind a connector. -/
structure Led (x : Level) : Prop where
  unmarked : .char Literal.sentinel ∉ x
  apart : x.Apart
  led : ∃ n, MarksLed (x.text n)

theorem led_ofText {t : Text} (unmarked : Literal.sentinel ∉ t) : Led (ofText t) where
  unmarked := by simpa [ofText] using unmarked
  apart := apart_ofText t
  led := by
    refine ⟨0, fun a r whole => absurd ?_ unmarked⟩
    rw [text_ofText] at whole
    simp [whole]

theorem exists_text_mem_texts {pieces : List Level} (member : p ∈ pieces) (n : Nat) :
    ∃ k, text k p ∈ texts n pieces := by
  induction pieces generalizing n with
  | nil => simp at member
  | cons q pieces ih =>
    rcases List.mem_cons.mp member with rfl | member
    · exact ⟨n, List.mem_cons_self⟩
    · obtain ⟨k, inside⟩ := ih member (n + (slots q).length)
      exact ⟨k, List.mem_cons_of_mem _ inside⟩

/-- A connector that stands in a stretch of a level stands in the level. -/
theorem infix_text_of_infix {c : Connector} {n : Nat} (inside : p <:+: x) (within : c.between <:+: text n p) (k : Nat) :
    c.between <:+: text k x := by
  obtain ⟨u, v, rfl⟩ := inside
  rw [text_append, text_append]
  exact (infix_text within _).trans ⟨_, _, rfl⟩

/-- The pieces of a level are levels without the connector it is cut at. -/
theorem Led.exists_cut (h : Led x) (c : Connector) : ∃ pieces : List Level,
    (∀ n, Text.cut c.between (text n x) = texts n pieces) ∧ slots x = pieces.flatMap slots ∧
      ∀ p ∈ pieces, Led p ∧ p <:+: x ∧ ∀ n, ¬ c.between <:+: text n p := by
  obtain ⟨pieces, cut, table, inside⟩ := Level.exists_cut c x
  refine ⟨pieces, cut, table, fun p member => ⟨⟨?_, h.apart.of_infix (inside p member), ?_⟩, inside p member, ?_⟩⟩
  · exact fun marked => h.unmarked ((inside p member).subset marked)
  · obtain ⟨n, led⟩ := h.led
    obtain ⟨k, among⟩ := exists_text_mem_texts member n
    rw [← cut] at among
    exact ⟨k, led.of_mem_cut among⟩
  · intro n within
    obtain ⟨k, among⟩ := exists_text_mem_texts member n
    rw [← cut] at among
    exact Text.not_infix_of_mem_cut (Text.between_ne_nil c.word) among (infix_text within k)

/-- A level without connectors is a text, begins with a group, or has a connector and then a group first. -/
theorem Led.cases (h : Led p) (uncut : ∀ (c : Connector) n, ¬ c.between <:+: text n p) :
    (∃ t, Literal.sentinel ∉ t ∧ p = ofText t) ∨
      ∃ front skipped parts back, p = ofText front ++ .group skipped parts :: back ∧
        (∀ s ∈ back.head?, s = .char ' ') ∧ (front = [] ∨ ∃ c : Connector, front = c.word ++ [' ']) := by
  rcases ofText_or_group p with ⟨t, rfl⟩ | ⟨t, skipped, parts, back, rfl⟩
  · exact .inl ⟨t, by simpa [ofText] using h.unmarked, rfl⟩
  · obtain ⟨before, behind⟩ := h.apart _ _ _ _ rfl
    refine .inr ⟨t, skipped, parts, back, rfl, behind, ?_⟩
    obtain ⟨n, led⟩ := h.led
    have whole : text n (ofText t ++ .group skipped parts :: back) = t ++ Literal.sentinel :: ('g' ::
        Text.ofNat (n + skipped) ++ text (n + skipped + 1) back) := by
      rw [text_append, text_ofText, slots_ofText]
      rfl
    rcases led _ _ whole with escaped | none | ⟨c, z, spaced⟩
    · have space := before (.char Literal.escape) (by simp [ofText, escaped])
      cases space
    · exact .inl none
    · cases z with
      | nil => exact .inr ⟨c, (List.cons.inj spaced).2.symm⟩
      | cons d z =>
        obtain ⟨-, rfl⟩ := List.cons.inj spaced
        refine absurd ?_ (uncut c n)
        rw [whole]
        exact ⟨z, _, rfl⟩

end Level

end Criteria.Filter
