import Criteria.Proofs.Filter.Recognition
import Criteria.Proofs.Literal.Respaced

/-!
# Blanks in filters

How many blanks stand between two words of a filter, and which ones, does not matter, except where a connector
touches a blank: connectors are only looked for with spaces around them. With any other blank beside it a
connector is a word like any other, and what was meant to be the next condition becomes part of a value.
-/

namespace Criteria.Filter

open Literal (Masked)
open Text (isBlank squeezeFrom squeeze)

namespace Token

theorem scan_squeezeFrom (gap : Bool) (t : Text) : scan (squeezeFrom gap t) = (squeezeFrom gap (scan t).1, (scan t).2) := by
  have notBlank : ¬ isBlank Literal.escape := by decide
  have run {r : Text} (ih : scan (squeezeFrom false r) = (squeezeFrom false (scan r).1, (scan r).2)) :
      ofRun (scan (squeezeFrom false r)) = ofRun (scan r) := by
    rw [ih, ofRun, Text.words_squeezeFrom]
    rfl
  fun_induction scan t generalizing gap with
  | case1 => rfl
  | case2 =>
    rw [Text.squeezeFrom_cons notBlank, Text.squeezeFrom_nil]
    rfl
  | case3 d r ih =>
    by_cases blank : isBlank d
    · rw [Text.squeezeFrom_cons notBlank, (Text.squeezeFrom_blank blank r).2, scan_escape, ih,
        Text.squeezeFrom_cons notBlank, (Text.squeezeFrom_blank blank _).2]
    · rw [Text.squeezeFrom_cons notBlank, Text.squeezeFrom_cons blank, scan_escape, ih,
        Text.squeezeFrom_cons notBlank, Text.squeezeFrom_cons blank]
  | case4 r _ ih =>
    rw [Text.squeezeFrom_cons (by decide), scan_opening, run (ih false), Text.squeezeFrom_nil]
  | case5 r _ _ ih =>
    rw [Text.squeezeFrom_cons (by decide), scan_closing, run (ih false), Text.squeezeFrom_nil]
  | case6 c r notEscape notOpening notClosing ih =>
    by_cases blank : isBlank c
    · cases gap with
      | true => rw [(Text.squeezeFrom_blank blank r).1, (Text.squeezeFrom_blank blank _).1, ih]
      | false =>
        rw [(Text.squeezeFrom_blank blank r).2, (Text.squeezeFrom_blank blank _).2, scan_cons_blank Text.isBlank_space, ih]
    · rw [Text.squeezeFrom_cons blank, scan_cons notEscape notOpening notClosing, ih, Text.squeezeFrom_cons blank]

@[simp] theorem ofMasked_squeeze (t : Text) : ofMasked (squeeze t) = ofMasked t := by
  rw [ofMasked, squeeze, scan_squeezeFrom, ofRun, Text.words_squeezeFrom]
  rfl

end Token

variable {m m' : Masked}

theorem Condition.parts_of_literals (same : m'.literals = m.literals) (c : Condition) : c.parts m' = c.parts m := by
  rw [parts, parts, Masked.restore_of_literals same, Value.ofMasked_of_literals same]

mutual

private theorem Alternatives.members_of_literals (same : m'.literals = m.literals) (a : Alternatives) :
    a.members m' = a.members m := by
  match a with
  | .one c => rw [Alternatives.members, Alternatives.members, c.members_of_literals same]
  | .more c r => rw [Alternatives.members, Alternatives.members, c.members_of_literals same, r.members_of_literals same]

private theorem Conjunction.members_of_literals (same : m'.literals = m.literals) (c : Conjunction) :
    c.members m' = c.members m := by
  match c with
  | .one p => rw [Conjunction.members, Conjunction.members, p.parts_of_literals same]
  | .more p r => rw [Conjunction.members, Conjunction.members, p.parts_of_literals same, r.members_of_literals same]

private theorem Primary.parts_of_literals (same : m'.literals = m.literals) (p : Primary) : p.parts m' = p.parts m := by
  match p with
  | .group a => rw [Primary.parts, Primary.parts, a.members_of_literals same]
  | .condition c => exact c.parts_of_literals same

end

/-- The parts of a derivation depend on the literals only, not on the text that they stood in. -/
theorem Alternatives.parts_of_literals (same : m'.literals = m.literals) (a : Alternatives) : a.parts m' = a.parts m := by
  rw [parts, parts, a.members_of_literals same]

theorem Alternatives.tokens_ne_nil (a : Alternatives) : a.tokens ≠ [] := by
  intro none
  have items : a.items = [] := eq_nil_of_flatMap_tokens (by rw [a.flatMap_tokens, none])
  have fits := a.fits
  rw [items] at fits
  exact fits

/-- A masked text stands for some parts: for none if it is blank, or for those of a derivation of its tokens. -/
def Denotes (m : Masked) (parts : List Part) : Prop :=
  Text.words m.text = [] ∧ parts = [] ∨ ∃ a : Alternatives, a.tokens = Token.ofMasked m.text ∧ a.parts m = parts

/-- A text with spaces around its connectors is read as the parts that its masked text stands for. -/
theorem parse_eq_ok_iff_denotes {t : Text} {m : Masked} (masked : Literal.mask t = .ok m) (spaced : ConnectorsSpaced m.text)
    {parts : List Part} : parse t = .ok parts ↔ Denotes m parts := by
  have trimmed : Literal.mask (Text.trim t) = .ok ⟨Text.trim m.text, m.literals⟩ :=
    Literal.mask_trim_eq_ok_iff.mpr ⟨m, masked, rfl⟩
  have blank : Text.trim t = [] ↔ Text.words m.text = [] := by
    rw [← Literal.mask_text_eq_nil_iff trimmed, Text.trim_eq_nil_iff]
  have divisible : Divisible (Text.trim m.text) := by
    refine ⟨fun run member => ?_, unmarked_of_mask trimmed⟩
    obtain ⟨whole, among, stretch⟩ := runsWithin_trim m.text run member
    exact (spaced whole among).stretch stretch
  have literals : Masked.literals ⟨Text.trim m.text, m.literals⟩ = m.literals := rfl
  rw [parse_eq_ok_iff, Denotes, blank]
  constructor
  · rintro (none | ⟨-, k, g', again, read⟩)
    · exact .inl none
    · cases trimmed.symm.trans again
      obtain ⟨⟨a, derives, same⟩, -⟩ := derives_of_reading divisible [] parts g' read
      rw [Token.ofMasked_trim] at derives
      rw [a.parts_of_literals literals] at same
      exact .inr ⟨a, derives, same⟩
  · rintro (none | ⟨a, derives, rfl⟩)
    · exact .inl none
    · have derives' : Token.ofMasked (Text.trim m.text) = a.tokens := by rw [Token.ofMasked_trim, derives]
      obtain ⟨stored, read⟩ := readsAs_of_derivation divisible derives' []
      rw [a.parts_of_literals literals] at read
      refine .inr ⟨fun none => a.tokens_ne_nil ?_, _, _, trimmed, read⟩
      rw [← derives', Text.trim_eq_nil_iff.mpr (blank.mp none), Token.ofMasked_nil]

/-- Only a text that can be masked is read. -/
theorem exists_mask_of_parse {t : Text} {parts : List Part} (read : parse t = .ok parts) :
    ∃ m, Literal.mask t = .ok m := by
  have trimmed : ∃ k, Literal.mask (Text.trim t) = .ok k := by
    rcases parse_eq_ok_iff.mp read with ⟨blank, -⟩ | ⟨-, k, -, masked, -⟩
    · exact ⟨⟨[], []⟩, by rw [blank]; rfl⟩
    · exact ⟨k, masked⟩
  obtain ⟨k, masked⟩ := trimmed
  obtain ⟨m, masked, -⟩ := Literal.mask_trim_eq_ok_iff.mp masked
  exact ⟨m, masked⟩

/-- If connectors have spaces around them, then a filter is the same with one space for each run of blanks
    outside its literals. -/
theorem parse_respace {t : Text} (spaced : ∀ m, Literal.mask t = .ok m → ConnectorsSpaced m.text) (parts : List Part) :
    parse (Literal.respace t) = .ok parts ↔ parse t = .ok parts := by
  have both {m : Masked} (masked : Literal.mask t = .ok m) :
      parse (Literal.respace t) = .ok parts ↔ parse t = .ok parts := by
    have respaced : Literal.mask (Literal.respace t) = .ok ⟨squeeze m.text, m.literals⟩ :=
      Literal.mask_respace_eq_ok_iff.mpr ⟨m, masked, rfl⟩
    have spaces : ConnectorsSpaced (squeeze m.text) :=
      connectorsSpaced_of_spacesOnly (Text.spacesOnly_squeezeFrom false m.text)
    have literals : Masked.literals ⟨squeeze m.text, m.literals⟩ = m.literals := rfl
    rw [parse_eq_ok_iff_denotes respaced spaces, parse_eq_ok_iff_denotes masked (spaced m masked), Denotes, Denotes,
      squeeze, Text.words_squeezeFrom, ← squeeze, Token.ofMasked_squeeze]
    simp only [Alternatives.parts_of_literals literals]
  constructor
  · intro read
    obtain ⟨k, respaced⟩ := exists_mask_of_parse read
    obtain ⟨m, masked, -⟩ := Literal.mask_respace_eq_ok_iff.mp respaced
    exact (both masked).mp read
  · intro read
    obtain ⟨m, masked⟩ := exists_mask_of_parse read
    exact (both masked).mpr read

private def loose : Text := "\ta eq\u3000\\\t\tx' \t y' or  (not b\n\nge 'x \t y')and c ne 1, \t2".toList

private def looseMasked : Masked :=
  ⟨"\ta eq\u3000\\\t\tx'0' or  (not b\n\nge '1')and c ne 1, \t2".toList, [" \t y".toList, "x \t y".toList]⟩

private def looseParts : List Part :=
  [.enter .or, .leaf ⟨['a'], .eq, .text "\\ x' \t y'".toList⟩, .enter .and, .leaf ⟨['b'], .lt, .text "x \t y".toList⟩,
    .enter .or, .leaf ⟨['c'], .ne, .int 1⟩, .leaf ⟨['c'], .ne, .int 2⟩, .leave .or, .leave .and, .leave .or]

/-- Blanks of many kinds, also behind a backslash, in a list and at a bracket, and others in literals. -/
theorem parse_respace_loose :
    (∀ m, Literal.mask loose = .ok m → ConnectorsSpaced m.text) ∧
      Literal.respace loose = " a eq \\ x' \t y' or (not b ge 'x \t y')and c ne 1, 2".toList ∧
        parse loose = .ok looseParts ∧ parse (Literal.respace loose) = .ok looseParts := by
  have masked : Literal.mask loose = .ok looseMasked := by decide +kernel
  have spaced : ∀ m, Literal.mask loose = .ok m → ConnectorsSpaced m.text := by
    intro m masked'
    cases masked.symm.trans masked'
    decide +kernel
  have read : parse loose = .ok looseParts := by
    rw [parse_eq_parseWithin]
    decide +kernel
  exact ⟨spaced, by decide +kernel, read, (parse_respace spaced looseParts).mpr read⟩

-- With a tab behind it a connector is part of the value before it, and so is the condition behind it.
example :
    parse "a eq 1 or\tb eq 2".toList = .ok [.leaf ⟨['a'], .eq, .text "1 or b eq 2".toList⟩] ∧
      parse (Literal.respace "a eq 1 or\tb eq 2".toList) =
        .ok [.enter .or, .leaf ⟨['a'], .eq, .int 1⟩, .leaf ⟨['b'], .eq, .int 2⟩, .leave .or] :=
  ⟨by rw [parse_eq_parseWithin]; decide +kernel, by rw [parse_eq_parseWithin]; decide +kernel⟩

end Criteria.Filter
