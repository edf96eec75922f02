import Criteria.Proofs.Filter.Flat
import Criteria.Proofs.Filter.Meaning
import Criteria.Proofs.Filter.Position
import Criteria.Proofs.Filter.Reading

/-!
# The texts that are filters

A text with spaces around its connectors is read as a filter exactly when its tokens have a derivation, and
it is read as the parts of the derivation. Both directions go by the length of the text: groups are shorter
than the text around them, and every level between groups is flat.
-/

namespace Criteria.Filter

open Literal (Masked)

variable {m : Masked} {l : Likeness}

/-- A masked text that holds no marks. -/
def Unmarked (t : Text) : Prop := ∃ (l : Likeness) (t' : Text), (∀ n n', ¬ l.marks n n') ∧ Alike l true t t'

section
variable {t u : Text} {segments : List Segment}

namespace Unmarked

theorem head?_words (h : Unmarked t) : ∀ w ∈ Text.words t, w.head? ≠ some Literal.sentinel := by
  obtain ⟨l, t', unmarked, alike⟩ := h
  intro w member
  obtain ⟨w', -, same⟩ := exists_of_forall₂ alike.words member
  exact same.head?_ne_sentinel unmarked

theorem text (h : Unmarked t) (divided : Segment.ofMasked t = .ok segments) (member : .text u ∈ segments) :
    ∀ w ∈ Text.words u, w.head? ≠ some Literal.sentinel := by
  obtain ⟨l, t', unmarked, alike⟩ := h
  obtain ⟨segments', -, alikes⟩ := alike.segments unmarked divided
  obtain ⟨s', -, same⟩ := exists_of_forall₂ alikes member
  intro w inside
  cases same with
  | text alike =>
    obtain ⟨w', -, same⟩ := exists_of_forall₂ alike.ofInside.words inside
    exact same.head?_ne_sentinel unmarked

theorem group (h : Unmarked t) (divided : Segment.ofMasked t = .ok segments) (member : .group u ∈ segments) :
    Unmarked u := by
  obtain ⟨l, t', unmarked, alike⟩ := h
  obtain ⟨segments', -, alikes⟩ := alike.segments unmarked divided
  obtain ⟨s', -, same⟩ := exists_of_forall₂ alikes member
  cases same with
  | group alike => exact ⟨l, _, unmarked, alike⟩

end Unmarked

theorem unmarked_of_mask (masked : Literal.mask t = .ok m) : Unmarked m.text := by
  obtain ⟨atoms, spelled, rfl⟩ := Literal.mask_eq_ok_iff.mp masked
  exact ⟨Likeness.numbered _ 0 0, _, fun _ _ => id, alike_numbered spelled 0 0⟩

/-- A masked text with spaces around its connectors, which divide it then. -/
structure Divisible (t : Text) : Prop where
  spaced : ConnectorsSpaced t
  unmarked : Unmarked t

namespace Divisible

/-- A text between groups is a piece, and no word of it is a mark. -/
theorem text (h : Divisible t) (divided : Segment.ofMasked t = .ok segments) (member : .text u ∈ segments) :
    IsPiece u ∧ ∀ w ∈ Text.words u, w.head? ≠ some Literal.sentinel := by
  obtain ⟨trimmed, nonempty⟩ : Text.Trimmed u ∧ u ≠ [] := Segment.sound_of_mem_ofMasked divided member
  exact ⟨⟨nonempty, trimmed, h.spaced.text divided member⟩, h.unmarked.text divided member⟩

theorem group (h : Divisible t) (divided : Segment.ofMasked t = .ok segments) (member : .group u ∈ segments) :
    Divisible u :=
  ⟨h.spaced.group divided member, h.unmarked.group divided member⟩

end Divisible

theorem spaced_of_mask (masked : Literal.mask t = .ok m) (spaces : Text.SpacesOnly m.text) : Divisible m.text :=
  ⟨connectorsSpaced_of_spacesOnly spaces, unmarked_of_mask masked⟩

end

private theorem isPiece_mark (n : Nat) : IsPiece (GroupTable.mark n) :=
  .of_solid (by simp [GroupTable.mark, GroupTable.markStart]) fun _ => not_isBlank_of_mem_mark

/-! ## From derivations to readings -/

/-- A text is read as some parts whatever groups are stored, and keeps those groups. -/
def ReadsAs (m : Masked) (t : Text) (parts : List Part) : Prop :=
  ∀ base, ∃ stored, Yields (readText m t) base parts (base ++ stored)

-- Segments that stand for items from which a derivation goes on leave pieces that stand for these items too.
private theorem exists_pieces {segments : List Segment} {items : List Item} (stands : Matches segments items)
    (apart : Segment.Apart segments)
    (texts : ∀ t, .text t ∈ segments → IsPiece t ∧ ∀ w ∈ Text.words t, w.head? ≠ some Literal.sentinel)
    (inner : ∀ t, .group t ∈ segments → ∀ a : Alternatives, Token.ofMasked t = a.tokens → ReadsAs m t (a.parts m))
    (after : Bool) (fits : Fits (if after then .operand else .behindGroup) items) (base : GroupTable) :
    ∃ pieces stored, Yields (readSegments m after segments) base pieces (base ++ stored) ∧
      Encodes m base.length items (pieces.flatMap Text.words) stored ∧ ∀ p ∈ pieces, IsPiece p := by
  induction stands generalizing after base with
  | nil =>
    cases after with
    | true => exact absurd fits id
    | false =>
      exact ⟨[], [], yields_readSegments_nil_iff.mpr ⟨rfl, rfl, by simp⟩, .nil _, by simp⟩
  | @text t segments items rest ih =>
    obtain ⟨piece, unmarked⟩ := texts t List.mem_cons_self
    have last : NoWordFirst items := by
      cases rest with
      | nil => trivial
      | text => exact absurd apart.1 (by simp [Segment.beginsWithText])
      | group => trivial
    obtain ⟨front, next, detached, later⟩ := exists_detach m piece last fits
    obtain ⟨back, stored, read, coded, pieces⟩ := ih apart.2 (fun u member => texts u (List.mem_cons_of_mem _ member))
      (fun u member => inner u (List.mem_cons_of_mem _ member)) next later base
    obtain ⟨words, -⟩ := words_of_detach detached
    refine ⟨front ++ back, stored, yields_readSegments_text_iff.mpr ⟨front, next, back, detached, read, rfl⟩, ?_, ?_⟩
    · rw [List.flatMap_append, words]
      exact (Encodes.ofWords unmarked base.length).append coded
    · intro p member
      exact (List.mem_append.mp member).elim (isPiece_of_detach piece detached p) (pieces p)
  | @group t a segments items derives rest ih =>
    cases after with
    | false => exact absurd fits id
    | true =>
      obtain ⟨own, read⟩ := inner t List.mem_cons_self a derives base
      obtain ⟨back, stored, later, coded, pieces⟩ := ih apart
        (fun u member => texts u (List.mem_cons_of_mem _ member))
        (fun u member => inner u (List.mem_cons_of_mem _ member)) false fits (base ++ own ++ [some (a.parts m)])
      refine ⟨GroupTable.mark (base ++ own).length :: back, own ++ some (a.parts m) :: stored,
        yields_readSegments_group_iff.mpr ⟨rfl, a.parts m, base ++ own, back, read, ?_, rfl⟩, ?_, ?_⟩
      · simpa using later
      · rw [List.flatMap_cons, words_mark, List.length_append]
        refine .group own ?_
        simpa [Nat.add_assoc] using coded
      · intro p member
        rcases List.mem_cons.mp member with rfl | member
        · exact isPiece_mark _
        · exact pieces p member

private theorem Alternatives.parts_of_items {a b : Alternatives} (h : a.items = [.group b]) : a.parts m = b.parts m := by
  have longer {front back : List Item} {c : Connector} (nonempty : front ≠ []) :
      front ++ .word c.word :: back ≠ [.group b] := by
    intro same
    have size := congrArg List.length same
    have positive := List.length_pos_iff.mpr nonempty
    simp at size
    omega
  match a with
  | .more c r => exact absurd h (longer c.unjoined.1)
  | .one (.more p r) => exact absurd h (longer (p.unjoined .and).1)
  | .one (.one (.condition c)) =>
    rw [items, Conjunction.items, Primary.items] at h
    cases texts : c.texts <;> simp [texts] at h
  | .one (.one (.group d)) =>
    cases h
    rfl

private theorem exists_yields_readFlat (a : Alternatives) {t : Text} (spaced : Connector.Spaced t)
    {base stored : GroupTable} (coded : Encodes m base.length a.items (Text.words t) stored) :
    ∃ spent, Yields (readFlat m t) (base ++ stored) (a.parts m) (base ++ spent) := by
  obtain ⟨spent, -, read⟩ := consumes_readFlat a spaced [] coded
  rw [List.append_nil, List.append_nil] at read
  exact ⟨spent, read⟩

private theorem readsAs_of_bare {t : Text} (divisible : Divisible t) (brackets : ¬ ('(' ∈ t ∨ ')' ∈ t))
    {a : Alternatives} (derives : Token.ofMasked t = a.tokens) : ReadsAs m t (a.parts m) := by
  intro base
  rw [readText_flat brackets]
  have words : (Text.words t).map .word ++ [] = a.items.flatMap Item.tokens := by
    rw [List.append_nil, ← Token.ofMasked_of_bare brackets, derives, a.flatMap_tokens]
  obtain ⟨rest, items, none⟩ := items_of_words words
  rw [eq_nil_of_flatMap_tokens none.symm, List.append_nil] at items
  have coded : Encodes m base.length a.items (Text.words t) [] := by
    rw [items]
    exact Encodes.ofWords divisible.unmarked.head?_words base.length
  have read := exists_yields_readFlat a (divisible.spaced.of_bare brackets) coded
  rwa [List.append_nil] at read

/-- A text whose tokens have a derivation is read as the parts of the derivation. -/
theorem readsAs_of_derivation {t : Text} (divisible : Divisible t) {a : Alternatives}
    (derives : Token.ofMasked t = a.tokens) : ReadsAs m t (a.parts m) := by
  have stands {t : Text} {segments : List Segment} (divided : Segment.ofMasked t = .ok segments) {a : Alternatives}
      (derives : Token.ofMasked t = a.tokens) : Matches segments a.items := by
    refine matches_of_tokens_eq (fun s member => Segment.sound_of_mem_ofMasked divided member) ?_
    rw [Segment.flatMap_tokens divided, derives, a.flatMap_tokens]
  induction t using readText_induction generalizing a with
  | flat t brackets => exact readsAs_of_bare divisible brackets derives
  | unpaired t e brackets failed =>
    obtain ⟨segments, divided⟩ := (Segment.ofMasked_isOk_iff t).mpr (derives ▸ a.balanced)
    cases failed.symm.trans divided
  | whole t inner brackets divided ih =>
    have single := stands divided derives
    generalize items : a.items = all at single
    cases single with
    | group derives rest =>
      cases rest
      rw [a.parts_of_items items]
      intro base
      rw [readText_group brackets divided]
      exact ih (divisible.group divided List.mem_cons_self) derives base
  | level t segments brackets divided several ih =>
    intro base
    rw [readText_segments brackets divided several]
    obtain ⟨pieces, stored, read, coded, spaced⟩ := exists_pieces (stands divided derives)
      (Segment.apart_ofMasked divided) (fun u member => divisible.text divided member)
      (fun u member b derives => ih u member (divisible.group divided member) derives) true a.fits base
    rw [← Text.words_intercalate_space] at coded
    obtain ⟨spent, last⟩ := exists_yields_readFlat a (spaced_intercalate spaced) coded
    exact ⟨spent, yields_bind_iff.mpr ⟨pieces, base ++ stored, read, last⟩⟩

/-! ## From readings to derivations -/

/-- What is read from a text has a derivation, and the groups stored before stay. -/
def Derives (m : Masked) (t : Text) : Prop :=
  ∀ base parts g', Yields (readText m t) base parts g' →
    (∃ a : Alternatives, a.tokens = Token.ofMasked t ∧ a.parts m = parts) ∧ ∃ stored, g' = base ++ stored

private theorem led_words (led : Bool) (ws : List Text) {items : List Item} {next : Bool} (rest : Led next items)
    (ends : next = true → ∃ front, ∃ c : Connector, ws = front ++ [c.word]) :
    Led led (ws.map .word ++ items) := by
  induction ws generalizing led with
  | nil =>
    cases next with
    | true =>
      obtain ⟨front, c, none⟩ := ends rfl
      simp at none
    | false => exact rest.mono
  | cons w ws ih =>
    rw [List.map_cons, List.cons_append]
    cases ws with
    | nil =>
      cases next with
      | true =>
        obtain ⟨front, c, same⟩ := ends rfl
        obtain ⟨-, same⟩ := List.append_inj' (show [] ++ [w] = front ++ [c.word] from same) rfl
        obtain ⟨rfl, -⟩ := List.cons.inj same
        rw [List.map_nil, List.nil_append, Led, Connector.ofWord?_word]
        exact rest
      | false => exact rest.mono
    | cons v ws =>
      refine ih (Connector.ofWord? w).isSome fun isTrue => ?_
      obtain ⟨front, c, same⟩ := ends isTrue
      cases front with
      | nil => simp at same
      | cons u front =>
        obtain ⟨-, tail⟩ := List.cons.inj same
        exact ⟨front, c, tail⟩

-- The pieces that segments leave stand for the items of the segments.
private theorem exists_items {segments : List Segment}
    (texts : ∀ t, .text t ∈ segments → IsPiece t ∧ ∀ w ∈ Text.words t, w.head? ≠ some Literal.sentinel)
    (inner : ∀ t, .group t ∈ segments → Derives m t) {after : Bool} {base g' : GroupTable} {pieces : List Text}
    (read : Yields (readSegments m after segments) base pieces g') :
    ∃ items stored, Matches segments items ∧ g' = base ++ stored ∧
      Encodes m base.length items (pieces.flatMap Text.words) stored ∧ Led after items ∧ ∀ p ∈ pieces, IsPiece p := by
  induction segments generalizing after base pieces with
  | nil =>
    obtain ⟨-, rfl, rfl⟩ := yields_readSegments_nil_iff.mp read
    exact ⟨[], [], .nil, by simp, .nil _, trivial, by simp⟩
  | cons s segments ih =>
    have laterTexts := fun u member => texts u (List.mem_cons_of_mem s member)
    have laterInner : ∀ t, .group t ∈ segments → Derives m t := fun t member => inner t (List.mem_cons_of_mem _ member)
    cases s with
    | text t =>
      obtain ⟨piece, unmarked⟩ := texts t List.mem_cons_self
      obtain ⟨front, next, back, detached, later, rfl⟩ := yields_readSegments_text_iff.mp read
      obtain ⟨items, stored, stands, rfl, coded, led, pieces⟩ := ih laterTexts laterInner later
      obtain ⟨words, ends⟩ := words_of_detach detached
      refine ⟨(Text.words t).map .word ++ items, stored, .text t stands, rfl, ?_, led_words after _ led ends, ?_⟩
      · rw [List.flatMap_append, words]
        exact (Encodes.ofWords unmarked base.length).append coded
      · intro p member
        exact (List.mem_append.mp member).elim (isPiece_of_detach piece detached p) (pieces p)
    | group t =>
      obtain ⟨rfl, parts, h, back, readInner, later, rfl⟩ := yields_readSegments_group_iff.mp read
      obtain ⟨⟨a, derives, rfl⟩, own, rfl⟩ := inner t List.mem_cons_self base parts h readInner
      obtain ⟨items, stored, stands, rfl, coded, led, pieces⟩ := ih laterTexts laterInner later
      refine ⟨.group a :: items, own ++ some (a.parts m) :: stored, .group derives.symm stands, by simp, ?_, ⟨rfl, led⟩,
        ?_⟩
      · rw [List.flatMap_cons, words_mark, List.length_append]
        refine .group own ?_
        simpa [Nat.add_assoc] using coded
      · intro p member
        rcases List.mem_cons.mp member with rfl | member
        · exact isPiece_mark _
        · exact pieces p member

/-- What is read from a text are the parts of a derivation of its tokens. -/
theorem derives_of_reading {t : Text} (divisible : Divisible t) : Derives m t := by
  induction t using readText_induction with
  | flat t brackets =>
    intro base parts g' read
    rw [readText_flat brackets, ← List.append_nil base] at read
    have coded : Encodes m base.length ((Text.words t).map .word) (Text.words t) [] :=
      Encodes.ofWords divisible.unmarked.head?_words base.length
    have led : Led true ((Text.words t).map .word) := by
      have none : Led false [] := trivial
      simpa using led_words true (Text.words t) none (by simp)
    obtain ⟨⟨a, items, rfl⟩, kept⟩ := exists_alternatives_of_yields (divisible.spaced.of_bare brackets) coded led read
    refine ⟨⟨a, ?_, rfl⟩, kept⟩
    rw [← a.flatMap_tokens, items, flatMap_tokens_words, Token.ofMasked_of_bare brackets]
  | unpaired t e brackets failed =>
    intro base parts g' read
    obtain ⟨segments, divided⟩ := exists_segments_of_yields brackets read
    cases failed.symm.trans divided
  | whole t inner brackets divided ih =>
    intro base parts g' read
    rw [readText_group brackets divided] at read
    obtain ⟨⟨a, derives, rfl⟩, kept⟩ := ih (divisible.group divided List.mem_cons_self) base parts g' read
    refine ⟨⟨.one (.one (.group a)), ?_, rfl⟩, kept⟩
    rw [← Segment.flatMap_tokens divided, List.flatMap_singleton, Segment.tokens, ← derives]
    rfl
  | level t segments brackets divided several ih =>
    intro base parts g' read
    rw [readText_segments brackets divided several] at read
    obtain ⟨pieces, h, first, last⟩ := yields_bind_iff.mp read
    obtain ⟨items, stored, stands, rfl, coded, led, spaced⟩ := exists_items
      (fun u member => divisible.text divided member) (fun u member => ih u member (divisible.group divided member)) first
    rw [← Text.words_intercalate_space] at coded
    obtain ⟨⟨a, rfl, rfl⟩, kept⟩ := exists_alternatives_of_yields (spaced_intercalate spaced) coded led last
    refine ⟨⟨a, ?_, rfl⟩, kept⟩
    rw [← Segment.flatMap_tokens divided, stands.flatMap_tokens, a.flatMap_tokens]

/-- A text whose blanks outside of literals are spaces is a filter exactly when it is blank or its tokens
    have a derivation, and then the filter has the parts of the derivation. -/
theorem parse_eq_ok_iff_derivation {t : Text}
    (spaces : ∀ m, Literal.mask (Text.trim t) = .ok m → Text.SpacesOnly m.text) {parts : List Part} :
    parse t = .ok parts ↔ ∃ m, Literal.mask (Text.trim t) = .ok m ∧
      (Text.trim t = [] ∧ parts = [] ∨ ∃ a : Alternatives, a.tokens = Token.ofMasked m.text ∧ a.parts m = parts) := by
  rw [parse_eq_ok_iff]
  constructor
  · rintro (⟨blank, rfl⟩ | ⟨-, m, g', masked, read⟩)
    · exact ⟨⟨[], []⟩, by rw [blank]; rfl, .inl ⟨blank, rfl⟩⟩
    · have spaced := spaced_of_mask masked (spaces m masked)
      exact ⟨m, masked, .inr (derives_of_reading spaced [] parts g' read).1⟩
  · rintro ⟨m, masked, ⟨blank, rfl⟩ | ⟨a, derives, rfl⟩⟩
    · exact .inl ⟨blank, rfl⟩
    · have spaced := spaced_of_mask masked (spaces m masked)
      obtain ⟨stored, read⟩ := readsAs_of_derivation spaced derives.symm []
      refine .inr ⟨?_, m, [] ++ stored, masked, read⟩
      intro blank
      rw [blank] at masked
      cases masked
      have items : a.items = [] := by
        apply eq_nil_of_flatMap_tokens
        rw [a.flatMap_tokens, derives]
        rfl
      have fits := a.fits
      rw [items] at fits
      exact fits

private def nested : Text := "(a eq 1 or b eq 2)and not c gt 'x'".toList

private theorem nested_spacesOnly {m : Masked} (masked : Literal.mask (Text.trim nested) = .ok m) :
    Text.SpacesOnly m.text := by
  have same : Literal.mask (Text.trim nested) = .ok ⟨"(a eq 1 or b eq 2)and not c gt '0'".toList, [['x']]⟩ := by decide +kernel
  cases same.symm.trans masked
  have spaces : ("(a eq 1 or b eq 2)and not c gt '0'".toList.filter Text.isBlank).all (· = ' ') = true := by decide +kernel
  intro c member blank
  simpa using List.all_eq_true.mp spaces c (List.mem_filter.mpr ⟨member, blank⟩)

private def nestedParts : List Part :=
  [.enter .and, .enter .or, .leaf ⟨['a'], .eq, .int 1⟩, .leaf ⟨['b'], .eq, .int 2⟩, .leave .or,
    .leaf ⟨['c'], .le, .text ['x']⟩, .leave .and]

/-- A group that touches the connector behind it, and a negated condition. -/
theorem nested_has_derivation :
    (∀ m, Literal.mask (Text.trim nested) = .ok m → Text.SpacesOnly m.text) ∧ parse nested = .ok nestedParts ∧
      ∃ m, Literal.mask (Text.trim nested) = .ok m ∧ (Text.trim nested = [] ∧ nestedParts = [] ∨
        ∃ a : Alternatives, a.tokens = Token.ofMasked m.text ∧ a.parts m = nestedParts) := by
  have spaces : ∀ m, Literal.mask (Text.trim nested) = .ok m → Text.SpacesOnly m.text := fun _ => nested_spacesOnly
  have read : parse nested = .ok nestedParts := by
    rw [parse_eq_parseWithin]
    decide +kernel
  exact ⟨spaces, read, (parse_eq_ok_iff_derivation spaces).mp read⟩

end Criteria.Filter
