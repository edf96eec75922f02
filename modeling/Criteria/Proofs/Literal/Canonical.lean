import Criteria.Proofs.Literal.Joined

/-!
# Canonical texts of lists

A list is written with a comma between its tokens, and a token that could be misread is written in quotes. The
rule for quotes overlooks two things: a NUL, which may stand in quotes only, and in sort orders a blank inside
of a field. A written list is read as the same list exactly if nothing was overlooked. Otherwise it is rejected.
-/

namespace Criteria

namespace Literal

open Text (isBlank)

/-- A piece of a masked list that stands for a token. -/
structure StandsFor (m : Masked) (w token : Text) : Prop where
  reveals : m.reveal w = token
  nonempty : w ≠ []
  trimmed : Text.Trimmed w
  single : comma ∉ w

/-- A token that is written without quotes is neither divided nor escaped. -/
theorem bare_of_not_needsQuotes {token : Text} (bare : ¬ NeedsQuotes token) : ∀ c ∈ token, c ≠ escape ∧ c ≠ quote := by
  simp only [NeedsQuotes, not_or] at bare
  obtain ⟨-, -, -, notQuote, notEscape⟩ := bare
  intro c member
  refine ⟨?_, ?_⟩
  · rintro rfl
    exact notEscape member
  · rintro rfl
    exact notQuote member

theorem standsFor_placeholder {m : Masked} {n : Nat} {token : Text} (held : m.literals[n]? = some token) :
    StandsFor m (placeholder n) token where
  reveals := m.reveal_placeholder held
  nonempty := List.cons_ne_nil _ _
  trimmed := .of_solid fun _ => Filter.not_isBlank_of_mem_placeholder
  single := not_mem_placeholder (by decide) (by decide) n

theorem standsFor_bare (m : Masked) {token : Text} (bare : ¬ NeedsQuotes token) : StandsFor m token token where
  reveals := m.reveal_bare (bare_of_not_needsQuotes bare)
  nonempty := fun empty => bare (.inl empty)
  trimmed := by
    have trimmed : Text.trim token = token := by
      by_contra other
      exact bare (.inr (.inl other))
    rw [← trimmed]
    exact Text.trimmed_trim token
  single := fun member => bare (.inr (.inr (.inl member)))

theorem mask_plain {t : Text} (ordinary : ∀ c ∈ t, Ordinary c) : mask t = .ok ⟨t, []⟩ := by
  have spelled := Spells.nil.plain_append ordinary
  rw [List.append_nil] at spelled
  refine mask_eq_ok_iff.mpr ⟨_, spelled, ?_⟩
  rw [Masked.ofAtoms, maskFrom_plain_append, contents_plain_append, maskFrom, List.append_nil]
  rfl

theorem mask_enquote_append (content : Text) {t : Text} (ordinary : ∀ c ∈ t, Ordinary c) :
    mask (enquote content ++ t) = .ok ⟨placeholder 0 ++ t, [content]⟩ := by
  have spelled := spells_enquote content (Spells.nil.plain_append ordinary)
  rw [List.append_nil] at spelled
  refine mask_eq_ok_iff.mpr ⟨_, spelled, ?_⟩
  rw [Masked.ofAtoms, maskFrom, maskFrom_plain_append, List.filterMap_cons, contents_plain_append, maskFrom,
    List.append_nil]
  rfl

/-- A written token is masked to a piece that stands for it, if a NUL stands in quotes. A piece that is not the token
    itself has no blanks. -/
theorem exists_standsFor {token : Text} (quoted : sentinel ∈ token → NeedsQuotes token) (tail : Text)
    (ordinary : ∀ c ∈ tail, Ordinary c) :
    ∃ m w, mask (writeToken token ++ tail) = .ok m ∧ m.text = w ++ tail ∧ StandsFor m w token ∧
      (NeedsQuotes token ∧ (∀ c ∈ w, ¬ isBlank c) ∨ ¬ NeedsQuotes token ∧ w = token) := by
  by_cases needed : NeedsQuotes token
  · rw [writeToken, if_pos needed]
    exact ⟨_, placeholder 0, mask_enquote_append token ordinary, rfl, standsFor_placeholder rfl,
      .inl ⟨needed, fun _ => Filter.not_isBlank_of_mem_placeholder⟩⟩
  · have plain : ∀ c ∈ token ++ tail, Ordinary c := by
      intro c member
      rcases List.mem_append.mp member with member | member
      · obtain ⟨notEscape, notQuote⟩ := bare_of_not_needsQuotes needed c member
        refine ⟨notEscape, notQuote, ?_⟩
        rintro rfl
        exact needed (quoted member)
      · exact ordinary c member
    rw [writeToken, if_neg needed]
    exact ⟨_, token, mask_plain plain, rfl, standsFor_bare _ needed, .inr ⟨needed, rfl⟩⟩

/-- Reading stops at a NUL, wherever the text stands. -/
def Stops (t : Text) : Prop := ∀ position, ∃ stop, Atom.scan position t = .error (.controlCharacter stop)

theorem Stops.readList {B : Type} (read : Masked → Text → Except SyntaxError (Option B)) {t : Text} (stops : Stops t) :
    ∃ stop, readList read t = .error (.controlCharacter stop) := by
  obtain ⟨stop, failed⟩ := stops 0
  refine ⟨stop, ?_⟩
  rw [Literal.readList, Literal.mask, failed]
  rfl

theorem stops_bare_append {t : Text} (bare : ∀ c ∈ t, c ≠ escape ∧ c ≠ quote) (held : sentinel ∈ t) (r : Text) :
    Stops (t ++ r) := by
  induction t with
  | nil => cases held
  | cons c t ih =>
    intro position
    by_cases isSentinel : c = sentinel
    · rw [isSentinel]
      exact ⟨position, Atom.scan_sentinel position (t ++ r)⟩
    · obtain ⟨notEscape, notQuote⟩ := bare c List.mem_cons_self
      have later : sentinel ∈ t := (List.mem_cons.mp held).resolve_left (Ne.symm isSentinel)
      obtain ⟨stop, failed⟩ := ih (fun d member => bare d (List.mem_cons_of_mem _ member)) later (position + c.utf8Size)
      refine ⟨stop, ?_⟩
      rw [List.cons_append, Atom.scan_plain ⟨notEscape, notQuote, isSentinel⟩, failed]
      rfl

/-- Reading goes through a text and stops behind it, also if a backslash ends the text. -/
theorem Spells.stops_append_cons {c : Char} (ordinary : Ordinary c) {t u : Text} {atoms : List Atom}
    (h : Spells t atoms) (stops : Stops u) : Stops (t ++ c :: u) := by
  induction h with
  | nil =>
    intro position
    obtain ⟨stop, failed⟩ := stops (position + c.utf8Size)
    exact ⟨stop, by rw [List.nil_append, Atom.scan_plain ordinary, failed]; rfl⟩
  | bareEscape =>
    intro position
    obtain ⟨stop, failed⟩ := stops (position + escape.utf8Size + c.utf8Size)
    exact ⟨stop, by rw [List.cons_append, List.nil_append, Atom.scan_escaped, failed]; rfl⟩
  | escaped d rest ih =>
    intro position
    obtain ⟨stop, failed⟩ := ih (position + escape.utf8Size + d.utf8Size)
    exact ⟨stop, by rw [List.cons_append, List.cons_append, Atom.scan_escaped, failed]; rfl⟩
  | @plain d _ _ ordinary rest ih =>
    intro position
    obtain ⟨stop, failed⟩ := ih (position + d.utf8Size)
    exact ⟨stop, by rw [List.cons_append, Atom.scan_plain ordinary, failed]; rfl⟩
  | @literal inner content t _ quoted rest ih =>
    intro position
    obtain ⟨stop, failed⟩ := ih (position + Text.byteSize (quote :: (inner ++ [quote])))
    refine ⟨stop, ?_⟩
    rw [List.cons_append, List.append_assoc, List.cons_append, scan_literal_append quoted, failed]
    rfl

theorem stops_writeToken {token : Text} (bare : ¬ NeedsQuotes token) (held : sentinel ∈ token) (r : Text) :
    Stops (writeToken token ++ r) := by
  rw [writeToken, if_neg bare]
  exact stops_bare_append (bare_of_not_needsQuotes bare) held r

section
variable {B : Type} {read : Masked → Text → Except SyntaxError (Option B)} {write : B → Text} {items : List B}

theorem readList_single {t : Text} {m : Masked} (masked : mask t = .ok m) (single : comma ∉ m.text) :
    readList read t = (read m m.text).map Option.toList := by
  rw [readList, masked]
  simp only [bind, Except.bind, List.splitOn_eq_singleton single, List.mapM_cons, List.mapM_nil]
  cases read m m.text with
  | error e => rfl
  | ok item => cases item <;> rfl

private theorem intercalate_written (b d : B) (items : List B) :
    [comma].intercalate ((b :: d :: items).map write) = write b ++ comma :: [comma].intercalate ((d :: items).map write) := by
  simp [List.intercalate_cons_cons]

private theorem exists_mask_written (masked : ∀ b ∈ items, ∃ m, mask (write b) = .ok m) :
    ∃ m, mask ([comma].intercalate (items.map write)) = .ok m := by
  induction items with
  | nil => exact ⟨⟨[], []⟩, rfl⟩
  | cons b items ih =>
    obtain ⟨first, here⟩ := masked b List.mem_cons_self
    obtain ⟨others, rest⟩ := ih fun d member => masked d (List.mem_cons_of_mem _ member)
    cases items with
    | nil => exact ⟨first, by simpa using here⟩
    | cons d items =>
      obtain ⟨atoms, spelled, -⟩ := mask_eq_ok_iff.mp here
      obtain ⟨more, spelled', -⟩ := mask_eq_ok_iff.mp rest
      obtain ⟨both, whole, -⟩ := Spells.append_cons (c := comma) (by decide) spelled spelled'
      rw [intercalate_written]
      exact ⟨_, mask_eq_ok_iff.mpr ⟨both, whole, rfl⟩⟩

/-- Written items are read one after the other, up to the first one with a flaw. -/
theorem readList_written (reads : ReadsAlike read) (blank : readList read [] = .ok [])
    (flaw? : B → Option SyntaxError) (masked : ∀ b ∈ items, ∃ m, mask (write b) = .ok m)
    (each : ∀ b ∈ items, readList read (write b) = (flaw? b).elim (.ok [b]) .error) :
    readList read ([comma].intercalate (items.map write)) = (items.findSome? flaw?).elim (.ok items) .error := by
  induction items with
  | nil => exact blank
  | cons b items ih =>
    have here := each b List.mem_cons_self
    have maskedRest : ∀ d ∈ items, ∃ m, mask (write d) = .ok m := fun d member => masked d (List.mem_cons_of_mem _ member)
    have rest := ih maskedRest fun d member => each d (List.mem_cons_of_mem _ member)
    rw [List.findSome?_cons]
    cases items with
    | nil =>
      rw [List.map_cons, List.map_nil, List.intercalate_singleton, here]
      cases flaw? b <;> rfl
    | cons d items =>
      obtain ⟨m, maskedHere⟩ := masked b List.mem_cons_self
      obtain ⟨others, maskedThere⟩ := exists_mask_written maskedRest
      rw [intercalate_written, readList_append reads maskedHere maskedThere, here, rest]
      cases flaw? b with
      | some e => rfl
      | none => cases (d :: items).findSome? flaw? <;> rfl

/-- One item with a NUL outside of quotes stops the reading of the list. -/
theorem stops_written (each : ∀ b ∈ items, (∃ m, mask (write b) = .ok m) ∨ ∀ r, Stops (write b ++ r))
    (stopping : ∃ b ∈ items, ∀ r, Stops (write b ++ r)) : Stops ([comma].intercalate (items.map write)) := by
  induction items with
  | nil =>
    obtain ⟨b, member, -⟩ := stopping
    cases member
  | cons b items ih =>
    have whole : ∃ r, [comma].intercalate ((b :: items).map write) = write b ++ r := by
      cases items with
      | nil => exact ⟨[], by simp⟩
      | cons d items => exact ⟨_, intercalate_written b d items⟩
    rcases each b List.mem_cons_self with ⟨m, masked⟩ | here
    · obtain ⟨s, member, stops⟩ := stopping
      rcases List.mem_cons.mp member with rfl | member
      · obtain ⟨r, same⟩ := whole
        rw [same]
        exact stops r
      · obtain ⟨d, items, rfl⟩ := List.exists_cons_of_ne_nil (List.ne_nil_of_mem member)
        obtain ⟨atoms, spelled, -⟩ := mask_eq_ok_iff.mp masked
        have rest := ih (fun d member => each d (List.mem_cons_of_mem _ member)) ⟨s, member, stops⟩
        rw [intercalate_written]
        exact spelled.stops_append_cons (c := comma) (by decide) rest
    · obtain ⟨r, same⟩ := whole
      rw [same]
      exact here r

end

end Literal

/-! ## Options -/

namespace Options

open Literal (NeedsQuotes sentinel)

/-- A written token is read as that token. -/
theorem parse_writeToken {token : Text} (quoted : sentinel ∈ token → NeedsQuotes token) :
    (∃ m, Literal.mask (Literal.writeToken token) = .ok m) ∧
      Literal.readList readToken (Literal.writeToken token) = .ok [token] := by
  obtain ⟨m, w, masked, text, stands, -⟩ := Literal.exists_standsFor quoted [] (by simp)
  rw [List.append_nil] at masked text
  refine ⟨⟨m, masked⟩, ?_⟩
  rw [Literal.readList_single masked (text ▸ stands.single), text, readToken, stands.trimmed.trim_eq_self,
    if_neg stands.nonempty, stands.reveals]
  rfl

/-- Written options are read as the same options exactly if every option with a NUL is written in quotes. If one is
    not, they are rejected for the NUL. -/
theorem parse_render_tokens_iff (tokens : List Text) :
    (dialect.parse (dialect.render tokens) = .ok tokens ↔ ∀ token ∈ tokens, sentinel ∈ token → NeedsQuotes token) ∧
      ((∃ token ∈ tokens, sentinel ∈ token ∧ ¬ NeedsQuotes token) →
        ∃ position, dialect.parse (dialect.render tokens) = .error (.controlCharacter position)) := by
  have rejected : (∃ token ∈ tokens, sentinel ∈ token ∧ ¬ NeedsQuotes token) →
      ∃ position, dialect.parse (dialect.render tokens) = .error (.controlCharacter position) := by
    rintro ⟨token, member, held, bare⟩
    have stops : Literal.Stops (render tokens) := by
      refine Literal.stops_written (fun token _ => ?_) ⟨token, member, Literal.stops_writeToken bare held⟩
      by_cases overlooked : sentinel ∈ token ∧ ¬ NeedsQuotes token
      · exact .inr (Literal.stops_writeToken overlooked.2 overlooked.1)
      · exact .inl (parse_writeToken (by simpa using overlooked)).1
    obtain ⟨position, failed⟩ := stops.readList readToken
    exact ⟨position, (parse_eq_readList _).trans failed⟩
  refine ⟨⟨fun again token member held => ?_, fun quoted => ?_⟩, rejected⟩
  · by_contra bare
    obtain ⟨position, failed⟩ := rejected ⟨token, member, held, bare⟩
    cases again.symm.trans failed
  · have written : Literal.readList readToken (render tokens) = (tokens.findSome? fun _ => none).elim (.ok tokens) .error :=
      Literal.readList_written readsAlike_readToken rfl (fun _ => none)
        (fun token member => (parse_writeToken (quoted token member)).1)
        (fun token member => (parse_writeToken (quoted token member)).2)
    rw [List.findSome?_eq_none_iff.mpr fun _ _ => rfl] at written
    exact (parse_eq_readList _).trans written

private def controlled : Text := "'a\x00b',c".toList

/-- In quotes a NUL is part of an option; the option is written without quotes, and is rejected. -/
theorem not_parse_render_controlled :
    dialect.parse controlled = .ok ["a\x00b".toList, ['c']] ∧
      dialect.parse (dialect.render ["a\x00b".toList, ['c']]) ≠ .ok ["a\x00b".toList, ['c']] ∧
        ∃ position, dialect.parse (dialect.render ["a\x00b".toList, ['c']]) = .error (.controlCharacter position) := by
  have bare : ¬ NeedsQuotes "a\x00b".toList := by decide
  have held : sentinel ∈ "a\x00b".toList := by decide
  obtain ⟨again, rejected⟩ := parse_render_tokens_iff ["a\x00b".toList, ['c']]
  refine ⟨by decide +kernel, fun same => ?_, rejected ⟨_, List.mem_cons_self, held, bare⟩⟩
  exact bare (again.mp same _ List.mem_cons_self held)

end Options

end Criteria

/-! ## Sort orders -/

namespace Criteria.Sort

open Literal (Masked NeedsQuotes sentinel)
open Text (isBlank)

private theorem plain_direction (d : Direction) :
    d.word ≠ [] ∧ (∀ c ∈ d.word, ¬ isBlank c) ∧ (∀ c ∈ ' ' :: d.word, Literal.Ordinary c) ∧
      Literal.comma ∉ ' ' :: d.word := by
  cases d <;> decide

/-- What is said about a key whose field holds a blank that does not stand in quotes. -/
private def Key.flaw? (k : Key) : Option SyntaxError :=
  if k.field.any isBlank ∧ ¬ NeedsQuotes k.field then some (.overlongSortKey k.render) else none

private theorem Key.flaw?_eq_none_iff {k : Key} :
    k.flaw? = none ↔ ((∃ c ∈ k.field, isBlank c) → NeedsQuotes k.field) := by
  rw [Key.flaw?, ← List.any_eq_true]
  split
  · rename_i flaw
    exact ⟨nofun, fun quoted => absurd (quoted flaw.1) flaw.2⟩
  · rename_i sound
    exact ⟨fun _ blank => Decidable.not_not.mp fun bare => sound ⟨blank, bare⟩, fun _ => rfl⟩

private theorem Key.flaw?_eq_some {k : Key} {e : SyntaxError} (flawed : k.flaw? = some e) :
    e = .overlongSortKey k.render ∧ (∃ c ∈ k.field, isBlank c) ∧ ¬ NeedsQuotes k.field := by
  rw [Key.flaw?] at flawed
  rw [← List.any_eq_true]
  split at flawed
  · rename_i flaw
    exact ⟨(Option.some.inj flawed).symm, flaw⟩
  · cases flawed

private theorem exists_words_of_blank {field : Text} (trimmed : Text.Trimmed field) (blank : field.any isBlank) :
    ∃ v u rest, Text.words field = v :: u :: rest := by
  obtain ⟨b, member, divides⟩ := List.any_eq_true.mp blank
  obtain ⟨x, y, rfl⟩ := List.append_of_mem member
  have front : Text.words x ≠ [] := by
    intro none
    cases x with
    | nil => exact trimmed.1 b rfl divides
    | cons c x => exact trimmed.1 c rfl (Text.words_eq_nil_iff.mp none c List.mem_cons_self)
  have back : Text.words y ≠ [] := by
    intro none
    refine trimmed.2 ((b :: y).getLast (List.cons_ne_nil b y)) ?_ ?_
    · rw [List.getLast?_append, List.getLast?_eq_some_getLast (List.cons_ne_nil b y), Option.some_or, Option.mem_some_iff]
    · rcases List.mem_cons.mp (List.getLast_mem (List.cons_ne_nil b y)) with last | last
      · rwa [last]
      · exact Text.words_eq_nil_iff.mp none _ last
  rw [Text.words_append_blank divides]
  obtain ⟨v, vs, first⟩ := List.exists_cons_of_ne_nil front
  obtain ⟨u, us, second⟩ := List.exists_cons_of_ne_nil back
  rw [first, second]
  cases vs with
  | nil => exact ⟨v, u, us, rfl⟩
  | cons w vs => exact ⟨v, w, vs ++ u :: us, rfl⟩

private theorem readKey_flawed (m : Masked) {k : Key} (blank : k.field.any isBlank) (bare : ¬ NeedsQuotes k.field) :
    readKey m k.render = .error (.overlongSortKey k.render) := by
  obtain ⟨nonempty, solid, ordinary, -⟩ := plain_direction k.direction
  have stands := Literal.standsFor_bare m bare
  have whole : k.render = k.field ++ ' ' :: k.direction.word := by
    rw [Key.render, Literal.writeToken, if_neg bare]
  have trimmed : Text.Trimmed k.render := by
    rw [whole]
    constructor
    · intro c head
      refine stands.trimmed.1 c ?_
      rwa [List.head?_append_of_ne_nil _ stands.nonempty] at head
    · intro c last
      refine solid c (List.mem_of_getLast? ?_)
      rwa [List.getLast?_append, List.getLast?_cons, List.getLast?_eq_some_getLast nonempty, Option.getD_some,
        Option.some_or, ← List.getLast?_eq_some_getLast nonempty] at last
  have restored : m.restore k.render = k.render := by
    refine m.restore_bare fun c member => ?_
    rw [whole] at member
    rcases List.mem_append.mp member with member | member
    · exact Literal.bare_of_not_needsQuotes bare c member
    · exact ⟨(ordinary c member).1, (ordinary c member).2.1⟩
  obtain ⟨v, u, rest, divided⟩ := exists_words_of_blank stands.trimmed blank
  have words : Text.words k.render = v :: u :: (rest ++ [k.direction.word]) := by
    rw [whole, Text.words_append_space, Text.words_eq_singleton nonempty solid, divided]
    rfl
  rw [readKey.eq_def, words, trimmed.trim_eq_self, restored]
  cases rest <;> rfl

/-- A written key is read as that key, unless its field holds a blank that does not stand in quotes. -/
theorem parse_render_key {k : Key} (quoted : sentinel ∈ k.field → NeedsQuotes k.field) :
    (∃ m, Literal.mask k.render = .ok m) ∧ parse k.render = k.flaw?.elim (.ok [k]) .error := by
  obtain ⟨nonempty, solid, ordinary, single⟩ := plain_direction k.direction
  obtain ⟨m, w, masked, text, stands, form⟩ := Literal.exists_standsFor quoted _ ordinary
  refine ⟨⟨m, masked⟩, ?_⟩
  have apart : Literal.comma ∉ m.text := by
    rw [text, List.mem_append, not_or]
    exact ⟨stands.single, single⟩
  have words : Text.words m.text = Text.words w ++ [k.direction.word] := by
    rw [text, Text.words_append_space, Text.words_eq_singleton nonempty solid]
  rw [parse_eq_readList, Key.render, Literal.readList_single masked apart]
  by_cases flawed : k.field.any isBlank ∧ ¬ NeedsQuotes k.field
  · rcases form with ⟨needed, -⟩ | ⟨bare, same⟩
    · exact absurd needed flawed.2
    · have written : m.text = k.render := by
        rw [text, same, Key.render, Literal.writeToken, if_neg bare]
      rw [written, readKey_flawed m flawed.1 bare, Key.flaw?, if_pos flawed]
      rfl
  · have single : Text.words w = [w] := by
      refine Text.words_eq_singleton stands.nonempty ?_
      rcases form with ⟨-, solid⟩ | ⟨bare, same⟩
      · exact solid
      · intro c member blank
        rw [same] at member
        exact flawed ⟨List.any_eq_true.mpr ⟨c, member, blank⟩, bare⟩
    rw [readKey.eq_def, words, single, Key.flaw?, if_neg flawed]
    simp only [List.cons_append, List.nil_append, readDirection, Direction.ofWord?_word, stands.reveals]
    rfl

private theorem stops_render {keys : List Key} {k : Key} (member : k ∈ keys) (held : sentinel ∈ k.field)
    (bare : ¬ NeedsQuotes k.field) : Literal.Stops (render keys) := by
  have stops {k : Key} (held : sentinel ∈ k.field) (bare : ¬ NeedsQuotes k.field) (r : Text) :
      Literal.Stops (k.render ++ r) := by
    rw [Key.render, List.append_assoc]
    exact Literal.stops_writeToken bare held _
  refine Literal.stops_written (fun k _ => ?_) ⟨k, member, stops held bare⟩
  by_cases overlooked : sentinel ∈ k.field ∧ ¬ NeedsQuotes k.field
  · exact .inr (stops overlooked.1 overlooked.2)
  · exact .inl (parse_render_key (by simpa using overlooked)).1

private theorem parse_render_of_quoted {keys : List Key} (quoted : ∀ k ∈ keys, sentinel ∈ k.field → NeedsQuotes k.field) :
    parse (render keys) = (keys.findSome? Key.flaw?).elim (.ok keys) .error := by
  rw [parse_eq_readList]
  exact Literal.readList_written readsAlike_readKey rfl Key.flaw?
    (fun k member => (parse_render_key (quoted k member)).1) (fun k member => (parse_render_key (quoted k member)).2)

/-- Written sort keys are read as the same keys exactly if every field with a NUL or a blank is written in quotes.
    If one is not, they are rejected for the NUL, or for a key of too many words. -/
theorem parse_render_keys_iff (keys : List Key) :
    (parse (render keys) = .ok keys ↔
        ∀ k ∈ keys, (∃ c ∈ k.field, c = sentinel ∨ isBlank c) → NeedsQuotes k.field) ∧
      ((∃ k ∈ keys, (∃ c ∈ k.field, c = sentinel ∨ isBlank c) ∧ ¬ NeedsQuotes k.field) →
        (∃ position, parse (render keys) = .error (.controlCharacter position)) ∨
          ∃ k ∈ keys, parse (render keys) = .error (.overlongSortKey k.render)) := by
  by_cases stopping : ∃ k ∈ keys, sentinel ∈ k.field ∧ ¬ NeedsQuotes k.field
  · obtain ⟨k, member, held, bare⟩ := stopping
    obtain ⟨position, rejected⟩ := (stops_render member held bare).readList readKey
    rw [← parse_eq_readList] at rejected
    refine ⟨⟨fun again => ?_, fun quoted => ?_⟩, fun _ => .inl ⟨position, rejected⟩⟩
    · cases again.symm.trans rejected
    · exact absurd (quoted k member ⟨sentinel, held, .inl rfl⟩) bare
  · have quoted : ∀ k ∈ keys, sentinel ∈ k.field → NeedsQuotes k.field := by simpa using stopping
    rw [parse_render_of_quoted quoted]
    cases flawed : keys.findSome? Key.flaw? with
    | none =>
      have covered : ∀ k ∈ keys, (∃ c ∈ k.field, c = sentinel ∨ isBlank c) → NeedsQuotes k.field := by
        rintro k member ⟨c, inside, rfl | blank⟩
        · exact quoted k member inside
        · exact Key.flaw?_eq_none_iff.mp (List.findSome?_eq_none_iff.mp flawed k member) ⟨c, inside, blank⟩
      refine ⟨⟨fun _ => covered, fun _ => rfl⟩, ?_⟩
      rintro ⟨k, member, special, bare⟩
      exact absurd (covered k member special) bare
    | some e =>
      obtain ⟨k, member, found⟩ := List.exists_of_findSome?_eq_some flawed
      obtain ⟨rfl, ⟨c, inside, blank⟩, bare⟩ := Key.flaw?_eq_some found
      refine ⟨⟨nofun, fun quoted => ?_⟩, fun _ => .inr ⟨k, member, rfl⟩⟩
      exact absurd (quoted k member ⟨c, inside, .inr blank⟩) bare

private def spaced : Text := "'a b' desc".toList

/-- In quotes a blank is part of a field; the field is written without quotes, and the key has a word too many. -/
theorem not_parse_render_spaced :
    parse spaced = .ok [⟨"a b".toList, .desc⟩] ∧
      parse (render [⟨"a b".toList, .desc⟩]) ≠ .ok [⟨"a b".toList, .desc⟩] ∧
        parse (render [⟨"a b".toList, .desc⟩]) = .error (.overlongSortKey "a b desc".toList) := by
  have bare : ¬ NeedsQuotes "a b".toList := by decide
  refine ⟨by decide +kernel, fun same => ?_, by decide +kernel⟩
  exact bare ((parse_render_keys_iff _).1.mp same _ List.mem_cons_self ⟨' ', by decide, .inr (by decide)⟩)

end Criteria.Sort
