import Criteria.Dialects
import Criteria.Param
import Criteria.Proofs.Filter.Simulation
import Criteria.Proofs.Literal.Atom

/-!
# Merged texts

A merged text holds both texts in brackets. Its masked form is put together from theirs, with the
literals of the second text numbered after those of the first. If the brackets of both pair up, then it
has one group for each, and the groups are read as the texts are on their own.

So a merged text is read as the merged parts of its halves, whatever literals and groups they have. The one
thing that meets the brackets around a half is its end: a backslash that escapes nothing there escapes
the bracket behind it.
-/

namespace Criteria.Filter

open Literal (Masked EndsInEscape)

theorem mergeTexts_eq (x y : Text) :
    mergeTexts x y = '(' :: (x ++ ')' :: (Connector.between .and ++ '(' :: (y ++ [')']))) := by
  simp [mergeTexts]

theorem mask_mergeTexts {u v : Text} {atoms others : List Literal.Atom} (h : Literal.Spells u atoms)
    (h' : Literal.Spells v others) :
    Literal.mask (mergeTexts u v) = .ok
      ⟨mergeTexts (Literal.maskFrom 0 atoms)
          (Literal.maskFrom (atoms.filterMap Literal.Atom.content?).length others),
        atoms.filterMap Literal.Atom.content? ++ others.filterMap Literal.Atom.content?⟩ := by
  have closing : Literal.Ordinary ')' := by decide
  obtain ⟨back, spelledBack, maskedBack, contentsBack⟩ := h'.append_cons closing .nil
  have opened : Literal.Spells _ (.plain '(' :: back) := .plain (by decide) spelledBack
  have middle := opened.plain_append (w := Connector.between .and) (by decide)
  obtain ⟨both, spelled, masked, contents⟩ := h.append_cons closing middle
  rw [Literal.mask_eq_ok_iff]
  refine ⟨.plain '(' :: both, by rw [mergeTexts_eq]; exact .plain (by decide) spelled, ?_⟩
  rw [Literal.Masked.ofAtoms, mergeTexts_eq, Literal.maskFrom, masked, Literal.maskFrom_plain_append, Nat.zero_add,
    Literal.maskFrom, maskedBack, List.filterMap_cons_none rfl, contents, Literal.contents_plain_append,
    List.filterMap_cons_none rfl, contentsBack]
  simp [Literal.maskFrom]

private theorem ne_escape_of_mem_placeholder {n : Nat} {c : Char} (member : c ∈ Literal.placeholder n) :
    c ≠ Literal.escape :=
  (Alike.bare_of_mem_placeholder member).1

/-- Masking keeps the end of a text. -/
theorem whole_maskFrom_iff {t : Text} {atoms : List Literal.Atom} (h : Literal.Spells t atoms) (n : Nat) :
    Token.Whole (Literal.maskFrom n atoms) ↔ ¬ EndsInEscape t := by
  induction h generalizing n with
  | nil => exact ⟨fun _ => Literal.not_endsInEscape_nil, fun _ => .nil⟩
  | bareEscape =>
    exact ⟨fun whole => absurd whole Token.not_whole_bareEscape, fun ended => absurd Literal.endsInEscape_bareEscape ended⟩
  | escaped c _ ih => rw [Literal.maskFrom, Token.whole_escaped_iff, ih, Literal.endsInEscape_escaped_iff]
  | plain ordinary _ ih =>
    rw [Literal.maskFrom, Token.whole_cons_iff ordinary.1, ih, Literal.endsInEscape_cons_iff ordinary.1]
  | literal _ _ ih =>
    rw [Literal.maskFrom, Token.whole_bare_append_iff fun c => ne_escape_of_mem_placeholder, ih,
      Literal.endsInEscape_literal_iff]

theorem opening_mem_mergeTexts (x y : Text) : '(' ∈ mergeTexts x y := by
  rw [mergeTexts_eq]
  exact List.mem_cons_self

private theorem bare_between : ∀ c ∈ Connector.between .and, c ≠ Literal.escape ∧ c ≠ '(' ∧ c ≠ ')' := by
  decide

theorem ofMasked_mergeTexts {x y : Text} (wholeX : Token.Whole x) (wholeY : Token.Whole y)
    (balancedX : Token.Balanced (Token.ofMasked x)) (balancedY : Token.Balanced (Token.ofMasked y))
    (trimmedX : Text.trim x = x) (trimmedY : Text.trim y = y) :
    Segment.ofMasked (mergeTexts x y) = .ok [.group x, .text Connector.and.word, .group y] := by
  have insideX := Segment.scan_inside wholeX balancedX 0
  have insideY := Segment.scan_inside wholeY balancedY 0
  have atEnd : Segment.scan 0 [] = .ok ([], []) := rfl
  have none : Segment.ofText [] = [] := by decide
  have middle : Segment.ofText (Connector.between .and ++ []) = [.text Connector.and.word] := by decide
  rw [mergeTexts_eq, Segment.ofMasked, Segment.scan_opening, insideX, Segment.scan_closing_one,
    Segment.scan_append bare_between, Segment.scan_opening, insideY, Segment.scan_closing_one, atEnd]
  simp only [Except.map, List.append_nil, none, trimmedX, trimmedY]
  rw [List.append_nil] at middle
  rw [middle]
  rfl

/-- The brackets that a merged text leaves open: those that its texts leave open, and the one before each
    text whose last backslash takes the bracket behind it. -/
theorem nest_mergeTexts {x y : Text} [Decidable (Token.Whole x)] [Decidable (Token.Whole y)] {n k : Nat}
    (nestedX : Token.nest 0 (Token.ofMasked x) = some n) (nestedY : Token.nest 0 (Token.ofMasked y) = some k) :
    Token.nest 0 (Token.ofMasked (mergeTexts x y)) =
      some ((n + if Token.Whole x then 0 else 1) + (k + if Token.Whole y then 0 else 1)) := by
  rw [mergeTexts_eq, Token.nest_opening, Token.nest_append_closing nestedX, Token.nest_bare_append bare_between,
    Token.nest_opening, Token.nest_append_closing nestedY, Token.ofMasked_nil, Token.nest, Nat.zero_add]

/-- If the brackets of a merged text pair up and those of both texts do, then neither text ends with a
    backslash that would take a bracket of the merged text with it. -/
theorem whole_of_balanced {x y : Text} (balancedX : Token.Balanced (Token.ofMasked x))
    (balancedY : Token.Balanced (Token.ofMasked y))
    (balanced : Token.Balanced (Token.ofMasked (mergeTexts x y))) : Token.Whole x ∧ Token.Whole y := by
  classical
  rw [Token.Balanced, nest_mergeTexts balancedX balancedY, Option.some.injEq, Nat.add_eq_zero_iff] at balanced
  simpa using balanced

/-! ## Reading a merged text -/

private theorem word_ne_mark (c : Connector) (n : Nat) : c.word ≠ GroupTable.mark n := by
  intro same
  have head := c.head?_word_ne_sentinel
  rw [same] at head
  exact head rfl

private theorem yields_readFlat_marks (m : Masked) {i j : Nat} (apart : i ≠ j) {p q : List Part} {g : GroupTable}
    (first : g[i]? = some (some p)) (second : g[j]? = some (some q)) :
    Yields (readFlat m ([' '].intercalate [GroupTable.mark i, Connector.and.word, GroupTable.mark j])) g
      (group .and (p ++ q)) ((g.set i none).set j none) := by
  have written : [' '].intercalate [GroupTable.mark i, Connector.and.word, GroupTable.mark j] =
      GroupTable.mark i ++ Connector.between .and ++ GroupTable.mark j := by
    simp [Connector.between]
  have words : Text.words (GroupTable.mark i ++ Connector.between .and ++ GroupTable.mark j) =
      [GroupTable.mark i, Connector.and.word, GroupTable.mark j] := by
    have divided := Text.words_append_between Connector.and.word_ne_nil Connector.and.solid_word
      (GroupTable.mark i) (GroupTable.mark j)
    rw [words_mark, words_mark] at divided
    exact divided
  have noOr : Connector.or.word ∉ Text.words (GroupTable.mark i ++ Connector.between .and ++ GroupTable.mark j) := by
    rw [words]
    simp only [List.mem_cons, List.not_mem_nil, word_ne_mark, or_false, false_or]
    decide
  have absent (n : Nat) : Connector.and.word ∉ Text.words (GroupTable.mark n) := by
    simp [words_mark, word_ne_mark]
  have whole : Text.cut (Connector.between .or) (GroupTable.mark i ++ Connector.between .and ++ GroupTable.mark j) =
      [GroupTable.mark i ++ Connector.between .and ++ GroupTable.mark j] :=
    Text.cut_eq_singleton (Text.not_infix_of_not_mem_words Connector.or.word_ne_nil Connector.or.solid_word noOr)
  have halves : Text.cut (Connector.between .and) (GroupTable.mark i ++ Connector.between .and ++ GroupTable.mark j) =
      [GroupTable.mark i, GroupTable.mark j] := by
    have last := Text.cut_eq_singleton (Text.not_infix_of_not_mem_words Connector.and.word_ne_nil
      Connector.and.solid_word (absent j))
    refine (Text.cut_word Connector.and.word_ne_nil Connector.and.solid_word (absent i) _).trans ?_
    exact congrArg (_ :: ·) last
  have take {g : GroupTable} {n : Nat} {parts : List Part} (held : g[n]? = some (some parts)) :
      Yields (readCondition m (GroupTable.mark n)) g parts (g.set n none) := by
    rw [yields_readCondition_single_iff (words_mark n), GroupTable.yields_take?_some_iff]
    exact ⟨n, GroupTable.markNumber?_mark n, held, rfl⟩
  have later : (g.set i none)[j]? = some (some q) := by rw [List.getElem?_set_ne apart, second]
  rw [written, readFlat, yields_bind_iff]
  refine ⟨[group .and (p ++ q)], (g.set i none).set j none, ?_, yields_pure_iff.mpr ⟨rfl, rfl⟩⟩
  rw [whole, yields_mapM_cons_iff]
  refine ⟨_, _, [], rfl, ?_, yields_mapM_nil_iff.mpr ⟨rfl, rfl⟩⟩
  rw [halves, yields_bind_iff]
  refine ⟨[p, q], (g.set i none).set j none, ?_, yields_pure_iff.mpr ⟨by simp [join], rfl⟩⟩
  rw [yields_mapM_cons_iff]
  refine ⟨p, g.set i none, [q], rfl, take first, ?_⟩
  rw [yields_mapM_cons_iff]
  exact ⟨q, _, [], rfl, take later, yields_mapM_nil_iff.mpr ⟨rfl, rfl⟩⟩

/-- A reading leaves the groups before its own where they are. -/
def KeepsTable (x : Reading (List Part)) : Prop :=
  ∀ g parts h, Yields x g parts h → ∃ new : GroupTable, h = g ++ new

/-- A text of two groups with `and` between them is read as the group of what they hold. -/
theorem yields_mergeTexts_iff {m : Masked} {x y : Text} {parts : List Part}
    (divided : Segment.ofMasked (mergeTexts x y) = .ok [.group x, .text Connector.and.word, .group y])
    (keeps : KeepsTable (readText m y)) :
    (∃ g', Yields (readText m (mergeTexts x y)) [] parts g') ↔
      ∃ p q g₁ g₂, Yields (readText m x) [] p g₁ ∧ Yields (readText m y) (g₁ ++ [some p]) q g₂ ∧
        parts = group .and (p ++ q) := by
  have joined {p q : List Part} {g₁ new : GroupTable} {g' : GroupTable} {parts : List Part} :
      Yields (readFlat m ([' '].intercalate [GroupTable.mark g₁.length, Connector.and.word,
          GroupTable.mark (g₁ ++ [some p] ++ new).length])) (g₁ ++ [some p] ++ new ++ [some q]) parts g' ↔
        parts = group .and (p ++ q) ∧
          g' = ((g₁ ++ [some p] ++ new ++ [some q]).set g₁.length none).set (g₁ ++ [some p] ++ new).length none := by
    have read := yields_readFlat_marks m (i := g₁.length) (j := (g₁ ++ [some p] ++ new).length) (p := p) (q := q)
      (g := g₁ ++ [some p] ++ new ++ [some q]) (by simp) (by simp) (by simp)
    rw [Yields] at read ⊢
    rw [read, Prod.mk.injEq, Except.ok.injEq, eq_comm, @eq_comm _ g']
  rw [readText_segments (.inl (opening_mem_mergeTexts x y)) divided (by simp)]
  constructor
  · rintro ⟨g', read⟩
    obtain ⟨pieces, h, level, flat⟩ := yields_bind_iff.mp read
    obtain ⟨-, p, g₁, back, readX, afterX, rfl⟩ := yields_readSegments_group_iff.mp level
    obtain ⟨front, next, back, detached, afterWord, rfl⟩ := yields_readSegments_text_iff.mp afterX
    rw [detach_connector] at detached
    cases detached
    obtain ⟨-, q, g₂, back, readY, atEnd, rfl⟩ := yields_readSegments_group_iff.mp afterWord
    obtain ⟨-, rfl, rfl⟩ := yields_readSegments_nil_iff.mp atEnd
    obtain ⟨new, rfl⟩ := keeps _ _ _ readY
    exact ⟨p, q, g₁, _, readX, readY, (joined.mp flat).1⟩
  · rintro ⟨p, q, g₁, g₂, readX, readY, rfl⟩
    obtain ⟨new, rfl⟩ := keeps _ _ _ readY
    have level : Yields (readSegments m true [.group x, .text Connector.and.word, .group y]) []
        [GroupTable.mark g₁.length, Connector.and.word, GroupTable.mark (g₁ ++ [some p] ++ new).length]
        (g₁ ++ [some p] ++ new ++ [some q]) := by
      refine yields_readSegments_group_iff.mpr ⟨rfl, p, g₁, _, readX, ?_, rfl⟩
      refine yields_readSegments_text_iff.mpr ⟨_, true, _, detach_connector .and, ?_, rfl⟩
      refine yields_readSegments_group_iff.mpr ⟨rfl, q, _, [], readY, ?_, rfl⟩
      exact yields_readSegments_nil_iff.mpr ⟨rfl, rfl, rfl⟩
    exact ⟨_, yields_bind_iff.mpr ⟨_, _, level, joined.mpr ⟨rfl, rfl⟩⟩⟩

private theorem exists_trimmed_atoms {t : Text} {m : Masked} (masked : Literal.mask (Text.trim t) = .ok m) :
    ∃ atoms, Literal.Spells (Text.trim t) atoms ∧
      m = ⟨Literal.maskFrom 0 atoms, atoms.filterMap Literal.Atom.content?⟩ ∧
        ∀ n, Text.trim (Literal.maskFrom n atoms) = Literal.maskFrom n atoms := by
  obtain ⟨atoms, spelled, rfl⟩ := Literal.mask_eq_ok_iff.mp masked
  exact ⟨atoms, spelled, rfl, fun n => ((spelled.trimmed_maskFrom_iff n).mpr (Text.trimmed_trim t)).trim_eq_self⟩

/-- Whether the brackets of a text pair up, literals and escapes apart. -/
def BracketsPair (t : Text) : Prop :=
  ∃ m, Literal.mask (Text.trim t) = .ok m ∧ Token.Balanced (Token.ofMasked m.text)

theorem bracketsPair_of_parse {t : Text} {parts : List Part} (nonblank : Text.trim t ≠ []) (h : parse t = .ok parts) :
    BracketsPair t := by
  rcases parse_eq_ok_iff.mp h with ⟨blank, -⟩ | ⟨-, m, g', masked, read⟩
  · exact absurd blank nonblank
  · refine ⟨m, masked, ?_⟩
    by_cases brackets : '(' ∈ m.text ∨ ')' ∈ m.text
    · exact (Segment.ofMasked_isOk_iff m.text).mp (exists_segments_of_yields brackets read)
    · exact Token.balanced_of_bare brackets

private theorem exists_reread {t : Text} {atoms : List Literal.Atom} (spelled : Literal.Spells t atoms) {n n' : Nat}
    {m m' : Masked} (held : m.Holds n atoms) (held' : m'.Holds n' atoms) {base h : GroupTable} {parts : List Part}
    (read : Yields (readText m (Literal.maskFrom n atoms)) base parts h) (base' : GroupTable) :
    ∃ new : GroupTable, Yields (readText m' (Literal.maskFrom n' atoms)) base' parts (base' ++ new) := by
  have compatible := compatible_eq (agree_of_holds held held') (show (Likeness.numbered _ n n').plain ' ' from trivial)
  have tables : TablesAlike (· = ·) base base' base base' := ⟨[], [], by simp, by simp, .nil⟩
  obtain ⟨parts', h', read', rfl, new, new', -, rfl, -⟩ :=
    follows_text compatible (fun _ _ => id) (alike_numbered spelled n n') base base' parts h tables read
  exact ⟨new', read'⟩

theorem keepsTable_maskFrom {t : Text} {atoms : List Literal.Atom} (spelled : Literal.Spells t atoms) {n : Nat}
    {m : Masked} (held : m.Holds n atoms) : KeepsTable (readText m (Literal.maskFrom n atoms)) := by
  intro g parts h read
  obtain ⟨new, again⟩ := exists_reread spelled held held read g
  exact ⟨new, (read.unique again).2⟩

/-- A text is read as its atoms are in any masked text that holds its literals, behind any groups. -/
theorem parse_iff_exists_yields {t : Text} {atoms : List Literal.Atom} (nonblank : Text.trim t ≠ [])
    (spelled : Literal.Spells (Text.trim t) atoms) {n : Nat} {m : Masked} (held : m.Holds n atoms) (base : GroupTable)
    {parts : List Part} :
    parse t = .ok parts ↔ ∃ h, Yields (readText m (Literal.maskFrom n atoms)) base parts h := by
  have masked := Literal.mask_eq_ok_iff.mpr ⟨atoms, spelled, rfl⟩
  have alone := Literal.Masked.holds_ofAtoms atoms
  rw [parse_eq_ok_iff]
  constructor
  · rintro (⟨blank, -⟩ | ⟨-, m', g, masked', read⟩)
    · exact absurd blank nonblank
    · cases masked.symm.trans masked'
      obtain ⟨new, read'⟩ := exists_reread spelled alone held read base
      exact ⟨_, read'⟩
  · rintro ⟨h, read⟩
    obtain ⟨new, read'⟩ := exists_reread spelled held alone read []
    exact .inr ⟨nonblank, _, _, masked, read'⟩

theorem trim_mergeTexts (x y : Text) : Text.trim (mergeTexts x y) = mergeTexts x y := by
  have bracket : ¬ Text.isBlank '(' ∧ ¬ Text.isBlank ')' := by decide
  have trimmed : Text.Trimmed (mergeTexts x y) := by
    constructor
    · intro b head
      obtain rfl : '(' = b := by simpa [mergeTexts_eq] using head
      exact bracket.1
    · intro b last
      obtain rfl : ')' = b := by simpa [mergeTexts_eq, List.getLast?_cons, List.getLast?_append] using last
      exact bracket.2
  exact trimmed.trim_eq_self

/-- If the brackets of two texts pair up, their merged text is read exactly when both are read, and as
    the group of both; only a backslash at the end of one of them takes a bracket of the merged text. -/
theorem parse_mergeTexts_iff {u v : Text} {mu mv : Masked} (nonblankU : Text.trim u ≠ []) (nonblankV : Text.trim v ≠ [])
    (maskedU : Literal.mask (Text.trim u) = .ok mu) (maskedV : Literal.mask (Text.trim v) = .ok mv)
    (balancedU : Token.Balanced (Token.ofMasked mu.text)) (balancedV : Token.Balanced (Token.ofMasked mv.text))
    {parts : List Part} : parse (mergeTexts (Text.trim u) (Text.trim v)) = .ok parts ↔
      Token.Whole mu.text ∧ Token.Whole mv.text ∧
        ∃ pu pv, parse u = .ok pu ∧ parse v = .ok pv ∧ parts = group .and (pu ++ pv) := by
  obtain ⟨atoms, spelledU, rfl, trimmedU⟩ := exists_trimmed_atoms maskedU
  obtain ⟨others, spelledV, rfl, trimmedV⟩ := exists_trimmed_atoms maskedV
  have masked := mask_mergeTexts spelledU spelledV
  have nonempty := List.ne_nil_of_mem (opening_mem_mergeTexts (Text.trim u) (Text.trim v))
  -- the masked text holds the literals of the first text, and behind them those of the second one
  generalize both : Masked.mk _ _ = m at masked
  have heldU : m.Holds 0 atoms := by
    rw [← both]
    exact List.prefix_append _ _
  have heldV : m.Holds (atoms.filterMap Literal.Atom.content?).length others := by
    simp [← both, Literal.Masked.Holds]
  have text := congrArg Masked.text both
  generalize (atoms.filterMap Literal.Atom.content?).length = k at heldV text
  have readsU (g : GroupTable) (parts : List Part) := @parse_iff_exists_yields u atoms nonblankU spelledU 0 m heldU g parts
  have readsV (g : GroupTable) (parts : List Part) := @parse_iff_exists_yields v others nonblankV spelledV k m heldV g parts
  have balancedV' := (alike_numbered spelledV 0 k).balanced (fun _ _ => id) balancedV
  have wholeV' := (whole_maskFrom_iff spelledV 0).trans (whole_maskFrom_iff spelledV k).symm
  have divided (wholeU : Token.Whole (Literal.maskFrom 0 atoms)) (wholeV : Token.Whole (Literal.maskFrom k others)) :=
    ofMasked_mergeTexts wholeU wholeV balancedU balancedV' (trimmedU 0) (trimmedV k)
  have keeps := keepsTable_maskFrom spelledV heldV
  rw [parse_eq_ok_iff, trim_mergeTexts]
  simp only [nonempty, false_and, false_or, ne_eq, not_false_eq_true, true_and, masked, Except.ok.injEq, wholeV']
  constructor
  · rintro ⟨_, g', rfl, read⟩
    rw [← text] at read
    have divisible := exists_segments_of_yields (.inl (opening_mem_mergeTexts _ _)) read
    have balanced := (Segment.ofMasked_isOk_iff _).mp divisible
    obtain ⟨wholeU, wholeV⟩ := whole_of_balanced balancedU balancedV' balanced
    obtain ⟨pu, pv, g₁, g₂, readU, readV, rfl⟩ := (yields_mergeTexts_iff (divided wholeU wholeV) keeps).mp ⟨g', read⟩
    exact ⟨wholeU, wholeV, pu, pv, (readsU _ _).mpr ⟨_, readU⟩, (readsV _ _).mpr ⟨_, readV⟩, rfl⟩
  · rintro ⟨wholeU, wholeV, pu, pv, parsedU, parsedV, rfl⟩
    obtain ⟨g₁, readU⟩ := (readsU [] pu).mp parsedU
    obtain ⟨g₂, readV⟩ := (readsV (g₁ ++ [some pu]) pv).mp parsedV
    obtain ⟨g', read⟩ := (yields_mergeTexts_iff (divided wholeU wholeV) keeps).mpr ⟨pu, pv, _, _, readU, readV, rfl⟩
    exact ⟨m, g', rfl, text ▸ read⟩

/-! ## Added restrictions -/

/-- A text that is not blank demands something. -/
theorem ne_nil_of_parse {t : Text} {parts : List Part} (nonblank : Text.trim t ≠ []) (read : parse t = .ok parts) :
    parts ≠ [] := by
  refine invariant_of_parse (P := (· ≠ [])) read nonblank ?_ ?_
  · intro m field o value _ _ _ _
    unfold compare
    split <;> simp [group]
  · intro c members nonempty all
    unfold join
    split
    · exact all _ List.mem_cons_self
    · simp [group]

/-- A text that is added to a new parameter is read with it. -/
theorem parts_addText {Part Entry : Type} (d : Dialect Part Entry) {u v : Text} (nonblankU : Text.trim u ≠ [])
    (nonblankV : Text.trim v ≠ []) :
    (((Param.ofText u).addText d v).2.parts d).1 = d.parse (d.mergeTexts (Text.trim u) (Text.trim v)) := by
  simp only [Param.addText, Param.ofText, Param.parts, Param.rawParts, nonblankU, nonblankV, if_false]
  cases d.parse (d.mergeTexts (Text.trim u) (Text.trim v)) <;> rfl

/-- If a parameter can be read to which a valid text was added, then the first text is valid and the
    parameter demands both, provided that the brackets of the first text pair up; if they do not, then
    the first text is not valid and the parameter demands something else. -/
theorem addText_binds_iff {u v : Text} {added parts : List Part} (mode : PruneMode) (nonblankU : Text.trim u ≠ [])
    (nonblankV : Text.trim v ≠ []) (read : parse v = .ok added)
    (merged : (((Param.ofText u).addText (dialect mode) v).2.parts (dialect mode)).1 = .ok parts) :
    (∃ first, parse u = .ok first ∧ parts = mergeParts first added ∧
        mergeParts first added = group .and (first ++ added)) ↔ BracketsPair u := by
  constructor
  · rintro ⟨first, readU, -⟩
    exact bracketsPair_of_parse nonblankU readU
  · rintro ⟨mu, maskedU, balancedU⟩
    obtain ⟨mv, maskedV, balancedV⟩ := bracketsPair_of_parse nonblankV read
    rw [parts_addText (dialect mode) nonblankU nonblankV] at merged
    have reading : parse (mergeTexts (Text.trim u) (Text.trim v)) = .ok parts := merged
    obtain ⟨-, -, first, second, readU, readV, rfl⟩ :=
      (parse_mergeTexts_iff nonblankU nonblankV maskedU maskedV balancedU balancedV).mp reading
    cases readV.symm.trans read
    have whole : mergeParts first added = group .and (first ++ added) := by
      rw [mergeParts, if_neg (ne_nil_of_parse nonblankU readU), if_neg (ne_nil_of_parse nonblankV read)]
    exact ⟨first, readU, whole.symm, whole⟩

-- A text that closes a bracket before it opens one, so that the brackets of a merged text pair up with its own.
private def unpaired : Text := "a eq 1) or (b eq 2".toList

private def restriction : Text := "c eq 3".toList

private theorem not_bracketsPair_unpaired : ¬ BracketsPair unpaired := by
  rintro ⟨m, masked, balanced⟩
  have same : Literal.mask (Text.trim unpaired) = .ok ⟨unpaired, []⟩ := by decide +kernel
  cases same.symm.trans masked
  have nested : Token.nest 0 (Token.ofMasked unpaired) = none := by decide +kernel
  cases nested.symm.trans balanced

/-- With unpaired brackets the restriction does not bind: it stands in one of two alternatives. -/
theorem addText_unpaired_not_binding :
    parse restriction = .ok [.leaf ⟨['c'], .eq, .int 3⟩] ∧
      (((Param.ofText unpaired).addText (dialect .emptyGroups) restriction).2.parts (dialect .emptyGroups)).1 = .ok
        [.enter .or, .leaf ⟨['a'], .eq, .int 1⟩, .enter .and, .leaf ⟨['b'], .eq, .int 2⟩,
          .leaf ⟨['c'], .eq, .int 3⟩, .leave .and, .leave .or] ∧
      ¬ ∃ first, parse unpaired = .ok first ∧
        [.enter .or, .leaf ⟨['a'], .eq, .int 1⟩, .enter .and, .leaf ⟨['b'], .eq, .int 2⟩,
          .leaf ⟨['c'], .eq, .int 3⟩, .leave .and, .leave .or] = mergeParts first [.leaf ⟨['c'], .eq, .int 3⟩] ∧
        mergeParts first [.leaf ⟨['c'], .eq, .int 3⟩] = group .and (first ++ [.leaf ⟨['c'], .eq, .int 3⟩]) := by
  have nonblankU : Text.trim unpaired ≠ [] := by
    have trimmed : Text.trim unpaired = unpaired := by decide +kernel
    rw [trimmed]
    exact List.cons_ne_nil _ _
  have nonblankV : Text.trim restriction ≠ [] := by
    have trimmed : Text.trim restriction = restriction := by decide +kernel
    rw [trimmed]
    exact List.cons_ne_nil _ _
  have read : parse restriction = .ok [.leaf ⟨['c'], .eq, .int 3⟩] := by
    rw [parse_eq_parseWithin]
    decide +kernel
  have merged : (((Param.ofText unpaired).addText (dialect .emptyGroups) restriction).2.parts
      (dialect .emptyGroups)).1 = .ok [.enter .or, .leaf ⟨['a'], .eq, .int 1⟩, .enter .and,
        .leaf ⟨['b'], .eq, .int 2⟩, .leaf ⟨['c'], .eq, .int 3⟩, .leave .and, .leave .or] := by
    rw [dialect_eq_parseWithin]
    decide +kernel
  refine ⟨read, merged, ?_⟩
  exact (not_congr (addText_binds_iff .emptyGroups nonblankU nonblankV read merged)).mpr not_bracketsPair_unpaired

/-- The brackets of a text, literals and escapes apart, leave a number of them open. -/
def LeavesOpen (t : Text) (n : Nat) : Prop :=
  ∃ m, Literal.mask t = .ok m ∧ Token.nest 0 (Token.ofMasked m.text) = some n

theorem leavesOpen_nil : LeavesOpen [] 0 := by
  refine ⟨⟨[], []⟩, rfl, ?_⟩
  rw [Token.ofMasked_nil]
  rfl

theorem LeavesOpen.unique {t : Text} {n k : Nat} (h : LeavesOpen t n) (h' : LeavesOpen t k) : n = k := by
  obtain ⟨m, masked, nested⟩ := h
  obtain ⟨m', masked', nested'⟩ := h'
  cases masked.symm.trans masked'
  exact Option.some.inj (nested.symm.trans nested')

/-- A merged text leaves a bracket open if one of its halves does, or ends in a backslash that escapes nothing. -/
theorem LeavesOpen.mergeTexts {a b : Text} {n k : Nat} (first : LeavesOpen a n) (second : LeavesOpen b k) :
    ∃ all, LeavesOpen (mergeTexts a b) all ∧
      (all = 0 ↔ (n = 0 ∧ ¬ EndsInEscape a) ∧ k = 0 ∧ ¬ EndsInEscape b) := by
  classical
  obtain ⟨_, masked, nested⟩ := first
  obtain ⟨_, masked', nested'⟩ := second
  obtain ⟨atoms, spelled, rfl⟩ := Literal.mask_eq_ok_iff.mp masked
  obtain ⟨others, spelled', rfl⟩ := Literal.mask_eq_ok_iff.mp masked'
  have later := ((alike_numbered spelled' 0 (atoms.filterMap Literal.Atom.content?).length).nest_eq
    (fun _ _ => id) 0).symm.trans nested'
  refine ⟨_, ⟨_, mask_mergeTexts spelled spelled', nest_mergeTexts nested later⟩, ?_⟩
  simp [whole_maskFrom_iff spelled, whole_maskFrom_iff spelled']

/-- A text is rejected for a bracket that it leaves open. -/
theorem parse_of_leavesOpen {t : Text} {k : Nat} (h : LeavesOpen (Text.trim t) (k + 1)) :
    parse t = .error .unclosedOpening := by
  have nonblank : Text.trim t ≠ [] := by
    intro blank
    rw [blank] at h
    cases h.unique leavesOpen_nil
  obtain ⟨m, masked, nested⟩ := h
  refine parse_eq_error nonblank masked ?_ (Segment.ofMasked_unclosed nested)
  by_contra bare
  cases nested.symm.trans (Token.balanced_of_bare bare)

private theorem exists_atoms_of_parse {t : Text} {parts : List Part} (nonblank : Text.trim t ≠ [])
    (read : parse t = .ok parts) :
    ∃ atoms, Literal.Spells (Text.trim t) atoms ∧ ∀ n, Token.Balanced (Token.ofMasked (Literal.maskFrom n atoms)) := by
  obtain ⟨m, masked, balanced⟩ := bracketsPair_of_parse nonblank read
  obtain ⟨atoms, spelled, rfl⟩ := Literal.mask_eq_ok_iff.mp masked
  exact ⟨atoms, spelled, fun n => (alike_numbered spelled 0 n).balanced (fun _ _ => id) balanced⟩

private theorem parse_mergeTexts_ended {a b : Text} {atoms others : List Literal.Atom} (spelledA : Literal.Spells a atoms)
    (spelledB : Literal.Spells b others) (balancedA : ∀ n, Token.Balanced (Token.ofMasked (Literal.maskFrom n atoms)))
    (balancedB : ∀ n, Token.Balanced (Token.ofMasked (Literal.maskFrom n others)))
    (ended : EndsInEscape a ∨ EndsInEscape b) : parse (mergeTexts a b) = .error .unclosedOpening := by
  have first : LeavesOpen a 0 := ⟨_, Literal.mask_eq_ok_iff.mpr ⟨atoms, spelledA, rfl⟩, balancedA 0⟩
  have second : LeavesOpen b 0 := ⟨_, Literal.mask_eq_ok_iff.mpr ⟨others, spelledB, rfl⟩, balancedB 0⟩
  obtain ⟨all, opens, closed⟩ := first.mergeTexts second
  rw [← trim_mergeTexts] at opens
  cases all with
  | zero =>
    obtain ⟨⟨-, endedA⟩, -, endedB⟩ := closed.mp rfl
    exact absurd ended (not_or.mpr ⟨endedA, endedB⟩)
  | succ k => exact parse_of_leavesOpen opens

/-- Two filters are merged as texts to what they are merged to as parts, unless one of the texts ends in a
    backslash that escapes nothing. Then it escapes the bracket that ends its group, and the merged text
    is rejected. -/
theorem parse_mergeTexts {a b : Text} {first second : List Part} (trimmedA : Text.trim a = a) (trimmedB : Text.trim b = b)
    (nonemptyA : a ≠ []) (nonemptyB : b ≠ []) (readA : parse a = .ok first) (readB : parse b = .ok second) :
    parse (mergeTexts a b) =
      if EndsInEscape a ∨ EndsInEscape b then .error .unclosedOpening else .ok (mergeParts first second) := by
  have nonblankA : Text.trim a ≠ [] := by rwa [trimmedA]
  have nonblankB : Text.trim b ≠ [] := by rwa [trimmedB]
  obtain ⟨atoms, spelledA, balancedA⟩ := exists_atoms_of_parse nonblankA readA
  obtain ⟨others, spelledB, balancedB⟩ := exists_atoms_of_parse nonblankB readB
  have maskedA := Literal.mask_eq_ok_iff.mpr ⟨atoms, spelledA, rfl⟩
  have maskedB := Literal.mask_eq_ok_iff.mpr ⟨others, spelledB, rfl⟩
  have merged := @parse_mergeTexts_iff a b _ _ nonblankA nonblankB maskedA maskedB (balancedA 0) (balancedB 0)
  rw [trimmedA] at spelledA
  rw [trimmedB] at spelledB
  rw [trimmedA, trimmedB] at merged
  split
  · rename_i ended
    exact parse_mergeTexts_ended spelledA spelledB balancedA balancedB ended
  · rename_i ended
    rw [not_or] at ended
    rw [mergeParts, if_neg (ne_nil_of_parse nonblankA readA), if_neg (ne_nil_of_parse nonblankB readB)]
    exact merged.mpr ⟨(whole_maskFrom_iff spelledA 0).mpr ended.1, (whole_maskFrom_iff spelledB 0).mpr ended.2, first,
      second, readA, readB, rfl⟩

private def backslashed : Text := "a eq b\\".toList

private def plainRestriction : Text := "c eq 3".toList

/-- Both texts are filters, and their merged text is none. -/
theorem parse_mergeTexts_backslashed :
    parse backslashed = .ok [.leaf ⟨['a'], .eq, .text ['b', '\\']⟩] ∧
      parse plainRestriction = .ok [.leaf ⟨['c'], .eq, .int 3⟩] ∧
      parse (mergeTexts backslashed plainRestriction) = .error .unclosedOpening ∧
        parse (mergeTexts plainRestriction backslashed) = .error .unclosedOpening ∧
          mergeParts [.leaf ⟨['a'], .eq, .text ['b', '\\']⟩] [.leaf ⟨['c'], .eq, .int 3⟩] =
            [.enter .and, .leaf ⟨['a'], .eq, .text ['b', '\\']⟩, .leaf ⟨['c'], .eq, .int 3⟩, .leave .and] := by
  have trimmed : Text.trim backslashed = backslashed := by decide +kernel
  have trimmed' : Text.trim plainRestriction = plainRestriction := by decide +kernel
  have read : parse backslashed = .ok [.leaf ⟨['a'], .eq, .text ['b', '\\']⟩] := by
    rw [parse_eq_parseWithin]
    decide +kernel
  have read' : parse plainRestriction = .ok [.leaf ⟨['c'], .eq, .int 3⟩] := by
    rw [parse_eq_parseWithin]
    decide +kernel
  have ended : EndsInEscape backslashed := by decide
  have nonempty : backslashed ≠ [] ∧ plainRestriction ≠ [] := ⟨List.cons_ne_nil _ _, List.cons_ne_nil _ _⟩
  refine ⟨read, read', ?_, ?_, rfl⟩
  · rw [parse_mergeTexts trimmed trimmed' nonempty.1 nonempty.2 read read', if_pos (.inl ended)]
  · rw [parse_mergeTexts trimmed' trimmed nonempty.2 nonempty.1 read' read, if_pos (.inr ended)]

end Criteria.Filter
