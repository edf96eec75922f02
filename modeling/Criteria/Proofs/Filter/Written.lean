import Criteria.Filter.Part
import Criteria.Proofs.Filter.Recognition
import Criteria.Proofs.Value.RoundTrip

/-!
# Texts that are put together from words

A filter is written as words and brackets with a space between any two of them. What the tokens of each
piece are, and that they name the field or the value they were written for, is settled wherever the
piece stands in a text, so that it can be settled piece by piece.
-/

namespace Criteria.Filter

open Literal (Masked Atom Spells maskFrom Ordinary spells_enquote)

/-- What the tokens of a text are, wherever it stands among other texts with spaces between them. -/
structure Written (t : Text) (Reads : Masked → List Token → Prop) : Prop where
  nonempty : t ≠ []
  trimmed : Text.Trimmed t
  reads : ∃ atoms, Spells t atoms ∧ ∀ n, Text.SpacesOnly (maskFrom n atoms) ∧
    ∀ m, atoms.filterMap Atom.content? <+: m.literals.drop n → Reads m (Token.ofMasked (maskFrom n atoms))

namespace Written

variable {t u : Text} {P Q R : Masked → List Token → Prop}

theorem mono (h : Written t P) (imp : ∀ m ts, P m ts → Q m ts) : Written t Q := by
  obtain ⟨atoms, spelled, reads⟩ := h.reads
  exact ⟨h.nonempty, h.trimmed, atoms, spelled, fun n => ⟨(reads n).1, fun m held => imp m _ ((reads n).2 m held)⟩⟩

/-- The tokens of two texts with a space between them are those of the one and of the other. -/
theorem append (h : Written t P) (h' : Written u Q) (both : ∀ m ts us, P m ts → Q m us → R m (ts ++ us)) :
    Written (t ++ ' ' :: u) R := by
  obtain ⟨atoms, spelled, reads⟩ := h.reads
  obtain ⟨others, spelled', reads'⟩ := h'.reads
  obtain ⟨joined, spelledBoth, masked, contents⟩ := Spells.append_cons (c := ' ') (by decide) spelled spelled'
  refine ⟨by simp, h.trimmed.append h.nonempty [' '] h'.trimmed h'.nonempty, joined, spelledBoth,
    fun n => ⟨?_, fun m held => ?_⟩⟩
  · rw [masked]
    intro c member blank
    rcases List.mem_append.mp member with member | member
    · exact (reads n).1 c member blank
    · rcases List.mem_cons.mp member with rfl | member
      · rfl
      · exact (reads' _).1 c member blank
  · rw [contents] at held
    obtain ⟨rest, whole⟩ := held
    rw [masked, Token.ofMasked_append_blank Text.isBlank_space]
    refine both m _ _ ((reads n).2 m ⟨_, by rw [← whole, List.append_assoc]⟩) ((reads' _).2 m ⟨rest, ?_⟩)
    rw [← List.drop_drop, ← whole, List.append_assoc, List.drop_left]

/-- A text is a filter if its tokens have a derivation. -/
theorem parse_eq {parts : List Part}
    (h : Written t fun m ts => ∃ a : Alternatives, a.tokens = ts ∧ a.parts m = parts) : parse t = .ok parts := by
  obtain ⟨atoms, spelled, reads⟩ := h.reads
  have trim : Text.trim t = t := h.trimmed.trim_eq_self
  have masked : Literal.mask t = .ok (Masked.ofAtoms atoms) := Literal.mask_eq_ok_iff.mpr ⟨atoms, spelled, rfl⟩
  obtain ⟨spaces, derives⟩ := reads 0
  obtain ⟨a, tokens, rfl⟩ := derives (Masked.ofAtoms atoms) (by simp [Masked.ofAtoms])
  obtain ⟨stored, read⟩ := readsAs_of_derivation (spaced_of_mask masked spaces) tokens.symm []
  refine parse_eq_ok_iff.mpr (.inr ⟨by rw [trim]; exact h.nonempty, _, _, ?_, read⟩)
  rw [trim, masked]

/-- The tokens of a text that is a filter have a derivation. -/
theorem exists_derivation (h : Written t P) {parts : List Part} (read : parse t = .ok parts) :
    ∃ m, ∃ a : Alternatives, P m a.tokens := by
  obtain ⟨atoms, spelled, reads⟩ := h.reads
  have trim : Text.trim t = t := h.trimmed.trim_eq_self
  have masked : Literal.mask t = .ok (Masked.ofAtoms atoms) := Literal.mask_eq_ok_iff.mpr ⟨atoms, spelled, rfl⟩
  rcases parse_eq_ok_iff.mp read with ⟨blank, -⟩ | ⟨-, m, g', found, reading⟩
  · rw [trim] at blank
    exact absurd blank h.nonempty
  · rw [trim, masked] at found
    cases found
    obtain ⟨spaces, tokens⟩ := reads 0
    obtain ⟨⟨a, derives, -⟩, -⟩ := derives_of_reading (spaced_of_mask masked spaces) [] parts g' reading
    refine ⟨Masked.ofAtoms atoms, a, ?_⟩
    rw [derives]
    exact tokens _ (by simp [Masked.ofAtoms])

end Written

private theorem intercalate_append {ps qs : List Text} (nonempty : ps ≠ []) (nonempty' : qs ≠ []) :
    [' '].intercalate (ps ++ qs) = [' '].intercalate ps ++ ' ' :: [' '].intercalate qs := by
  induction ps with
  | nil => exact absurd rfl nonempty
  | cons p ps ih =>
    cases ps with
    | nil =>
      obtain ⟨q, qs, rfl⟩ := List.exists_cons_of_ne_nil nonempty'
      simp [List.intercalate_cons_cons]
    | cons q ps =>
      rw [List.cons_append, List.cons_append, List.intercalate_cons_cons, ← List.cons_append, ih (by simp),
        List.intercalate_cons_cons]
      simp

/-- Pieces may be put together where one text ends and another begins. -/
theorem Written.pieces {ps qs : List Text} {P Q R : Masked → List Token → Prop}
    (h : Written ([' '].intercalate ps) P) (h' : Written ([' '].intercalate qs) Q)
    (both : ∀ m ts us, P m ts → Q m us → R m (ts ++ us)) : Written ([' '].intercalate (ps ++ qs)) R := by
  have nonempty {ps : List Text} (some : [' '].intercalate ps ≠ []) : ps ≠ [] := by
    rintro rfl
    exact some rfl
  rw [intercalate_append (nonempty h.nonempty) (nonempty h'.nonempty)]
  exact h.append h' both

theorem Written.piece {p : Text} {P : Masked → List Token → Prop} (h : Written p P) :
    Written ([' '].intercalate [p]) P := by
  rwa [List.intercalate_singleton]

/-- A word without unescaped brackets is one token. -/
theorem ofMasked_word {w : Text} (nonempty : w ≠ []) (solid : ∀ c ∈ w, ¬ Text.isBlank c)
    (flat : Token.scan w = (w, [])) : Token.ofMasked w = [.word w] := by
  rw [Token.ofMasked, flat, Token.ofRun, Text.words_eq_singleton nonempty solid]
  rfl

theorem written_word {w : Text} (nonempty : w ≠ [])
    (bare : ∀ c ∈ w, Ordinary c ∧ ¬ Text.isBlank c ∧ c ≠ '(' ∧ c ≠ ')') :
    Written w fun _ ts => ts = [.word w] := by
  have solid : ∀ c ∈ w, ¬ Text.isBlank c := fun c member => (bare c member).2.1
  have spelled := Spells.plain_append (fun c member => (bare c member).1) Spells.nil
  have masked (n : Nat) : maskFrom n (w.map .plain ++ []) = w := by
    rw [Literal.maskFrom_plain_append, maskFrom, List.append_nil]
  rw [List.append_nil] at spelled
  refine ⟨nonempty, .of_solid solid, _, spelled, fun n => ?_⟩
  rw [masked]
  refine ⟨fun c member blank => absurd blank (solid c member), fun m _ => ?_⟩
  have flat : ¬ ('(' ∈ w ∨ ')' ∈ w) := by
    rintro (member | member)
    · exact (bare _ member).2.2.1 rfl
    · exact (bare _ member).2.2.2 rfl
  exact ofMasked_word nonempty solid (Token.scan_of_bare flat)

theorem written_connector (c : Connector) : Written c.word fun _ ts => ts = [.word c.word] :=
  written_word c.word_ne_nil (by cases c <;> decide)

theorem written_operator (o : Operator) : Written o.word fun _ ts => ts = [.word o.word] := by
  refine written_word ?_ ?_
  · cases o <;> decide
  · cases o <;> decide

private theorem written_char {c : Char} (ordinary : Ordinary c) (solid : ¬ Text.isBlank c) :
    Written [c] fun _ ts => ts = Token.ofMasked [c] := by
  refine ⟨by simp, ⟨?_, ?_⟩, _, .plain ordinary .nil, fun n => ⟨?_, fun m _ => rfl⟩⟩
  · simpa using solid
  · simpa using solid
  · intro d member blank
    obtain rfl : d = c := List.mem_singleton.mp member
    exact absurd blank solid

theorem written_opening : Written ['('] fun _ ts => ts = [.opening] := by
  refine (written_char (by decide) (by decide)).mono fun m ts same => ?_
  rw [same, Token.ofMasked, Token.scan_opening]
  rfl

theorem written_closing : Written [')'] fun _ ts => ts = [.closing] := by
  refine (written_char (by decide) (by decide)).mono fun m ts same => ?_
  rw [same, Token.ofMasked, Token.scan_closing]
  rfl

/-- A word that is read as a value and is neither a connector nor an operator. -/
structure IsValueWord (m : Masked) (w : Text) (v : Value) : Prop where
  read : Value.ofMasked m w = v
  plain : ∀ c : Connector, w ≠ c.word
  noOperator : ∀ o : Operator, w ≠ o.word

private theorem isLower_connector (c : Connector) : ∀ d ∈ c.word, d.isLower := by
  cases c <;> decide

private theorem isLower_operator (o : Operator) : ∀ d ∈ o.word, d.isLower := by
  cases o <;> decide

private theorem isValueWord_of_char {m : Masked} {w : Text} {v : Value} (read : Value.ofMasked m w = v) {c : Char}
    (member : c ∈ w) (other : ¬ c.isLower) : IsValueWord m w v := by
  refine ⟨read, ?_, ?_⟩
  · rintro d rfl
    exact other (isLower_connector d c member)
  · rintro o rfl
    exact other (isLower_operator o c member)

private theorem written_isWordOf {w : Text} {v : Value} (h : Value.IsWordOf w v) :
    Written w fun m ts => ∃ w, ts = [.word w] ∧ IsValueWord m w v := by
  obtain ⟨nonempty, bare⟩ := h.bare
  refine (written_word nonempty fun c member => ?_).mono fun m ts same => ⟨w, same, ?_⟩
  · obtain ⟨ordinary, solid, opening, closing, -⟩ := bare c member
    exact ⟨ordinary, solid, opening, closing⟩
  · have read : Value.ofMasked m w = v := by
      rw [Value.ofMasked_eq_ofScalar m fun c member => ⟨(bare c member).1.1, (bare c member).2.2.2.2⟩, h.read]
    rcases h.plain with reserved | ⟨-, chars⟩
    · have apart : ∀ w ∈ Value.reserved.map Prod.fst, (∀ c : Connector, w ≠ c.word) ∧ ∀ o : Operator, w ≠ o.word := by
        intro w member
        refine ⟨fun c => ?_, fun o => ?_⟩
        · revert w
          cases c <;> decide
        · revert w
          cases o <;> decide
      exact ⟨read, (apart w reserved).1, (apart w reserved).2⟩
    · obtain ⟨c, r, rfl⟩ := List.exists_cons_of_ne_nil nonempty
      exact isValueWord_of_char read List.mem_cons_self (Value.not_isLower (chars c List.mem_cons_self))

private theorem written_text (content : Text) :
    Written (Value.text content).render fun m ts => ∃ w, ts = [.word w] ∧ IsValueWord m w (.text content) := by
  have spelled := spells_enquote content Spells.nil
  rw [List.append_nil] at spelled
  have quoted : Value.render (.text content) = Literal.quote :: (Literal.escapeText content ++ [Literal.quote]) := by
    rw [Value.render, Literal.enquote]
  have notBlank : ¬ Text.isBlank Literal.quote := by decide
  refine ⟨by simp [quoted], ⟨?_, ?_⟩, [.literal content], by rwa [Value.render], fun n => ?_⟩
  · simpa [quoted] using notBlank
  · simpa [quoted, List.getLast?_cons] using notBlank
  · have masked : maskFrom n [.literal content] = Literal.placeholder n := by simp [maskFrom]
    rw [masked]
    have solid : ∀ c ∈ Literal.placeholder n, ¬ Text.isBlank c := fun c => not_isBlank_of_mem_placeholder
    have bare : ∀ c ∈ Literal.placeholder n, c ≠ Literal.escape ∧ c ≠ ',' ∧ c ≠ '(' ∧ c ≠ ')' := by
      intro c member
      rcases mem_placeholder member with rfl | digit
      · decide
      · refine ⟨?_, ?_, ?_, ?_⟩ <;> rintro rfl <;> exact absurd digit (by decide)
    have flat : ¬ ('(' ∈ Literal.placeholder n ∨ ')' ∈ Literal.placeholder n) := by
      rintro (member | member)
      · exact (bare _ member).2.2.1 rfl
      · exact (bare _ member).2.2.2 rfl
    have quote : Literal.quote ∈ Literal.placeholder n := by simp [Literal.placeholder]
    have nonempty := List.ne_nil_of_mem quote
    refine ⟨fun c member blank => absurd blank (solid c member), fun m held => ?_⟩
    refine ⟨_, ofMasked_word nonempty solid (Token.scan_of_bare flat), isValueWord_of_char ?_ quote (by decide)⟩
    rw [Value.ofMasked_eq_ofScalar m fun c member => ⟨(bare c member).1, (bare c member).2.1⟩,
      Value.ofScalar_placeholder (Masked.Holds.literal held).1]

theorem written_value {v : Value} (scalar : v.IsFiniteScalar) :
    Written v.render fun m ts => ∃ w, ts = [.word w] ∧ IsValueWord m w v := by
  match v with
  | .null => exact written_isWordOf Value.isWordOf_null
  | .bool b => exact written_isWordOf (Value.isWordOf_bool b)
  | .int n => exact written_isWordOf (Value.isWordOf_int n)
  | .float (.finite negative m) => exact written_isWordOf (Value.isWordOf_float negative m)
  | .text content => exact written_text content

/-- A word that names a field and stands for a text. -/
structure IsFieldWord (m : Masked) (w field : Text) : Prop where
  isField : IsField w
  restored : m.restore w = field
  notWord_iff : w = notWord ↔ field = notWord

/-- A field that stays the same field wherever it is written. -/
def Readable (field : Text) : Prop :=
  Written field fun m ts => ∃ w, ts = [.word w] ∧ IsFieldWord m w field

/-- Placeholders of any numbers, and no brackets. -/
private def anyLiterals : Likeness := ⟨fun c => c ≠ '(' ∧ c ≠ ')', fun _ _ => True, fun _ _ => False⟩

private theorem scan_of_alike {l : Likeness} {first : Bool} {t t' : Text} (h : Alike l first t t')
    (unmarked : ∀ n n', ¬ l.marks n n') (bare : ∀ c, l.plain c → c ≠ '(' ∧ c ≠ ')') : Token.scan t' = (t', []) := by
  induction h with
  | nil => rfl
  | bareEscape => simp [Token.scan]
  | escaped c rest ih => rw [Token.scan_escape, ih]
  | plain ordinary allowed rest ih =>
    obtain ⟨opening, closing⟩ := bare _ allowed
    rw [Token.scan_cons ordinary.1 opening closing, ih]
  | literal same rest ih => rw [Token.scan_bare_append fun c => Alike.bare_of_mem_placeholder, ih]
  | mark same => exact absurd same (unmarked _ _)

-- A masked word is restored to a text that is masked to an alike word again, and that one is restored to the same
-- text.
private theorem exists_atoms {l : Likeness} {m : Masked} {first : Bool} {w w' : Text} (h : Alike l first w w')
    (unmarked : ∀ n n', ¬ l.marks n n') (bare : ∀ c, l.plain c → c ≠ '(' ∧ c ≠ ')')
    (held : ∀ n n', l.literals n n' → n < m.literals.length) :
    ∃ atoms, Spells (m.restore w) atoms ∧ (∀ n, Alike anyLiterals first w (maskFrom n atoms)) ∧
      ∀ (m' : Masked) (n : Nat), atoms.filterMap Atom.content? <+: m'.literals.drop n →
        m'.restore (maskFrom n atoms) = m.restore w := by
  induction h with
  | nil first => exact ⟨[], .nil, fun n => .nil first, fun m' n _ => rfl⟩
  | bareEscape first =>
    rw [m.restore_bareEscape]
    exact ⟨_, .bareEscape, fun n => .bareEscape first, fun m' n _ => m'.restore_bareEscape⟩
  | escaped c rest ih =>
    obtain ⟨atoms, spelled, alike, restored⟩ := ih
    rw [m.restore_escaped]
    refine ⟨_, .escaped c spelled, fun n => .escaped c (alike n), fun m' n agree => ?_⟩
    rw [maskFrom, m'.restore_escaped, restored m' n agree]
  | plain ordinary allowed rest ih =>
    obtain ⟨atoms, spelled, alike, restored⟩ := ih
    rw [m.restore_cons ordinary.1 ordinary.2.1]
    refine ⟨_, .plain ordinary spelled, fun n => .plain ordinary (bare _ allowed) (alike n), fun m' n agree => ?_⟩
    rw [maskFrom, m'.restore_cons ordinary.1 ordinary.2.1, restored m' n agree]
  | @literal first k k' t t' same rest ih =>
    obtain ⟨atoms, spelled, alike, restored⟩ := ih
    obtain ⟨content, found⟩ : ∃ content, m.literals[k]? = some content :=
      ⟨_, List.getElem?_eq_getElem (held k k' same)⟩
    rw [m.restore_placeholder found]
    refine ⟨_, spells_enquote content spelled, fun n => .literal trivial (alike (n + 1)), fun m' n agree => ?_⟩
    obtain ⟨first, others⟩ := Masked.Holds.literal agree
    rw [maskFrom, m'.restore_placeholder first, restored m' (n + 1) others]
  | mark same => exact absurd same (unmarked _ _)

theorem readable_of_alike {m : Masked} {w : Text} (field : IsField w) (nonempty : w ≠ [])
    (solid : ∀ c ∈ w, ¬ Text.isBlank c) (h : Alike (Likeness.numbered m.literals.length 0 0).flat true w w) :
    Readable (m.restore w) := by
  have held : ∀ n n', (Likeness.numbered m.literals.length 0 0).flat.literals n n' → n < m.literals.length := by
    rintro _ _ ⟨i, bound, rfl, -⟩
    omega
  obtain ⟨atoms, spelled, alike, restored⟩ := exists_atoms h (fun _ _ => id) (fun c allowed => allowed.2 rfl) held
  have unmarked : ∀ n n', ¬ anyLiterals.marks n n' := fun _ _ => id
  have solidMasked (n : Nat) : ∀ c ∈ maskFrom n atoms, ¬ Text.isBlank c := (alike n).solid solid
  have nonemptyMasked (n : Nat) : maskFrom n atoms ≠ [] := fun none => nonempty ((alike n).eq_nil_iff.mpr none)
  have trimmed := (spelled.trimmed_maskFrom_iff 0).mp (.of_solid (solidMasked 0))
  refine ⟨?_, trimmed, atoms, spelled, fun n => ⟨?_, fun m' held => ?_⟩⟩
  · exact fun none => nonemptyMasked 0 ((spelled.maskFrom_eq_nil_iff 0).mpr none)
  · exact fun c member blank => absurd blank (solidMasked n c member)
  · refine ⟨_, ofMasked_word (nonemptyMasked n) (solidMasked n) (scan_of_alike (alike n) unmarked fun _ => id),
      (alike n).isField unmarked field, restored m' n held, ?_⟩
    constructor
    · intro same
      rw [← restored m' n held, same]
      rfl
    · intro same
      rw [same] at spelled
      have scanned : Atom.scan 0 notWord = .ok (notWord.map .plain) := rfl
      cases (spelled.scan 0).symm.trans scanned
      rfl

end Criteria.Filter
