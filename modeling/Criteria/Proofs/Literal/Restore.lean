import Criteria.Literal
import Criteria.Proofs.Literal.Atom

/-!
# Restoring literals

How a masked text is restored character by character, and which tokens are one literal.

What a masked text is restored to spells the same atoms as the text that was masked, so it is masked to the
same again. Both texts agree outside literals. Inside one they agree where nothing but the marks was escaped,
since a backslash before any other character is part of the content and is itself escaped when it is restored.
-/

namespace Criteria.Literal.Masked

variable (m : Masked)

@[simp] theorem restore_nil : m.restore [] = [] := rfl

@[simp] theorem restore_bareEscape : m.restore [escape] = [escape] := by
  rw [restore.eq_def]
  simp

theorem restore_escaped (c : Char) (r : Text) : m.restore (escape :: c :: r) = escape :: c :: m.restore r := by
  rw [restore.eq_def]
  simp

theorem restore_cons {c : Char} (notEscape : c ≠ escape) (notQuote : c ≠ quote) (r : Text) :
    m.restore (c :: r) = c :: m.restore r := by
  rw [restore.eq_def]
  simp [notEscape, notQuote]

/-- A text without quotes and escapes is its own restored form. -/
theorem restore_bare {t : Text} (bare : ∀ c ∈ t, c ≠ escape ∧ c ≠ quote) : m.restore t = t := by
  induction t with
  | nil => rfl
  | cons c t ih =>
    obtain ⟨notEscape, notQuote⟩ := bare c List.mem_cons_self
    rw [m.restore_cons notEscape notQuote, ih fun d member => bare d (List.mem_cons_of_mem _ member)]

private theorem restoreLiteral_append {number : Text} (unquoted : quote ∉ number) (r : Text) :
    m.restoreLiteral (number ++ quote :: r) = (number, m.restore r) := by
  induction number with
  | nil =>
    rw [List.nil_append, restoreLiteral.eq_def]
    simp
  | cons c number ih =>
    have notQuote : c ≠ quote := fun same => unquoted (by simp [same])
    have later : quote ∉ number := fun member => unquoted (List.mem_cons_of_mem _ member)
    rw [List.cons_append, restoreLiteral.eq_def]
    simp only [notQuote, if_false, ih later]

theorem quote_not_mem_ofNat (n : Nat) : quote ∉ Text.ofNat n :=
  fun member => absurd ((Text.isDigits_ofNat n).2 _ member) (by decide)

/-- A placeholder is restored to its literal. -/
theorem restore_placeholder {n : Nat} {content : Text} (held : m.literals[n]? = some content) (r : Text) :
    m.restore (placeholder n ++ r) = enquote content ++ m.restore r := by
  have written : m.written (Text.ofNat n) = enquote content := by
    simp [written, literal?, Text.index?_ofNat, held]
  have notEscape : quote ≠ escape := by decide
  rw [placeholder, List.cons_append, List.append_assoc, List.singleton_append, restore.eq_def]
  simp only [notEscape, if_false, if_true, m.restoreLiteral_append (quote_not_mem_ofNat n), written]

/-- The number of a literal holds no quote. -/
theorem literal?_eq_none {number : Text} (quoted : quote ∈ number) : m.literal? number = none := by
  have rejected : Text.index? number = none := by
    unfold Text.index?
    rw [if_neg]
    rintro ⟨-, digits⟩
    cases signed : Text.after? ['+'] number with
    | none =>
      rw [signed] at digits
      exact absurd (digits _ quoted) (by decide)
    | some rest =>
      rw [signed] at digits
      rw [Text.after?_eq_some_iff.mp signed] at quoted
      have later : quote ∈ rest := by simpa [quote] using quoted
      exact absurd (digits _ later) (by decide)
  simp [literal?, rejected]

theorem unquote?_placeholder (n : Nat) : m.unquote? (placeholder n) = m.literals[n]? := by
  simp [unquote?, placeholder, quotedInner?, literal?, Text.index?_ofNat]

/-- A token that begins with another character is no literal. -/
theorem unquote?_eq_none {t : Text} (other : t.head? ≠ some quote) : m.unquote? t = none := by
  cases t with
  | nil => rfl
  | cons c r =>
    have notQuote : c ≠ quote := fun same => other (by simp [same])
    simp [unquote?, quotedInner?, notQuote]

/-- A token with more behind a placeholder is no literal. -/
theorem unquote?_placeholder_append (n : Nat) {r : Text} (nonempty : r ≠ []) :
    m.unquote? (placeholder n ++ r) = none := by
  have inner : quote ∈ Text.ofNat n ++ quote :: r.dropLast := by simp
  have shape : quotedInner? (placeholder n ++ r) =
      if r.getLast? = some quote then some (Text.ofNat n ++ quote :: r.dropLast) else none := by
    cases r with
    | nil => exact absurd rfl nonempty
    | cons c r => simp [placeholder, quotedInner?, List.getLast?_append, List.getLast?_cons]
  unfold unquote?
  rw [shape]
  split
  · exact m.literal?_eq_none inner
  · rfl

theorem reveal_placeholder {n : Nat} {content : Text} (held : m.literals[n]? = some content) :
    m.reveal (placeholder n) = content := by
  rw [reveal, m.unquote?_placeholder, held, Option.getD_some]

theorem reveal_bare {t : Text} (bare : ∀ c ∈ t, c ≠ escape ∧ c ≠ quote) : m.reveal t = t := by
  have other : t.head? ≠ some quote := fun head => (bare quote (List.mem_of_head? head)).2 rfl
  rw [reveal, m.unquote?_eq_none other, Option.getD_none, m.restore_bare bare]

/-- The contents of some atoms are the literals of the masked text from a number on. -/
def Holds (n : Nat) (atoms : List Atom) : Prop := atoms.filterMap Atom.content? <+: m.literals.drop n

theorem holds_ofAtoms (atoms : List Atom) : (ofAtoms atoms).Holds 0 atoms := by simp [Holds, ofAtoms]

variable {m}

theorem Holds.literal {n : Nat} {content : Text} {atoms : List Atom} (h : m.Holds n (.literal content :: atoms)) :
    m.literals[n]? = some content ∧ m.Holds (n + 1) atoms := by
  obtain ⟨later, whole⟩ := h
  refine ⟨?_, later, ?_⟩
  · have first := congrArg List.head? whole
    simpa [List.head?_drop, Atom.content?] using first.symm
  · rw [← List.drop_drop, ← whole]
    rfl

theorem Holds.getElem? {n : Nat} {atoms : List Atom} (h : m.Holds n atoms) {i : Nat}
    (bound : i < (atoms.filterMap Atom.content?).length) : m.literals[n + i]? = (atoms.filterMap Atom.content?)[i]? := by
  have held := List.prefix_iff_getElem?.mp h i bound
  rw [List.getElem?_drop] at held
  rw [held, List.getElem?_eq_getElem bound]

/-- The literals of two texts that are put together are held one after the other. -/
theorem Holds.append {n : Nat} {atoms others both : List Atom} (h : m.Holds n both)
    (contents : both.filterMap Atom.content? = atoms.filterMap Atom.content? ++ others.filterMap Atom.content?) :
    m.Holds n atoms ∧ m.Holds (n + (atoms.filterMap Atom.content?).length) others := by
  obtain ⟨later, whole⟩ := h
  rw [contents, List.append_assoc] at whole
  refine ⟨⟨_, whole⟩, later, ?_⟩
  rw [← List.drop_drop, ← whole, List.drop_left]

variable (m)

/-- What is restored depends on the literals only, not on the text that they stood in. -/
theorem restore_of_literals {m m' : Masked} (same : m'.literals = m.literals) (t : Text) :
    m'.restore t = m.restore t := by
  obtain ⟨text, literals⟩ := m
  obtain ⟨text', literals'⟩ := m'
  cases same
  -- the recursion is the same, and it never looks at the masked text
  delta restore
  rfl

theorem reveal_of_literals {m m' : Masked} (same : m'.literals = m.literals) (t : Text) :
    m'.reveal t = m.reveal t := by
  have literal : m'.literal? = m.literal? := by
    funext number
    rw [literal?, literal?, same]
  rw [reveal, reveal, unquote?, unquote?, literal, restore_of_literals same]

end Criteria.Literal.Masked

namespace Criteria.Literal

/-- The written form of an atom. -/
def Atom.render : Atom → Text
  | .plain c => [c]
  | .escaped c => [escape, c]
  | .bareEscape => [escape]
  | .literal content => enquote content

/-- Every backslash inside a literal stands before a quote or a backslash that it escapes. The text begins
    inside a literal or outside of all. -/
def EscapesMarks (inside : Bool) : Text → Prop
  | [] => True
  | c :: r =>
    if c = escape then
      match r with
      | [] => True
      | d :: r => (inside = true → d = quote ∨ d = escape) ∧ EscapesMarks inside r
    else if c = quote then EscapesMarks (!inside) r
    else EscapesMarks inside r
termination_by structural t => t

theorem escapesMarks_bareEscape (inside : Bool) : EscapesMarks inside [escape] := by
  rw [EscapesMarks.eq_def]
  simp

theorem escapesMarks_escape {inside : Bool} {c : Char} {r : Text} :
    EscapesMarks inside (escape :: c :: r) ↔ (inside = true → c = quote ∨ c = escape) ∧ EscapesMarks inside r := by
  rw [EscapesMarks.eq_def]
  simp

theorem escapesMarks_quote {inside : Bool} {r : Text} :
    EscapesMarks inside (quote :: r) ↔ EscapesMarks (!inside) r := by
  have notEscape : quote ≠ escape := by decide
  rw [EscapesMarks.eq_def]
  simp [notEscape]

theorem escapesMarks_cons {inside : Bool} {c : Char} {r : Text} (notEscape : c ≠ escape) (notQuote : c ≠ quote) :
    EscapesMarks inside (c :: r) ↔ EscapesMarks inside r := by
  rw [EscapesMarks.eq_def]
  simp [notEscape, notQuote]

instance decidableEscapesMarks : (inside : Bool) → (t : Text) → Decidable (EscapesMarks inside t)
  | _, [] => .isTrue trivial
  | inside, c :: r =>
    if isEscape : c = escape then
      match r with
      | [] => .isTrue (isEscape ▸ escapesMarks_bareEscape inside)
      | _ :: r =>
        have := decidableEscapesMarks inside r
        decidable_of_iff' _ (isEscape ▸ escapesMarks_escape)
    else if isQuote : c = quote then
      have := decidableEscapesMarks (!inside) r
      decidable_of_iff' _ (isQuote ▸ escapesMarks_quote)
    else
      have := decidableEscapesMarks inside r
      decidable_of_iff' _ (escapesMarks_cons isEscape isQuote)

/-- A masked text is restored to the written forms of its atoms. -/
theorem Masked.Holds.restore {m : Masked} {n : Nat} {atoms : List Atom} (held : m.Holds n atoms) {t : Text}
    (spelled : Spells t atoms) : m.restore (maskFrom n atoms) = atoms.flatMap Atom.render := by
  induction spelled generalizing n with
  | nil => rfl
  | bareEscape => exact m.restore_bareEscape
  | escaped c rest ih =>
    rw [maskFrom, m.restore_escaped, ih held]
    rfl
  | plain ordinary rest ih =>
    rw [maskFrom, m.restore_cons ordinary.1 ordinary.2.1, ih held]
    rfl
  | literal quoted rest ih =>
    obtain ⟨first, later⟩ := held.literal
    rw [maskFrom, m.restore_placeholder first, ih later]
    rfl

/-- The written forms of the atoms of a text spell these atoms. -/
theorem Spells.rendered {t : Text} {atoms : List Atom} (h : Spells t atoms) :
    Spells (atoms.flatMap Atom.render) atoms := by
  induction h with
  | nil => exact .nil
  | bareEscape => exact .bareEscape
  | escaped c rest ih => exact .escaped c ih
  | plain ordinary rest ih => exact .plain ordinary ih
  | literal quoted rest ih => exact spells_enquote _ ih

private theorem Quoted.written_iff {inner content u t : Text} (h : Quoted inner content)
    (rest : u = t ↔ EscapesMarks false t) :
    escapeText content ++ quote :: u = inner ++ quote :: t ↔ EscapesMarks true (inner ++ quote :: t) := by
  induction h with
  | nil =>
    rw [List.nil_append, escapesMarks_quote]
    simpa [escapeText] using rest
  | @plain c inner content notQuote notEscape _ ih =>
    rw [escapeText_cons notQuote notEscape, List.cons_append, List.cons_append, escapesMarks_cons notEscape notQuote,
      ← ih]
    exact List.cons_inj_right c
  | @escaped c inner content _ ih =>
    rw [List.cons_append, List.cons_append, escapesMarks_escape, ← ih]
    by_cases mark : c = quote ∨ c = escape
    · rw [unescape, if_pos mark, List.singleton_append, escapeText_mark mark]
      simp [mark]
    · -- the backslash is part of the content, and it is written with another one before it
      rw [unescape, if_neg mark, List.cons_append, List.singleton_append, escapeText_mark (.inr rfl)]
      rw [not_or] at mark
      simp [mark, Ne.symm mark.2]

/-- A text is its restored form exactly if its literals escape nothing but marks. -/
theorem Spells.rendered_eq_iff {t : Text} {atoms : List Atom} (h : Spells t atoms) :
    atoms.flatMap Atom.render = t ↔ EscapesMarks false t := by
  induction h with
  | nil => exact iff_of_true rfl trivial
  | bareEscape => exact iff_of_true rfl (escapesMarks_bareEscape false)
  | escaped c rest ih =>
    rw [escapesMarks_escape, ← ih]
    simp [Atom.render]
  | @plain c _ _ ordinary rest ih =>
    rw [escapesMarks_cons ordinary.1 ordinary.2.1, ← ih]
    exact List.cons_inj_right c
  | literal quoted rest ih =>
    rw [escapesMarks_quote, Bool.not_false, ← quoted.written_iff ih, List.flatMap_cons, Atom.render, enquote]
    simp

/-- A restored text is masked to the masked text that it was restored from, with the same literals. It is the
    text that was masked exactly if every backslash inside a literal of that text escapes a quote or a
    backslash. -/
theorem mask_restore {t : Text} {m : Masked} (masked : mask t = .ok m) :
    mask (m.restore m.text) = .ok m ∧ (m.restore m.text = t ↔ EscapesMarks false t) := by
  obtain ⟨atoms, spelled, rfl⟩ := mask_eq_ok_iff.mp masked
  have restored : (Masked.ofAtoms atoms).restore (Masked.ofAtoms atoms).text = atoms.flatMap Atom.render :=
    (Masked.holds_ofAtoms atoms).restore spelled
  rw [restored]
  exact ⟨mask_eq_ok_iff.mpr ⟨atoms, spelled.rendered, rfl⟩, spelled.rendered_eq_iff⟩

-- A quote that is escaped outside literals, two adjacent literals, the first with a placeholder in it and the
-- second with a backslash that escapes no mark, a literal of a NUL, and a backslash at the end.
private def misleading : Text := "\\'a '\\'1\\'''it\\'s\\b' '\x00'\\".toList

private def misleadingMasked : Masked := ⟨"\\'a '0''1' '2'\\".toList, ["'1'".toList, "it's\\b".toList, ['\x00']]⟩

theorem mask_restore_misleading :
    mask misleading = .ok misleadingMasked ∧
      mask (misleadingMasked.restore misleadingMasked.text) = .ok misleadingMasked ∧
        misleadingMasked.restore misleadingMasked.text ≠ misleading := by
  have masked : mask misleading = .ok misleadingMasked := by decide +kernel
  obtain ⟨again, same⟩ := mask_restore masked
  have other : ¬ EscapesMarks false misleading := by decide +kernel
  exact ⟨masked, again, (not_congr same).mpr other⟩

end Criteria.Literal
