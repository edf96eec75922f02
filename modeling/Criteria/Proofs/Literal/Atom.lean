import Mathlib.Data.List.DropRight
import Criteria.Literal
import Criteria.Proofs.Text.Words

/-!
# How texts spell atoms

The atoms of a text do not depend on where it stands. `Spells` says which texts are divided into which
atoms, so that texts can be put together and taken apart without regard to positions. Masking keeps the
first and the last character of a text. A text can be put in front of another one without a change to the
atoms of either, unless it ends in a backslash that escapes nothing there.
-/

namespace Criteria.Literal

/-- A character that means nothing to the masking of literals. -/
def Ordinary (c : Char) : Prop := c ≠ escape ∧ c ≠ quote ∧ c ≠ sentinel

instance (c : Char) : Decidable (Ordinary c) := inferInstanceAs (Decidable (_ ∧ _ ∧ _))

/-- What may stand between the quotes of a literal with some content. -/
inductive Quoted : Text → Text → Prop
  | nil : Quoted [] []
  | plain {c : Char} {inner content : Text} (notQuote : c ≠ quote) (notEscape : c ≠ escape)
      (rest : Quoted inner content) : Quoted (c :: inner) (c :: content)
  | escaped (c : Char) {inner content : Text} (rest : Quoted inner content) :
      Quoted (escape :: c :: inner) (unescape c ++ content)

/-- A text spells some atoms if they are its atoms. -/
inductive Spells : Text → List Atom → Prop
  | nil : Spells [] []
  | bareEscape : Spells [escape] [.bareEscape]
  | escaped (c : Char) {t : Text} {atoms : List Atom} (rest : Spells t atoms) :
      Spells (escape :: c :: t) (.escaped c :: atoms)
  | plain {c : Char} {t : Text} {atoms : List Atom} (ordinary : Ordinary c) (rest : Spells t atoms) :
      Spells (c :: t) (.plain c :: atoms)
  | literal {inner content t : Text} {atoms : List Atom} (quoted : Quoted inner content) (rest : Spells t atoms) :
      Spells (quote :: (inner ++ quote :: t)) (.literal content :: atoms)

namespace Atom

theorem scan_bareEscape (position : Nat) : scan position [escape] = .ok [.bareEscape] := by
  rw [scan.eq_def]
  simp

theorem scan_escaped (position : Nat) (c : Char) (r : Text) :
    scan position (escape :: c :: r) =
      (scan (position + escape.utf8Size + c.utf8Size) r).map (.escaped c :: ·) := by
  rw [scan.eq_def]
  simp

theorem scan_quote (position : Nat) (r : Text) :
    scan position (quote :: r) =
      (scanLiteral position (position + quote.utf8Size) r).map fun (content, atoms) => .literal content :: atoms := by
  rw [scan.eq_def]
  simp [quote, escape]

theorem scan_sentinel (position : Nat) (r : Text) :
    scan position (sentinel :: r) = .error (.controlCharacter position) := by
  rw [scan.eq_def]
  simp [quote, escape, sentinel]

theorem scan_plain {c : Char} (ordinary : Ordinary c) (position : Nat) (r : Text) :
    scan position (c :: r) = (scan (position + c.utf8Size) r).map (.plain c :: ·) := by
  rw [scan.eq_def]
  simp [ordinary.1, ordinary.2.1, ordinary.2.2]

theorem scanLiteral_quote (start position : Nat) (r : Text) :
    scanLiteral start position (quote :: r) = (scan (position + quote.utf8Size) r).map ([], ·) := by
  rw [scanLiteral.eq_def]
  simp

theorem scanLiteral_bareEscape (start position : Nat) :
    scanLiteral start position [escape] = .error (.unterminatedLiteral start (position + escape.utf8Size)) := by
  rw [scanLiteral.eq_def]
  simp [quote, escape]

theorem scanLiteral_escaped (start position : Nat) (c : Char) (r : Text) :
    scanLiteral start position (escape :: c :: r) =
      (scanLiteral start (position + escape.utf8Size + c.utf8Size) r).map fun (content, atoms) =>
        (unescape c ++ content, atoms) := by
  rw [scanLiteral.eq_def]
  simp [quote, escape]

theorem scanLiteral_plain {c : Char} (notQuote : c ≠ quote) (notEscape : c ≠ escape) (start position : Nat)
    (r : Text) : scanLiteral start position (c :: r) =
      (scanLiteral start (position + c.utf8Size) r).map fun (content, atoms) => (c :: content, atoms) := by
  rw [scanLiteral.eq_def]
  simp [notQuote, notEscape]

end Atom

private theorem scanLiteral_append {inner content : Text} (quoted : Quoted inner content) (start position : Nat) (r : Text) :
    Atom.scanLiteral start position (inner ++ quote :: r) =
      (Atom.scan (position + Text.byteSize (inner ++ [quote])) r).map (content, ·) := by
  induction quoted generalizing position with
  | nil => exact Atom.scanLiteral_quote start position r
  | @plain c inner content notQuote notEscape _ ih =>
    have behind : position + Text.byteSize (c :: inner ++ [quote]) =
        position + c.utf8Size + Text.byteSize (inner ++ [quote]) := (Nat.add_assoc _ _ _).symm
    rw [List.cons_append, Atom.scanLiteral_plain notQuote notEscape, ih, behind]
    cases Atom.scan _ r <;> rfl
  | @escaped c inner content _ ih =>
    have behind : position + Text.byteSize (escape :: c :: inner ++ [quote]) =
        position + escape.utf8Size + c.utf8Size + Text.byteSize (inner ++ [quote]) := by
      rw [Nat.add_assoc, Nat.add_assoc]
      rfl
    rw [List.cons_append, List.cons_append, Atom.scanLiteral_escaped, ih, behind]
    cases Atom.scan _ r <;> rfl

/-- A literal is read, and then the text behind it. -/
theorem scan_literal_append {inner content : Text} (quoted : Quoted inner content) (position : Nat) (r : Text) :
    Atom.scan position (quote :: (inner ++ quote :: r)) =
      (Atom.scan (position + Text.byteSize (quote :: (inner ++ [quote]))) r).map (.literal content :: ·) := by
  have behind : position + Text.byteSize (quote :: (inner ++ [quote])) =
      position + quote.utf8Size + Text.byteSize (inner ++ [quote]) := (Nat.add_assoc _ _ _).symm
  rw [Atom.scan_quote, scanLiteral_append quoted, behind]
  cases Atom.scan _ r <;> rfl

theorem Spells.scan {t : Text} {atoms : List Atom} (h : Spells t atoms) (position : Nat) :
    Atom.scan position t = .ok atoms := by
  induction h generalizing position with
  | nil => rfl
  | bareEscape => exact Atom.scan_bareEscape position
  | escaped c rest ih =>
    rw [Atom.scan_escaped, ih]
    rfl
  | plain ordinary rest ih =>
    rw [Atom.scan_plain ordinary, ih]
    rfl
  | @literal _ _ t _ quoted rest ih =>
    rw [scan_literal_append quoted, ih]
    rfl

mutual

/-- What is scanned is spelled. -/
theorem spells_of_scan (position : Nat) (t : Text) {atoms : List Atom}
    (h : Atom.scan position t = .ok atoms) : Spells t atoms := by
  match t with
  | [] =>
    cases h
    exact .nil
  | c :: r =>
    by_cases isEscape : c = escape
    · subst isEscape
      match r with
      | [] =>
        rw [Atom.scan_bareEscape] at h
        cases h
        exact .bareEscape
      | d :: r =>
        rw [Atom.scan_escaped] at h
        obtain ⟨later, read, rfl⟩ := map_eq_ok_iff.mp h
        exact .escaped d (spells_of_scan _ r read)
    · by_cases isQuote : c = quote
      · subst isQuote
        rw [Atom.scan_quote] at h
        obtain ⟨⟨content, later⟩, read, rfl⟩ := map_eq_ok_iff.mp h
        obtain ⟨inner, rest, rfl, quoted, spelled⟩ := spells_of_scanLiteral _ _ r read
        exact .literal quoted spelled
      · by_cases isSentinel : c = sentinel
        · subst isSentinel
          rw [Atom.scan_sentinel] at h
          cases h
        · have ordinary : Ordinary c := ⟨isEscape, isQuote, isSentinel⟩
          rw [Atom.scan_plain ordinary] at h
          obtain ⟨later, read, rfl⟩ := map_eq_ok_iff.mp h
          exact .plain ordinary (spells_of_scan _ r read)
termination_by structural t

theorem spells_of_scanLiteral (start position : Nat) (t : Text) {content : Text} {atoms : List Atom}
    (h : Atom.scanLiteral start position t = .ok (content, atoms)) :
    ∃ inner rest, t = inner ++ quote :: rest ∧ Quoted inner content ∧ Spells rest atoms := by
  match t with
  | [] => cases h
  | c :: r =>
    by_cases isQuote : c = quote
    · subst isQuote
      rw [Atom.scanLiteral_quote] at h
      obtain ⟨later, read, same⟩ := map_eq_ok_iff.mp h
      cases same
      exact ⟨[], r, rfl, .nil, spells_of_scan _ r read⟩
    · by_cases isEscape : c = escape
      · subst isEscape
        match r with
        | [] =>
          rw [Atom.scanLiteral_bareEscape] at h
          cases h
        | d :: r =>
          rw [Atom.scanLiteral_escaped] at h
          obtain ⟨⟨inside, later⟩, read, same⟩ := map_eq_ok_iff.mp h
          cases same
          obtain ⟨inner, rest, rfl, quoted, spelled⟩ := spells_of_scanLiteral _ _ r read
          exact ⟨_, rest, rfl, .escaped d quoted, spelled⟩
      · rw [Atom.scanLiteral_plain isQuote isEscape] at h
        obtain ⟨⟨inside, later⟩, read, same⟩ := map_eq_ok_iff.mp h
        cases same
        obtain ⟨inner, rest, rfl, quoted, spelled⟩ := spells_of_scanLiteral _ _ r read
        exact ⟨_, rest, rfl, .plain isQuote isEscape quoted, spelled⟩
termination_by structural t

end

/-- A text is masked exactly when it spells some atoms. -/
theorem mask_eq_ok_iff {t : Text} {m : Masked} :
    mask t = .ok m ↔ ∃ atoms, Spells t atoms ∧ Masked.ofAtoms atoms = m := by
  rw [mask, map_eq_ok_iff]
  constructor
  · rintro ⟨atoms, read, same⟩
    exact ⟨atoms, spells_of_scan 0 t read, same⟩
  · rintro ⟨atoms, spelled, same⟩
    exact ⟨atoms, spelled.scan 0, same⟩

theorem Spells.plain_append {w t : Text} {atoms : List Atom} (ordinary : ∀ c ∈ w, Ordinary c)
    (h : Spells t atoms) : Spells (w ++ t) (w.map .plain ++ atoms) := by
  induction w with
  | nil => exact h
  | cons c w ih =>
    exact .plain (ordinary c List.mem_cons_self) (ih fun d member => ordinary d (List.mem_cons_of_mem _ member))

theorem maskFrom_plain_append (n : Nat) (w : Text) (atoms : List Atom) :
    maskFrom n (w.map .plain ++ atoms) = w ++ maskFrom n atoms := by
  induction w with
  | nil => rfl
  | cons c w ih => exact congrArg (c :: ·) ih

theorem maskFrom_append (n : Nat) (front back : List Atom) : maskFrom n (front ++ back) =
    maskFrom n front ++ maskFrom (n + (front.filterMap Atom.content?).length) back := by
  induction front generalizing n with
  | nil => rfl
  | cons a front ih =>
    cases a with
    | plain c => exact congrArg (c :: ·) (ih n)
    | escaped c => exact congrArg (escape :: c :: ·) (ih n)
    | bareEscape => exact congrArg (escape :: ·) (ih n)
    | literal content =>
      have contents : (Atom.literal content :: front).filterMap Atom.content? =
          content :: front.filterMap Atom.content? := rfl
      rw [List.cons_append, maskFrom, ih, maskFrom, List.append_assoc, contents, List.length_cons, Nat.add_assoc,
        Nat.add_comm 1]

theorem contents_plain_append (w : Text) (atoms : List Atom) :
    (w.map Atom.plain ++ atoms).filterMap Atom.content? = atoms.filterMap Atom.content? := by
  induction w with
  | nil => rfl
  | cons c w ih => exact ih

/-- Texts may be put together at an ordinary character, also if a backslash stands before it. -/
theorem Spells.append_cons {c : Char} (ordinary : Ordinary c) {t u : Text} {atoms others : List Atom}
    (h : Spells t atoms) (h' : Spells u others) :
    ∃ both, Spells (t ++ c :: u) both ∧
      (∀ n, maskFrom n both =
        maskFrom n atoms ++ c :: maskFrom (n + (atoms.filterMap Atom.content?).length) others) ∧
      both.filterMap Atom.content? = atoms.filterMap Atom.content? ++ others.filterMap Atom.content? := by
  induction h with
  | nil => exact ⟨_, .plain ordinary h', fun n => rfl, rfl⟩
  | bareEscape => exact ⟨_, .escaped c h', fun n => rfl, rfl⟩
  | escaped d rest ih =>
    obtain ⟨both, spelled, masked, contents⟩ := ih
    exact ⟨_, .escaped d spelled, fun n => congrArg (escape :: d :: ·) (masked n), contents⟩
  | plain ordinary rest ih =>
    obtain ⟨both, spelled, masked, contents⟩ := ih
    exact ⟨_, .plain ordinary spelled, fun n => congrArg (_ :: ·) (masked n), contents⟩
  | @literal inner content t atoms quoted rest ih =>
    obtain ⟨both, spelled, masked, contents⟩ := ih
    refine ⟨.literal content :: both, ?_, ?_, ?_⟩
    · rw [List.cons_append, List.append_assoc, List.cons_append]
      exact .literal quoted spelled
    · intro n
      have number : n + 1 + (atoms.filterMap Atom.content?).length =
          n + ((Atom.literal content :: atoms).filterMap Atom.content?).length := by
        simp [Atom.content?]
        omega
      rw [maskFrom, maskFrom, masked, number, List.append_assoc]
    · simpa [Atom.content?] using contents

theorem escapeText_mark {c : Char} (mark : c = quote ∨ c = escape) (content : Text) :
    escapeText (c :: content) = escape :: c :: escapeText content := by
  simp [escapeText, mark]

theorem escapeText_cons {c : Char} (notQuote : c ≠ quote) (notEscape : c ≠ escape) (content : Text) :
    escapeText (c :: content) = c :: escapeText content := by
  simp [escapeText, notQuote, notEscape]

private theorem quoted_escapeText (content : Text) : Quoted (escapeText content) content := by
  induction content with
  | nil => exact .nil
  | cons c content ih =>
    by_cases mark : c = quote ∨ c = escape
    · have unescaped : unescape c = [c] := if_pos mark
      have escaped := Quoted.escaped c ih
      rwa [unescaped, List.singleton_append, ← escapeText_mark mark] at escaped
    · rw [not_or] at mark
      rw [escapeText_cons mark.1 mark.2]
      exact .plain mark.1 mark.2 ih

theorem spells_enquote (content : Text) {t : Text} {atoms : List Atom} (h : Spells t atoms) :
    Spells (enquote content ++ t) (.literal content :: atoms) := by
  have spelled := Spells.literal (quoted_escapeText content) h
  simpa [enquote] using spelled

section

variable {t : Text} {atoms : List Atom}

/-- Masking keeps the first character of a text. -/
theorem Spells.head?_maskFrom (h : Spells t atoms) (n : Nat) : (maskFrom n atoms).head? = t.head? := by
  cases h <;> rfl

/-- Masking keeps the last character of a text: a literal and its placeholder both end with a quote. -/
theorem Spells.getLast?_maskFrom (h : Spells t atoms) (n : Nat) : (maskFrom n atoms).getLast? = t.getLast? := by
  induction h generalizing n with
  | nil | bareEscape => rfl
  | escaped c rest ih => simp only [maskFrom, List.getLast?_cons, ih]
  | plain _ rest ih => simp only [maskFrom, List.getLast?_cons, ih]
  | literal _ rest ih => simp [maskFrom, placeholder, List.getLast?_cons, List.getLast?_append, ih]

/-- A text is trimmed exactly when it is trimmed once it is masked. -/
theorem Spells.trimmed_maskFrom_iff (h : Spells t atoms) (n : Nat) : Text.Trimmed (maskFrom n atoms) ↔ Text.Trimmed t := by
  rw [Text.Trimmed, Text.Trimmed, h.head?_maskFrom, h.getLast?_maskFrom]

/-- Only the empty text is masked as the empty text. -/
theorem Spells.maskFrom_eq_nil_iff (h : Spells t atoms) (n : Nat) : maskFrom n atoms = [] ↔ t = [] := by
  rw [← List.head?_eq_none_iff, h.head?_maskFrom, List.head?_eq_none_iff]

end

/-- An odd number of backslashes ends the text, so that the last one escapes what is put behind it. -/
def EndsInEscape (t : Text) : Prop := (t.rtakeWhile (· = escape)).length % 2 = 1

instance (t : Text) : Decidable (EndsInEscape t) := inferInstanceAs (Decidable (_ = _))

@[simp] theorem not_endsInEscape_nil : ¬ EndsInEscape [] := by decide

theorem endsInEscape_bareEscape : EndsInEscape [escape] := by decide

/-- What stands in front of a text does not matter for its end if it has an end of its own. -/
theorem endsInEscape_append {x : Text} (ended : ¬ EndsInEscape x) (t : Text) :
    EndsInEscape (x ++ t) ↔ EndsInEscape t := by
  unfold EndsInEscape List.rtakeWhile at *
  rw [List.length_reverse] at *
  rw [List.length_reverse, List.reverse_append, List.takeWhile_append]
  split
  · rename_i all
    rw [List.length_append]
    omega
  · rfl

theorem not_endsInEscape_concat {c : Char} (notEscape : c ≠ escape) (x : Text) : ¬ EndsInEscape (x ++ [c]) := by
  unfold EndsInEscape
  rw [List.rtakeWhile_concat_neg _ _ _ (by simpa using notEscape)]
  decide

theorem endsInEscape_escaped_iff (c : Char) (t : Text) : EndsInEscape (escape :: c :: t) ↔ EndsInEscape t := by
  have ended : ¬ EndsInEscape [escape, c] := by
    by_cases isEscape : c = escape
    · rw [isEscape]
      decide
    · exact not_endsInEscape_concat isEscape [escape]
  exact endsInEscape_append ended t

theorem endsInEscape_cons_iff {c : Char} (notEscape : c ≠ escape) (t : Text) :
    EndsInEscape (c :: t) ↔ EndsInEscape t :=
  endsInEscape_append (not_endsInEscape_concat notEscape []) t

theorem endsInEscape_literal_iff (inner t : Text) : EndsInEscape (quote :: (inner ++ quote :: t)) ↔ EndsInEscape t := by
  have whole : quote :: (inner ++ quote :: t) = (quote :: inner ++ [quote]) ++ t := by simp
  rw [whole]
  exact endsInEscape_append (not_endsInEscape_concat (by decide) _) t

/-- Texts may be put together behind one that does not end in a backslash that escapes nothing. -/
theorem Spells.append {t u : Text} {atoms others : List Atom} (h : Spells t atoms) (ended : ¬ EndsInEscape t)
    (h' : Spells u others) : Spells (t ++ u) (atoms ++ others) := by
  induction h with
  | nil => exact h'
  | bareEscape => exact absurd endsInEscape_bareEscape ended
  | escaped c rest ih =>
    rw [endsInEscape_escaped_iff] at ended
    exact .escaped c (ih ended)
  | plain ordinary rest ih =>
    rw [endsInEscape_cons_iff ordinary.1] at ended
    exact .plain ordinary (ih ended)
  | literal quoted rest ih =>
    rw [endsInEscape_literal_iff] at ended
    rw [List.cons_append, List.append_assoc, List.cons_append]
    exact .literal quoted (ih ended)

end Criteria.Literal
