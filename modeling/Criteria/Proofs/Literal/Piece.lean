import Criteria.Proofs.Literal.Atom
import Criteria.Proofs.Literal.Respaced
import Criteria.Proofs.Literal.Restore

/-!
# The tokens of a delimited text

What the tokens of a text are, said of its atoms: the pieces between the delimiters that are plain characters, each
without the blanks at its ends. A piece that is one literal is the content of it, and in any other piece literals are
written anew.
-/

namespace Criteria.Literal

open Text (isBlank)

/-- A blank outside literals that no backslash escapes. -/
def Atom.isBlank : Atom → Bool
  | .plain c => Text.isBlank c
  | _ => false

/-- The content of a piece that is one literal between blanks. -/
def wholeLiteral? (piece : List Atom) : Option Text :=
  match piece.filter (!·.isBlank) with
  | [.literal content] => some content
  | _ => none

/-- The trimmed text of a piece, with its literals written anew. -/
def trimmedText (piece : List Atom) : Text := Text.trim (piece.flatMap Atom.render)

/-- The token of a piece. A blank piece has none. -/
def token? (piece : List Atom) : Option Text :=
  if trimmedText piece = [] then none else some ((wholeLiteral? piece).getD (trimmedText piece))

/-- The tokens of atoms between the delimiters among them. -/
def tokens (delimiter : Char) (atoms : List Atom) : List Text :=
  (atoms.splitOn (.plain delimiter)).filterMap token?

variable {p t : Text} {piece atoms others : List Atom} {m : Masked} {n : Nat}

theorem Spells.unique (h : Spells t atoms) (h' : Spells t others) : atoms = others :=
  Except.ok.inj ((h.scan 0).symm.trans (h'.scan 0))

/-- A piece is a trimmed text with atoms of its own between blanks, masked or not. -/
theorem Spells.exists_trimmed (h : Spells p piece) :
    ∃ a b others, (∀ c ∈ a, isBlank c) ∧ (∀ c ∈ b, isBlank c) ∧ p = a ++ Text.trim p ++ b ∧ Spells (Text.trim p) others ∧
      (∀ n, maskFrom n piece = a ++ maskFrom n others ++ b) ∧
        piece.filterMap Atom.content? = others.filterMap Atom.content? := by
  obtain ⟨a, b, front, back, whole⟩ := Text.trim_between p
  rw [whole, List.append_assoc] at h
  obtain ⟨_, behind⟩ := h.of_blanks_append front
  obtain ⟨others, spelled⟩ := behind.of_append_blanks back
  obtain ⟨both, spelledBoth, text, contents⟩ := spelled.append_blanks back
  have same := h.unique (spelledBoth.plain_append fun c member => Filter.ordinary_of_isBlank (front c member))
  refine ⟨a, b, others, front, back, whole, spelled, fun n => ?_, ?_⟩
  · rw [same, maskFrom_plain_append, text, List.append_assoc]
  · rw [same, contents_plain_append, contents]

/-- What begins a text escapes nothing but marks if the text does not. -/
theorem EscapesMarks.front {inside : Bool} {t u : Text} (h : EscapesMarks inside (t ++ u)) : EscapesMarks inside t := by
  match t with
  | [] => trivial
  | c :: r =>
    by_cases isEscape : c = escape
    · subst isEscape
      match r with
      | [] => exact escapesMarks_bareEscape inside
      | d :: r =>
        obtain ⟨mark, rest⟩ := escapesMarks_escape.mp h
        exact escapesMarks_escape.mpr ⟨mark, rest.front⟩
    · by_cases isQuote : c = quote
      · subst isQuote
        exact escapesMarks_quote.mpr (escapesMarks_quote.mp h).front
      · exact (escapesMarks_cons isEscape isQuote).mpr ((escapesMarks_cons isEscape isQuote).mp h).front
termination_by structural t

theorem EscapesMarks.behind_blanks {inside : Bool} {a t : Text} (blank : ∀ c ∈ a, isBlank c)
    (h : EscapesMarks inside (a ++ t)) : EscapesMarks inside t := by
  induction a with
  | nil => exact h
  | cons c a ih =>
    have ordinary := Filter.ordinary_of_isBlank (blank c List.mem_cons_self)
    exact ih (fun d member => blank d (List.mem_cons_of_mem _ member))
      ((escapesMarks_cons ordinary.1 ordinary.2.1).mp h)

/-- The trimmed text of a piece is the written form of its own atoms, which the piece is masked to without blanks. -/
theorem Spells.exists_trimmedText (h : Spells p piece) :
    ∃ others, Spells (trimmedText piece) others ∧ trimmedText piece = others.flatMap Atom.render ∧
      (∀ n, Text.trim (maskFrom n piece) = maskFrom n others) ∧
        piece.filterMap Atom.content? = others.filterMap Atom.content? := by
  obtain ⟨a, b, others, front, back, whole, spelled, text, contents⟩ := h.rendered.exists_trimmed
  have written := h.rendered.rendered_eq_iff.mp rfl
  rw [whole, List.append_assoc] at written
  have trimmed := (written.behind_blanks front).front
  refine ⟨others, spelled, (spelled.rendered_eq_iff.mpr trimmed).symm, fun n => ?_, contents⟩
  rw [text n]
  exact Text.trim_eq front back ((spelled.trimmed_maskFrom_iff n).mpr (Text.trimmed_trim _))

theorem filter_blanks_eq_nil {a : Text} (blank : ∀ c ∈ a, isBlank c) :
    (a.map Atom.plain).filter (!·.isBlank) = [] := by
  rw [List.filter_eq_nil_iff]
  intro x member
  obtain ⟨c, among, rfl⟩ := List.mem_map.mp member
  simp [Atom.isBlank, blank c among]

/-- Blank atoms are blanks. -/
theorem exists_blanks {atoms : List Atom} (blank : ∀ a ∈ atoms, a.isBlank) :
    ∃ a : Text, (∀ c ∈ a, isBlank c) ∧ atoms = a.map Atom.plain := by
  induction atoms with
  | nil => exact ⟨[], by simp, rfl⟩
  | cons x atoms ih =>
    obtain ⟨a, blanks, rfl⟩ := ih fun y member => blank y (List.mem_cons_of_mem _ member)
    have first := blank x List.mem_cons_self
    cases x with
    | plain c => exact ⟨c :: a, List.forall_mem_cons.mpr ⟨first, blanks⟩, rfl⟩
    | escaped | bareEscape | literal => cases first

theorem wholeLiteral?_eq_some_iff {content : Text} : wholeLiteral? piece = some content ↔
    ∃ a b : Text, (∀ c ∈ a, isBlank c) ∧ (∀ c ∈ b, isBlank c) ∧
      piece = a.map .plain ++ .literal content :: b.map .plain := by
  constructor
  · intro h
    have single : piece.filter (!·.isBlank) = [.literal content] := by
      unfold wholeLiteral? at h
      split at h
      · rename_i same
        cases h
        exact same
      · cases h
    obtain ⟨front, back, rfl, before, -, after⟩ := List.filter_eq_cons_iff.mp single
    obtain ⟨a, blank, rfl⟩ := exists_blanks fun x member => by simpa using before x member
    obtain ⟨b, blank', rfl⟩ := exists_blanks (by simpa using after)
    exact ⟨a, b, blank, blank', rfl⟩
  · rintro ⟨a, b, blank, blank', rfl⟩
    have single : (a.map Atom.plain ++ Atom.literal content :: b.map Atom.plain).filter (!·.isBlank) =
        [.literal content] := by
      rw [List.filter_append, filter_blanks_eq_nil blank, List.filter_cons, filter_blanks_eq_nil blank']
      rfl
    rw [wholeLiteral?, single]

@[simp] theorem flatMap_render_plain (a : Text) : (a.map Atom.plain).flatMap Atom.render = a := by
  simp [List.flatMap_map, Atom.render]

theorem spells_blanks {a : Text} (blank : ∀ c ∈ a, isBlank c) : Spells a (a.map .plain) := by
  have plain := Spells.nil.plain_append fun c member => Filter.ordinary_of_isBlank (blank c member)
  rwa [List.append_nil, List.append_nil] at plain

theorem trimmed_enquote (content : Text) : Text.Trimmed (enquote content) := by
  have notBlank : ¬ isBlank quote := by decide
  constructor
  · intro c head
    obtain rfl : quote = c := by simpa [enquote] using head
    exact notBlank
  · intro c last
    obtain rfl : quote = c := by simpa [enquote, List.getLast?_cons] using last
    exact notBlank

/-- Without the blanks at its ends, a piece is one literal exactly if what is left is one. -/
theorem wholeLiteral?_eq_some_iff_trimmed {content : Text} (h : Spells p piece) :
    wholeLiteral? piece = some content ↔ Spells (trimmedText piece) [.literal content] := by
  constructor
  · intro whole
    obtain ⟨a, b, front, back, rfl⟩ := wholeLiteral?_eq_some_iff.mp whole
    have written : (a.map Atom.plain ++ Atom.literal content :: b.map Atom.plain).flatMap Atom.render =
        a ++ enquote content ++ b := by
      rw [List.flatMap_append, List.flatMap_cons, flatMap_render_plain, flatMap_render_plain, Atom.render, List.append_assoc]
    have spelled := spells_enquote content .nil
    rw [List.append_nil] at spelled
    rwa [trimmedText, written, Text.trim_eq front back (trimmed_enquote content)]
  · intro single
    obtain ⟨a, b, front, back, whole⟩ := Text.trim_between (piece.flatMap Atom.render)
    have rendered := h.rendered
    rw [whole, List.append_assoc] at rendered
    change Spells (a ++ (trimmedText piece ++ b)) piece at rendered
    generalize trimmedText piece = u at single rendered
    cases single with
    | @literal inner _ _ _ quoted rest =>
      cases rest
      have spelled := (Spells.literal quoted (spells_blanks back)).plain_append fun c member =>
        Filter.ordinary_of_isBlank (front c member)
      have same : quote :: (inner ++ quote :: b) = (quote :: (inner ++ [quote])) ++ b := by simp
      rw [same] at spelled
      exact wholeLiteral?_eq_some_iff.mpr ⟨a, b, front, back, rendered.unique spelled⟩

/-- What a masked text says that is not one placeholder. -/
theorem Masked.Holds.reveal (held : m.Holds n atoms) (h : Spells t atoms) (several : ∀ content, atoms ≠ [.literal content]) :
    m.reveal (maskFrom n atoms) = atoms.flatMap Atom.render := by
  have none : m.unquote? (maskFrom n atoms) = none := by
    cases h with
    | nil => rfl
    | bareEscape | escaped => exact m.unquote?_eq_none (by simp [maskFrom, quote, escape])
    | plain ordinary _ => exact m.unquote?_eq_none (by simpa [maskFrom] using ordinary.2.1)
    | literal _ rest =>
      refine m.unquote?_placeholder_append n fun empty => ?_
      cases rest with
      | nil => exact several _ rfl
      | bareEscape | escaped | plain | literal => simp [maskFrom, placeholder] at empty
  rw [Masked.reveal, none, Option.getD_none, held.restore h]

/-- The token of a piece is what its masked text without the blanks at its ends says. -/
theorem token?_eq (h : Spells p piece) (held : m.Holds n piece) : token? piece =
    if Text.trim (maskFrom n piece) = [] then none else some (m.reveal (Text.trim (maskFrom n piece))) := by
  obtain ⟨others, spelled, written, text, contents⟩ := h.exists_trimmedText
  have held' : m.Holds n others := by rwa [Masked.Holds, ← contents]
  have empty : trimmedText piece = [] ↔ maskFrom n others = [] := by
    generalize trimmedText piece = u at spelled
    cases spelled <;> simp [maskFrom, placeholder]
  rw [token?, text n]
  by_cases blank : trimmedText piece = []
  · rw [if_pos blank, if_pos (empty.mp blank)]
  · rw [if_neg blank, if_neg (mt empty.mpr blank)]
    cases whole : wholeLiteral? piece with
    | some content =>
      have same := spelled.unique ((wholeLiteral?_eq_some_iff_trimmed h).mp whole)
      rw [same] at held' ⊢
      rw [maskFrom, maskFrom, List.append_nil, m.reveal_placeholder held'.literal.1]
      rfl
    | none =>
      have several : ∀ content, others ≠ [.literal content] := by
        rintro content rfl
        rw [(wholeLiteral?_eq_some_iff_trimmed h).mpr spelled] at whole
        cases whole
      rw [held'.reveal spelled several, ← written]
      rfl

end Criteria.Literal
