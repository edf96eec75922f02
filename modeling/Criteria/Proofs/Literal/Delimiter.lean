import Criteria.Literal
import Criteria.Proofs.Literal.Piece

/-!
# Splitting at delimiters

The tokens of a text are cut out of its masked text, where more may look like a delimiter than the delimiters that
stand outside literals: one behind a backslash does, and so does a digit of the number that stands for a literal. The
tokens are those of the atoms exactly if neither disturbs them.
-/

namespace Criteria.Literal

open Text (isBlank)

variable {d : Char} {x y p t : Text} {piece atoms : List Atom} {m : Masked} {n : Nat}

/-- What holds of lists without a delimiter, and of a list with such a one put before it, holds of every list. -/
theorem delimiter_induction {A : Type} {d : A} {motive : List A → Prop} (last : ∀ piece, d ∉ piece → motive piece)
    (more : ∀ piece rest, d ∉ piece → motive rest → motive (piece ++ d :: rest)) (l : List A) : motive l := by
  induction size : l.length using Nat.strong_induction_on generalizing l with
  | _ size' ih =>
    by_cases member : d ∈ l
    · obtain ⟨piece, rest, rfl, absent⟩ := List.eq_append_cons_of_mem member
      exact more piece rest absent (ih rest.length (by simp [← size]; omega) rest rfl)
    · exact last l member

/-- The trimmed pieces of a text between delimiters that are not blank. -/
def fragments (d : Char) (x : Text) : List Text := ((x.splitOn d).map Text.trim).filter (· ≠ [])

theorem split_eq_fragments (masked : mask t = .ok m) : split d t = .ok ((fragments d m.text).map m.reveal) := by
  rw [split, masked]
  rfl

@[simp] theorem fragments_append_cons (d : Char) (x y : Text) :
    fragments d (x ++ d :: y) = fragments d x ++ fragments d y := by
  rw [fragments, List.splitOn_append_cons_self, List.map_append, List.filter_append]
  rfl

theorem fragments_of_not_mem (absent : d ∉ x) : fragments d x = [Text.trim x].filter (· ≠ []) := by
  rw [fragments, List.splitOn_eq_singleton absent, List.map_singleton]

/-- A text without a fragment has nothing but blanks and delimiters. -/
theorem fragments_eq_nil_iff : fragments d x = [] ↔ ∀ c ∈ x, isBlank c ∨ c = d := by
  have single {x : Text} (absent : d ∉ x) : fragments d x = [] ↔ ∀ c ∈ x, isBlank c ∨ c = d := by
    have blank : Text.trim x = [] ↔ ∀ c ∈ x, isBlank c := Text.trim_eq_nil_iff.trans Text.words_eq_nil_iff
    have none : fragments d x = [] ↔ Text.trim x = [] := by simp [fragments_of_not_mem absent]
    rw [none, blank]
    refine forall₂_congr fun c member => (or_iff_left ?_).symm
    rintro rfl
    exact absent member
  induction x using delimiter_induction (d := d) with
  | last x absent => exact single absent
  | more x y absent ih =>
    rw [fragments_append_cons, List.append_eq_nil_iff]
    refine (and_congr (single absent) ih).trans ?_
    simp [or_imp, forall_and]

/-- A text with a quote or a backslash has a fragment, whatever other character delimits it. -/
theorem fragments_ne_nil (notQuote : d ≠ quote) (notEscape : d ≠ escape) {c : Char} (mark : c = quote ∨ c = escape)
    (member : c ∈ x) : fragments d x ≠ [] := by
  intro none
  have blank := fragments_eq_nil_iff.mp none c member
  rcases mark with rfl | rfl
  · exact blank.elim (by decide) fun same => notQuote same.symm
  · exact blank.elim (by decide) fun same => notEscape same.symm

/-- Every literal of some atoms stands behind as many literals as its number says. -/
theorem exists_literal {i : Nat} (bound : i < (atoms.filterMap Atom.content?).length) :
    ∃ front content back, atoms = front ++ .literal content :: back ∧ (front.filterMap Atom.content?).length = i := by
  have whole := List.take_append_drop i (atoms.filterMap Atom.content?)
  rw [List.drop_eq_getElem_cons bound] at whole
  obtain ⟨front, rest, rfl, before, behind⟩ := List.filterMap_eq_append_iff.mp whole.symm
  obtain ⟨between, a, back, rfl, bare, content, -⟩ := List.filterMap_eq_cons_iff.mp behind
  cases a with
  | plain | escaped | bareEscape => cases content
  | literal inner =>
    refine ⟨front ++ between, inner, back, by simp, ?_⟩
    rw [List.filterMap_append, List.filterMap_eq_nil_iff.mpr bare, List.append_nil, before, List.length_take]
    omega

/-- A delimiter that a backslash escapes in a piece is a blank, and only blanks follow it. -/
def EscapesEnd (d : Char) (piece : List Atom) : Prop :=
  ∀ front back, piece = front ++ .escaped d :: back → isBlank d ∧ ∀ a ∈ back, a.isBlank

/-- No literal of a run of atoms has a number that is written with the delimiter. -/
def NumbersAvoid (d : Char) (n : Nat) (atoms : List Atom) : Prop :=
  ∀ i < (atoms.filterMap Atom.content?).length, d ∉ Text.ofNat (n + i)

theorem numbersAvoid_append (front back : List Atom) : NumbersAvoid d n (front ++ back) ↔
    NumbersAvoid d n front ∧ NumbersAvoid d (n + (front.filterMap Atom.content?).length) back := by
  unfold NumbersAvoid
  rw [List.filterMap_append, List.length_append]
  constructor
  · refine fun avoid => ⟨fun i bound => avoid i (by omega), fun i bound => ?_⟩
    rw [Nat.add_assoc]
    exact avoid _ (by omega)
  · rintro ⟨here, there⟩ i bound
    by_cases inside : i < (front.filterMap Atom.content?).length
    · exact here i inside
    · have number := there (i - (front.filterMap Atom.content?).length) (by omega)
      rwa [show n + (front.filterMap Atom.content?).length + (i - (front.filterMap Atom.content?).length) = n + i by
        omega] at number

/-- A masked piece has no delimiter if none is escaped in it and none is in a number. -/
theorem not_mem_maskFrom (notQuote : d ≠ quote) (notEscape : d ≠ escape) (bare : .plain d ∉ piece)
    (unescaped : .escaped d ∉ piece) (avoid : NumbersAvoid d n piece) : d ∉ maskFrom n piece := by
  induction piece generalizing n with
  | nil => exact List.not_mem_nil
  | cons a piece ih =>
    rw [List.mem_cons, not_or] at bare unescaped
    obtain ⟨here, there⟩ := (numbersAvoid_append [a] piece).mp avoid
    rw [← List.singleton_append, maskFrom_append, List.mem_append, not_or]
    refine ⟨?_, ih bare.2 unescaped.2 there⟩
    cases a with
    | plain c => simpa [maskFrom] using bare.1
    | escaped c => simpa [maskFrom, notEscape] using unescaped.1
    | bareEscape => simpa [maskFrom] using notEscape
    | literal content => simpa [maskFrom, placeholder, notQuote] using here 0 Nat.zero_lt_one

/-- A delimiter in the number of a literal stands between the quotes around the number. -/
theorem exists_cut_of_number (disturbed : ¬ NumbersAvoid d n piece) :
    ∃ x y, maskFrom n piece = x ++ d :: y ∧ quote ∈ x ∧ quote ∈ y := by
  simp only [NumbersAvoid, not_forall, not_not] at disturbed
  obtain ⟨i, bound, member⟩ := disturbed
  obtain ⟨front, content, back, rfl, rfl⟩ := exists_literal bound
  obtain ⟨a, b, number⟩ := List.append_of_mem member
  rw [maskFrom_append, maskFrom, placeholder, number]
  exact ⟨maskFrom n front ++ quote :: a, b ++ quote :: maskFrom (n + (front.filterMap Atom.content?).length + 1) back,
    by simp, by simp, by simp⟩

/-- An escaped delimiter stands behind its backslash in the masked piece. -/
theorem maskFrom_escaped (n : Nat) (front back : List Atom) : maskFrom n (front ++ .escaped d :: back) =
    (maskFrom n front ++ [escape]) ++ d :: maskFrom (n + (front.filterMap Atom.content?).length) back := by
  rw [maskFrom_append, maskFrom, List.append_assoc]
  rfl

/-- In place of what follows some atoms of a text any other text may follow them. -/
theorem Spells.exists_front {a : Atom} {front back : List Atom} (h : Spells t (front ++ a :: back)) :
    ∃ p u, t = p ++ u ∧ Spells u (a :: back) ∧
      ∀ {v : Text} {others : List Atom}, Spells v others → Spells (p ++ v) (front ++ others) := by
  induction front generalizing t with
  | nil => exact ⟨[], t, rfl, h, id⟩
  | cons b front ih =>
    generalize behind : front ++ a :: back = rest at h
    rw [List.cons_append, behind] at h
    cases h with
    | bareEscape => simp at behind
    | plain ordinary spelled =>
      obtain ⟨p, u, rfl, later, replace⟩ := ih (behind ▸ spelled)
      exact ⟨_ :: p, u, rfl, later, fun other => .plain ordinary (replace other)⟩
    | escaped c spelled =>
      obtain ⟨p, u, rfl, later, replace⟩ := ih (behind ▸ spelled)
      exact ⟨escape :: c :: p, u, rfl, later, fun other => .escaped c (replace other)⟩
    | @literal inner _ _ _ quoted spelled =>
      obtain ⟨p, u, rfl, later, replace⟩ := ih (behind ▸ spelled)
      refine ⟨quote :: (inner ++ quote :: p), u, by simp, later, fun other => ?_⟩
      simpa using Spells.literal quoted (replace other)

/-- A piece with an escape among its atoms is not one literal. -/
theorem wholeLiteral?_eq_none {a : Atom} (member : a ∈ piece) (notBlank : ¬ a.isBlank) (unquoted : a.content? = none) :
    wholeLiteral? piece = none := by
  cases whole : wholeLiteral? piece with
  | none => rfl
  | some content =>
    obtain ⟨front, back, blank, blank', rfl⟩ := wholeLiteral?_eq_some_iff.mp whole
    have bare {w : Text} (blank : ∀ c ∈ w, isBlank c) : a ∉ w.map .plain := by
      intro among
      obtain ⟨c, inside, rfl⟩ := List.mem_map.mp among
      exact notBlank (blank c inside)
    rcases List.mem_append.mp member with among | among
    · exact absurd among (bare blank)
    · rcases List.mem_cons.mp among with rfl | among
      · cases unquoted
      · exact absurd among (bare blank')

/-- A solid character behind the last solid character of a text is not trimmed. -/
theorem trim_append_ne {c d : Char} (solid : ¬ isBlank c) (solid' : ¬ isBlank d) (x : Text) {b : Text}
    (blank : ∀ c ∈ b, isBlank c) : Text.trim (x ++ [c] ++ d :: b) ≠ Text.trim (x ++ [c]) := by
  obtain ⟨front, behind, blankFront, blankBehind, whole⟩ := Text.trim_between (x ++ [c])
  have trimmed := Text.trimmed_trim (x ++ [c])
  generalize Text.trim (x ++ [c]) = w at whole trimmed ⊢
  obtain rfl : behind = [] := by
    rcases List.eq_nil_or_concat behind with none | ⟨behind, e, rfl⟩
    · exact none
    · rw [List.concat_eq_append, ← List.append_assoc] at whole
      obtain ⟨-, same⟩ := List.append_inj' whole rfl
      cases same
      exact absurd (blankBehind c (by simp)) solid
  have nonempty : w ≠ [] := by
    rintro rfl
    rw [List.append_nil, List.append_nil] at whole
    exact solid (blankFront c (by simp [← whole]))
  have longer : Text.Trimmed (w ++ ([] ++ [d])) :=
    trimmed.append nonempty [] (.of_solid (by simpa using solid')) (List.cons_ne_nil d [])
  have cut : x ++ [c] ++ d :: b = front ++ (w ++ ([] ++ [d])) ++ b := by simp [whole]
  rw [cut, Text.trim_eq blankFront blank longer]
  simp

/-- Atoms are blank if their masked text has only blanks and delimiters, and none of them is a delimiter. -/
theorem isBlank_of_fragments_eq_nil (notQuote : d ≠ quote) (notEscape : d ≠ escape) (bare : .plain d ∉ atoms)
    (none : fragments d (maskFrom n atoms) = []) : ∀ a ∈ atoms, a.isBlank := by
  intro a member
  obtain ⟨front, back, rfl⟩ := List.append_of_mem member
  rw [← List.singleton_append, maskFrom_append, maskFrom_append _ _ back] at none
  cases a with
  | plain c =>
    have blank := fragments_eq_nil_iff.mp none c (by simp [maskFrom])
    exact blank.resolve_right fun same => bare (by simp [same])
  | escaped | bareEscape => exact absurd none (fragments_ne_nil notQuote notEscape (.inr rfl) (by simp [maskFrom]))
  | literal => exact absurd none (fragments_ne_nil notQuote notEscape (.inl rfl) (by simp [maskFrom, placeholder]))

/-- What stands before an escaped delimiter that only blanks follow has no delimiter when it is masked. -/
theorem not_mem_maskFrom_front (notQuote : d ≠ quote) (notEscape : d ≠ escape) (bare : .plain d ∉ piece)
    (last : ∀ front back, piece = front ++ .escaped d :: back → ∀ a ∈ back, a.isBlank) (avoid : NumbersAvoid d n piece)
    {front back : List Atom} (whole : piece = front ++ .escaped d :: back) : d ∉ maskFrom n front ++ [escape] := by
  have unescaped : .escaped d ∉ front := by
    intro member
    obtain ⟨first, between, rfl⟩ := List.append_of_mem member
    have blank := last first (between ++ .escaped d :: back) (by simp [whole]) (.escaped d) (by simp)
    simp [Atom.isBlank] at blank
  subst whole
  rw [List.mem_append, not_or] at bare
  have absent := not_mem_maskFrom notQuote notEscape bare.1 unescaped ((numbersAvoid_append _ _).mp avoid).1
  simpa [notEscape] using absent

/-- A piece whose fragments say its token has no number with the delimiter. -/
theorem numbersAvoid_of_fragments (notQuote : d ≠ quote) (notEscape : d ≠ escape)
    (single : (fragments d (maskFrom n piece)).length ≤ 1) : NumbersAvoid d n piece := by
  by_contra disturbed
  obtain ⟨x, y, cut, front, back⟩ := exists_cut_of_number disturbed
  have before := List.length_pos_iff.mpr (fragments_ne_nil notQuote notEscape (.inl rfl) front)
  have behind := List.length_pos_iff.mpr (fragments_ne_nil notQuote notEscape (.inl rfl) back)
  rw [cut, fragments_append_cons, List.length_append] at single
  omega

theorem length_fragments_le_one (same : (fragments d x).map m.reveal = (token? piece).toList) :
    (fragments d x).length ≤ 1 := by
  rw [← List.length_map (f := m.reveal), same]
  cases token? piece <;> simp

theorem maskFrom_plains (n : Nat) (b : Text) : maskFrom n (b.map .plain) = b := by
  have plain := maskFrom_plain_append n b []
  rwa [List.append_nil, maskFrom, List.append_nil] at plain

theorem trimmedText_eq_token? (several : wholeLiteral? piece = none) : trimmedText piece = (token? piece).toList.flatten := by
  rw [token?, several]
  split <;> simp_all

section
variable (spelled : Spells p piece) (held : m.Holds n piece)
include spelled held

/-- A piece with no delimiter in its masked text is one fragment, and it says the token. -/
theorem fragments_of_undisturbed (absent : d ∉ maskFrom n piece) :
    (fragments d (maskFrom n piece)).map m.reveal = (token? piece).toList := by
  rw [fragments_of_not_mem absent, token?_eq spelled held]
  split <;> simp_all

variable (notQuote : d ≠ quote) (notEscape : d ≠ escape) (bare : .plain d ∉ piece)
include notQuote notEscape bare

/-- A piece gives no fewer fragments than tokens. -/
theorem length_token?_le : (token? piece).toList.length ≤ (fragments d (maskFrom n piece)).length := by
  by_cases member : d ∈ maskFrom n piece
  · have nonempty : fragments d (maskFrom n piece) ≠ [] := by
      by_cases avoid : NumbersAvoid d n piece
      · by_cases escaped : .escaped d ∈ piece
        · obtain ⟨front, back, rfl⟩ := List.append_of_mem escaped
          rw [maskFrom_escaped]
          exact fragments_ne_nil notQuote notEscape (.inr rfl) (by simp)
        · exact absurd member (not_mem_maskFrom notQuote notEscape bare escaped avoid)
      · obtain ⟨x, y, cut, mark, -⟩ := exists_cut_of_number avoid
        rw [cut]
        exact fragments_ne_nil notQuote notEscape (.inl rfl) (by simp [mark])
    have atMost : (token? piece).toList.length ≤ 1 := by cases token? piece <;> simp
    exact atMost.trans (List.length_pos_iff.mpr nonempty)
  · rw [← fragments_of_undisturbed spelled held member, List.length_map]

/-- A piece that ends in the fragment of its token when an escaped delimiter cuts it has only blanks cut off. -/
theorem escapesEnd_of_fragments (avoid : NumbersAvoid d n piece)
    (same : (fragments d (maskFrom n piece)).map m.reveal = (token? piece).toList) : EscapesEnd d piece := by
  have single := length_fragments_le_one same
  have last : ∀ front back, piece = front ++ .escaped d :: back → ∀ a ∈ back, a.isBlank := by
    rintro front back rfl
    have before := List.length_pos_iff.mpr <| fragments_ne_nil (x := maskFrom n front ++ [escape]) notQuote notEscape
      (.inr rfl) (by simp)
    rw [maskFrom_escaped, fragments_append_cons, List.length_append] at single
    have unplain : .plain d ∉ back := fun member => bare (by simp [member])
    exact isBlank_of_fragments_eq_nil notQuote notEscape unplain (n := n + (front.filterMap Atom.content?).length)
      (List.eq_nil_of_length_eq_zero (by omega))
  refine fun front back whole => ⟨?_, last front back whole⟩
  have absent := not_mem_maskFrom_front notQuote notEscape bare last avoid whole
  obtain ⟨b, blank, rfl⟩ := exists_blanks (last front back whole)
  subst whole
  by_contra solid
  -- the token would be that of the atoms in front with a backslash at their end
  obtain ⟨q, u, -, -, replace⟩ := spelled.exists_front
  have cut : maskFrom n (front ++ [.bareEscape]) = maskFrom n front ++ [escape] := maskFrom_append n front [.bareEscape]
  have heldFront : m.Holds n (front ++ [.bareEscape]) := by
    have before := (held.append List.filterMap_append).1
    rwa [Masked.Holds, List.filterMap_append, show [Atom.bareEscape].filterMap Atom.content? = [] from rfl,
      List.append_nil]
  have tokens := fragments_of_undisturbed (replace .bareEscape) heldFront (cut ▸ absent)
  have none : fragments d (maskFrom (n + (front.filterMap Atom.content?).length) (b.map .plain)) = [] := by
    rw [maskFrom_plains]
    exact fragments_eq_nil_iff.mpr fun c member => .inl (blank c member)
  rw [maskFrom_escaped, fragments_append_cons, none, List.append_nil, ← cut, tokens] at same
  have equal : trimmedText (front ++ .escaped d :: b.map .plain) = trimmedText (front ++ [.bareEscape]) := by
    rw [trimmedText_eq_token? (wholeLiteral?_eq_none (a := .escaped d) (by simp) Bool.false_ne_true rfl), ← same,
      trimmedText_eq_token? (wholeLiteral?_eq_none (a := .bareEscape) (by simp) Bool.false_ne_true rfl)]
  have longer := trim_append_ne (c := escape) (by decide) solid (front.flatMap Atom.render) blank
  exact longer (by simpa [trimmedText, Atom.render] using equal)

theorem fragments_of_escapesEnd (ends : EscapesEnd d piece) (avoid : NumbersAvoid d n piece) :
    (fragments d (maskFrom n piece)).map m.reveal = (token? piece).toList := by
  by_cases escaped : .escaped d ∈ piece
  · obtain ⟨front, back, rfl⟩ := List.append_of_mem escaped
    have absent := not_mem_maskFrom_front notQuote notEscape bare (fun _ _ whole => (ends _ _ whole).2) avoid rfl
    obtain ⟨blank, last⟩ := ends front back rfl
    obtain ⟨b, blanks, rfl⟩ := exists_blanks last
    have whole : maskFrom n (front ++ .escaped d :: b.map .plain) = (maskFrom n front ++ [escape]) ++ d :: b := by
      rw [maskFrom_escaped, maskFrom_plains]
    have blanks : ∀ c ∈ d :: b, isBlank c := List.forall_mem_cons.mpr ⟨blank, blanks⟩
    have none : fragments d b = [] :=
      fragments_eq_nil_iff.mpr fun c member => .inl (blanks c (List.mem_cons_of_mem d member))
    rw [token?_eq spelled held, whole, fragments_append_cons, none, List.append_nil, fragments_of_not_mem absent,
      Text.trim_append_blanks blanks]
    split <;> simp_all
  · exact fragments_of_undisturbed spelled held (not_mem_maskFrom notQuote notEscape bare escaped avoid)

/-- The fragments of a piece say its token exactly if no number and no escape disturbs them. -/
theorem fragments_eq_token?_iff : (fragments d (maskFrom n piece)).map m.reveal = (token? piece).toList ↔
    EscapesEnd d piece ∧ NumbersAvoid d n piece := by
  constructor
  · intro same
    have avoid := numbersAvoid_of_fragments notQuote notEscape (length_fragments_le_one same)
    exact ⟨escapesEnd_of_fragments spelled held notQuote notEscape bare avoid same, avoid⟩
  · rintro ⟨ends, avoid⟩
    exact fragments_of_escapesEnd spelled held notQuote notEscape bare ends avoid

end

/-- No escape and no number of a literal disturbs how atoms are divided. -/
structure Undisturbed (d : Char) (n : Nat) (atoms : List Atom) : Prop where
  escapes : ∀ piece ∈ atoms.splitOn (.plain d), EscapesEnd d piece
  numbers : NumbersAvoid d n atoms

theorem undisturbed_append_cons (absent : .plain d ∉ piece) : Undisturbed d n (piece ++ .plain d :: atoms) ↔
    (EscapesEnd d piece ∧ NumbersAvoid d n piece) ∧
      Undisturbed d (n + (piece.filterMap Atom.content?).length) atoms := by
  have pieces := List.splitOn_append_cons_self_of_not_mem absent atoms
  have numbers : NumbersAvoid d n (piece ++ .plain d :: atoms) ↔ NumbersAvoid d n piece ∧
      NumbersAvoid d (n + (piece.filterMap Atom.content?).length) atoms := numbersAvoid_append piece (.plain d :: atoms)
  constructor
  · rintro ⟨escapes, avoid⟩
    rw [pieces, List.forall_mem_cons] at escapes
    rw [numbers] at avoid
    exact ⟨⟨escapes.1, avoid.1⟩, escapes.2, avoid.2⟩
  · rintro ⟨⟨here, avoid⟩, escapes, later⟩
    exact ⟨by rw [pieces, List.forall_mem_cons]; exact ⟨here, escapes⟩, numbers.mpr ⟨avoid, later⟩⟩

/-- The fragments of masked atoms say their tokens exactly if nothing disturbs them, and they are never fewer. -/
theorem fragments_eq_tokens_iff (notQuote : d ≠ quote) (notEscape : d ≠ escape) (spelled : Spells t atoms)
    (held : m.Holds n atoms) : (tokens d atoms).length ≤ (fragments d (maskFrom n atoms)).length ∧
      ((fragments d (maskFrom n atoms)).map m.reveal = tokens d atoms ↔ Undisturbed d n atoms) := by
  induction atoms using delimiter_induction (d := Atom.plain d) generalizing t n with
  | last piece absent =>
    have single : tokens d piece = (token? piece).toList := by
      rw [tokens, List.splitOn_eq_singleton absent]
      cases token : token? piece <;> simp [token]
    rw [single]
    refine ⟨length_token?_le spelled held notQuote notEscape absent, ?_⟩
    rw [fragments_eq_token?_iff spelled held notQuote notEscape absent]
    constructor
    · rintro ⟨ends, avoid⟩
      exact ⟨by rwa [List.splitOn_eq_singleton absent, List.forall_mem_singleton], avoid⟩
    · rintro ⟨escapes, avoid⟩
      rw [List.splitOn_eq_singleton absent, List.forall_mem_singleton] at escapes
      exact ⟨escapes, avoid⟩
  | more piece rest absent ih =>
    obtain ⟨p, u, rfl, behind, replace⟩ := spelled.exists_front
    have here : Spells p piece := by simpa using replace .nil
    obtain ⟨heldHere, heldThere⟩ := held.append List.filterMap_append
    cases behind with
    | plain ordinary there =>
      obtain ⟨atLeast, later⟩ := ih there heldThere
      have atLeast' := length_token?_le here heldHere notQuote notEscape absent
      have cut : tokens d (piece ++ .plain d :: rest) = (token? piece).toList ++ tokens d rest := by
        rw [tokens, List.splitOn_append_cons_self_of_not_mem absent]
        cases token : token? piece <;> simp [token, tokens]
      rw [maskFrom_append, maskFrom, fragments_append_cons, cut, List.map_append, undisturbed_append_cons absent,
        ← later, ← fragments_eq_token?_iff here heldHere notQuote notEscape absent, List.length_append,
        List.length_append]
      refine ⟨by omega, fun same => ?_, fun both => by rw [both.1, both.2]⟩
      have sizes := congrArg List.length same
      simp only [List.length_append, List.length_map] at sizes
      exact List.append_inj same (by rw [List.length_map]; omega)

/-- A text is split into the tokens of its atoms exactly if no escape and no number of a literal disturbs them. An
    escaped delimiter has to be a blank at the end of its piece, and the numbers of the literals are those from zero on. -/
theorem split_eq_tokens_iff (spelled : Spells t atoms) (notQuote : d ≠ quote) (notEscape : d ≠ escape) :
    split d t = .ok (tokens d atoms) ↔ Undisturbed d 0 atoms := by
  have masked : mask t = .ok (Masked.ofAtoms atoms) := mask_eq_ok_iff.mpr ⟨atoms, spelled, rfl⟩
  rw [split_eq_fragments masked, Except.ok.injEq]
  exact (fragments_eq_tokens_iff notQuote notEscape spelled (Masked.holds_ofAtoms atoms)).2

/-- An escaped comma divides. -/
theorem split_escapedComma : split comma "a\\,b".toList = .ok ["a\\".toList, "b".toList] ∧
    tokens comma [.plain 'a', .escaped ',', .plain 'b'] = ["a\\,b".toList] ∧
      ¬ Undisturbed comma 0 [.plain 'a', .escaped ',', .plain 'b'] := by
  refine ⟨by decide, by decide, fun undisturbed => ?_⟩
  have same := (split_eq_tokens_iff (t := "a\\,b".toList) (spells_of_scan 0 _ rfl) (by decide) (by decide)).mpr undisturbed
  exact absurd same (by decide)

end Criteria.Literal
