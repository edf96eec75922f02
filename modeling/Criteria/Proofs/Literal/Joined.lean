import Criteria.Dialects
import Criteria.Proofs.Filter.Meaning
import Criteria.Proofs.Options.Distinct

/-!
# Lists that are joined by a comma

Two texts with a comma between them are read as the list of the first and then the list of the second,
also if a backslash stands before the comma: an escaped comma separates like any other one.
-/

namespace Criteria

namespace Literal

theorem splitOn_separator (separator : Char) (t : Text) :
    (separator :: t).splitOn separator = [] :: t.splitOn separator := by
  rw [List.splitOn_eq_splitOnP, List.splitOn_eq_splitOnP, List.splitOnP_cons_eq_if_modifyHead, if_pos (beq_self_eq_true _)]

theorem splitOn_append {separator : Char} {w t p : Text} {r : List Text} (absent : separator ∉ w)
    (pieces : t.splitOn separator = p :: r) : (w ++ t).splitOn separator = (w ++ p) :: r := by
  induction w with
  | nil => exact pieces
  | cons c w ih =>
    have later := ih fun member => absent (List.mem_cons_of_mem _ member)
    have other : (c == separator) = false := beq_eq_false_iff_ne.mpr fun same => absent (by simp [same])
    rw [List.splitOn_eq_splitOnP] at later ⊢
    rw [List.cons_append, List.splitOnP_cons_eq_if_modifyHead, other, later]
    rfl

/-- A placeholder holds quotes and digits only. -/
theorem not_mem_placeholder {c : Char} (notQuote : c ≠ quote) (notDigit : ¬ c.isDigit) (n : Nat) : c ∉ placeholder n := by
  intro member
  rcases Filter.mem_placeholder member with same | digit
  · exact notQuote same
  · exact notDigit digit

end Literal

namespace Filter.Alike

open Literal (splitOn_separator splitOn_append)

variable {l : Likeness} {first : Bool} {t t' : Text}

/-- A separator cuts alike texts into alike pieces, and it cuts an escape in two. -/
theorem splitOn (h : Alike l first t t') (unmarked : ∀ n n', ¬ l.marks n n') {separator : Char}
    (bare : separator ≠ Literal.quote ∧ separator ≠ Literal.escape ∧ ¬ separator.isDigit) :
    List.Forall₂ (Alike l true) (t.splitOn separator) (t'.splitOn separator) := by
  obtain ⟨notQuote, notEscape, notDigit⟩ := bare
  have single {c : Char} (other : c ≠ separator) : separator ∉ [c] := by simpa using Ne.symm other
  suffices pieces : ∃ p r p' r', t.splitOn separator = p :: r ∧ t'.splitOn separator = p' :: r' ∧ Alike l first p p' ∧
      List.Forall₂ (Alike l true) r r' by
    obtain ⟨p, r, p', r', left, right, alike, later⟩ := pieces
    rw [left, right]
    exact .cons alike.begin later
  induction h with
  | nil first => exact ⟨[], [], [], [], rfl, rfl, .nil first, .nil⟩
  | bareEscape first =>
    have whole : [Literal.escape].splitOn separator = [[Literal.escape]] :=
      List.splitOn_eq_singleton (single (Ne.symm notEscape))
    exact ⟨_, [], _, [], whole, whole, .bareEscape first, .nil⟩
  | @escaped first c t t' rest ih =>
    obtain ⟨p, r, p', r', left, right, alike, later⟩ := ih
    by_cases separates : c = separator
    · subst separates
      have cut {t p : Text} {r : List Text} (pieces : t.splitOn c = p :: r) :
          (Literal.escape :: c :: t).splitOn c = [Literal.escape] :: p :: r := by
        refine splitOn_append (w := [Literal.escape]) (single (Ne.symm notEscape)) ?_
        rw [splitOn_separator, pieces]
      exact ⟨_, p :: r, _, p' :: r', cut left, cut right, .bareEscape first, .cons alike.begin later⟩
    · have absent : separator ∉ [Literal.escape, c] := by
        simpa using ⟨notEscape, Ne.symm separates⟩
      exact ⟨_, r, _, r', splitOn_append absent left, splitOn_append absent right, .escaped c alike, later⟩
  | @plain first c t t' ordinary allowed rest ih =>
    obtain ⟨p, r, p', r', left, right, alike, later⟩ := ih
    by_cases separates : c = separator
    · subst separates
      rw [splitOn_separator, splitOn_separator, left, right]
      exact ⟨[], p :: r, [], p' :: r', rfl, rfl, .nil first, .cons alike.begin later⟩
    · exact ⟨_, r, _, r', splitOn_append (single separates) left, splitOn_append (single separates) right,
        .plain ordinary allowed alike, later⟩
  | @literal first n n' t t' same rest ih =>
    obtain ⟨p, r, p', r', left, right, alike, later⟩ := ih
    have absent := Literal.not_mem_placeholder notQuote notDigit
    exact ⟨_, r, _, r', splitOn_append (absent n) left, splitOn_append (absent n') right, .literal same alike, later⟩
  | mark same => exact absurd same (unmarked _ _)

end Filter.Alike

namespace Literal

open Criteria.Filter (Alike Likeness)

/-- A reading of the pieces of a list that does not depend on the numbers of their literals. -/
def ReadsAlike {A : Type} (read : Masked → Text → Except SyntaxError A) : Prop :=
  ∀ {l : Likeness} {m m' : Masked} {t t' : Text}, Alike l true t t' → l.Agree m m' → (∀ n n', ¬ l.marks n n') →
    read m t = read m' t'

section
variable {A : Type} {read : Masked → Text → Except SyntaxError A}

private theorem ReadsAlike.mapM (reads : ReadsAlike read) {l : Likeness} {m m' : Masked} {ts ts' : List Text}
    (h : List.Forall₂ (Alike l true) ts ts') (agree : l.Agree m m') (unmarked : ∀ n n', ¬ l.marks n n') :
    ts.mapM (read m) = ts'.mapM (read m') := by
  induction h with
  | nil => rfl
  | cons one others ih => rw [List.mapM_cons, List.mapM_cons, reads one agree unmarked, ih]

/-- Two lists that are joined by a comma are read one after the other. -/
theorem ReadsAlike.mapM_joined (reads : ReadsAlike read) {a b : Text} {ma mb : Masked} (maskedA : mask a = .ok ma)
    (maskedB : mask b = .ok mb) :
    ∃ m, mask (a ++ comma :: b) = .ok m ∧ (m.text.splitOn comma).mapM (read m) = do
      return (← (ma.text.splitOn comma).mapM (read ma)) ++ (← (mb.text.splitOn comma).mapM (read mb)) := by
  obtain ⟨atoms, spelledA, rfl⟩ := mask_eq_ok_iff.mp maskedA
  obtain ⟨others, spelledB, rfl⟩ := mask_eq_ok_iff.mp maskedB
  have ordinary : Ordinary comma := by decide
  have bare : comma ≠ quote ∧ comma ≠ escape ∧ ¬ comma.isDigit := by decide
  obtain ⟨both, spelled, masked, contents⟩ := spelledA.append_cons ordinary spelledB
  obtain ⟨first, second⟩ := (Masked.holds_ofAtoms both).append contents
  have unmarked {count n n' : Nat} : ∀ k k', ¬ (Likeness.numbered count n n').marks k k' := fun _ _ => id
  refine ⟨Masked.ofAtoms both, mask_eq_ok_iff.mpr ⟨both, spelled, rfl⟩, ?_⟩
  have front : (maskFrom 0 atoms |>.splitOn comma).mapM (read (Masked.ofAtoms both)) =
      ((Masked.ofAtoms atoms).text.splitOn comma).mapM (read (Masked.ofAtoms atoms)) := by
    have alike := (Filter.alike_numbered spelledA 0 0).splitOn unmarked bare
    exact (reads.mapM alike (Filter.agree_of_holds (Masked.holds_ofAtoms atoms) first) unmarked).symm
  have back : (maskFrom (0 + (atoms.filterMap Atom.content?).length) others |>.splitOn comma).mapM
      (read (Masked.ofAtoms both)) = ((Masked.ofAtoms others).text.splitOn comma).mapM (read (Masked.ofAtoms others)) := by
    have alike := (Filter.alike_numbered spelledB 0 (0 + (atoms.filterMap Atom.content?).length)).splitOn unmarked bare
    exact (reads.mapM alike (Filter.agree_of_holds (Masked.holds_ofAtoms others) second) unmarked).symm
  have pieces : (Masked.ofAtoms both).text.splitOn comma = (maskFrom 0 atoms).splitOn comma ++
      (maskFrom (0 + (atoms.filterMap Atom.content?).length) others).splitOn comma := by
    rw [Masked.ofAtoms, masked, List.splitOn_eq_splitOnP, List.splitOn_eq_splitOnP, List.splitOn_eq_splitOnP]
    exact List.splitOnP_append_cons _ _ (beq_self_eq_true _)
  rw [pieces, List.mapM_append, front, back]

/-- The list of a text: what its pieces between commas are read as, without those that are read as nothing. -/
def readList {B : Type} (read : Masked → Text → Except SyntaxError (Option B)) (t : Text) :
    Except SyntaxError (List B) := do
  let m ← mask t
  let items ← (m.text.splitOn comma).mapM (read m)
  return items.filterMap id

theorem readList_eq_ok_iff {B : Type} {read : Masked → Text → Except SyntaxError (Option B)} {t : Text} {list : List B} :
    readList read t = .ok list ↔ ∃ m items, mask t = .ok m ∧ (m.text.splitOn comma).mapM (read m) = .ok items ∧
      items.filterMap id = list := by
  cases masked : mask t with
  | error e => simp [readList, masked, bind, Except.bind]
  | ok m =>
    cases read : (m.text.splitOn comma).mapM (read m) with
    | error e => simp [readList, masked, read, bind, Except.bind]
    | ok items => simp [readList, masked, read, bind, Except.bind, pure, Except.pure]

/-- Two texts with a comma between them are read one after the other: the first one that fails, fails both. -/
theorem readList_append {B : Type} {read : Masked → Text → Except SyntaxError (Option B)} (reads : ReadsAlike read)
    {a b : Text} {ma mb : Masked} (maskedA : mask a = .ok ma) (maskedB : mask b = .ok mb) :
    readList read (a ++ comma :: b) = do return (← readList read a) ++ (← readList read b) := by
  obtain ⟨m, masked, items⟩ := reads.mapM_joined maskedA maskedB
  simp only [readList, maskedA, maskedB, masked, items, bind, Except.bind, pure, Except.pure]
  cases (ma.text.splitOn comma).mapM (read ma) with
  | error e => rfl
  | ok first =>
    cases (mb.text.splitOn comma).mapM (read mb) with
    | error e => rfl
    | ok second => simp only [List.filterMap_append]

/-- Two texts with a comma between them are read as both lists. -/
theorem readList_joined {B : Type} {read : Masked → Text → Except SyntaxError (Option B)} (reads : ReadsAlike read)
    {a b : Text} {first second : List B} (readA : readList read a = .ok first) (readB : readList read b = .ok second) :
    readList read (a ++ comma :: b) = .ok (first ++ second) := by
  obtain ⟨ma, as, maskedA, -⟩ := readList_eq_ok_iff.mp readA
  obtain ⟨mb, bs, maskedB, -⟩ := readList_eq_ok_iff.mp readB
  rw [readList_append reads maskedA maskedB, readA, readB]
  rfl

end

end Literal

/-! ## Options -/

namespace Options

open Literal (Masked)

/-- The token of a piece between commas; a blank piece has none. -/
def readToken (m : Masked) (piece : Text) : Except SyntaxError (Option Text) :=
  .ok (if Text.trim piece = [] then none else some (m.reveal (Text.trim piece)))

theorem readsAlike_readToken : Literal.ReadsAlike readToken := by
  intro l m m' t t' alike agree unmarked
  rw [readToken, readToken, alike.trim.reveal_eq agree unmarked]
  simp only [alike.trim.eq_nil_iff]

private theorem mapM_readToken (m : Masked) (pieces : List Text) :
    ∃ items, pieces.mapM (readToken m) = .ok items ∧
      items.filterMap id = ((pieces.map Text.trim).filter (· ≠ [])).map m.reveal := by
  induction pieces with
  | nil => exact ⟨[], rfl, rfl⟩
  | cons piece pieces ih =>
    obtain ⟨items, read, same⟩ := ih
    rw [List.mapM_cons, readToken, read]
    refine ⟨_ :: items, rfl, ?_⟩
    by_cases blank : Text.trim piece = []
    · simpa [blank] using same
    · simpa [blank] using same

theorem parse_eq_readList (t : Text) : dialect.parse t = Literal.readList readToken t := by
  cases masked : Literal.mask t with
  | error e => simp [dialect, Literal.split, Literal.readList, masked, bind, Except.bind]
  | ok m =>
    obtain ⟨items, read, same⟩ := mapM_readToken m (m.text.splitOn Literal.comma)
    have whole : Literal.readList readToken t = .ok (items.filterMap id) :=
      Literal.readList_eq_ok_iff.mpr ⟨m, items, masked, read, rfl⟩
    rw [whole, same]
    simp only [dialect, Literal.split, masked]
    rfl

/-- Two texts with a comma between them have the options of both. -/
theorem parse_joined {a b : Text} {first second : List Text} (readA : dialect.parse a = .ok first)
    (readB : dialect.parse b = .ok second) : dialect.parse (a ++ Literal.comma :: b) = .ok (first ++ second) := by
  rw [parse_eq_readList] at readA readB ⊢
  exact Literal.readList_joined readsAlike_readToken readA readB

end Options

end Criteria

/-! ## Sort orders -/

namespace Criteria.Sort

open Literal (Masked)

private theorem ofWord?_of_quoted {keyword : Text} (quoted : Literal.quote ∈ keyword) :
    Direction.ofWord? keyword = none := by
  refine List.find?_eq_none.mpr fun d _ same => ?_
  have word : d.word = keyword := by simpa using same
  rw [← word] at quoted
  cases d <;> revert quoted <;> decide

private theorem readDirection_eq {l : Filter.Likeness} {m m' : Masked} {t t' : Text} (alike : Filter.Alike l true t t')
    (agree : l.Agree m m') (unmarked : ∀ n n', ¬ l.marks n n') : readDirection m t = readDirection m' t' := by
  have restored := alike.restore_eq agree unmarked
  rw [readDirection, readDirection, restored]
  rcases alike.eq_or_quoted unmarked with rfl | ⟨left, right⟩
  · rfl
  · rw [ofWord?_of_quoted left, ofWord?_of_quoted right]

theorem readsAlike_readKey : Literal.ReadsAlike readKey := by
  intro l m m' t t' alike agree unmarked
  have words := alike.words
  have whole := alike.trim.restore_eq agree unmarked
  rw [readKey.eq_def, readKey.eq_def, whole]
  generalize Text.words t = ws, Text.words t' = ws' at words
  cases words with
  | nil => rfl
  | cons field rest =>
    have named := field.reveal_eq agree unmarked
    cases rest with
    | nil => simp only [named]
    | cons keyword rest =>
      cases rest with
      | nil => simp only [named, readDirection_eq keyword agree unmarked]
      | cons => rfl

theorem parse_eq_readList (t : Text) : parse t = Literal.readList readKey t := rfl

/-- Two texts with a comma between them sort by the keys of both. -/
theorem parse_joined {a b : Text} {first second : List Key} (readA : parse a = .ok first)
    (readB : parse b = .ok second) : parse (a ++ Literal.comma :: b) = .ok (first ++ second) := by
  rw [parse_eq_readList] at readA readB ⊢
  exact Literal.readList_joined readsAlike_readKey readA readB

end Criteria.Sort

namespace Criteria

/-- Lists are merged as texts to one list followed by the other, whatever their texts begin and end with. Merged
    sort keys are that list, and merged options have each of its tokens at its first place. -/
theorem parse_mergeTexts_eq_append :
    (∀ {a b : Text} {first second : List Text}, Options.dialect.parse a = .ok first →
      Options.dialect.parse b = .ok second →
        Options.dialect.parse (Options.dialect.mergeTexts a b) = .ok (first ++ second) ∧
          ∀ kept, Options.dialect.mergeParts first second = kept ↔ Options.FirstPlaces (first ++ second) kept) ∧
      ∀ {a b : Text} {first second : List Sort.Key}, Sort.dialect.parse a = .ok first →
        Sort.dialect.parse b = .ok second →
          Sort.dialect.parse (Sort.dialect.mergeTexts a b) = .ok (first ++ second) ∧
            Sort.dialect.mergeParts first second = first ++ second := by
  constructor
  · intro a b first second readA readB
    exact ⟨Options.parse_joined readA readB, fun kept => Options.firstPlaces_iff.symm⟩
  · intro a b first second readA readB
    exact ⟨Sort.parse_joined readA readB, rfl⟩

private def escapedEnd : Text := "x\\".toList

private def literalFirst : Text := "'y,z', x\\".toList

/-- The first text ends in a backslash, which takes the comma behind it and does not keep it from separating.
    The second text begins with a literal that gets another number, and repeats the token of the first one. -/
theorem parse_mergeTexts_escapedEnd :
    Options.dialect.parse escapedEnd = .ok ["x\\".toList] ∧
      Options.dialect.parse literalFirst = .ok ["y,z".toList, "x\\".toList] ∧
        Options.dialect.parse (Options.dialect.mergeTexts escapedEnd literalFirst) =
            .ok ["x\\".toList, "y,z".toList, "x\\".toList] ∧
          Options.dialect.mergeParts ["x\\".toList] ["y,z".toList, "x\\".toList] = ["x\\".toList, "y,z".toList] ∧
    Sort.dialect.parse escapedEnd = .ok [⟨"x\\".toList, .asc⟩] ∧
      Sort.dialect.parse literalFirst = .ok [⟨"y,z".toList, .asc⟩, ⟨"x\\".toList, .asc⟩] ∧
        Sort.dialect.parse (Sort.dialect.mergeTexts escapedEnd literalFirst) =
          .ok [⟨"x\\".toList, .asc⟩, ⟨"y,z".toList, .asc⟩, ⟨"x\\".toList, .asc⟩] := by
  have first : Options.dialect.parse escapedEnd = .ok ["x\\".toList] := by decide +kernel
  have second : Options.dialect.parse literalFirst = .ok ["y,z".toList, "x\\".toList] := by decide +kernel
  have firstKey : Sort.dialect.parse escapedEnd = .ok [⟨"x\\".toList, .asc⟩] := by decide +kernel
  have others : Sort.dialect.parse literalFirst = .ok [⟨"y,z".toList, .asc⟩, ⟨"x\\".toList, .asc⟩] := by decide +kernel
  obtain ⟨options, keys⟩ := parse_mergeTexts_eq_append
  obtain ⟨both, kept⟩ := options first second
  have places : Options.FirstPlaces (["x\\".toList] ++ ["y,z".toList, "x\\".toList]) ["x\\".toList, "y,z".toList] :=
    Options.firstPlaces_iff.mpr (by decide +kernel)
  exact ⟨first, second, both, (kept _).mpr places, firstKey, others, (keys firstKey others).1⟩

end Criteria
