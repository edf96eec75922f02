import Criteria.Proofs.Filter.RoundTrip
import Criteria.Proofs.Literal.Contents

/-!
# Filters that differ in the contents of their literals

Brackets, connectors, keywords, commas and digits inside of literals mean nothing: two filters that differ
only there are both rejected, or have the same groups and comparisons with the same operators, and what has
another value is a text in both. Together with the same for options and sort orders, and with what is known
of literals that are put into a text, nothing that is quoted can change what a request asks for.
-/

namespace Criteria

/-- Values that are equal, or texts both. -/
def Value.Like (v v' : Value) : Prop := v = v' ∨ ∃ s s', v = .text s ∧ v' = .text s'

namespace Value

open Literal (Masked)

/-- A literal is a text, whatever its content is. -/
theorem like_ofScalar (m m' : Masked) (t : Text) : Like (ofScalar m t) (ofScalar m' t) := by
  rw [ofScalar, ofScalar]
  cases ofReserved? t <|> (Number.integer? t).map int <|> (Number.double? t).map float with
  | some v => exact .inl rfl
  | none => exact .inr ⟨_, _, rfl, rfl⟩

end Value

namespace Filter

open Literal (Masked EndAlike SameOutline)

/-- The same mark of a group, or comparisons by the same operator with like values. -/
inductive Part.Like : Part → Part → Prop
  | enter (c : Connector) : Like (.enter c) (.enter c)
  | leave (c : Connector) : Like (.leave c) (.leave c)
  | leaf {x x' : Comparison} (operator : x.operator = x'.operator) (value : x.value.Like x'.value) :
      Like (.leaf x) (.leaf x')

/-- Parts that are like one another from left to right. -/
def PartsLike : List Part → List Part → Prop := List.Forall₂ Part.Like

theorem PartsLike.group (c : Connector) {parts parts' : List Part} (like : PartsLike parts parts') :
    PartsLike (group c parts) (Filter.group c parts') :=
  .cons (.enter c) (List.rel_append like (.cons (.leave c) .nil))

theorem partsLike_flatten {members members' : List (List Part)} (like : List.Forall₂ PartsLike members members') :
    PartsLike members.flatten members'.flatten := by
  induction like with
  | nil => exact .nil
  | cons first _ ih => exact List.rel_append first ih

theorem partsLike_join (c : Connector) {members members' : List (List Part)}
    (like : List.Forall₂ PartsLike members members') : PartsLike (join c members) (join c members') := by
  cases like with
  | nil => exact PartsLike.group c .nil
  | cons first rest =>
    cases rest with
    | nil => exact first
    | cons second rest => exact .group c (partsLike_flatten (.cons first (.cons second rest)))

private theorem partsLike_compare (m m' : Masked) (field field' : Text) (o : Operator) (value : Text) :
    PartsLike (compare field o (Value.ofMasked m value)) (compare field' o (Value.ofMasked m' value)) := by
  unfold Value.ofMasked
  match Value.listPieces value with
  | [_] =>
    rw [compare_scalar field o (Value.isFiniteScalar_ofScalar m value),
      compare_scalar field' o (Value.isFiniteScalar_ofScalar m' value)]
    exact .cons (.leaf rfl (Value.like_ofScalar m m' value)) .nil
  | [] => exact PartsLike.group .or .nil
  | p :: q :: r =>
    refine PartsLike.group .or ?_
    rw [PartsLike, List.map_map, List.map_map, List.forall₂_map_left_iff, List.forall₂_map_right_iff, List.forall₂_same]
    exact fun piece _ => .leaf rfl (Value.like_ofScalar m m' (Text.trim piece))

private theorem compatible_contents (count : Nat) (m m' : Masked) :
    Compatible (Likeness.numbered count 0 0) m m' PartsLike where
  space := trivial
  compare := by
    intro field field' o value value' _ _ _ _ values
    rw [values.eq_of_numbered]
    exact partsLike_compare m m' _ _ o value'
  join := fun c _ _ _ like => partsLike_join c like

theorem exists_partsLike {t t' : Text} (outline : SameOutline t t') {parts : List Part} (read : parse t = .ok parts) :
    ∃ parts', parse t' = .ok parts' ∧ PartsLike parts parts' := by
  obtain ⟨m, m', masked, masked', same⟩ := outline
  have blank : Text.trim t = [] ↔ Text.trim t' = [] := by
    rw [← Literal.mask_text_eq_nil_iff masked, ← Literal.mask_text_eq_nil_iff masked', same]
  rcases parse_eq_ok_iff.mp read with ⟨empty, rfl⟩ | ⟨nonblank, k, g, again, reading⟩
  · exact ⟨[], parse_eq_ok_iff.mpr (.inl ⟨blank.mp empty, rfl⟩), .nil⟩
  obtain rfl : m = k := Except.ok.inj (masked.symm.trans again)
  have alike : ∃ count, Alike (Likeness.numbered count 0 0) true m.text m.text := by
    obtain ⟨atoms, spelled, rfl⟩ := Literal.mask_eq_ok_iff.mp masked
    exact ⟨_, alike_numbered spelled 0 0⟩
  obtain ⟨count, alike⟩ := alike
  have tables : TablesAlike PartsLike [] [] [] [] := ⟨[], [], rfl, rfl, .nil⟩
  obtain ⟨parts', g', reading', like, -⟩ :=
    follows_text (compatible_contents count m m') (fun _ _ => id) alike [] [] parts g tables reading
  rw [same] at reading'
  exact ⟨parts', parse_eq_ok_iff.mpr (.inr ⟨mt blank.mpr nonblank, m', g', masked', reading'⟩), like⟩

/-- Filters of the same outline are both rejected, or have the same parts but for texts. -/
theorem parse_endAlike {t t' : Text} (outline : SameOutline t t') : EndAlike PartsLike (parse t) (parse t') := by
  match read : parse t, read' : parse t' with
  | .ok parts, .ok parts' =>
    obtain ⟨found, again, like⟩ := exists_partsLike outline read
    obtain rfl : found = parts' := Except.ok.inj (again.symm.trans read')
    exact .ok like
  | .ok parts, .error e =>
    obtain ⟨found, again, -⟩ := exists_partsLike outline read
    exact absurd (again.symm.trans read') nofun
  | .error e, .ok parts' =>
    obtain ⟨found, again, -⟩ := exists_partsLike outline.symm read'
    exact absurd (again.symm.trans read) nofun
  | .error e, .error e' => exact .error e e'

end Filter

open Literal (Masked EndAlike SameOutline EndsInEscape enquote mask)

/-- The contents of literals do not influence what a text asks for. Texts that differ only there are both
    rejected or read alike in each dialect; and whatever is put into a text as a literal is one content of
    the masked text, which does not depend on it. -/
theorem contents_unseen :
    (∀ t t', SameOutline t t' →
      EndAlike Filter.PartsLike (Filter.parse t) (Filter.parse t') ∧
      EndAlike (fun keys keys' => keys.map Sort.Key.direction = keys'.map Sort.Key.direction)
        (Sort.parse t) (Sort.parse t') ∧
      EndAlike (fun tokens tokens' => tokens.length = tokens'.length)
        (Options.dialect.parse t) (Options.dialect.parse t')) ∧
    ∀ before after : Text, ∀ m k : Masked, mask before = .ok m → ¬ EndsInEscape before → mask after = .ok k →
      ∃ text, ∀ content, ∃ whole, mask (before ++ enquote content ++ after) = .ok whole ∧ whole.text = text ∧
        whole.literals = m.literals ++ content :: k.literals ∧
        whole.literal? (Text.ofNat m.literals.length) = some content := by
  refine ⟨fun t t' outline => ?_, fun before after m k masked ended masked' => ?_⟩
  · exact ⟨Filter.parse_endAlike outline, Sort.parse_endAlike outline, Options.parse_endAlike outline⟩
  · obtain ⟨text, whole⟩ := Literal.exists_mask_enquote masked ended masked'
    refine ⟨text, fun content => ⟨_, whole content, rfl, rfl, ?_⟩⟩
    rw [Literal.literal?_ofNat, List.getElem?_append_right (Nat.le_refl _), Nat.sub_self, List.getElem?_cons_zero]

private def quiet : Text := "a eq 'x' or b ne ''".toList

private def breakingOut : Text := "a eq ') or (c, d' or b ne 'null and 1'".toList

private def opening : Text := "a eq 'x' and b eq ".toList

private def closing : Text := " or d eq 'y'".toList

private def ending : Text := "' or 'c".toList

/-- Brackets, connectors and a comma in a literal are its content, and so is a literal that tries to end
    itself. -/
theorem contents_unseen_breakingOut :
    SameOutline quiet breakingOut ∧ EndAlike Filter.PartsLike (Filter.parse quiet) (Filter.parse breakingOut) ∧
      Filter.parse breakingOut = .ok [.enter .or, .leaf ⟨['a'], .eq, .text ") or (c, d".toList⟩,
        .leaf ⟨['b'], .ne, .text "null and 1".toList⟩, .leave .or] ∧
      ∃ whole, mask (opening ++ enquote ending ++ closing) = .ok whole ∧
        whole.literals = [['x'], ending, ['y']] ∧ whole.literal? (Text.ofNat 1) = some ending := by
  have outline : SameOutline quiet breakingOut := by
    refine ⟨⟨"a eq '0' or b ne '1'".toList, [['x'], []]⟩,
      ⟨"a eq '0' or b ne '1'".toList, [") or (c, d".toList, "null and 1".toList]⟩, ?_, ?_, rfl⟩
    · decide +kernel
    · decide +kernel
  have before : mask opening = .ok ⟨"a eq '0' and b eq ".toList, [['x']]⟩ := by decide +kernel
  have after : mask closing = .ok ⟨" or d eq '0'".toList, [['y']]⟩ := by decide +kernel
  have ended : ¬ EndsInEscape opening := by decide +kernel
  obtain ⟨alike, put⟩ := contents_unseen
  obtain ⟨text, same⟩ := put opening closing _ _ before ended after
  obtain ⟨whole, masked, -, literals, found⟩ := same ending
  have read : Filter.parse breakingOut = .ok [.enter .or, .leaf ⟨['a'], .eq, .text ") or (c, d".toList⟩,
        .leaf ⟨['b'], .ne, .text "null and 1".toList⟩, .leave .or] := by
    rw [Filter.parse_eq_parseWithin]
    decide +kernel
  exact ⟨outline, (alike _ _ outline).1, read, whole, masked, literals, found⟩

end Criteria
