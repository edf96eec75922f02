import Criteria.Proofs.Filter.Merge
import Criteria.Proofs.Filter.Written
import Criteria.Proofs.Literal.Joined
import Criteria.Proofs.Literal.Respaced

/-!
# What stands inside of literals

Two texts may differ in nothing but the contents of their literals. Then their lists have as many items, and
what is no content is the same in both. Any content may be put into a text as a literal: the text around it
is masked as if it stood alone.
-/

namespace Criteria

namespace Literal

open Text (isBlank)

section
variable {A A' B B' : Type}

/-- Two readings end with related results, or both with an error. -/
inductive EndAlike (Same : A → A' → Prop) : Except SyntaxError A → Except SyntaxError A' → Prop
  | ok {a : A} {a' : A'} (same : Same a a') : EndAlike Same (.ok a) (.ok a')
  | error (e e' : SyntaxError) : EndAlike Same (.error e) (.error e')

theorem EndAlike.bind {Same : A → A' → Prop} {Same' : B → B' → Prop} {x : Except SyntaxError A}
    {x' : Except SyntaxError A'} {f : A → Except SyntaxError B} {f' : A' → Except SyntaxError B'}
    (h : EndAlike Same x x') (next : ∀ a a', Same a a' → EndAlike Same' (f a) (f' a')) :
    EndAlike Same' (x >>= f) (x' >>= f') := by
  cases h with
  | ok same => exact next _ _ same
  | error e e' => exact .error e e'

theorem EndAlike.imp {Same Same' : A → A' → Prop} {x : Except SyntaxError A} {x' : Except SyntaxError A'}
    (h : EndAlike Same x x') (weaker : ∀ a a', Same a a' → Same' a a') : EndAlike Same' x x' := by
  cases h with
  | ok same => exact .ok (weaker _ _ same)
  | error e e' => exact .error e e'

theorem EndAlike.mapM {R : A → A' → Prop} {Same : B → B' → Prop} {f : A → Except SyntaxError B}
    {f' : A' → Except SyntaxError B'} {as : List A} {as' : List A'} (h : List.Forall₂ R as as')
    (one : ∀ a a', R a a' → EndAlike Same (f a) (f' a')) :
    EndAlike (List.Forall₂ Same) (as.mapM f) (as'.mapM f') := by
  induction h with
  | nil => exact .ok List.Forall₂.nil
  | @cons a a' _ _ first _ ih =>
    rw [List.mapM_cons, List.mapM_cons]
    refine (one a a' first).bind fun b b' same => ih.bind fun bs bs' others => ?_
    exact .ok (List.Forall₂.cons same others)

end

/-- Two texts that differ in nothing but the contents of their literals, and in blanks at their ends. -/
def SameOutline (t t' : Text) : Prop :=
  ∃ m m', mask (Text.trim t) = .ok m ∧ mask (Text.trim t') = .ok m' ∧ m.text = m'.text

theorem SameOutline.symm {t t' : Text} (h : SameOutline t t') : SameOutline t' t := by
  obtain ⟨m, m', masked, masked', same⟩ := h
  exact ⟨m', m, masked', masked, same.symm⟩

private theorem comma_not_mem {s : Text} (blank : ∀ c ∈ s, isBlank c) : comma ∉ s :=
  fun member => absurd (blank comma member) (by decide)

private theorem map_trim_splitOn {a b : Text} (front : ∀ c ∈ a, isBlank c) (back : ∀ c ∈ b, isBlank c) (x : Text) :
    ((a ++ x ++ b).splitOn comma).map Text.trim = (x.splitOn comma).map Text.trim := by
  have behind : List.Forall₂ (fun p p' => ∃ s : Text, (∀ c ∈ s, isBlank c) ∧ p ++ s = p')
      (x.splitOn comma) ((x ++ b).splitOn comma) := by
    induction x with
    | nil =>
      rw [List.nil_append, List.splitOn_eq_singleton (comma_not_mem back)]
      exact .cons ⟨b, back, rfl⟩ .nil
    | cons d x ih =>
      by_cases separates : d = comma
      · rw [separates, List.cons_append, splitOn_separator, splitOn_separator]
        exact .cons ⟨[], nofun, rfl⟩ ih
      · generalize left : x.splitOn comma = ps, right : (x ++ b).splitOn comma = qs at ih
        have absent : comma ∉ [d] := by simpa using Ne.symm separates
        cases ih with
        | nil => exact absurd left (List.splitOn_ne_nil _ _)
        | cons first rest =>
          obtain ⟨s, blank, rfl⟩ := first
          have here := splitOn_append absent left
          have there := splitOn_append absent right
          rw [List.cons_append, List.nil_append] at here there
          rw [List.cons_append, here, there]
          exact .cons ⟨s, blank, rfl⟩ rest
  have same : ((x ++ b).splitOn comma).map Text.trim = (x.splitOn comma).map Text.trim := by
    generalize x.splitOn comma = ps, (x ++ b).splitOn comma = qs at behind
    induction behind with
    | nil => rfl
    | cons first _ ih =>
      obtain ⟨s, blank, rfl⟩ := first
      rw [List.map_cons, List.map_cons, ih, Text.trim_append_blanks blank]
  rw [← same, List.append_assoc]
  match pieces : (x ++ b).splitOn comma with
  | [] => exact absurd pieces (List.splitOn_ne_nil _ _)
  | p :: r => rw [splitOn_append (comma_not_mem front) pieces, List.map_cons, List.map_cons, Text.trim_blanks_append front]

/-- If what a piece is read as does not depend on literals but for their contents, then lists of the same
    outline are read alike. -/
theorem readList_endAlike {B : Type} {S : B → B → Prop} {read : Masked → Text → Except SyntaxError (Option B)}
    (reads : ∀ m m' p p', Text.trim p = Text.trim p' → EndAlike (Option.Rel S) (read m p) (read m' p'))
    {t t' : Text} (outline : SameOutline t t') :
    EndAlike (List.Forall₂ S) (readList read t) (readList read t') := by
  obtain ⟨m, m', masked, masked', same⟩ := outline
  obtain ⟨a, b, front, back, whole⟩ := exists_mask_of_trim masked
  obtain ⟨a', b', front', back', whole'⟩ := exists_mask_of_trim masked'
  have pieces : List.Forall₂ (fun p p' => Text.trim p = Text.trim p') ((a ++ m.text ++ b).splitOn comma)
      ((a' ++ m'.text ++ b').splitOn comma) := by
    have trimmed : ((a ++ m.text ++ b).splitOn comma).map Text.trim = ((a' ++ m'.text ++ b').splitOn comma).map Text.trim := by
      rw [map_trim_splitOn front back, map_trim_splitOn front' back', same]
    rwa [← List.forall₂_eq_eq_eq, List.forall₂_map_left_iff, List.forall₂_map_right_iff] at trimmed
  rw [readList, readList, whole, whole']
  refine (EndAlike.mapM pieces fun p p' => reads _ _ p p').bind fun items items' related => ?_
  exact .ok (List.rel_filterMap (R := Option.Rel S) (P := S) (fun _ _ one => one) related)

/-- A literal is masked as its content, whatever stands around it, unless a backslash before it takes its
    first quote. The masked text does not depend on the content. -/
theorem exists_mask_enquote {u v : Text} {m k : Masked} (masked : mask u = .ok m) (ended : ¬ EndsInEscape u)
    (masked' : mask v = .ok k) :
    ∃ text, ∀ content, mask (u ++ enquote content ++ v) = .ok ⟨text, m.literals ++ content :: k.literals⟩ := by
  obtain ⟨atoms, spelled, rfl⟩ := mask_eq_ok_iff.mp masked
  obtain ⟨others, spelled', rfl⟩ := mask_eq_ok_iff.mp masked'
  refine ⟨maskFrom 0 atoms ++ maskFrom (0 + (atoms.filterMap Atom.content?).length) (.literal [] :: others), ?_⟩
  intro content
  have whole := spelled.append ended (spells_enquote content spelled')
  refine mask_eq_ok_iff.mpr ⟨_, by rwa [List.append_assoc], ?_⟩
  rw [Masked.ofAtoms, maskFrom_append, List.filterMap_append]
  rfl

theorem literal?_ofNat (m : Masked) (n : Nat) : m.literal? (Text.ofNat n) = m.literals[n]? := by
  simp [Masked.literal?, Text.index?_ofNat]

end Literal

open Literal (EndAlike SameOutline)

/-- Options of the same outline are as many. -/
theorem Options.parse_endAlike {t t' : Text} (outline : SameOutline t t') :
    EndAlike (fun tokens tokens' => tokens.length = tokens'.length) (dialect.parse t) (dialect.parse t') := by
  rw [parse_eq_readList, parse_eq_readList]
  refine (Literal.readList_endAlike (S := fun _ _ => True) ?_ outline).imp fun _ _ related => related.length_eq
  intro m m' p p' same
  rw [readToken, readToken, same]
  split
  · exact .ok .none
  · exact .ok (.some trivial)

/-- Keys of the same outline have the same directions. -/
theorem Sort.parse_endAlike {t t' : Text} (outline : SameOutline t t') :
    EndAlike (fun keys keys' => keys.map Key.direction = keys'.map Key.direction) (parse t) (parse t') := by
  rw [parse_eq_readList, parse_eq_readList]
  refine (Literal.readList_endAlike (S := fun k k' => k.direction = k'.direction) ?_ outline).imp ?_
  · intro m m' p p' same
    have words : Text.words p = Text.words p' := by rw [← Text.words_trim p, same, Text.words_trim]
    rw [readKey.eq_def, readKey.eq_def, words]
    rcases Text.words p' with - | ⟨field, - | ⟨keyword, - | ⟨more, others⟩⟩⟩
    · exact .ok .none
    · exact .ok (.some rfl)
    · simp only [readDirection]
      cases Direction.ofWord? keyword with
      | none => exact .error _ _
      | some d => exact .ok (.some rfl)
    · exact .error _ _
  · intro keys keys' related
    rwa [← List.forall₂_eq_eq_eq, List.forall₂_map_left_iff, List.forall₂_map_right_iff]

end Criteria
