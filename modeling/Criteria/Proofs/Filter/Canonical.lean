import Criteria.Proofs.Filter.Collapse
import Criteria.Proofs.Filter.RoundTrip

/-!
# Canonical texts

The canonical text of a filter is read as the filter without its groups of one member. A field that is
the word `not` is the one exception: where it stands first it is read as a negation.

Between brackets and connectors a derivation has conditions. In the text of a forest each comparison is
such a run of words, whatever its field is.
-/

namespace Criteria.Filter

open Literal (Masked)

namespace Token

/-- Brackets and connectors stand between conditions. -/
def isSeparator : Token → Bool
  | .opening => true
  | .closing => true
  | .word w => (Connector.ofWord? w).isSome

/-- The runs of tokens between separators. -/
def runs (ts : List Token) : List (List Token) := ts.splitOnP isSeparator

theorem runs_append {s : Token} (separates : isSeparator s) (x y : List Token) :
    runs (x ++ s :: y) = runs x ++ runs y := List.splitOnP_append_cons x y separates

theorem runs_connector (c : Connector) (x y : List Token) : runs (x ++ .word c.word :: y) = runs x ++ runs y :=
  runs_append (by simp [isSeparator, Connector.ofWord?_word]) x y

theorem runs_group (ts : List Token) : runs (.opening :: (ts ++ [.closing])) = [] :: (runs ts ++ [[]]) := by
  have inner : runs (ts ++ [.closing]) = runs ts ++ runs [] := runs_append rfl ts []
  have outer : runs ([] ++ .opening :: (ts ++ [.closing])) = runs [] ++ runs (ts ++ [.closing]) := runs_append rfl [] _
  rw [List.nil_append, inner] at outer
  exact outer

theorem runs_words {ws : List Text} (plain : ∀ w ∈ ws, ∀ c : Connector, w ≠ c.word) :
    runs (ws.map .word) = [ws.map .word] := by
  refine List.splitOnP_eq_singleton fun t member => ?_
  obtain ⟨w, inside, rfl⟩ := List.mem_map.mp member
  rw [isSeparator, Connector.ofWord?_eq_none_iff.mpr (plain w inside)]
  rfl

end Token

/-- Some tokens are the words of a condition. -/
def IsConditionRun (ts : List Token) : Prop := ∃ c : Condition, c.texts.map .word = ts

mutual

theorem Alternatives.runs (a : Alternatives) : ∀ ts ∈ Token.runs a.tokens, ts = [] ∨ IsConditionRun ts := by
  match a with
  | .one c => exact c.runs
  | .more c rest =>
    intro ts member
    rw [Alternatives.tokens, Token.runs_connector] at member
    exact (List.mem_append.mp member).elim (c.runs ts) (rest.runs ts)

theorem Conjunction.runs (c : Conjunction) : ∀ ts ∈ Token.runs c.tokens, ts = [] ∨ IsConditionRun ts := by
  match c with
  | .one p => exact p.runs
  | .more p rest =>
    intro ts member
    rw [Conjunction.tokens, Token.runs_connector] at member
    exact (List.mem_append.mp member).elim (p.runs ts) (rest.runs ts)

theorem Primary.runs (p : Primary) : ∀ ts ∈ Token.runs p.tokens, ts = [] ∨ IsConditionRun ts := by
  match p with
  | .group a =>
    intro ts member
    rw [Primary.tokens, Token.runs_group] at member
    rcases List.mem_cons.mp member with rfl | member
    · exact .inl rfl
    · rcases List.mem_append.mp member with member | member
      · exact a.runs ts member
      · exact .inl (List.mem_singleton.mp member)
  | .condition c =>
    intro ts member
    have plain : ∀ w ∈ c.texts, ∀ d : Connector, w ≠ d.word := by
      rintro w inside d rfl
      exact c.plain_texts d inside
    rw [Primary.tokens, Token.runs_words plain] at member
    exact .inr ⟨c, (List.mem_singleton.mp member).symm⟩

end

/-- A written comparison of the field `not` is no condition: its value would have to be an operator. -/
theorem not_isConditionRun {m : Masked} {x : Comparison} {ts : List Token} (run : IsComparisonRun m x ts)
    (named : x.field = notWord) : ¬ IsConditionRun ts := by
  rintro ⟨c, texts⟩
  obtain ⟨w, v, rfl, field, value⟩ := run
  obtain rfl := field.notWord_iff.mpr named
  cases negated : c.negated with
  | true =>
    rw [Condition.texts, negated] at texts
    simp only [if_true, List.singleton_append, List.map_cons, List.cons.injEq, Token.word.injEq] at texts
    exact value.noOperator c.operator texts.2.2.1.symm
  | false =>
    rw [Condition.texts, negated] at texts
    simp only [Bool.false_eq_true, if_false, List.nil_append, List.map_cons, List.cons.injEq, Token.word.injEq] at texts
    have same := c.negated_of_not texts.1
    rw [negated] at same
    cases same

/-- Every comparison is a run of its own. -/
def HasRuns (m : Masked) (xs : List Comparison) (ts : List Token) : Prop :=
  ∀ x ∈ xs, ∃ run ∈ Token.runs ts, IsComparisonRun m x run

private theorem hasRuns_connector {m : Masked} {xs ys : List Comparison} {ts us : List Token} (c : Connector)
    (h : HasRuns m xs ts) (h' : HasRuns m ys us) : HasRuns m (xs ++ ys) (ts ++ .word c.word :: us) := by
  intro x member
  rw [Token.runs_connector]
  rcases List.mem_append.mp member with member | member
  · obtain ⟨run, held, same⟩ := h x member
    exact ⟨run, List.mem_append_left _ held, same⟩
  · obtain ⟨run, held, same⟩ := h' x member
    exact ⟨run, List.mem_append_right _ held, same⟩

private theorem hasRuns_group {m : Masked} {xs : List Comparison} {ts : List Token} (h : HasRuns m xs ts) :
    HasRuns m xs (.opening :: (ts ++ [.closing])) := by
  intro x member
  obtain ⟨run, held, same⟩ := h x member
  rw [Token.runs_group]
  exact ⟨run, List.mem_cons_of_mem _ (List.mem_append_left _ held), same⟩

private theorem hasRuns_comparison {m : Masked} {x : Comparison} {ts : List Token} (run : IsComparisonRun m x ts) :
    HasRuns m [x] ts := by
  intro y member
  rw [List.mem_singleton] at member
  subst member
  refine ⟨ts, ?_, run⟩
  obtain ⟨w, v, rfl, field, value⟩ := run
  have plain : ∀ u ∈ [w, y.operator.word, v], ∀ c : Connector, u ≠ c.word := by
    intro u inside c
    simp only [List.mem_cons, List.not_mem_nil, or_false] at inside
    rcases inside with rfl | rfl | rfl
    · exact field.isField.1 c
    · exact fun same => Connector.word_ne_operator c y.operator same.symm
    · exact value.plain c
  have whole := Token.runs_words plain
  exact whole ▸ List.mem_singleton_self _

mutual

theorem Tree.written_runs (t : Tree) (writable : ∀ x ∈ leaves t.parts, Writable x) :
    Written ([' '].intercalate t.pieces) fun m ts => HasRuns m (leaves t.parts) ts := by
  match t with
  | .leaf x =>
    refine (written_comparison (writable x (by simp [Tree.parts]))).piece.mono ?_
    intro m ts run
    exact hasRuns_comparison run
  | .group c first rest =>
    rw [Tree.parts, leaves_group, leaves_append] at *
    have inner := rest.written_runs c (fun x member => writable x (List.mem_append_right _ member))
      (first.written_runs fun x member => writable x (List.mem_append_left _ member))
    have closed := inner.pieces written_closing.piece (R := fun m ts => ∃ us, ts = us ++ [.closing] ∧
      HasRuns m (leaves first.parts ++ leaves rest.parts) us) (by
        rintro m ts us runs rfl
        exact ⟨ts, rfl, runs⟩)
    refine written_opening.piece.pieces closed ?_
    rintro m ts us rfl ⟨vs, rfl, runs⟩
    exact hasRuns_group runs

theorem Forest.written_runs (f : Forest) (c : Connector) (writable : ∀ x ∈ leaves f.parts, Writable x)
    {ps : List Text} {xs : List Comparison} (front : Written ([' '].intercalate ps) fun m ts => HasRuns m xs ts) :
    Written ([' '].intercalate (ps ++ f.pieces c)) fun m ts => HasRuns m (xs ++ leaves f.parts) ts := by
  match f with
  | .nil =>
    rw [Forest.pieces, Forest.parts, leaves_nil, List.append_nil, List.append_nil]
    exact front
  | .cons second rest =>
    rw [Forest.parts, leaves_append] at *
    have back := rest.written_runs c (fun x member => writable x (List.mem_append_right _ member))
      (second.written_runs fun x member => writable x (List.mem_append_left _ member))
    have joined := (written_connector c).piece.pieces back (R := fun m ts => ∃ us, ts = .word c.word :: us ∧
      HasRuns m (leaves second.parts ++ leaves rest.parts) us) (by
        rintro m ts us rfl runs
        exact ⟨us, rfl, runs⟩)
    refine front.pieces joined ?_
    rintro m ts us runs ⟨vs, rfl, later⟩
    exact hasRuns_connector c runs later

end

private theorem parse_nil : parse (render []) = .ok [] := rfl

/-- Some text is read as a filter with this field. -/
def IsParsedField (field : Text) : Prop :=
  ∃ t parts, parse t = .ok parts ∧ ∃ x ∈ leaves parts, x.field = field

theorem IsParsedField.readable {field : Text} (h : IsParsedField field) : Readable field := by
  obtain ⟨t, parts, read, x, member, rfl⟩ := h
  exact readable_of_parse read member

private theorem parse_render_tree (t : Tree) (good : ∀ x ∈ leaves t.parts, Writable x ∧ x.field ≠ notWord) :
    parse (render t.parts) = .ok t.unwrap.parts := by
  have single : (Forest.cons t .nil).parts = t.parts := by rw [Forest.parts, Forest.parts, List.append_nil]
  have read := parse_render_cons t .nil (by rwa [single])
  rwa [single] at read

private theorem parse_render_forest (f : Forest) (good : ∀ x ∈ leaves f.parts, Writable x ∧ x.field ≠ notWord) :
    parse (render f.parts) =
      .ok (prune .emptyOrSingletonGroups (Check.pure fun _ => true) (group .and f.parts) ()).1 := by
  cases f with
  | nil => rfl
  | cons first rest =>
    have whole : group .and (Forest.cons first rest).parts = (Forest.cons (.group .and first rest) .nil).parts := by
      simp [Forest.parts, Tree.parts]
    rw [parse_render_cons first rest good, whole, Forest.prune_parts, Forest.sift_accepting]
    simp [Forest.inMode, Forest.unwrap, Forest.parts, Tree.unwrap]

private theorem parse_render_prune {State : Type} (check : Check State Comparison) (s : State) {t : Text}
    {parts : List Part} (read : parse t = .ok parts) (named : ∀ x ∈ leaves parts, x.field ≠ notWord) :
    parse (render (prune .emptyGroups check parts s).1) = .ok (prune .emptyOrSingletonGroups check parts s).1 := by
  by_cases blank : Text.trim t = []
  · rcases parse_eq_ok_iff.mp read with ⟨-, rfl⟩ | ⟨nonblank, -⟩
    · rfl
    · exact absurd blank nonblank
  · obtain ⟨tree, rfl, -, writable⟩ := isFull_of_parse read blank
    have whole : tree.parts = (Forest.cons tree .nil).parts := by rw [Forest.parts, Forest.parts, List.append_nil]
    have kept : ∀ x ∈ leaves (prune .emptyGroups check tree.parts s).1, Writable x ∧ x.field ≠ notWord := by
      intro x member
      have held := (leaves_prune_sublist .emptyGroups check tree.parts s).subset member
      exact ⟨writable x held, named x held⟩
    rw [whole, Forest.prune_parts] at kept ⊢
    rw [Forest.prune_parts]
    have shape : ((Forest.cons tree .nil).sift check s).1 = Forest.prepend (tree.sift check s).1 .nil := rfl
    rw [shape] at kept ⊢
    cases sifted : (tree.sift check s).1 with
    | none => rfl
    | some u =>
      rw [sifted] at kept
      have single : (Forest.prepend (some u) .nil).parts = u.parts := by
        rw [Forest.prepend, Forest.parts, Forest.parts, List.append_nil]
      simp only [Forest.inMode, single] at kept ⊢
      rw [parse_render_tree u kept]
      simp [Forest.prepend, Forest.unwrap, Forest.parts]

/-- Every forest of fields that are read and of finite scalars is written as a text that is read as the
    forest without its groups of one member; so is what pruning leaves of a filter that was read. -/
theorem parse_render_eq_prune :
    (∀ f : Forest, (∀ x ∈ leaves f.parts, x.value.IsFiniteScalar ∧ IsParsedField x.field ∧ x.field ≠ notWord) →
      parse (render f.parts) =
        .ok (prune .emptyOrSingletonGroups (Check.pure fun _ => true) (group .and f.parts) ()).1) ∧
      ∀ (State : Type) (check : Check State Comparison) (s : State) (t : Text) (parts : List Part),
        parse t = .ok parts → (∀ x ∈ leaves parts, x.field ≠ notWord) →
          parse (render (prune .emptyGroups check parts s).1) =
            .ok (prune .emptyOrSingletonGroups check parts s).1 := by
  constructor
  · intro f good
    refine parse_render_forest f fun x member => ?_
    obtain ⟨scalar, field, named⟩ := good x member
    exact ⟨⟨field.readable, scalar⟩, named⟩
  · intro State check s t parts read named
    exact parse_render_prune check s read named

private def spacedField : Text := "b'x y'".toList

private def spaced : Text := "a eq 1 and b'x y' gt 2".toList

private def spacedParts : List Part :=
  [.enter .and, .leaf ⟨['a'], .eq, .int 1⟩, .leaf ⟨spacedField, .gt, .int 2⟩, .leave .and]

private theorem parse_spaced : parse spaced = .ok spacedParts := by
  rw [parse_eq_parseWithin]
  decide +kernel

-- A group in a group, each of one member, beside a comparison with a negative zero.
private def stacked : Forest :=
  .cons (.group .or (.group .and (.leaf ⟨['a'], .le, .text ['o', 'r']⟩) .nil) .nil)
    (.cons (.leaf ⟨spacedField, .ne, .float (.finite true .zero)⟩) .nil)

private def unstacked : List Part :=
  [.enter .and, .leaf ⟨['a'], .le, .text ['o', 'r']⟩, .leaf ⟨spacedField, .ne, .float (.finite true .zero)⟩,
    .leave .and]

private theorem stacked_good :
    ∀ x ∈ leaves stacked.parts, x.value.IsFiniteScalar ∧ IsParsedField x.field ∧ x.field ≠ notWord := by
  have first : IsParsedField ['a'] := ⟨spaced, spacedParts, parse_spaced, ⟨['a'], .eq, .int 1⟩, by simp [spacedParts, leaves, Part.comparison?], rfl⟩
  have second : IsParsedField spacedField :=
    ⟨spaced, spacedParts, parse_spaced, ⟨spacedField, .gt, .int 2⟩, by simp [spacedParts, leaves, Part.comparison?], rfl⟩
  have all : leaves stacked.parts =
      [⟨['a'], .le, .text ['o', 'r']⟩, ⟨spacedField, .ne, .float (.finite true .zero)⟩] := rfl
  rw [all]
  intro x member
  simp only [List.mem_cons, List.not_mem_nil, or_false] at member
  rcases member with rfl | rfl
  · exact ⟨trivial, first, by decide⟩
  · exact ⟨trivial, second, by decide⟩

-- The check that rejects the first comparison leaves a group of one member.
private def rejectFirst : Check Unit Comparison := Check.pure fun x => x.field ≠ ['a']

theorem parse_render_stacked :
    (∀ x ∈ leaves stacked.parts, x.value.IsFiniteScalar ∧ IsParsedField x.field ∧ x.field ≠ notWord) ∧
      parse (render stacked.parts) = .ok unstacked ∧ parse spaced = .ok spacedParts ∧
        (∀ x ∈ leaves spacedParts, x.field ≠ notWord) ∧
          parse (render [.enter .and, .leaf ⟨spacedField, .gt, .int 2⟩, .leave .and]) =
            .ok [.leaf ⟨spacedField, .gt, .int 2⟩] := by
  have named : ∀ x ∈ leaves spacedParts, x.field ≠ notWord := by decide
  exact ⟨stacked_good, parse_render_eq_prune.1 stacked stacked_good, parse_spaced, named,
    parse_render_eq_prune.2 Unit rejectFirst () spaced spacedParts parse_spaced named⟩

private theorem not_parse_render_tree (t : Tree) (writable : ∀ x ∈ leaves t.parts, Writable x) {x : Comparison}
    (member : x ∈ leaves t.parts) (named : x.field = notWord) (parts : List Part) :
    parse (render t.parts) ≠ .ok parts := by
  intro read
  have single : (Forest.cons t .nil).parts = t.parts := by rw [Forest.parts, Forest.parts, List.append_nil]
  have text : render t.parts = [' '].intercalate t.pieces := by
    rw [← single, render_parts, Forest.pieces, List.append_nil]
  rw [text] at read
  obtain ⟨m, a, runs⟩ := (t.written_runs writable).exists_derivation read
  obtain ⟨run, held, same⟩ := runs x member
  rcases a.runs run held with rfl | condition
  · obtain ⟨w, v, none, -⟩ := same
    cases none
  · exact not_isConditionRun same named condition

/-- The canonical text of a filter is read as the filter exactly if none of its fields is the word `not`;
    with such a field it is rejected. -/
theorem parse_render_iff {t : Text} {parts : List Part} (read : parse t = .ok parts) :
    (parse (render parts) = .ok parts ↔ ∀ x ∈ leaves parts, x.field ≠ notWord) ∧
      ((∃ x ∈ leaves parts, x.field = notWord) → ∃ e, parse (render parts) = .error e) := by
  by_cases blank : Text.trim t = []
  · rcases parse_eq_ok_iff.mp read with ⟨-, rfl⟩ | ⟨nonblank, -⟩
    · simp [parse_nil]
    · exact absurd blank nonblank
  · obtain ⟨tree, rfl, full, writable⟩ := isFull_of_parse read blank
    refine ⟨⟨fun again x member named => ?_, fun named => ?_⟩, ?_⟩
    · exact not_parse_render_tree tree writable member named _ again
    · have again := parse_render_tree tree fun x member => ⟨writable x member, named x member⟩
      rwa [full] at again
    · rintro ⟨x, member, named⟩
      cases result : parse (render tree.parts) with
      | error e => exact ⟨e, rfl⟩
      | ok parts => exact absurd result (not_parse_render_tree tree writable member named parts)

private def doubleNot : Text := "not not eq 5".toList

/-- The first `not` negates, the second one is the field; written alone, the field negates again. -/
theorem not_parse_render_doubleNot :
    parse doubleNot = .ok [.leaf ⟨notWord, .ne, .int 5⟩] ∧
      parse (render [.leaf ⟨notWord, .ne, .int 5⟩]) ≠ .ok [.leaf ⟨notWord, .ne, .int 5⟩] ∧
        ∃ e, parse (render [.leaf ⟨notWord, .ne, .int 5⟩]) = .error e := by
  have read : parse doubleNot = .ok [.leaf ⟨notWord, .ne, .int 5⟩] := by
    rw [parse_eq_parseWithin]
    decide +kernel
  have member : (⟨notWord, .ne, .int 5⟩ : Comparison) ∈ leaves [.leaf ⟨notWord, .ne, .int 5⟩] := by simp
  refine ⟨read, fun again => ?_, (parse_render_iff read).2 ⟨_, member, rfl⟩⟩
  exact (parse_render_iff read).1.mp again _ member rfl

end Criteria.Filter
