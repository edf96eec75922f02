import Criteria.Request

/-!
# Requests whose parameters belong to different groups

The name of a parameter says which group it belongs to and of which kind it is, whatever the names of groups are:
also if one of them ends with a title, or is none. So the names of a group never meet those of another one, a
request holds the last value of each of its own names, and nothing under the names of other groups changes it.
-/

namespace Criteria

namespace ParamKind

theorem key_of_unnamed (kind : ParamKind) : kind.key [] = '$' :: kind.title.modifyHead Char.toLower := rfl

theorem key_of_named {group : Text} (named : group ≠ []) (kind : ParamKind) :
    kind.key group = '$' :: (group ++ kind.title) := by
  rw [key, if_neg named]

/-- No title ends with another one. -/
theorem eq_of_title_suffix {kind kind' : ParamKind} : kind.title <:+ kind'.title → kind = kind' := by
  cases kind <;> cases kind' <;> decide

/-- In lower case no title ends with any title, so that no name of a group stands before it. -/
theorem not_title_suffix_lowered (kind kind' : ParamKind) :
    ¬ kind.title <:+ kind'.title.modifyHead Char.toLower := by
  cases kind <;> cases kind' <;> decide

theorem lowered_injective {kind kind' : ParamKind} :
    kind.title.modifyHead Char.toLower = kind'.title.modifyHead Char.toLower → kind = kind' := by
  cases kind <;> cases kind' <;> decide

theorem key_unnamed_ne_named {group : Text} (named : group ≠ []) (kind kind' : ParamKind) :
    kind.key [] ≠ kind'.key group := by
  rw [key_of_unnamed, key_of_named named]
  intro same
  exact not_title_suffix_lowered kind' kind ⟨group, (List.cons.inj same).2.symm⟩

/-- Titles behind names of groups are different if the names or the titles are. -/
theorem append_title_injective {group other : Text} {kind kind' : ParamKind}
    (same : group ++ kind.title = other ++ kind'.title) : group = other ∧ kind = kind' := by
  have ends : kind.title <:+ other ++ kind'.title := ⟨group, same⟩
  have alike : kind = kind' := by
    rcases List.suffix_or_suffix_of_suffix ends (List.suffix_append other kind'.title) with inner | outer
    · exact eq_of_title_suffix inner
    · exact (eq_of_title_suffix outer).symm
  subst alike
  exact ⟨List.append_cancel_right same, rfl⟩

/-- A name says which group and which kind it is of. -/
theorem key_eq_key_iff {group other : Text} {kind kind' : ParamKind} :
    kind.key group = kind'.key other ↔ group = other ∧ kind = kind' := by
  constructor
  · intro same
    by_cases unnamed : group = []
    · subst unnamed
      by_cases unnamed' : other = []
      · subst unnamed'
        exact ⟨rfl, lowered_injective (List.cons.inj same).2⟩
      · exact absurd same (key_unnamed_ne_named unnamed' kind kind')
    · by_cases unnamed' : other = []
      · subst unnamed'
        exact absurd same.symm (key_unnamed_ne_named unnamed kind' kind)
      · rw [key_of_named unnamed, key_of_named unnamed'] at same
        exact append_title_injective (List.cons.inj same).2
  · rintro ⟨rfl, rfl⟩
    rfl

end ParamKind

namespace Request

/-- The text of the parameter of a kind. -/
def value? : ParamKind → Request → Option Text
  | .filters, r => r.filters
  | .options, r => r.options
  | .orderBy, r => r.orderBy
  | .queryMode, r => r.queryMode

/-- A request is what it holds of each kind. -/
theorem eq_of_value? {r r' : Request} (same : ∀ kind, r.value? kind = r'.value? kind) : r = r' := by
  cases r
  cases r'
  rw [Request.mk.injEq]
  exact ⟨same .filters, same .options, same .orderBy, same .queryMode⟩

/-- The value of the last pair with a key, if there is one. -/
def lastValue? (key : Text) (pairs : List (Text × Text)) : Option Text :=
  ((pairs.filter fun pair => pair.1 = key).getLast?).map Prod.snd

theorem lastValue?_cons (key : Text) (pair : Text × Text) (pairs : List (Text × Text)) :
    lastValue? key (pair :: pairs) = (lastValue? key pairs).or (if pair.1 = key then some pair.2 else none) := by
  by_cases same : pair.1 = key
  · cases later : (pairs.filter fun pair => pair.1 = key).getLast? <;>
      simp [lastValue?, same, later, List.getLast?_cons]
  · simp [lastValue?, same]

/-- One more pair sets the kind that its key names in the group, and no other. The order in which the names are
    looked at does not matter because they differ. -/
theorem value?_insert (group key value : Text) (kind : ParamKind) (r : Request) :
    (r.insert group key value).value? kind = if key = kind.key group then some value else r.value? kind := by
  by_cases own : ∃ named : ParamKind, key = named.key group
  · obtain ⟨named, rfl⟩ := own
    cases named <;> cases kind <;> simp [insert, value?, ParamKind.key_eq_key_iff]
  · rw [not_exists] at own
    simp [insert, own]

theorem value?_foldl_insert (group : Text) (kind : ParamKind) (pairs : List (Text × Text)) (r : Request) :
    (pairs.foldl (fun r (key, value) => r.insert group key value) r).value? kind =
      (lastValue? (kind.key group) pairs).or (r.value? kind) := by
  induction pairs generalizing r with
  | nil => rfl
  | cons pair pairs ih =>
    rw [List.foldl_cons, ih, value?_insert, lastValue?_cons, Option.or_assoc]
    split <;> rfl

theorem value?_ofPairs (group : Text) (kind : ParamKind) (pairs : List (Text × Text)) :
    (ofPairs group pairs).value? kind = lastValue? (kind.key group) pairs := by
  rw [ofPairs, value?_foldl_insert]
  cases kind <;> exact Option.or_none

/-- A key that names a parameter of another group. -/
def IsForeign (group key : Text) : Prop :=
  ∃ (other : Text) (kind : ParamKind), other ≠ group ∧ key = kind.key other

/-- Two lists of pairs that differ in pairs of other groups only. At any place either of them may have pairs of
    other groups that the other one has not. -/
inductive SameWithin (group : Text) : List (Text × Text) → List (Text × Text) → Prop
  | nil : SameWithin group [] []
  | both (pair : Text × Text) {pairs pairs' : List (Text × Text)} (rest : SameWithin group pairs pairs') :
      SameWithin group (pair :: pairs) (pair :: pairs')
  | first {pair : Text × Text} {pairs pairs' : List (Text × Text)} (foreign : IsForeign group pair.1)
      (rest : SameWithin group pairs pairs') : SameWithin group (pair :: pairs) pairs'
  | second {pair : Text × Text} {pairs pairs' : List (Text × Text)} (foreign : IsForeign group pair.1)
      (rest : SameWithin group pairs pairs') : SameWithin group pairs (pair :: pairs')

theorem IsForeign.ne_key {group key : Text} (h : IsForeign group key) (kind : ParamKind) : key ≠ kind.key group := by
  obtain ⟨other, kind', apart, rfl⟩ := h
  exact fun same => apart (ParamKind.key_eq_key_iff.mp same).1

theorem lastValue?_cons_foreign {group : Text} {pair : Text × Text} (foreign : IsForeign group pair.1)
    (kind : ParamKind) (pairs : List (Text × Text)) :
    lastValue? (kind.key group) (pair :: pairs) = lastValue? (kind.key group) pairs := by
  rw [lastValue?_cons, if_neg (foreign.ne_key kind), Option.or_none]

theorem SameWithin.lastValue?_eq {group : Text} {pairs pairs' : List (Text × Text)}
    (h : SameWithin group pairs pairs') (kind : ParamKind) :
    lastValue? (kind.key group) pairs = lastValue? (kind.key group) pairs' := by
  induction h with
  | nil => rfl
  | both pair rest ih => rw [lastValue?_cons, lastValue?_cons, ih]
  | first foreign rest ih => rw [lastValue?_cons_foreign foreign, ih]
  | second foreign rest ih => rw [lastValue?_cons_foreign foreign, ih]

/-- No name of a group is a name of another group or of another kind. A request holds of each kind the last value
    that its pairs have under the name of the kind in the group, and it stays the same however pairs of other groups
    are put in, taken out or changed. -/
theorem ofPairs_separated (group : Text) :
    (∀ (other : Text) (kind kind' : ParamKind), kind.key group = kind'.key other ↔ group = other ∧ kind = kind') ∧
    (∀ (pairs : List (Text × Text)) (kind : ParamKind),
      (ofPairs group pairs).value? kind = lastValue? (kind.key group) pairs) ∧
    ∀ pairs pairs' : List (Text × Text), SameWithin group pairs pairs' → ofPairs group pairs = ofPairs group pairs' := by
  refine ⟨fun other kind kind' => ParamKind.key_eq_key_iff, fun pairs kind => value?_ofPairs group kind pairs, ?_⟩
  intro pairs pairs' same
  apply eq_of_value?
  intro kind
  rw [value?_ofPairs, value?_ofPairs, same.lastValue?_eq]

-- Filters of a group, and between them filters of a group with a longer name.
private def nestedGroups : List (Text × Text) :=
  [("$fooFilters".toList, "a eq 1".toList), ("$fooFiltersFilters".toList, "b eq 2".toList),
    ("$fooFilters".toList, "c eq 3".toList)]

-- The same filters of the group, and filters of the group without a name.
private def unnamedGroup : List (Text × Text) :=
  [("$fooFilters".toList, "a eq 1".toList), ("$filters".toList, "d eq 4".toList),
    ("$fooFilters".toList, "c eq 3".toList), ("$filters".toList, "e eq 5".toList)]

/-- Between two filters of a group, those of a group with a longer name are replaced by those of the group without a
    name, and others are added behind them. -/
theorem ofPairs_separated_nested :
    SameWithin "foo".toList nestedGroups unnamedGroup ∧
    ofPairs "foo".toList nestedGroups = ofPairs "foo".toList unnamedGroup ∧
    (ofPairs "foo".toList unnamedGroup).value? .filters = some "c eq 3".toList := by
  have longer : IsForeign "foo".toList "$fooFiltersFilters".toList :=
    ⟨"fooFilters".toList, .filters, by decide, by decide⟩
  have unnamed : IsForeign "foo".toList "$filters".toList := ⟨[], .filters, by decide, by decide⟩
  have same : SameWithin "foo".toList nestedGroups unnamedGroup :=
    .both _ (.first longer (.second unnamed (.both _ (.second unnamed .nil))))
  obtain ⟨-, held, unchanged⟩ := ofPairs_separated "foo".toList
  refine ⟨same, unchanged _ _ same, ?_⟩
  rw [held]
  decide

end Request
end Criteria
