import Criteria.Proofs.Filter.Shape
import Criteria.Proofs.Filter.Truth

/-!
# Values that a filter pins

A search for a field finds the first comparison of the field at the top or in the group at the top, and a
value if this comparison demands equality. In a conjunction the value is pinned: the filter does not hold
without it. The search does not ask how the group joins its members, though. In alternatives the value is
pinned only if every one of them pins it, as none does where a list of values has been written.
-/

namespace Criteria.Filter

/-- A filter cannot hold unless the comparison is true. -/
def Pins (parts : List Part) (x : Comparison) : Prop := ∀ truth, holds truth parts = true → truth x = true

/-- It is enough to ask whether the filter holds if all but this comparison are true. -/
theorem Tree.pins_iff (t : Tree) (x : Comparison) :
    Pins t.parts x ↔ Filter.holds (fun y => decide (y ≠ x)) t.parts = false := by
  constructor
  · intro pins
    cases held : Filter.holds (fun y => decide (y ≠ x)) t.parts with
    | false => rfl
    | true => exact absurd rfl (of_decide_eq_true (pins _ held))
  · intro fails truth held
    by_contra untrue
    have others : ∀ y, truth y = true → decide (y ≠ x) = true := by
      intro y holds
      refine decide_eq_true ?_
      rintro rfl
      exact untrue holds
    rw [t.holds_mono others held] at fails
    cases fails

mutual

private theorem Tree.findFrom_inside (t : Tree) (field : Text) (depth : Nat) (r : List Part) :
    findFrom (depth + 2) field (t.parts ++ r) = findFrom (depth + 2) field r := by
  match t with
  | .leaf x =>
    have deep : ¬ (depth + 2 ≤ 1 ∧ x.field = field) := by omega
    rw [Tree.parts, List.singleton_append, findFrom, if_neg deep]
  | .group c first rest =>
    have whole : (Tree.group c first rest).parts ++ r = .enter c :: (first.parts ++ (rest.parts ++ .leave c :: r)) := by
      simp [Tree.parts, Filter.group]
    rw [whole, findFrom, first.findFrom_inside field (depth + 1), rest.findFrom_inside field (depth + 1), findFrom]
    rfl

private theorem Forest.findFrom_inside (f : Forest) (field : Text) (depth : Nat) (r : List Part) :
    findFrom (depth + 2) field (f.parts ++ r) = findFrom (depth + 2) field r := by
  match f with
  | .nil => rfl
  | .cons first rest => rw [Forest.parts, List.append_assoc, first.findFrom_inside, rest.findFrom_inside]

end

private theorem Forest.mem_of_findFrom {f : Forest} {field : Text} {c : Connector} {x : Comparison}
    (found : findFrom 1 field (f.parts ++ [.leave c]) = some x) : x.field = field ∧ .leaf x ∈ f.trees := by
  match f with
  | .nil => cases found
  | .cons (.leaf y) rest =>
    rw [Forest.parts, Tree.parts, List.append_assoc, List.singleton_append, findFrom] at found
    split at found
    · rename_i here
      cases found
      exact ⟨here.2, List.mem_cons_self⟩
    · obtain ⟨same, member⟩ := rest.mem_of_findFrom found
      exact ⟨same, List.mem_cons_of_mem _ member⟩
  | .cons (.group d first others) rest =>
    have whole : (Forest.cons (.group d first others) rest).parts ++ [.leave c] =
        .enter d :: (first.parts ++ (others.parts ++ .leave d :: (rest.parts ++ [.leave c]))) := by
      simp [Forest.parts, Tree.parts, Filter.group]
    rw [whole, findFrom, first.findFrom_inside field 0, others.findFrom_inside field 0, findFrom] at found
    obtain ⟨same, member⟩ := rest.mem_of_findFrom found
    exact ⟨same, List.mem_cons_of_mem _ member⟩

private theorem find?_of_pinned? {field : Text} {parts : List Part} {v : Value} (found : pinned? field parts = some v) :
    ∃ x, find? field parts = some x ∧ x.operator = .eq ∧ x.value = v := by
  unfold pinned? at found
  split at found
  · rename_i x value here
    cases found
    exact ⟨_, here, rfl, rfl⟩
  · cases found

/-- The comparison of a pinned value is a tree alone, or a member of the group that is the filter. -/
theorem Tree.cases_of_pinned? {t : Tree} {field : Text} {v : Value} (found : pinned? field t.parts = some v) :
    t = .leaf ⟨field, .eq, v⟩ ∨
      ∃ (c : Connector) (f : Forest), t.parts = Filter.group c f.parts ∧ .leaf ⟨field, .eq, v⟩ ∈ f.trees := by
  obtain ⟨⟨name, operator, value⟩, here, rfl, rfl⟩ := find?_of_pinned? found
  match t with
  | .leaf y =>
    rw [Tree.parts, find?, findFrom] at here
    split at here
    · rename_i same
      cases here
      obtain ⟨-, rfl⟩ := same
      exact .inl rfl
    · cases here
  | .group c first rest =>
    obtain ⟨rfl, member⟩ := Forest.mem_of_findFrom (f := .cons first rest) here
    exact .inr ⟨c, .cons first rest, rfl, member⟩

theorem Forest.pins_or_iff (f : Forest) (x : Comparison) :
    Pins (group .or f.parts) x ↔ ∀ t ∈ f.trees, Pins t.parts x := by
  constructor
  · intro pins t member truth held
    exact pins truth ((f.holds_or_iff truth).mpr ⟨t, member, held⟩)
  · intro pins truth held
    obtain ⟨t, member, heldHere⟩ := (f.holds_or_iff truth).mp held
    exact pins t member truth heldHere

/-- A value that is found for a field is pinned unless the filter has alternatives and one of them does
    not pin it. -/
theorem pins_iff_of_run {steps : List (Param.Step PruneMode Part Comparison)} {mode : PruneMode} {p : Param Part}
    (held : (mode, p) ∈ (Param.keeping dialect).after [] steps) {field : Text} {v : Value}
    (found : (p.query (dialect mode) (pinned? field)).1 = .ok (some v)) :
    ∃ parts, (p.parts (dialect mode)).1 = .ok parts ∧
      (Pins parts ⟨field, .eq, v⟩ ↔ ∀ alternatives : Forest, parts = group .or alternatives.parts →
        ∀ t ∈ alternatives.trees, Pins t.parts ⟨field, .eq, v⟩) := by
  obtain ⟨parts, asked, here⟩ : ∃ parts, (p.parts (dialect mode)).1 = .ok parts ∧ pinned? field parts = some v := by
    rw [Param.query] at found
    exact map_eq_ok_iff.mp found
  refine ⟨parts, asked, ?_⟩
  have alternative : (∀ alternatives : Forest, parts ≠ group .or alternatives.parts) → Pins parts ⟨field, .eq, v⟩ →
      (Pins parts ⟨field, .eq, v⟩ ↔ ∀ alternatives : Forest, parts = group .or alternatives.parts →
        ∀ t ∈ alternatives.trees, Pins t.parts ⟨field, .eq, v⟩) :=
    fun other pins => iff_of_true pins fun f same => absurd same (other f)
  rcases isWellFormed_parts held asked with rfl | ⟨t, same, -⟩
  · cases here
  obtain rfl := (same t).mpr rfl
  rcases Tree.cases_of_pinned? here with rfl | ⟨c, f, whole, member⟩
  · refine alternative (fun _ => by simp [Tree.parts, group]) fun truth holds => ?_
    rwa [Tree.holds_parts] at holds
  rw [whole] at alternative ⊢
  cases c with
  | and =>
    refine alternative (fun _ => by simp [group]) fun truth holds => ?_
    have heldMember := (f.holds_and_iff truth).mp holds _ member
    rwa [Tree.holds_parts] at heldMember
  | or =>
    constructor
    · rintro pins alternatives same
      rw [same, Forest.pins_or_iff] at pins
      exact pins
    · intro pins
      exact (f.pins_or_iff _).mpr (pins f rfl)

private def listed : Param Part := Param.ofText "a eq 1,2".toList

/-- Of a list of values the first one is found, and the filter holds with the second one alone. -/
theorem not_pins_listed :
    (.emptyGroups, listed) ∈ (Param.keeping dialect).after [] [.new .emptyGroups "a eq 1,2".toList] ∧
      (listed.query (dialect .emptyGroups) (pinned? ['a'])).1 = .ok (some (.int 1)) ∧
        ∃ parts, (listed.parts (dialect .emptyGroups)).1 = .ok parts ∧ ¬ Pins parts ⟨['a'], .eq, .int 1⟩ := by
  have held : (.emptyGroups, listed) ∈ (Param.keeping dialect).after [] [.new .emptyGroups "a eq 1,2".toList] :=
    List.mem_cons_self
  have found : (listed.query (dialect .emptyGroups) (pinned? ['a'])).1 = .ok (some (.int 1)) := by
    rw [dialect_eq_parseWithin]
    decide +kernel
  have read : (listed.parts (dialect .emptyGroups)).1 =
      .ok [.enter .or, .leaf ⟨['a'], .eq, .int 1⟩, .leaf ⟨['a'], .eq, .int 2⟩, .leave .or] := by
    rw [dialect_eq_parseWithin]
    decide +kernel
  obtain ⟨parts, asked, iff⟩ := pins_iff_of_run held found
  refine ⟨held, found, parts, asked, fun pins => ?_⟩
  cases read.symm.trans asked
  have second := iff.mp pins (.cons (.leaf ⟨['a'], .eq, .int 1⟩) (.cons (.leaf ⟨['a'], .eq, .int 2⟩) .nil)) rfl
    (.leaf ⟨['a'], .eq, .int 2⟩) (List.mem_cons_of_mem _ List.mem_cons_self)
  rw [Tree.pins_iff] at second
  exact absurd second (by decide)

end Criteria.Filter
