import Criteria.Dialects
import Criteria.Proofs.Filter.Collapse
import Criteria.Proofs.Filter.RoundTrip
import Criteria.Proofs.Param.Parts

/-!
# The shape of filters

Whatever is done with parameters, their parts stay the parts of one tree. The tree that is read from a
text has several members in every group. A cleaned parameter may have groups of one member, unless all
parameters go without them.
-/

namespace Criteria.Filter

private theorem Tree.parts_ne_leave (t : Tree) (r : List Part) (c : Connector) (r' : List Part) :
    t.parts ++ r ≠ .leave c :: r' := by
  cases t <;> simp [Tree.parts, Filter.group]

mutual

/-- A tree is known by its parts, also with other parts behind them. -/
theorem Tree.parts_append_cancel {t u : Tree} {r r' : List Part} (same : t.parts ++ r = u.parts ++ r') :
    t = u ∧ r = r' := by
  match t, u with
  | .leaf x, .leaf y => simpa [Tree.parts] using same
  | .leaf x, .group c first rest => simp [Tree.parts, Filter.group] at same
  | .group c first rest, .leaf y => simp [Tree.parts, Filter.group] at same
  | .group c first rest, .group d first' rest' =>
    have inside : Part.enter c :: (first.parts ++ (rest.parts ++ .leave c :: r)) =
        .enter d :: (first'.parts ++ (rest'.parts ++ .leave d :: r')) := by
      simpa [Tree.parts, Filter.group] using same
    rw [List.cons.injEq, Part.enter.injEq] at inside
    obtain ⟨rfl, members⟩ := inside
    obtain ⟨rfl, others⟩ := first.parts_append_cancel members
    obtain ⟨rfl, -, rfl⟩ := rest.parts_leave_cancel others
    exact ⟨rfl, rfl⟩

/-- Trees are known by their parts if the end of a group is behind them. -/
theorem Forest.parts_leave_cancel {f f' : Forest} {c d : Connector} {r r' : List Part}
    (same : f.parts ++ .leave c :: r = f'.parts ++ .leave d :: r') : f = f' ∧ c = d ∧ r = r' := by
  match f, f' with
  | .nil, .nil => simpa [Forest.parts] using same
  | .nil, .cons first rest =>
    rw [Forest.parts, Forest.parts, List.append_assoc] at same
    exact absurd same.symm (first.parts_ne_leave _ _ _)
  | .cons first rest, .nil =>
    rw [Forest.parts, Forest.parts, List.append_assoc] at same
    exact absurd same (first.parts_ne_leave _ _ _)
  | .cons first rest, .cons first' rest' =>
    rw [Forest.parts, Forest.parts, List.append_assoc, List.append_assoc] at same
    obtain ⟨rfl, others⟩ := first.parts_append_cancel same
    obtain ⟨rfl, connectors, behind⟩ := rest.parts_leave_cancel others
    exact ⟨rfl, connectors, behind⟩

end

theorem Tree.parts_injective {t u : Tree} (same : t.parts = u.parts) : t = u := by
  have whole : t.parts ++ [] = u.parts ++ [] := by rw [same]
  exact (Tree.parts_append_cancel whole).1

mutual

/-- Every group has at least two members. -/
def Tree.IsBranching : Tree → Prop
  | .leaf _ => True
  | .group _ first rest => rest ≠ .nil ∧ first.IsBranching ∧ rest.IsBranching

def Forest.IsBranching : Forest → Prop
  | .nil => True
  | .cons first rest => first.IsBranching ∧ rest.IsBranching

end

private theorem Tree.isBranching_join (c : Connector) {first : Tree} {rest : Forest} (branching : first.IsBranching)
    (branchingRest : rest.IsBranching) : (Tree.join c first rest).IsBranching := by
  cases rest with
  | nil => exact branching
  | cons second rest => exact ⟨nofun, branching, branchingRest⟩

mutual

theorem Tree.isBranching_unwrap (t : Tree) : t.unwrap.IsBranching := by
  match t with
  | .leaf x => trivial
  | .group c first rest => exact Tree.isBranching_join c first.isBranching_unwrap rest.isBranching_unwrap

theorem Forest.isBranching_unwrap (f : Forest) : f.unwrap.IsBranching := by
  match f with
  | .nil => trivial
  | .cons first rest => exact ⟨first.isBranching_unwrap, rest.isBranching_unwrap⟩

end

/-- The parts of exactly one tree, which has a shape and whose values are finite scalars. No group of a tree
    is empty, and the mark that ends a group has the connector of the mark that begins it. -/
def IsTree (Shape : Tree → Prop) (parts : List Part) : Prop :=
  ∃ t : Tree, (∀ u : Tree, u.parts = parts ↔ u = t) ∧ Shape t ∧ ∀ x ∈ leaves parts, x.value.IsFiniteScalar

/-- A filter that demands nothing, or one of one tree. -/
def IsWellFormed (Shape : Tree → Prop) (parts : List Part) : Prop :=
  parts = [] ∨ IsTree Shape parts

section
variable {Shape : Tree → Prop}

theorem Tree.isTree {t : Tree} (shape : Shape t) (scalars : ∀ x ∈ leaves t.parts, x.value.IsFiniteScalar) :
    IsTree Shape t.parts :=
  ⟨t, fun _ => ⟨Tree.parts_injective, congrArg Tree.parts⟩, shape, scalars⟩

/-- What is read from a text is a tree of groups with several members. -/
theorem isWellFormed_of_parse {t : Text} {parts : List Part} (read : parse t = .ok parts) :
    IsWellFormed Tree.IsBranching parts := by
  by_cases blank : Text.trim t = []
  · rcases parse_eq_ok_iff.mp read with ⟨-, rfl⟩ | ⟨nonblank, -⟩
    · exact .inl rfl
    · exact absurd blank nonblank
  · obtain ⟨tree, rfl, full, writable⟩ := isFull_of_parse read blank
    refine .inr (tree.isTree ?_ fun x member => (writable x member).2)
    rw [← full]
    exact tree.isBranching_unwrap

/-- Pruning keeps one tree or nothing. -/
theorem IsWellFormed.prune {mode : PruneMode} (kept : ∀ t : Tree, Shape (t.inMode mode)) {State : Type}
    (check : Check State Comparison) (s : State) {parts : List Part} (wellFormed : IsWellFormed Shape parts) :
    IsWellFormed Shape (prune mode check parts s).1 := by
  rcases wellFormed with rfl | ⟨t, same, -, scalars⟩
  · exact .inl rfl
  obtain rfl := (same t).mpr rfl
  have single (u : Tree) : (Forest.cons u .nil).parts = u.parts := by
    rw [Forest.parts, Forest.parts, List.append_nil]
  have sublist := leaves_prune_sublist mode check t.parts s
  have shape : ((Forest.cons t .nil).sift check s).1 = Forest.prepend (t.sift check s).1 .nil := rfl
  rw [← single, Forest.prune_parts, shape] at sublist ⊢
  cases sifted : (t.sift check s).1 with
  | none =>
    left
    cases mode <;> rfl
  | some u =>
    have kept' : ((Forest.prepend (some u) .nil).inMode mode).parts = (u.inMode mode).parts := by
      rw [Forest.prepend, Forest.inMode_cons, Forest.parts]
      cases mode <;> exact List.append_nil _
    rw [sifted, kept'] at sublist
    rw [kept']
    exact .inr (Tree.isTree (kept u) fun x member => scalars x (single t ▸ sublist.subset member))

/-- Two filters of one tree each are merged to the group of both trees. -/
theorem IsWellFormed.mergeParts (grouped : ∀ t u : Tree, Shape t → Shape u → Shape (.group .and t (.cons u .nil)))
    {p q : List Part} (first : IsWellFormed Shape p) (second : IsWellFormed Shape q) :
    IsWellFormed Shape (mergeParts p q) := by
  unfold Filter.mergeParts
  split
  · exact second
  · rename_i nonempty
    split
    · exact first
    · rename_i nonempty'
      obtain ⟨t, same, shape, scalars⟩ := first.resolve_left nonempty
      obtain ⟨u, same', shape', scalars'⟩ := second.resolve_left nonempty'
      obtain rfl := (same t).mpr rfl
      obtain rfl := (same' u).mpr rfl
      have whole : group .and (t.parts ++ u.parts) = (Tree.group .and t (.cons u .nil)).parts := by
        rw [Tree.parts, Forest.parts, Forest.parts, List.append_nil]
      rw [whole]
      refine .inr (Tree.isTree (grouped t u shape shape') fun x member => ?_)
      rw [← whole, leaves_group, leaves_append] at member
      exact (List.mem_append.mp member).elim (scalars x) (scalars' x)

theorem IsWellFormed.mono {Shape' : Tree → Prop} (weaker : ∀ t, Shape t → Shape' t) {parts : List Part}
    (wellFormed : IsWellFormed Shape parts) : IsWellFormed Shape' parts := by
  rcases wellFormed with empty | ⟨t, same, shape, scalars⟩
  · exact .inl empty
  · exact .inr ⟨t, same, weaker t shape, scalars⟩

theorem IsWellFormed.exists_forest {parts : List Part} (wellFormed : IsWellFormed Shape parts) :
    ∃ f : Forest, f.parts = parts := by
  rcases wellFormed with rfl | ⟨t, same, -⟩
  · exact ⟨.nil, rfl⟩
  · refine ⟨.cons t .nil, ?_⟩
    rw [Forest.parts, Forest.parts, List.append_nil]
    exact (same t).mpr rfl

-- Parts keep a shape that branching trees have, that pruned trees have and that merging keeps.
private theorem lasts_isWellFormed {mode : PruneMode} (branching : ∀ t : Tree, t.IsBranching → Shape t)
    (kept : ∀ t : Tree, Shape (t.inMode mode))
    (grouped : ∀ t u : Tree, Shape t → Shape u → Shape (.group .and t (.cons u .nil))) :
    Param.Lasts (dialect mode) fun _ parts => IsWellFormed Shape parts where
  read := fun read => (isWellFormed_of_parse read).mono branching
  sift := fun check s wellFormed => wellFormed.prune kept check s
  merge := fun first second => first.mergeParts grouped second

end

theorem isWellFormed_parts {steps : List (Param.Step PruneMode Part Comparison)} {mode : PruneMode} {p : Param Part}
    (held : (mode, p) ∈ (Param.keeping dialect).after [] steps) {parts : List Part}
    (asked : (p.parts (dialect mode)).1 = .ok parts) : IsWellFormed (fun _ => True) parts := by
  refine Param.parts_of_run (fun _ parts => IsWellFormed (fun _ => True) parts) (fun _ _ => rfl) (fun m _ _ => ?_) held asked
  exact lasts_isWellFormed (fun _ _ => trivial) (fun _ => trivial) fun _ _ _ _ => trivial

/-- In every run the parts of a text are nothing or one tree whose groups have several members, and the
    parts of a parameter are nothing or one tree; its groups have several members too if all parameters
    of the run go without groups of one member. -/
theorem isWellFormed_of_run {steps : List (Param.Step PruneMode Part Comparison)} {mode : PruneMode}
    {p : Param Part} (held : (mode, p) ∈ (Param.keeping dialect).after [] steps) :
    (∀ parts, (p.rawParts (dialect mode)).1 = .ok parts → IsWellFormed Tree.IsBranching parts) ∧
      (∀ parts, (p.parts (dialect mode)).1 = .ok parts → IsWellFormed (fun _ => True) parts) ∧
      ((∀ m t, .new m t ∈ steps → m = .emptyOrSingletonGroups) →
        ∀ parts, (p.parts (dialect mode)).1 = .ok parts → IsWellFormed Tree.IsBranching parts) := by
  have uniform : Param.Uniform dialect := fun _ _ => rfl
  refine ⟨fun parts asked => ?_, fun parts asked => ?_, fun strict parts asked => ?_⟩
  · obtain ⟨sound, -⟩ := Param.sound_of_run uniform held
    obtain ⟨-, same⟩ := Param.agrees_rawParts sound
    exact isWellFormed_of_parse ((congrArg Prod.fst same).trans asked)
  · refine Param.parts_of_run (fun _ parts => IsWellFormed (fun _ => True) parts) uniform ?_ held asked
    exact fun _ _ _ => lasts_isWellFormed (fun _ _ => trivial) (fun _ => trivial) fun _ _ _ _ => trivial
  · refine Param.parts_of_run (fun _ parts => IsWellFormed Tree.IsBranching parts) uniform ?_ held asked
    intro m t member
    rw [strict m t member]
    exact lasts_isWellFormed (fun _ => id) Tree.isBranching_unwrap fun _ _ first second => ⟨nofun, first, second, trivial⟩

-- A parameter loses the comparison of one field, then another parameter is added to it.
private def narrowing : List (Param.Step PruneMode Part Comparison) :=
  [.new .emptyOrSingletonGroups "a eq 1 and (b eq 2 or c eq 3)".toList,
    .act 0 (.clean false (Check.pure fun x => x.field ≠ ['b']) ()),
    .new .emptyOrSingletonGroups "d gt 4".toList,
    .add 0 1]

private def narrowed : Param Part where
  text := "(a eq 1 and (b eq 2 or c eq 3)) and (d gt 4)".toList
  parsed := none
  cleaned := some [.enter .and, .enter .and, .leaf ⟨['a'], .eq, .int 1⟩, .leaf ⟨['c'], .eq, .int 3⟩, .leave .and,
    .leaf ⟨['d'], .gt, .int 4⟩, .leave .and]

private theorem after_narrowing : (Param.keeping dialect).after [] narrowing =
    [(.emptyOrSingletonGroups, narrowed), (.emptyOrSingletonGroups, Param.ofText "d gt 4".toList)] := by
  rw [dialect_eq_parseWithin]
  decide +kernel

/-- The group of two comparisons lost one of them, and the other one stands in its place. -/
theorem isWellFormed_narrowed :
    (.emptyOrSingletonGroups, narrowed) ∈ (Param.keeping dialect).after [] narrowing ∧
      (∀ m t, .new m t ∈ narrowing → m = .emptyOrSingletonGroups) ∧
        ∃ raw parts, (narrowed.rawParts (dialect .emptyOrSingletonGroups)).1 = .ok raw ∧
          (narrowed.parts (dialect .emptyOrSingletonGroups)).1 = .ok parts ∧ raw ≠ [] ∧ parts ≠ [] ∧
            IsWellFormed Tree.IsBranching raw ∧ IsWellFormed (fun _ => True) parts ∧
              IsWellFormed Tree.IsBranching parts := by
  have held : (.emptyOrSingletonGroups, narrowed) ∈ (Param.keeping dialect).after [] narrowing := by
    rw [after_narrowing]
    exact List.mem_cons_self
  have strict : ∀ m t, .new m t ∈ narrowing → m = .emptyOrSingletonGroups := by
    intro m t member
    simp only [narrowing, List.mem_cons, Param.Step.new.injEq, reduceCtorEq, List.not_mem_nil, false_or, or_false]
      at member
    rcases member with ⟨same, -⟩ | ⟨same, -⟩
    · exact same
    · exact same
  obtain ⟨raw, readRaw, nonempty⟩ :
      ∃ raw, (narrowed.rawParts (dialect .emptyOrSingletonGroups)).1 = .ok raw ∧ raw ≠ [] :=
    ⟨[.enter .and, .enter .and, .leaf ⟨['a'], .eq, .int 1⟩, .enter .or, .leaf ⟨['b'], .eq, .int 2⟩,
      .leaf ⟨['c'], .eq, .int 3⟩, .leave .or, .leave .and, .leaf ⟨['d'], .gt, .int 4⟩, .leave .and], by rw [dialect_eq_parseWithin]; decide +kernel, List.cons_ne_nil _ _⟩
  obtain ⟨ofText, ofCleaned, ofStrict⟩ := isWellFormed_of_run held
  exact ⟨held, strict, raw, _, readRaw, rfl, nonempty, List.cons_ne_nil _ _, ofText raw readRaw, ofCleaned _ rfl, ofStrict strict _ rfl⟩

end Criteria.Filter
