import Criteria.Proofs.Filter.Collapse
import Criteria.Proofs.Filter.Truth

/-!
# What the two modes of pruning have in common

Whatever its mode, pruning keeps the comparisons that the check accepts. The second mode puts a single
member in the place of its group. There it is joined to its neighbours by the connector of the group
around, but so was its group, and a group of one member holds if that member does. So where all marks pair
up, the filters that the two modes leave mean the same.
-/

namespace Criteria.Filter

/-- How many groups have begun and not ended after some parts that begin inside `depth` groups; nothing if
    a mark ends no group. -/
def depthAfter (depth : Nat) : List Part → Option Nat
  | [] => some depth
  | .enter _ :: r => depthAfter (depth + 1) r
  | .leave _ :: r =>
    match depth with
    | 0 => none
    | depth + 1 => depthAfter depth r
  | .leaf _ :: r => depthAfter depth r

/-- Every group that begins ends, and every mark that ends a group has one to end. -/
def IsPaired (parts : List Part) : Prop := depthAfter 0 parts = some 0

instance (parts : List Part) : Decidable (IsPaired parts) := inferInstanceAs (Decidable (_ = _))

namespace Outline

theorem unbegun_put (ns : List Nest) (o : Outline) : (o.put ns).unbegun = o.unbegun := by
  obtain ⟨unbegun, top, unended⟩ := o
  cases unended <;> rfl

theorem length_unended_put (ns : List Nest) (o : Outline) : (o.put ns).unended.length = o.unended.length := by
  obtain ⟨unbegun, top, unended⟩ := o
  cases unended <;> rfl

/-- Where no mark lacks a beginning, the depth is the number of the groups that have not ended. -/
theorem read_of_depthAfter {parts : List Part} {o : Outline} {depth : Nat}
    (paired : depthAfter o.unended.length parts = some depth) :
    (o.read parts).unbegun = o.unbegun ∧ (o.read parts).unended.length = depth := by
  induction parts generalizing o with
  | nil => exact ⟨rfl, Option.some.inj paired⟩
  | cons part r ih =>
    have next : o.read (part :: r) = (o.add part).read r := rfl
    rw [next]
    cases part with
    | enter c => exact ih (o := o.enter c) paired
    | leaf x =>
      have rest := ih (o := o.put [.leaf x]) (by rwa [length_unended_put])
      rwa [unbegun_put] at rest
    | leave c =>
      obtain ⟨unbegun, top, unended⟩ := o
      cases unended with
      | nil => cases paired
      | cons g gs =>
        have rest := ih (o := put [.group g.mark c g.members] ⟨unbegun, top, gs⟩) (by rwa [length_unended_put])
        rwa [unbegun_put] at rest

end Outline

/-- The outline of parts whose marks pair up has no mark without a partner. -/
theorem IsPaired.outline_eq {parts : List Part} (paired : IsPaired parts) :
    ∃ ns, Outline.ofParts parts = ⟨[], ns, []⟩ := by
  obtain ⟨unbegun, unended⟩ := Outline.read_of_depthAfter (o := .empty) paired
  rw [← Outline.ofParts] at unbegun unended
  cases outline : Outline.ofParts parts with
  | mk begins top ends =>
    rw [outline] at unbegun unended
    cases unbegun
    cases List.length_eq_zero_iff.mp unended
    exact ⟨top, rfl⟩

/-- What a group says that goes without members: nothing then, and else whether it holds. -/
def Connector.verdict (c : Connector) : List Bool → List Bool
  | [] => []
  | members => [c.over members]

section
variable (truth : Comparison → Bool)

namespace Nest

mutual

def holds : Nest → Bool
  | .leaf x => truth x
  | .group begins _ members => begins.over (truths members)

/-- Whether the nests hold, one by one. -/
def truths : List Nest → List Bool
  | [] => []
  | n :: r => n.holds :: truths r

end

theorem truths_append (ns ms : List Nest) : truths truth (ns ++ ms) = truths truth ns ++ truths truth ms := by
  induction ns with
  | nil => rfl
  | cons n r ih => rw [List.cons_append, truths, truths, ih, List.cons_append]

mutual

theorem holdsFrom_parts (n : Nest) (r : List Part) (here : Standing) (around : List Standing) :
    holdsFrom truth here around (n.parts ++ r) = holdsFrom truth (here.add [n.holds truth]) around r := by
  match n with
  | .leaf x => rfl
  | .group begins ends members =>
    have whole : (group begins ends members).parts ++ r = .enter begins :: (allParts members ++ .leave ends :: r) := by
      simp [parts]
    rw [whole, holdsFrom, holdsFrom_allParts, holdsFrom, Standing.holds_add]
    rfl

theorem holdsFrom_allParts (ns : List Nest) (r : List Part) (here : Standing) (around : List Standing) :
    holdsFrom truth here around (allParts ns ++ r) = holdsFrom truth (here.add (truths truth ns)) around r := by
  match ns with
  | [] => simp [allParts, truths, Standing.add]
  | n :: ns =>
    rw [allParts, List.append_assoc, holdsFrom_parts, holdsFrom_allParts, Standing.add_add]
    rfl

end

/-- A filter demands what stands at its top. -/
theorem holds_allParts (ns : List Nest) : Filter.holds truth (allParts ns) = Connector.and.over (truths truth ns) := by
  have whole := holdsFrom_allParts truth ns [] (.begin .and) []
  rw [List.append_nil] at whole
  rw [Filter.holds, whole, holdsFrom, Standing.holds_add]

/-- In either mode there stands something in the place of a group if it has members, and it says what the
    group says. -/
theorem truths_settle (mode : PruneMode) (begins ends : Connector) (members : List Nest) :
    truths truth (mode.settle begins ends members) = begins.verdict (truths truth members) := by
  match members, mode with
  | [], _ => rfl
  | [n], .emptyOrSingletonGroups => cases begins <;> simp [PruneMode.settle, truths, Connector.verdict, Connector.over]
  | [n], .emptyGroups => rfl
  | n :: m :: others, _ => rfl

mutual

theorem truths_collapse (mode mode' : PruneMode) (n : Nest) :
    truths truth (n.collapse mode) = truths truth (n.collapse mode') := by
  match n with
  | .leaf x => rfl
  | .group begins ends members =>
    rw [collapse, collapse, truths_settle, truths_settle, truths_collapseAll mode mode' members]

/-- Judging the groups in one mode or the other does not change what holds. -/
theorem truths_collapseAll (mode mode' : PruneMode) (ns : List Nest) :
    truths truth (collapseAll mode ns) = truths truth (collapseAll mode' ns) := by
  match ns with
  | [] => rfl
  | n :: r =>
    rw [collapseAll, collapseAll, truths_append, truths_append, truths_collapse mode mode' n,
      truths_collapseAll mode mode' r]

end

end Nest

end

theorem Outline.parts_top (ns : List Nest) : Outline.parts ⟨[], ns, []⟩ = Nest.allParts ns := by
  simp [parts, endedParts]

/-- Where all marks pair up, pruning in one mode leaves the comparisons that it leaves in the other, those that
    the check accepts, and whichever comparisons are true, both filters that are left hold or neither does. -/
theorem prune_modes_agree {parts : List Part} (paired : IsPaired parts) {State : Type}
    (check : Check State Comparison) (s : State) :
    (∀ mode, (leaves (prune mode check parts s).1, (prune mode check parts s).2) = check.filter (leaves parts) s) ∧
      ∀ truth, holds truth (prune .emptyGroups check parts s).1 =
        holds truth (prune .emptyOrSingletonGroups check parts s).1 := by
  obtain ⟨ns, outline⟩ := paired.outline_eq
  have left (mode : PruneMode) :
      (prune mode check parts s).1 = Nest.allParts (Nest.collapseAll mode (Nest.siftAll check ns s).1) := by
    rw [prune_eq, outline, ← Outline.parts_top]
    rfl
  refine ⟨fun mode => leaves_prune mode check parts s, fun truth => ?_⟩
  rw [left, left, Nest.holds_allParts, Nest.holds_allParts, Nest.truths_collapseAll truth .emptyGroups]

-- The parts `(a and (b and c)) or d`, in groups of which some have one member from the start.
private def enclosed : List Part :=
  group .or (group .and (.leaf ⟨['a'], .eq, .int 1⟩ :: group .or (group .and
    [.leaf ⟨['b'], .eq, .int 2⟩, .leaf ⟨['c'], .eq, .int 3⟩])) ++ [.leaf ⟨['d'], .eq, .int 4⟩])

-- A check that accepts every second comparison.
private def alternately : Check Bool Comparison := fun _ accepted => (accepted, !accepted)

/-- In the second mode three groups around one comparison go, and the comparison is joined to another. -/
theorem prune_enclosed_agree :
    IsPaired enclosed ∧
      (prune .emptyGroups alternately enclosed false).1 =
        group .or (group .and (group .or (group .and [.leaf ⟨['b'], .eq, .int 2⟩])) ++
          [.leaf ⟨['d'], .eq, .int 4⟩]) ∧
      (prune .emptyOrSingletonGroups alternately enclosed false).1 =
        group .or [.leaf ⟨['b'], .eq, .int 2⟩, .leaf ⟨['d'], .eq, .int 4⟩] ∧
      ∀ truth, holds truth (prune .emptyGroups alternately enclosed false).1 =
        holds truth (prune .emptyOrSingletonGroups alternately enclosed false).1 :=
  ⟨by decide, by decide, by decide, (prune_modes_agree (by decide) alternately false).2⟩

end Criteria.Filter
