import Criteria.Filter.Prune
import Criteria.Proofs.Filter.Outline
import Criteria.Proofs.Filter.Tree

/-!
# Pruning by the outline

Pruning takes one pass over the parts, and what has been kept is changed again when a group ends. It leaves
the same as this: the comparisons that the check rejects are taken out of the outline, and then the groups
are judged from the inside out, by how many members they have left. Only a group that has its two marks is
judged.

Whatever its mode and however the marks of a filter pair up, pruning keeps the comparisons that the check
accepts: a group that goes has none, or leaves its only member.
-/

namespace Criteria

/-- The check that also writes down what it is asked. -/
def Check.recorded {State Entry : Type} (check : Check State Entry) : Check (State × List Entry) Entry :=
  fun entry (s, asked) => ((check entry s).1, (check entry s).2, asked ++ [entry])

namespace Filter

section
variable {State : Type} (check : Check State Comparison)

namespace Nest

mutual

/-- A nest without the comparisons that a check rejects, asked from left to right. Groups stay. -/
def sift : Nest → State → List Nest × State
  | .leaf x, s => (if (check x s).1 then [.leaf x] else [], (check x s).2)
  | .group begins ends members, s =>
    let (members, s) := siftAll members s
    ([.group begins ends members], s)

def siftAll : List Nest → State → List Nest × State
  | [], s => ([], s)
  | n :: r, s =>
    let (first, s) := n.sift s
    let (rest, s) := siftAll r s
    (first ++ rest, s)

end

theorem siftAll_append (ns ms : List Nest) (s : State) :
    siftAll check (ns ++ ms) s =
      ((siftAll check ns s).1 ++ (siftAll check ms (siftAll check ns s).2).1,
        (siftAll check ms (siftAll check ns s).2).2) := by
  induction ns generalizing s with
  | nil => rfl
  | cons n r ih => simp only [List.cons_append, siftAll, ih, List.append_assoc]

theorem siftAll_singleton (n : Nest) (s : State) : siftAll check [n] s = n.sift check s := by
  simp only [siftAll, List.append_nil]

end Nest

/-- The stretches are given with the latest first, and the check is asked about the earliest first. -/
def Stretch.siftAll : List Stretch → State → List Stretch × State
  | [], s => ([], s)
  | r :: rs, s =>
    let (earlier, s) := siftAll rs s
    let (members, s) := Nest.siftAll check r.members s
    (⟨r.mark, members⟩ :: earlier, s)

/-- An outline without the comparisons that a check rejects, asked from left to right. -/
def Outline.sift (o : Outline) (s : State) : Outline × State :=
  let (unbegun, s) := Stretch.siftAll check o.unbegun s
  let (top, s) := Nest.siftAll check o.top s
  let (unended, s) := Stretch.siftAll check o.unended s
  (⟨unbegun, top, unended⟩, s)

end

/-- What stands in the place of a group with some members left: nothing without members, and in the second
    mode a single member. -/
def PruneMode.settle (mode : PruneMode) (begins ends : Connector) (members : List Nest) : List Nest :=
  match members, mode with
  | [], _ => []
  | [n], .emptyOrSingletonGroups => [n]
  | members, _ => [.group begins ends members]

section
variable (mode : PruneMode)

namespace Nest

mutual

/-- What stands in the place of a nest when its groups have been judged from the inside out. -/
def collapse : Nest → List Nest
  | .leaf x => [.leaf x]
  | .group begins ends members => mode.settle begins ends (collapseAll members)

def collapseAll : List Nest → List Nest
  | [] => []
  | n :: r => n.collapse ++ collapseAll r

end

theorem collapseAll_append (ns ms : List Nest) :
    collapseAll mode (ns ++ ms) = collapseAll mode ns ++ collapseAll mode ms := by
  induction ns with
  | nil => rfl
  | cons n r ih => rw [List.cons_append, collapseAll, collapseAll, ih, List.append_assoc]

theorem collapseAll_singleton (n : Nest) : collapseAll mode [n] = n.collapse mode := List.append_nil _

end Nest

/-- The marks without a partner stay. -/
def Stretch.collapse (r : Stretch) : Stretch := ⟨r.mark, Nest.collapseAll mode r.members⟩

/-- An outline whose groups have been judged from the inside out. -/
def Outline.collapse (o : Outline) : Outline :=
  ⟨o.unbegun.map (Stretch.collapse mode), Nest.collapseAll mode o.top, o.unended.map (Stretch.collapse mode)⟩

end

namespace Outline

theorem collapse_put (mode : PruneMode) (ns : List Nest) (o : Outline) :
    (o.put ns).collapse mode = (o.collapse mode).put (Nest.collapseAll mode ns) := by
  obtain ⟨unbegun, top, unended⟩ := o
  cases unended <;> simp [put, collapse, Stretch.collapse, Nest.collapseAll_append]

/-- A group is judged when it ends. -/
theorem collapse_leave (mode : PruneMode) (c : Connector) {o : Outline} {r : Stretch} {rs : List Stretch}
    (inside : o.unended = r :: rs) :
    (o.leave c).collapse mode =
      (collapse mode { o with unended := rs }).put (mode.settle r.mark c (Nest.collapseAll mode r.members)) := by
  rw [leave, inside]
  simp only [collapse_put, Nest.collapseAll_singleton, Nest.collapse]

section
variable {State : Type} (check : Check State Comparison)

theorem sift_put (ns : List Nest) (o : Outline) (s : State) :
    (o.put ns).sift check s =
      ((o.sift check s).1.put (Nest.siftAll check ns (o.sift check s).2).1,
        (Nest.siftAll check ns (o.sift check s).2).2) := by
  obtain ⟨unbegun, top, unended⟩ := o
  cases unended <;> simp [put, sift, Stretch.siftAll, Nest.siftAll_append]

theorem sift_enter (c : Connector) (o : Outline) (s : State) :
    (o.enter c).sift check s = ((o.sift check s).1.enter c, (o.sift check s).2) := rfl

theorem sift_leave (c : Connector) (o : Outline) (s : State) :
    (o.leave c).sift check s = ((o.sift check s).1.leave c, (o.sift check s).2) := by
  obtain ⟨unbegun, top, unended⟩ := o
  cases unended with
  | nil => rfl
  | cons r rs =>
    rw [leave, sift_put, Nest.siftAll_singleton]
    rfl

/-- Another comparison is the last one that the check is asked about. -/
theorem sift_leaf (x : Comparison) (o : Outline) (s : State) :
    (o.put [.leaf x]).sift check s =
      (if (check x (o.sift check s).2).1 then (o.sift check s).1.put [.leaf x] else (o.sift check s).1,
        (check x (o.sift check s).2).2) := by
  rw [sift_put, Nest.siftAll_singleton, Nest.sift]
  cases (check x (o.sift check s).2).1 with
  | true => rfl
  | false => exact congrArg (·, _) (put_nil _)

end

/-! ## The pass -/

/-- The pass that has kept the groups of an outline. -/
def kept (o : Outline) : Pruning where
  outer := o.endedParts.reverse
  groups := o.unended.map fun r => ⟨r.mark, r.members.length, (Nest.allParts r.members).reverse⟩

theorem result_kept (o : Outline) : o.kept.result = o.parts := by
  simp [kept, Pruning.result, parts, ← List.map_reverse, List.flatMap_map]

theorem kept_put (n : Nest) (o : Outline) : (o.put [n]).kept = o.kept.keep n.parts.reverse := by
  obtain ⟨unbegun, top, unended⟩ := o
  cases unended <;>
    simp [put, kept, Pruning.keep, endedParts, Nest.allParts_append, Nest.allParts_singleton]

/-- Outside of all groups the mark stays. -/
theorem kept_leave_outside (mode : PruneMode) (c : Connector) {o : Outline} (outside : o.unended = []) :
    (o.leave c).kept = o.kept.leave mode c := by
  obtain ⟨unbegun, top, unended⟩ := o
  cases outside
  simp [leave, kept, Pruning.leave, endedParts, Nest.allParts]

/-- In the innermost group the pass has counted the members that are left, and keeps what stands in its place. -/
theorem kept_leave_inside (mode : PruneMode) (c : Connector) {o : Outline} {r : Stretch} {rs : List Stretch}
    (inside : o.unended = r :: rs) :
    (put (mode.settle r.mark c r.members) { o with unended := rs }).kept = o.kept.leave mode c := by
  have group : (Nest.group r.mark c r.members).parts.reverse =
      .leave c :: ((Nest.allParts r.members).reverse ++ [.enter r.mark]) := by
    rw [Nest.parts]
    simp
  have groups : o.kept.groups = ⟨r.mark, r.members.length, (Nest.allParts r.members).reverse⟩ ::
      (kept { o with unended := rs }).groups := by
    rw [kept, inside]
    rfl
  have rest : { o.kept with groups := (kept { o with unended := rs }).groups } = kept { o with unended := rs } := rfl
  rw [Pruning.leave, groups]
  dsimp only
  rw [rest]
  cases members : r.members with
  | nil => exact congrArg kept (put_nil _)
  | cons n others =>
    rw [members] at group
    cases others with
    | cons m others =>
      rw [PruneMode.settle, kept_put, group]
      · rfl
      · simp
      · simp
    | nil =>
      cases mode with
      | emptyOrSingletonGroups =>
        rw [PruneMode.settle, kept_put, Nest.allParts_singleton]
        rfl
      | emptyGroups =>
        rw [PruneMode.settle, kept_put, group]
        · rfl
        · simp
        · simp

/-- A group that ends is judged by the pass as it is judged in the outline. -/
theorem kept_collapse_leave (mode : PruneMode) (c : Connector) (o : Outline) :
    ((o.leave c).collapse mode).kept = (o.collapse mode).kept.leave mode c := by
  obtain ⟨unbegun, top, unended⟩ := o
  cases unended with
  | nil =>
    have same : (leave c ⟨unbegun, top, []⟩).collapse mode = (collapse mode ⟨unbegun, top, []⟩).leave c := rfl
    rw [same, kept_leave_outside mode c rfl]
  | cons r rs =>
    rw [collapse_leave mode c rfl]
    exact kept_leave_inside mode c (o := collapse mode ⟨unbegun, top, r :: rs⟩) (r := r.collapse mode) rfl

end Outline

section
variable {State : Type} (mode : PruneMode) (check : Check State Comparison)

/-- At every part the pass has kept what is left of the outline so far. -/
theorem pruneFrom_kept (parts : List Part) (o : Outline) (s : State) :
    pruneFrom mode check parts ((o.sift check s).1.collapse mode).kept (o.sift check s).2 =
      ((((o.read parts).sift check s).1.collapse mode).kept, ((o.read parts).sift check s).2) := by
  induction parts generalizing o with
  | nil => rfl
  | cons part r ih =>
    have next : o.read (part :: r) = (o.add part).read r := rfl
    rw [next, ← ih]
    cases part with
    | enter c => rfl
    | leave c => rw [pruneFrom, Outline.add, Outline.sift_leave, Outline.kept_collapse_leave]
    | leaf x =>
      rw [pruneFrom, Outline.add, Outline.sift_leaf]
      cases accepted : (check x (o.sift check s).2).1 with
      | true =>
        have more : (((o.sift check s).1.put [.leaf x]).collapse mode).kept =
            ((o.sift check s).1.collapse mode).kept.keep [.leaf x] := by
          rw [Outline.collapse_put, Nest.collapseAll_singleton]
          exact Outline.kept_put (.leaf x) _
        simp [accepted, more]
      | false => simp [accepted]

theorem prune_eq (parts : List Part) (s : State) :
    prune mode check parts s =
      ((((Outline.ofParts parts).sift check s).1.collapse mode).parts, ((Outline.ofParts parts).sift check s).2) := by
  have whole := pruneFrom_kept mode check parts .empty s
  have start : (((Outline.empty.sift check s).1.collapse mode).kept, (Outline.empty.sift check s).2) = (.start, s) :=
    rfl
  rw [(Prod.mk.inj start).1, (Prod.mk.inj start).2] at whole
  rw [prune, whole, Outline.ofParts, ← Outline.result_kept]

/-- A check that writes down what it is asked is asked about all comparisons in order. -/
theorem pruneFrom_recorded (parts : List Part) (p : Pruning) (s : State) (asked : List Comparison) :
    pruneFrom mode check.recorded parts p (s, asked) =
      ((pruneFrom mode check parts p s).1, (pruneFrom mode check parts p s).2, asked ++ leaves parts) := by
  induction parts generalizing p s asked with
  | nil => simp [pruneFrom, leaves]
  | cons part r ih =>
    cases part with
    | enter c | leave c =>
      rw [pruneFrom, ih]
      rfl
    | leaf x =>
      have asks : leaves (.leaf x :: r) = x :: leaves r := rfl
      have step : check.recorded x (s, asked) = ((check x s).1, (check x s).2, asked ++ [x]) := rfl
      rw [pruneFrom, step, asks, pruneFrom]
      simp only [ih, List.append_assoc, List.singleton_append]

/-- Pruning asks the check about every comparison once, from left to right. In the one outline of the parts it
    takes out the comparisons that the check rejects and then judges the groups from the inside out; all other
    marks and comparisons stay where they are. -/
theorem prune_eq_collapse (parts : List Part) (s : State) :
    (∀ o : Outline, o.parts = parts ↔ o = .ofParts parts) ∧
      prune mode check.recorded parts (s, []) =
        ((prune mode check parts s).1, (prune mode check parts s).2, leaves parts) ∧
      prune mode check parts s =
        ((((Outline.ofParts parts).sift check s).1.collapse mode).parts, ((Outline.ofParts parts).sift check s).2) := by
  refine ⟨fun o => Outline.parts_eq_iff, ?_, prune_eq mode check parts s⟩
  rw [prune, prune, pruneFrom_recorded]
  rfl

end

theorem leaves_flatMap {Entry : Type} (entries : List Entry) (parts : Entry → List Part) :
    leaves (entries.flatMap parts) = entries.flatMap fun entry => leaves (parts entry) := List.filterMap_flatMap

namespace Nest

theorem leaves_group (begins ends : Connector) (members : List Nest) :
    leaves (group begins ends members).parts = leaves (allParts members) := by
  simp [parts, leaves_append]

/-- What stands in the place of a group has all its comparisons. -/
theorem leaves_settle (mode : PruneMode) (begins ends : Connector) (members : List Nest) :
    leaves (allParts (mode.settle begins ends members)) = leaves (allParts members) := by
  have marked : leaves (allParts [group begins ends members]) = leaves (allParts members) := by
    rw [allParts_singleton, leaves_group]
  match members, mode with
  | [], _ => rfl
  | [n], .emptyOrSingletonGroups => rfl
  | [n], .emptyGroups => exact marked
  | n :: m :: others, _ => exact marked

mutual

theorem leaves_collapse (mode : PruneMode) (n : Nest) : leaves (allParts (n.collapse mode)) = leaves n.parts := by
  match n with
  | .leaf x => rfl
  | .group begins ends members => rw [collapse, leaves_settle, leaves_collapseAll, leaves_group]

theorem leaves_collapseAll (mode : PruneMode) (ns : List Nest) :
    leaves (allParts (collapseAll mode ns)) = leaves (allParts ns) := by
  match ns with
  | [] => rfl
  | n :: r =>
    rw [collapseAll, allParts_append, leaves_append, leaves_collapse, leaves_collapseAll, allParts, leaves_append]

end

end Nest

namespace Outline

/-- Judging the groups costs no comparison. -/
theorem leaves_collapse (mode : PruneMode) (o : Outline) : leaves (o.collapse mode).parts = leaves o.parts := by
  simp [collapse, parts, endedParts, Stretch.collapse, leaves_append, leaves_flatMap, ← List.map_reverse,
    List.flatMap_map, Nest.leaves_collapseAll]

variable {State : Type} (check : Check State Comparison)

/-- What is left of one part more is what the check accepts of it. -/
theorem leaves_sift_read (parts : List Part) (o : Outline) (s : State) :
    (leaves ((o.read parts).sift check s).1.parts, ((o.read parts).sift check s).2) =
      (leaves (o.sift check s).1.parts ++ (check.filter (leaves parts) (o.sift check s).2).1,
        (check.filter (leaves parts) (o.sift check s).2).2) := by
  induction parts generalizing o with
  | nil => simp [read, Check.filter]
  | cons part r ih =>
    have next : o.read (part :: r) = (o.add part).read r := rfl
    rw [next, ih]
    cases part with
    | enter c =>
      have begun : ((o.sift check s).1.enter c).parts = (o.sift check s).1.parts ++ [.enter c] := parts_add _ (.enter c)
      rw [add, sift_enter, begun]
      simp [leaves_append]
    | leave c =>
      rw [add, sift_leave, parts_leave]
      simp [leaves_append]
    | leaf x =>
      rw [add, sift_leaf, leaves_leaf_cons, Check.filter]
      cases accepted : (check x (o.sift check s).2).1 with
      | true => simp [parts_put, leaves_append, Nest.allParts, Nest.parts, accepted]
      | false => simp [accepted]

end Outline

/-- Pruning keeps the comparisons that the check accepts, in their order, in either mode. -/
theorem leaves_prune {State : Type} (mode : PruneMode) (check : Check State Comparison) (parts : List Part)
    (s : State) :
    (leaves (prune mode check parts s).1, (prune mode check parts s).2) = check.filter (leaves parts) s := by
  have whole := Outline.leaves_sift_read check parts .empty s
  rw [prune_eq, Outline.leaves_collapse]
  exact whole

/-- Pruning only takes comparisons away. -/
theorem leaves_prune_sublist {State : Type} (mode : PruneMode) (check : Check State Comparison) (parts : List Part)
    (s : State) : (leaves (prune mode check parts s).1).Sublist (leaves parts) := by
  have kept := congrArg Prod.fst (leaves_prune mode check parts s)
  rw [show leaves (prune mode check parts s).1 = (check.filter (leaves parts) s).1 from kept]
  exact check.filter_sublist (leaves parts) s

end Filter
end Criteria
