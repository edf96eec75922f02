import Mathlib.Data.List.Forall2
import Criteria.Proofs.Filter.Tree

/-!
# What filters mean

Once it is known which comparisons are true, a filter holds or does not: a group of `and` holds if all its
members hold, a group of `or` if some member does, and a filter demands all that stands at its top. Read
from left to right this gives what the tree gives.
-/

namespace Criteria.Filter

/-- Whether a group holds, by whether its members hold. -/
def Connector.over : Connector → List Bool → Bool
  | and, members => members.all id
  | or, members => members.any id

/-- A group that has begun, and whether the members hold that it has so far. -/
structure Standing where
  connector : Connector
  members : List Bool

namespace Standing

def begin (c : Connector) : Standing := ⟨c, []⟩

def add (s : Standing) (members : List Bool) : Standing := { s with members := s.members ++ members }

def holds (s : Standing) : Bool := s.connector.over s.members

theorem add_add (s : Standing) (first second : List Bool) : (s.add first).add second = s.add (first ++ second) := by
  simp [add]

theorem holds_add (c : Connector) (members : List Bool) : ((begin c).add members).holds = c.over members := rfl

end Standing

/-- Whether a group holds that ends with the parts, inside of others. A mark that ends no group is passed over. -/
def holdsFrom (truth : Comparison → Bool) (here : Standing) (around : List Standing) : List Part → Bool
  | [] => here.holds
  | .enter c :: r => holdsFrom truth (.begin c) (here :: around) r
  | .leave _ :: r =>
    match around with
    | [] => holdsFrom truth here [] r
    | outer :: around => holdsFrom truth (outer.add [here.holds]) around r
  | .leaf x :: r => holdsFrom truth (here.add [truth x]) around r

/-- Whether a filter holds if the given comparisons are true. -/
def holds (truth : Comparison → Bool) (parts : List Part) : Bool := holdsFrom truth (.begin .and) [] parts

section
variable (truth : Comparison → Bool)

mutual

def Tree.holds : Tree → Bool
  | .leaf x => truth x
  | .group c first rest => c.over (first.holds :: rest.truths)

/-- Whether the trees hold, one by one. -/
def Forest.truths : Forest → List Bool
  | .nil => []
  | .cons first rest => first.holds :: rest.truths

end

mutual

theorem Tree.holdsFrom_parts (t : Tree) (r : List Part) (here : Standing) (around : List Standing) :
    holdsFrom truth here around (t.parts ++ r) = holdsFrom truth (here.add [t.holds truth]) around r := by
  match t with
  | .leaf x => rfl
  | .group c first rest =>
    have whole : (Tree.group c first rest).parts ++ r = .enter c :: (first.parts ++ (rest.parts ++ .leave c :: r)) := by
      simp [Tree.parts, Filter.group]
    rw [whole, holdsFrom, first.holdsFrom_parts, rest.holdsFrom_parts, holdsFrom, Standing.add_add, Standing.holds_add]
    rfl

theorem Forest.holdsFrom_parts (f : Forest) (r : List Part) (here : Standing) (around : List Standing) :
    holdsFrom truth here around (f.parts ++ r) = holdsFrom truth (here.add (f.truths truth)) around r := by
  match f with
  | .nil => simp [Forest.parts, Forest.truths, Standing.add]
  | .cons first rest =>
    rw [Forest.parts, List.append_assoc, first.holdsFrom_parts, rest.holdsFrom_parts, Standing.add_add]
    rfl

end

theorem Tree.holds_parts (t : Tree) : Filter.holds truth t.parts = t.holds truth := by
  have whole := t.holdsFrom_parts truth [] (.begin .and) []
  rw [List.append_nil] at whole
  rw [Filter.holds, whole, holdsFrom, Standing.holds_add]
  exact Bool.and_true _

/-- A group holds by its members. -/
theorem Forest.holds_group (c : Connector) (f : Forest) :
    Filter.holds truth (group c f.parts) = c.over (f.truths truth) := by
  rw [Filter.holds, group, holdsFrom, f.holdsFrom_parts, holdsFrom, Standing.holds_add, holdsFrom]
  exact Bool.and_true _

/-- The trees of a forest as a list. -/
def Forest.trees : Forest → List Tree
  | .nil => []
  | .cons first rest => first :: rest.trees

theorem Forest.truths_eq (f : Forest) : f.truths truth = f.trees.map (Tree.holds truth) := by
  match f with
  | .nil => rfl
  | .cons first rest => rw [Forest.truths, Forest.trees, List.map_cons, rest.truths_eq]

theorem Forest.holds_and_iff (f : Forest) :
    Filter.holds truth (group .and f.parts) = true ↔ ∀ t ∈ f.trees, Filter.holds truth t.parts = true := by
  rw [Forest.holds_group, Forest.truths_eq, Connector.over]
  simp [Tree.holds_parts]

theorem Forest.holds_or_iff (f : Forest) :
    Filter.holds truth (group .or f.parts) = true ↔ ∃ t ∈ f.trees, Filter.holds truth t.parts = true := by
  rw [Forest.holds_group, Forest.truths_eq, Connector.over]
  simp [Tree.holds_parts]

end

theorem Connector.over_mono (c : Connector) {members members' : List Bool}
    (more : List.Forall₂ (fun a a' => a = true → a' = true) members members') (held : c.over members = true) :
    c.over members' = true := by
  cases c with
  | and =>
    induction more with
    | nil => rfl
    | cons first _ ih =>
      obtain ⟨here, later⟩ := Bool.and_eq_true_iff.mp held
      exact Bool.and_eq_true_iff.mpr ⟨first here, ih later⟩
  | or =>
    induction more with
    | nil => cases held
    | cons first _ ih => exact Bool.or_eq_true_iff.mpr ((Bool.or_eq_true_iff.mp held).imp first ih)

section
variable {truth truth' : Comparison → Bool}

mutual

private theorem Tree.holds_of_holds (more : ∀ x, truth x = true → truth' x = true) (t : Tree) :
    t.holds truth = true → t.holds truth' = true := by
  match t with
  | .leaf x => exact more x
  | .group c first rest => exact c.over_mono (.cons (first.holds_of_holds more) (rest.truths_of_truths more))

private theorem Forest.truths_of_truths (more : ∀ x, truth x = true → truth' x = true) (f : Forest) :
    List.Forall₂ (fun a a' => a = true → a' = true) (f.truths truth) (f.truths truth') := by
  match f with
  | .nil => exact .nil
  | .cons first rest => exact .cons (first.holds_of_holds more) (rest.truths_of_truths more)

end

/-- A filter that holds still holds if more comparisons are true: nothing in it is denied. -/
theorem Tree.holds_mono (more : ∀ x, truth x = true → truth' x = true) (t : Tree)
    (held : Filter.holds truth t.parts = true) : Filter.holds truth' t.parts = true := by
  rw [Tree.holds_parts] at held ⊢
  exact t.holds_of_holds more held

end

end Criteria.Filter
