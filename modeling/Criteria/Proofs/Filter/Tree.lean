import Criteria.Filter.Prune

/-!
# Filters as trees

A flat filter whose marks pair up is a forest, written down from left to right. Pruning it in one pass
gives the forest without the members that a check rejects.

A check without a memory keeps the comparisons that a predicate accepts. Two such checks, one after the
other, keep what both accept. It does not matter that the first one has already removed groups, or has put
single members in the place of their groups, when the second one is asked.
-/

namespace Criteria.Filter

mutual

/-- A comparison, or a group of at least one member. -/
inductive Tree
  | leaf (x : Comparison)
  | group (c : Connector) (first : Tree) (rest : Forest)

/-- Any number of trees. -/
inductive Forest
  | nil
  | cons (first : Tree) (rest : Forest)

end

mutual

/-- The parts of a tree from left to right. -/
def Tree.parts : Tree → List Part
  | .leaf x => [.leaf x]
  | .group c first rest => Filter.group c (first.parts ++ rest.parts)

/-- The parts of some trees from left to right. -/
def Forest.parts : Forest → List Part
  | .nil => []
  | .cons first rest => first.parts ++ rest.parts

end

/-- Several members form a group, a single one stands alone. -/
def Tree.join (c : Connector) (first : Tree) : Forest → Tree
  | .nil => first
  | rest => .group c first rest

mutual

/-- A tree whose groups of one member are that member. -/
def Tree.unwrap : Tree → Tree
  | .leaf x => .leaf x
  | .group c first rest => Tree.join c first.unwrap rest.unwrap

def Forest.unwrap : Forest → Forest
  | .nil => .nil
  | .cons first rest => .cons first.unwrap rest.unwrap

end

/-- The form that a kept tree has: groups of one member stay in the first mode and go in the second. -/
def Tree.inMode (t : Tree) : PruneMode → Tree
  | .emptyGroups => t
  | .emptyOrSingletonGroups => t.unwrap

def Forest.inMode (f : Forest) : PruneMode → Forest
  | .emptyGroups => f
  | .emptyOrSingletonGroups => f.unwrap

/-- Trees with one more in front of them, if there is one. -/
def Forest.prepend : Option Tree → Forest → Forest
  | none, f => f
  | some t, f => .cons t f

/-- The group of some members; without members there is none. -/
def Forest.grouped (c : Connector) : Forest → Option Tree
  | .nil => none
  | .cons first rest => some (.group c first rest)

section
variable {State : Type} (check : Check State Comparison)

mutual

/-- What a check leaves of a tree. Groups without members go. -/
def Tree.sift : Tree → State → Option Tree × State
  | .leaf x, s => (if (check x s).1 then some (.leaf x) else none, (check x s).2)
  | .group c first rest, s =>
    let (first, s) := first.sift s
    let (rest, s) := rest.sift s
    ((Forest.prepend first rest).grouped c, s)

def Forest.sift : Forest → State → Forest × State
  | .nil, s => (.nil, s)
  | .cons first rest, s =>
    let (first, s) := first.sift s
    let (rest, s) := rest.sift s
    (Forest.prepend first rest, s)

end

end

/-! ## One pass over a flat filter -/

def Forest.length : Forest → Nat
  | .nil => 0
  | .cons _ rest => rest.length + 1

theorem Forest.inMode_cons (first : Tree) (rest : Forest) (mode : PruneMode) :
    (Forest.cons first rest).inMode mode = .cons (first.inMode mode) (rest.inMode mode) := by
  cases mode <;> rfl

namespace Pruning

variable {mode : PruneMode}

/-- The pass after a tree that may have been kept. -/
def keepTree (mode : PruneMode) (p : Pruning) : Option Tree → Pruning
  | none => p
  | some t => p.keep (t.inMode mode).parts.reverse

/-- The pass after trees that have been kept. -/
def keepForest (mode : PruneMode) (p : Pruning) : Forest → Pruning
  | .nil => p
  | .cons first rest => (p.keepTree mode (some first)).keepForest mode rest
termination_by structural f => f

theorem keepForest_prepend (p : Pruning) (kept : Option Tree) (f : Forest) :
    p.keepForest mode (Forest.prepend kept f) = (p.keepTree mode kept).keepForest mode f := by
  cases kept <;> rfl

/-- Outside of every group the parts of the kept trees are added to those kept before. -/
theorem keepForest_outside (outer : List Part) (f : Forest) :
    keepForest mode ⟨outer, []⟩ f = ⟨(f.inMode mode).parts.reverse ++ outer, []⟩ := by
  match f with
  | .nil => cases mode <;> rfl
  | .cons first rest =>
    rw [keepForest, keepTree, keep, keepForest_outside _ rest, Forest.inMode_cons, Forest.parts]
    simp

/-- In a group the kept trees are members, and their parts are added to those of the group. -/
theorem keepForest_inside (outer : List Part) (g : OpenGroup) (gs : List OpenGroup) (f : Forest) :
    keepForest mode ⟨outer, g :: gs⟩ f =
      ⟨outer, ⟨g.connector, g.members + f.length, (f.inMode mode).parts.reverse ++ g.parts⟩ :: gs⟩ := by
  match f with
  | .nil => cases mode <;> rfl
  | .cons first rest =>
    rw [keepForest, keepTree, keep, keepForest_inside outer _ gs rest, Forest.inMode_cons, Forest.parts, Forest.length]
    simp
    omega

/-- A group that ends is kept as the tree of its members, if it has any. -/
theorem leave_keepForest (p : Pruning) (c : Connector) (f : Forest) :
    ((p.enter c).keepForest mode f).leave mode c = p.keepTree mode (f.grouped c) := by
  rw [enter, keepForest_inside]
  match f with
  | .nil => rfl
  | .cons first .nil =>
    cases mode with
    | emptyGroups =>
      rw [Forest.inMode_cons]
      simp [leave, Forest.length, Forest.grouped, keepTree, Tree.inMode, Tree.parts, Forest.parts, Filter.group,
        Forest.inMode]
    | emptyOrSingletonGroups =>
      rw [Forest.inMode_cons]
      simp [leave, Forest.length, Forest.grouped, keepTree, Tree.inMode, Tree.unwrap, Tree.join, Forest.parts,
        Forest.unwrap, Forest.inMode]
  | .cons first (.cons second rest) =>
    have several : (Tree.group c first (.cons second rest)).inMode mode =
        .group c (first.inMode mode) ((Forest.cons second rest).inMode mode) := by
      cases mode <;> rfl
    rw [Forest.inMode_cons]
    simp [leave, Forest.length, Forest.grouped, keepTree, several, Tree.parts, Forest.parts, Filter.group]

end Pruning

section
variable {State : Type} (mode : PruneMode) (check : Check State Comparison)

mutual

theorem Tree.pruneFrom_parts (t : Tree) (r : List Part) (p : Pruning) (s : State) :
    pruneFrom mode check (t.parts ++ r) p s =
      pruneFrom mode check r (p.keepTree mode (t.sift check s).1) (t.sift check s).2 := by
  match t with
  | .leaf x =>
    rw [Tree.parts, Tree.sift, List.singleton_append, pruneFrom]
    cases accepted : (check x s).1 with
    | true => cases mode <;> simp [accepted, Pruning.keepTree, Tree.inMode, Tree.unwrap, Tree.parts]
    | false => simp [accepted, Pruning.keepTree]
  | .group c first rest =>
    have whole : (Tree.group c first rest).parts ++ r = .enter c :: (first.parts ++ (rest.parts ++ .leave c :: r)) := by
      simp [Tree.parts, Filter.group]
    rw [whole, pruneFrom, first.pruneFrom_parts, rest.pruneFrom_parts, pruneFrom, ← Pruning.keepForest_prepend,
      Pruning.leave_keepForest]
    rfl

theorem Forest.pruneFrom_parts (f : Forest) (r : List Part) (p : Pruning) (s : State) :
    pruneFrom mode check (f.parts ++ r) p s =
      pruneFrom mode check r (p.keepForest mode (f.sift check s).1) (f.sift check s).2 := by
  match f with
  | .nil => rfl
  | .cons first rest =>
    rw [Forest.parts, List.append_assoc, first.pruneFrom_parts, rest.pruneFrom_parts, Forest.sift,
      ← Pruning.keepForest_prepend]

end

/-- Pruning a forest leaves the trees that the check leaves of it, in the form of the mode. -/
theorem Forest.prune_parts (f : Forest) (s : State) :
    prune mode check f.parts s = (((f.sift check s).1.inMode mode).parts, (f.sift check s).2) := by
  have whole := f.pruneFrom_parts mode check [] .start s
  rw [List.append_nil, pruneFrom, Pruning.start, Pruning.keepForest_outside] at whole
  rw [prune, Pruning.start, whole]
  simp [Pruning.result]

end

@[simp] theorem leaves_nil : leaves [] = [] := rfl

@[simp] theorem leaves_leaf (x : Comparison) : leaves [.leaf x] = [x] := rfl

@[simp] theorem leaves_enter_cons (c : Connector) (r : List Part) : leaves (.enter c :: r) = leaves r := rfl

@[simp] theorem leaves_leave_cons (c : Connector) (r : List Part) : leaves (.leave c :: r) = leaves r := rfl

@[simp] theorem leaves_leaf_cons (x : Comparison) (r : List Part) : leaves (.leaf x :: r) = x :: leaves r := rfl

theorem leaves_append (p q : List Part) : leaves (p ++ q) = leaves p ++ leaves q := List.filterMap_append

@[simp] theorem leaves_group (c : Connector) (p : List Part) : leaves (group c p) = leaves p := by
  simp [group, leaves_append]

section
variable {State : Type}

mutual

/-- A check that accepts everything leaves every tree. -/
theorem Tree.sift_accepting (t : Tree) (s : State) : t.sift (Check.pure fun _ => true) s = (some t, s) := by
  match t with
  | .leaf x => simp [Tree.sift, Check.pure]
  | .group c first rest =>
    simp only [Tree.sift, first.sift_accepting, rest.sift_accepting, Forest.prepend, Forest.grouped]

theorem Forest.sift_accepting (f : Forest) (s : State) : f.sift (Check.pure fun _ => true) s = (f, s) := by
  match f with
  | .nil => rfl
  | .cons first rest => simp only [Forest.sift, first.sift_accepting, rest.sift_accepting, Forest.prepend]

end

end

section
variable (accepts : Comparison → Bool)

mutual

/-- A tree without the comparisons that a predicate rejects. Groups without members go. -/
def Tree.keep : Tree → Option Tree
  | .leaf x => if accepts x then some (.leaf x) else none
  | .group c first rest => (Forest.prepend first.keep rest.keep).grouped c

def Forest.keep : Forest → Forest
  | .nil => .nil
  | .cons first rest => Forest.prepend first.keep rest.keep

end

mutual

/-- It is what a check without a memory leaves. -/
theorem Tree.sift_pure {State : Type} (t : Tree) (s : State) :
    t.sift (Check.pure accepts) s = (t.keep accepts, s) := by
  match t with
  | .leaf x => rfl
  | .group c first rest => simp only [Tree.sift, Tree.keep, first.sift_pure, rest.sift_pure]

theorem Forest.sift_pure {State : Type} (f : Forest) (s : State) :
    f.sift (Check.pure accepts) s = (f.keep accepts, s) := by
  match f with
  | .nil => rfl
  | .cons first rest => simp only [Forest.sift, Forest.keep, first.sift_pure, rest.sift_pure]

end

theorem Forest.keep_prepend (kept : Option Tree) (f : Forest) :
    (Forest.prepend kept f).keep accepts = Forest.prepend (kept.bind (Tree.keep accepts)) (f.keep accepts) := by
  cases kept <;> rfl

theorem Forest.bind_grouped_keep (c : Connector) (f : Forest) :
    (f.grouped c).bind (Tree.keep accepts) = (f.keep accepts).grouped c := by
  cases f <;> rfl

end

/-! ## Two predicates -/

section
variable (accepts also : Comparison → Bool)

mutual

theorem Tree.keep_keep (t : Tree) :
    (t.keep accepts).bind (Tree.keep also) = t.keep fun x => accepts x && also x := by
  match t with
  | .leaf x =>
    rw [Tree.keep, Tree.keep]
    cases accepted : accepts x with
    | true => rfl
    | false => rfl
  | .group c first rest =>
    rw [Tree.keep, Tree.keep, Forest.bind_grouped_keep, Forest.keep_prepend, first.keep_keep, rest.keep_keep]

theorem Forest.keep_keep (f : Forest) : (f.keep accepts).keep also = f.keep fun x => accepts x && also x := by
  match f with
  | .nil => rfl
  | .cons first rest => rw [Forest.keep, Forest.keep, Forest.keep_prepend, first.keep_keep, rest.keep_keep]

end

end

/-- The group of some members if there are several of them, a single one alone. -/
def Forest.joined (c : Connector) : Forest → Option Tree
  | .nil => none
  | .cons first rest => some (Tree.join c first rest)

theorem Forest.unwrap_prepend (kept : Option Tree) (f : Forest) :
    (Forest.prepend kept f).unwrap = Forest.prepend (kept.map Tree.unwrap) f.unwrap := by
  cases kept <;> rfl

theorem Forest.map_grouped_unwrap (c : Connector) (f : Forest) :
    (f.grouped c).map Tree.unwrap = f.unwrap.joined c := by
  cases f <;> rfl

section
variable (accepts : Comparison → Bool)

-- In the place of its group a single member is what its group would have become.
private theorem Tree.keep_join (c : Connector) (first : Tree) (rest : Forest) :
    ((Tree.join c first rest).keep accepts).map Tree.unwrap =
      (Forest.prepend (first.keep accepts) (rest.keep accepts)).unwrap.joined c := by
  cases rest with
  | nil =>
    rw [Tree.join, Forest.keep, Forest.unwrap_prepend]
    cases first.keep accepts <;> rfl
  | cons second rest =>
    rw [Tree.join, Tree.keep, Forest.map_grouped_unwrap]
    simp

mutual

theorem Tree.keep_unwrap (t : Tree) : (t.unwrap.keep accepts).map Tree.unwrap = (t.keep accepts).map Tree.unwrap := by
  match t with
  | .leaf x => rfl
  | .group c first rest =>
    rw [Tree.unwrap, Tree.keep_join, Tree.keep, Forest.map_grouped_unwrap, Forest.unwrap_prepend, Forest.unwrap_prepend,
      first.keep_unwrap, rest.keep_unwrap]

theorem Forest.keep_unwrap (f : Forest) : (f.unwrap.keep accepts).unwrap = (f.keep accepts).unwrap := by
  match f with
  | .nil => rfl
  | .cons first rest =>
    rw [Forest.unwrap, Forest.keep, Forest.keep, Forest.unwrap_prepend, Forest.unwrap_prepend, first.keep_unwrap,
      rest.keep_unwrap]

end

/-- What a predicate leaves of trees does not depend on whether their groups of one member are gone. -/
theorem Forest.keep_inMode (f : Forest) (mode : PruneMode) :
    ((f.inMode mode).keep accepts).inMode mode = (f.keep accepts).inMode mode := by
  cases mode with
  | emptyGroups => rfl
  | emptyOrSingletonGroups => exact f.keep_unwrap accepts

end

theorem Forest.prune_pure (mode : PruneMode) (accepts : Comparison → Bool) {State : Type} (f : Forest) (s : State) :
    prune mode (Check.pure accepts) f.parts s = (((f.keep accepts).inMode mode).parts, s) := by
  rw [Forest.prune_parts, Forest.sift_pure]

/-- Pruning by one predicate and then by another is pruning by both. -/
theorem Forest.prune_prune (mode : PruneMode) (accepts also : Comparison → Bool) {State : Type} (f : Forest) (s : State) :
    prune mode (Check.pure also) (prune mode (Check.pure accepts) f.parts s).1 s =
      prune mode (Check.pure fun x => accepts x && also x) f.parts s := by
  rw [Forest.prune_pure, Forest.prune_pure, Forest.prune_pure, Forest.keep_inMode, Forest.keep_keep]

end Criteria.Filter
