import Criteria.Filter.Part

/-!
# The groups of any flat filter

The mark that ends a group belongs to the innermost group that has begun and not ended. Read in this way
every flat filter has an outline, whether its marks pair up or not. The marks without a partner are those
that end no group, and behind them those that begin a group that never ends. A flat filter has no other
outline.
-/

namespace Criteria.Filter

/-- A comparison, or a group with the marks that begin and end it. -/
inductive Nest
  | leaf (x : Comparison)
  | group (begins ends : Connector) (members : List Nest)

namespace Nest

mutual

/-- The parts of a nest from left to right. -/
def parts : Nest → List Part
  | .leaf x => [.leaf x]
  | .group begins ends members => .enter begins :: (allParts members ++ [.leave ends])

/-- The parts of some nests from left to right. -/
def allParts : List Nest → List Part
  | [] => []
  | n :: r => n.parts ++ allParts r

end

theorem allParts_append (ns ms : List Nest) : allParts (ns ++ ms) = allParts ns ++ allParts ms := by
  induction ns with
  | nil => rfl
  | cons n r ih => rw [List.cons_append, allParts, allParts, ih, List.append_assoc]

theorem allParts_singleton (n : Nest) : allParts [n] = n.parts := List.append_nil _

end Nest

/-- Some nests at a mark without a partner. -/
structure Stretch where
  mark : Connector
  members : List Nest

/-- The groups of a flat filter. -/
structure Outline where
  /-- What stands before each mark that ends no group, the latest first. -/
  unbegun : List Stretch
  /-- What stands between these marks and the groups that never end. -/
  top : List Nest
  /-- What stands in each group that never ends, the innermost first. -/
  unended : List Stretch

namespace Outline

/-- The parts before the groups that never end. -/
def endedParts (o : Outline) : List Part :=
  (o.unbegun.reverse.flatMap fun r => Nest.allParts r.members ++ [.leave r.mark]) ++ Nest.allParts o.top

/-- The parts of an outline from left to right. -/
def parts (o : Outline) : List Part :=
  o.endedParts ++ o.unended.reverse.flatMap fun r => .enter r.mark :: Nest.allParts r.members

/-- Nests come next, as members of the innermost group that has not ended. -/
def put (ns : List Nest) (o : Outline) : Outline :=
  match o.unended with
  | [] => { o with top := o.top ++ ns }
  | r :: rs => { o with unended := { r with members := r.members ++ ns } :: rs }

/-- A group begins. -/
def enter (c : Connector) (o : Outline) : Outline := { o with unended := ⟨c, []⟩ :: o.unended }

/-- The innermost group that has not ended ends, if there is one. -/
def leave (c : Connector) (o : Outline) : Outline :=
  match o.unended with
  | [] => { o with unbegun := ⟨c, o.top⟩ :: o.unbegun, top := [] }
  | r :: rs => put [.group r.mark c r.members] { o with unended := rs }

def add (o : Outline) : Part → Outline
  | .enter c => o.enter c
  | .leave c => o.leave c
  | .leaf x => o.put [.leaf x]

/-- The outline after more parts. -/
def read (o : Outline) (parts : List Part) : Outline := parts.foldl add o

def empty : Outline := ⟨[], [], []⟩

/-- The outline of a flat filter. -/
def ofParts (parts : List Part) : Outline := empty.read parts

theorem read_append (o : Outline) (first second : List Part) : o.read (first ++ second) = (o.read first).read second :=
  List.foldl_append

@[simp] theorem put_nil (o : Outline) : o.put [] = o := by
  obtain ⟨unbegun, top, unended⟩ := o
  cases unended <;> simp [put]

theorem put_put (ns ms : List Nest) (o : Outline) : (o.put ns).put ms = o.put (ns ++ ms) := by
  obtain ⟨unbegun, top, unended⟩ := o
  cases unended <;> simp [put]

theorem parts_put (ns : List Nest) (o : Outline) : (o.put ns).parts = o.parts ++ Nest.allParts ns := by
  obtain ⟨unbegun, top, unended⟩ := o
  cases unended <;> simp [put, parts, endedParts, Nest.allParts_append]

theorem parts_leave (c : Connector) (o : Outline) : (o.leave c).parts = o.parts ++ [.leave c] := by
  obtain ⟨unbegun, top, unended⟩ := o
  cases unended with
  | nil => simp [leave, parts, endedParts, Nest.allParts]
  | cons r rs =>
    rw [leave, parts_put, Nest.allParts_singleton, Nest.parts]
    simp [parts, endedParts]

theorem parts_add (o : Outline) (part : Part) : (o.add part).parts = o.parts ++ [part] := by
  cases part with
  | enter c => simp [add, enter, parts, endedParts, Nest.allParts]
  | leave c => exact o.parts_leave c
  | leaf x => exact o.parts_put [.leaf x]

theorem parts_read (o : Outline) (parts : List Part) : (o.read parts).parts = o.parts ++ parts := by
  induction parts generalizing o with
  | nil => exact (List.append_nil _).symm
  | cons part r ih =>
    have next : o.read (part :: r) = (o.add part).read r := rfl
    rw [next, ih, parts_add, List.append_assoc, List.singleton_append]

theorem parts_ofParts (parts : List Part) : (ofParts parts).parts = parts := parts_read empty parts

mutual

private theorem read_parts (n : Nest) (o : Outline) : o.read n.parts = o.put [n] := by
  match n with
  | .leaf x => rfl
  | .group begins ends members =>
    have inside : (o.enter begins).put members = { o with unended := ⟨begins, members⟩ :: o.unended } := rfl
    have whole : o.read (Nest.group begins ends members).parts =
        ((o.enter begins).read (Nest.allParts members)).leave ends := by
      rw [Nest.parts, ← List.singleton_append, read_append, read_append]
      rfl
    rw [whole, read_allParts, inside]
    rfl

private theorem read_allParts (ns : List Nest) (o : Outline) : o.read (Nest.allParts ns) = o.put ns := by
  match ns with
  | [] => exact o.put_nil.symm
  | n :: r => rw [Nest.allParts, read_append, read_parts, read_allParts, put_put, List.singleton_append]

end

private theorem read_unbegun (rs : List Stretch) :
    empty.read (rs.reverse.flatMap fun r => Nest.allParts r.members ++ [.leave r.mark]) = ⟨rs, [], []⟩ := by
  induction rs with
  | nil => rfl
  | cons r rs ih =>
    rw [List.reverse_cons, List.flatMap_append, List.flatMap_singleton, read_append, ih, read_append, read_allParts]
    rfl

private theorem read_unended (unbegun : List Stretch) (top : List Nest) (rs : List Stretch) :
    read ⟨unbegun, top, []⟩ (rs.reverse.flatMap fun r => .enter r.mark :: Nest.allParts r.members) =
      ⟨unbegun, top, rs⟩ := by
  induction rs with
  | nil => rfl
  | cons r rs ih =>
    have begun : read ⟨unbegun, top, rs⟩ (.enter r.mark :: Nest.allParts r.members) =
        read ⟨unbegun, top, ⟨r.mark, []⟩ :: rs⟩ (Nest.allParts r.members) := rfl
    rw [List.reverse_cons, List.flatMap_append, List.flatMap_singleton, read_append, ih, begun, read_allParts]
    rfl

theorem ofParts_parts (o : Outline) : ofParts o.parts = o := by
  rw [ofParts, parts, endedParts, read_append, read_append, read_unbegun, read_allParts]
  exact read_unended o.unbegun o.top o.unended

/-- A flat filter has one outline. -/
theorem parts_eq_iff {o : Outline} {parts : List Part} : o.parts = parts ↔ o = ofParts parts := by
  constructor
  · rintro rfl
    exact o.ofParts_parts.symm
  · rintro rfl
    exact parts_ofParts parts

end Outline
end Criteria.Filter
