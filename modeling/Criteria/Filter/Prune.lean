import Criteria.Filter.Part
import Criteria.Param

/-!
Removing comparisons from a flat filter, together with the groups that this leaves without a purpose.
One pass keeps, for every group that is not yet ended, what has been kept of it; a group is judged
when it ends.
-/

namespace Criteria.Filter

/-- Which groups go when comparisons are removed: those without a member, or also those with one
    member, which then stands in the place of its group. -/
inductive PruneMode
  | emptyGroups
  | emptyOrSingletonGroups
deriving DecidableEq, Repr, Inhabited

/-- A group that has begun and not ended: how many members it has kept, and its parts so far, the
    latest first. -/
structure OpenGroup where
  connector : Connector
  members : Nat
  parts : List Part

/-- A pass over a flat filter: the parts outside every open group, the latest first, and the open
    groups, the innermost first. -/
structure Pruning where
  outer : List Part
  groups : List OpenGroup

namespace Pruning

/-- The pass before its first part. -/
def start : Pruning := ⟨[], []⟩

/-- A member, its parts in reverse, is kept where the pass stands. -/
def keep (member : List Part) (p : Pruning) : Pruning :=
  match p.groups with
  | [] => { p with outer := member ++ p.outer }
  | g :: gs => { p with groups := { g with members := g.members + 1, parts := member ++ g.parts } :: gs }

/-- A group begins. -/
def enter (c : Connector) (p : Pruning) : Pruning := { p with groups := ⟨c, 0, []⟩ :: p.groups }

/-- The innermost group ends. A mark that ends no group stays where it is. -/
def leave (mode : PruneMode) (c : Connector) (p : Pruning) : Pruning :=
  match p.groups with
  | [] => { p with outer := .leave c :: p.outer }
  | g :: gs =>
    let rest : Pruning := { p with groups := gs }
    match g.members, mode with
    | 0, _ => rest
    | 1, .emptyOrSingletonGroups => rest.keep g.parts
    | _, _ => rest.keep (.leave c :: (g.parts ++ [.enter g.connector]))

/-- All that was kept, in order; the groups still open are left open. -/
def result (p : Pruning) : List Part :=
  p.outer.reverse ++ p.groups.reverse.flatMap fun g => .enter g.connector :: g.parts.reverse

end Pruning

variable {State : Type}

/-- The parts from where a pass stands to the end. -/
def pruneFrom (mode : PruneMode) (check : Check State Comparison) :
    List Part → Pruning → State → Pruning × State
  | [], p, s => (p, s)
  | .enter c :: r, p, s => pruneFrom mode check r (p.enter c) s
  | .leave c :: r, p, s => pruneFrom mode check r (p.leave mode c) s
  | .leaf x :: r, p, s =>
    let (accepted, s) := check x s
    pruneFrom mode check r (if accepted then p.keep [.leaf x] else p) s

/-- A flat filter without the comparisons that a check rejects and without the groups that go with
    them. -/
def prune (mode : PruneMode) (check : Check State Comparison) (parts : List Part) (s : State) :
    List Part × State :=
  let (p, s) := pruneFrom mode check parts .start s
  (p.result, s)

/-- A group that has begun and not ended, by the place of its mark, and how many members it has kept. -/
structure Frame where
  start : Nat
  members : Nat

/-- A pass that keeps everything in one list and changes it there: what was kept, and the open groups, the
    innermost first. -/
structure Editing where
  out : List Part
  frames : List Frame

namespace Editing

/-- The innermost group has one member more. -/
def count (e : Editing) : Editing :=
  match e.frames with
  | [] => e
  | f :: fs => { e with frames := { f with members := f.members + 1 } :: fs }

def keep (x : Comparison) (e : Editing) : Editing := count { e with out := e.out ++ [.leaf x] }

def enter (c : Connector) (e : Editing) : Editing := ⟨e.out ++ [.enter c], ⟨e.out.length, 0⟩ :: e.frames⟩

/-- The innermost group ends: without a member all from its mark on is cut off, with one its mark may be taken
    out, and otherwise its last mark is put behind it. -/
def leave (mode : PruneMode) (c : Connector) (e : Editing) : Editing :=
  match e.frames with
  | [] => { e with out := e.out ++ [.leave c] }
  | f :: fs =>
    match f.members, mode with
    | 0, _ => ⟨e.out.take f.start, fs⟩
    | 1, .emptyOrSingletonGroups => count ⟨e.out.eraseIdx f.start, fs⟩
    | _, _ => count ⟨e.out ++ [.leave c], fs⟩

end Editing

def editFrom (mode : PruneMode) (check : Check State Comparison) : List Part → Editing → State → Editing × State
  | [], e, s => (e, s)
  | .enter c :: r, e, s => editFrom mode check r (e.enter c) s
  | .leave c :: r, e, s => editFrom mode check r (e.leave mode c) s
  | .leaf x :: r, e, s =>
    let (accepted, s) := check x s
    editFrom mode check r (if accepted then e.keep x else e) s

/-- Pruning in one list. -/
def pruneInPlace (mode : PruneMode) (check : Check State Comparison) (parts : List Part) (s : State) :
    List Part × State :=
  let (e, s) := editFrom mode check parts ⟨[], []⟩ s
  (e.out, s)

namespace Pruning

/-- Where the marks of open groups stand when everything is in one list. -/
def frames (outer : List Part) : List OpenGroup → List Frame
  | [] => []
  | g :: gs => ⟨(result ⟨outer, gs⟩).length, g.members⟩ :: frames outer gs

/-- What a pass has kept, in one list. -/
def edited (p : Pruning) : Editing := ⟨p.result, frames p.outer p.groups⟩

theorem result_cons (outer : List Part) (g : OpenGroup) (gs : List OpenGroup) :
    result ⟨outer, g :: gs⟩ = result ⟨outer, gs⟩ ++ .enter g.connector :: g.parts.reverse := by
  simp [result]

theorem edited_cons (outer : List Part) (g : OpenGroup) (gs : List OpenGroup) :
    edited ⟨outer, g :: gs⟩ = ⟨result ⟨outer, gs⟩ ++ .enter g.connector :: g.parts.reverse,
      ⟨(result ⟨outer, gs⟩).length, g.members⟩ :: frames outer gs⟩ := by
  rw [edited, result_cons, frames]

theorem edited_keep (member : List Part) (p : Pruning) :
    (p.keep member).edited = Editing.count ⟨p.result ++ member.reverse, p.edited.frames⟩ := by
  obtain ⟨outer, groups⟩ := p
  cases groups with
  | nil => simp [keep, edited, frames, result, Editing.count]
  | cons g gs => simp [keep, edited, frames, result_cons, Editing.count]

theorem edited_enter (c : Connector) (p : Pruning) : (p.enter c).edited = p.edited.enter c :=
  edited_cons p.outer ⟨c, 0, []⟩ p.groups

/-- Behind the mark of the innermost group stands what it has kept, and nothing else. -/
theorem edited_leave (mode : PruneMode) (c : Connector) (p : Pruning) :
    (p.leave mode c).edited = p.edited.leave mode c := by
  obtain ⟨outer, groups⟩ := p
  cases groups with
  | nil => simp [leave, edited, frames, result, Editing.leave]
  | cons g gs =>
    rw [edited_cons, leave, Editing.leave]
    dsimp only
    match g.members, mode with
    | 0, _ => exact congrArg (Editing.mk · _) List.take_left.symm
    | 1, .emptyOrSingletonGroups =>
      refine (edited_keep g.parts ⟨outer, gs⟩).trans (congrArg (fun out => Editing.count ⟨out, _⟩) ?_)
      rw [List.eraseIdx_append_of_length_le (Nat.le_refl _), Nat.sub_self, List.eraseIdx_cons_zero]
    | 1, .emptyGroups | _ + 2, _ =>
      refine (edited_keep _ ⟨outer, gs⟩).trans (congrArg (fun out => Editing.count ⟨out, _⟩) ?_)
      simp

end Pruning

theorem editFrom_edited (mode : PruneMode) (check : Check State Comparison) (parts : List Part) (p : Pruning)
    (s : State) : editFrom mode check parts p.edited s =
      ((pruneFrom mode check parts p s).1.edited, (pruneFrom mode check parts p s).2) := by
  induction parts generalizing p s with
  | nil => rfl
  | cons part r ih =>
    cases part with
    | enter c => rw [editFrom, pruneFrom, ← Pruning.edited_enter, ih]
    | leave c => rw [editFrom, pruneFrom, ← Pruning.edited_leave, ih]
    | leaf x =>
      have kept : p.edited.keep x = (p.keep [.leaf x]).edited := by rw [Pruning.edited_keep]; rfl
      rw [editFrom, pruneFrom]
      by_cases accepted : (check x s).1
      · simp only [accepted, if_true, kept, ih]
      · simp only [accepted, Bool.false_eq_true, if_false, ih]

/-- Pruning in one list leaves what pruning group by group leaves. -/
theorem pruneInPlace_eq (mode : PruneMode) (check : Check State Comparison) (parts : List Part) (s : State) :
    pruneInPlace mode check parts s = prune mode check parts s := by
  have run := editFrom_edited mode check parts .start s
  rw [pruneInPlace, prune, show (⟨[], []⟩ : Editing) = Pruning.start.edited from rfl, run]
  rfl

end Criteria.Filter
