import Criteria.Param

/-!
# Runs

Parameters are made, copied, acted on and added to each other, in any order and as often as one likes. A
run keeps them in a row, where each has its place for good, and reports what is seen after every step.
What a parameter keeps from one action to the next is left open: a run is the same for every way to keep
parameters. What holds of new parameters and is kept by actions and additions holds of every parameter
of a run.
-/

namespace Criteria.Param

/-- An action on one parameter, by the kind of its answer. -/
inductive Action (Part Entry : Type) : Type → Type 1
  | set (t : Text) : Action Part Entry Unit
  | addText (t : Text) : Action Part Entry Unit
  | parts : Action Part Entry (List Part)
  | rawParts : Action Part Entry (List Part)
  | canonical : Action Part Entry Text
  | query {Answer : Type} (find : List Part → Answer) : Action Part Entry Answer
  | clean {State : Type} (reset : Bool) (check : Check State Entry) (s : State) :
      Action Part Entry State

namespace Action

variable {Part Entry Answer : Type}

/-- A read only asks for something. -/
def isRead : Action Part Entry Answer → Bool
  | parts => true
  | rawParts => true
  | canonical => true
  | query _ => true
  | _ => false

/-- Whether an action gives up the cleaned parts before it reads the text again. -/
def resets : Action Part Entry Answer → Bool
  | clean reset _ _ => reset
  | _ => false

end Action

/-- One step of a run, with the places of the parameters that it is about. -/
inductive Step (Mode Part Entry : Type) : Type 1
  /-- A new parameter of a mode takes the next place. -/
  | new (mode : Mode) (t : Text)
  /-- A copy takes the next place. -/
  | copy (place : Nat)
  | act (place : Nat) {Answer : Type} (action : Action Part Entry Answer)
  /-- A copy of one parameter is added to another one. -/
  | add (place added : Nat)

/-- What is seen after a step: the answer, and of the parameter its text and whether it is cleaned. -/
structure Report : Type 1 where
  {Answer : Type}
  answer : Except SyntaxError Answer
  text : Text
  isCleaned : Bool

/-- A way to keep parameters of a language with several modes. -/
structure Keeping (Mode Part Entry Kept : Type) : Type 1 where
  ofText : Text → Kept
  text : Kept → Text
  isCleaned : Kept → Bool
  act : {Answer : Type} → Mode → Action Part Entry Answer → Kept → Except SyntaxError Answer × Kept
  add : Mode → Kept → Kept → Except SyntaxError Unit × Kept

namespace Keeping

variable {Mode Part Entry Kept Kept' : Type} (k : Keeping Mode Part Entry Kept)

/-- The report of an answer that leaves a parameter. -/
def report {Answer : Type} (answer : Except SyntaxError Answer) (p : Kept) : Report :=
  ⟨answer, k.text p, k.isCleaned p⟩

/-- The report of a step and the row after it. A step about a place that is not taken does nothing. -/
def step (row : List (Mode × Kept)) : Step Mode Part Entry → Option Report × List (Mode × Kept)
  | .new m t => (some (k.report (.ok ()) (k.ofText t)), row ++ [(m, k.ofText t)])
  | .copy i =>
    match row[i]? with
    | some (m, p) => (some (k.report (.ok ()) p), row ++ [(m, p)])
    | none => (none, row)
  | .act i action =>
    match row[i]? with
    | some (m, p) =>
      let (answer, p) := k.act m action p
      (some (k.report answer p), row.set i (m, p))
    | none => (none, row)
  | .add i j =>
    match row[i]?, row[j]? with
    | some (m, p), some (_, other) =>
      let (answer, p) := k.add m p other
      (some (k.report answer p), row.set i (m, p))
    | _, _ => (none, row)

/-- The row after some steps. -/
def after (row : List (Mode × Kept)) : List (Step Mode Part Entry) → List (Mode × Kept)
  | [] => row
  | s :: r => after (k.step row s).2 r

/-- The reports of some steps. -/
def reports (row : List (Mode × Kept)) : List (Step Mode Part Entry) → List (Option Report)
  | [] => []
  | s :: r => (k.step row s).1 :: reports (k.step row s).2 r

theorem after_append (row : List (Mode × Kept)) (first second : List (Step Mode Part Entry)) :
    k.after row (first ++ second) = k.after (k.after row first) second := by
  induction first generalizing row with
  | nil => rfl
  | cons s r ih => exact ih (k.step row s).2

/-- A step keeps what new parameters have and what actions and additions keep. -/
theorem step_invariant (Holds : Mode × Kept → Prop) {s : Step Mode Part Entry}
    (new : ∀ m t, s = .new m t → Holds (m, k.ofText t))
    (act : ∀ m p {Answer : Type} (action : Action Part Entry Answer), Holds (m, p) →
      Holds (m, (k.act m action p).2))
    (add : ∀ m p m' other, Holds (m, p) → Holds (m', other) → Holds (m, (k.add m p other).2))
    {row : List (Mode × Kept)} (before : ∀ x ∈ row, Holds x) : ∀ x ∈ (k.step row s).2, Holds x := by
  have held {i : Nat} {x : Mode × Kept} (found : row[i]? = some x) : Holds x :=
    before x (List.mem_of_getElem? found)
  have more {x : Mode × Kept} (here : Holds x) : ∀ y ∈ row ++ [x], Holds y := by
    intro y member
    rcases List.mem_append.mp member with member | member
    · exact before y member
    · rwa [List.mem_singleton.mp member]
  have replaced {i : Nat} {x : Mode × Kept} (here : Holds x) : ∀ y ∈ row.set i x, Holds y := by
    intro y member
    rcases List.mem_or_eq_of_mem_set member with member | rfl
    · exact before y member
    · exact here
  cases s with
  | new m t => exact more (new m t rfl)
  | copy i =>
    rw [step]
    split
    · exact more (held ‹_›)
    · exact before
  | act i action =>
    rw [step]
    split
    · exact replaced (act _ _ action (held ‹_›))
    · exact before
  | add i j =>
    rw [step]
    split
    · exact replaced (add _ _ _ _ (held ‹_›) (held ‹_›))
    · exact before

/-- What new parameters have and what actions and additions keep, every parameter of a run has. -/
theorem invariant (Holds : Mode × Kept → Prop) {steps : List (Step Mode Part Entry)}
    (new : ∀ m t, .new m t ∈ steps → Holds (m, k.ofText t))
    (act : ∀ m p {Answer : Type} (action : Action Part Entry Answer), Holds (m, p) →
      Holds (m, (k.act m action p).2))
    (add : ∀ m p m' other, Holds (m, p) → Holds (m', other) → Holds (m, (k.add m p other).2))
    {row : List (Mode × Kept)} (before : ∀ x ∈ row, Holds x) : ∀ x ∈ k.after row steps, Holds x := by
  induction steps generalizing row with
  | nil => exact before
  | cons s r ih =>
    refine ih (fun m t member => new m t (List.mem_cons_of_mem _ member)) ?_
    refine k.step_invariant Holds ?_ act add before
    rintro m t rfl
    exact new m t List.mem_cons_self

/-- A view of what is kept in one way as what is kept in another. All that is seen of sound parameters
    is seen of their views, and actions and additions keep them sound. -/
structure Refines (k : Keeping Mode Part Entry Kept) (k' : Keeping Mode Part Entry Kept')
    (Sound : Mode → Kept → Prop) (view : Kept → Kept') : Prop where
  new : ∀ m t, Sound m (k.ofText t) ∧ k'.ofText t = view (k.ofText t)
  text : ∀ p, k'.text (view p) = k.text p
  isCleaned : ∀ p, k'.isCleaned (view p) = k.isCleaned p
  act : ∀ {m p} {Answer : Type} (action : Action Part Entry Answer), Sound m p →
    Sound m (k.act m action p).2 ∧
      k'.act m action (view p) = ((k.act m action p).1, view (k.act m action p).2)
  add : ∀ {m p m' other}, Sound m p → Sound m' other →
    Sound m (k.add m p other).2 ∧ k'.add m (view p) (view other) = ((k.add m p other).1, view (k.add m p other).2)

namespace Refines

variable {k} {k' : Keeping Mode Part Entry Kept'} {Sound : Mode → Kept → Prop} {view : Kept → Kept'}

theorem sound (h : k.Refines k' Sound view) {row : List (Mode × Kept)} (before : ∀ x ∈ row, Sound x.1 x.2)
    (steps : List (Step Mode Part Entry)) : ∀ x ∈ k.after row steps, Sound x.1 x.2 :=
  k.invariant (fun x => Sound x.1 x.2) (fun m t _ => (h.new m t).1) (fun _ _ _ action held => (h.act action held).1)
    (fun _ _ _ _ held heldOther => (h.add held heldOther).1) before

/-- A step leaves views of what it leaves, and reports the same. -/
theorem step (h : k.Refines k' Sound view) {row : List (Mode × Kept)} (before : ∀ x ∈ row, Sound x.1 x.2)
    (s : Step Mode Part Entry) :
    k'.step (row.map (Prod.map id view)) s = ((k.step row s).1, (k.step row s).2.map (Prod.map id view)) := by
  have report {Answer : Type} (answer : Except SyntaxError Answer) (p : Kept) :
      k'.report answer (view p) = k.report answer p := by
    rw [Keeping.report, Keeping.report, h.text, h.isCleaned]
  have held {i : Nat} {m : Mode} {p : Kept} (found : row[i]? = some (m, p)) : Sound m p :=
    before _ (List.mem_of_getElem? found)
  cases s with
  | new m t =>
    rw [Keeping.step, Keeping.step, (h.new m t).2, report]
    simp
  | copy i =>
    rw [Keeping.step, Keeping.step, List.getElem?_map]
    rcases row[i]? with _ | ⟨m, p⟩
    · rfl
    · simp [report]
  | act i action =>
    rw [Keeping.step, Keeping.step, List.getElem?_map]
    rcases found : row[i]? with _ | ⟨m, p⟩
    · rfl
    · have same := (h.act action (held found)).2
      simp [same, report, List.map_set]
  | add i j =>
    rw [Keeping.step, Keeping.step, List.getElem?_map, List.getElem?_map]
    rcases found : row[i]? with _ | ⟨m, p⟩
    · rfl
    · rcases other : row[j]? with _ | ⟨m', p'⟩
      · rfl
      · have same := (h.add (held found) (held other)).2
        simp [same, report, List.map_set]

/-- A run of the views leaves the views of what a run leaves. -/
theorem after (h : k.Refines k' Sound view) {row : List (Mode × Kept)} (before : ∀ x ∈ row, Sound x.1 x.2)
    (steps : List (Step Mode Part Entry)) :
    k'.after (row.map (Prod.map id view)) steps = (k.after row steps).map (Prod.map id view) := by
  induction steps generalizing row with
  | nil => rfl
  | cons s r ih =>
    rw [Keeping.after, Keeping.after, h.step before s]
    exact ih (h.sound before [s])

/-- A run reports the same of the views. -/
theorem reports (h : k.Refines k' Sound view) {row : List (Mode × Kept)} (before : ∀ x ∈ row, Sound x.1 x.2)
    (steps : List (Step Mode Part Entry)) :
    k'.reports (row.map (Prod.map id view)) steps = k.reports row steps := by
  induction steps generalizing row with
  | nil => rfl
  | cons s r ih =>
    rw [Keeping.reports, Keeping.reports, h.step before s]
    exact congrArg _ (ih (h.sound before [s]))

end Refines
end Keeping

section
variable {Mode Part Entry Answer : Type}

/-- What an action on a parameter does. -/
def act (d : Dialect Part Entry) (action : Action Part Entry Answer) (p : Param Part) :
    Except SyntaxError Answer × Param Part :=
  match action with
  | .set t => (.ok (), ofText t)
  | .addText t => p.addText d t
  | .parts => p.parts d
  | .rawParts => p.rawParts d
  | .canonical => p.canonical d
  | .query find => p.query d find
  | .clean reset check s => p.clean d reset check s

/-- Parameters of a family of dialects, one for each mode. -/
def keeping (family : Mode → Dialect Part Entry) : Keeping Mode Part Entry (Param Part) where
  ofText := ofText
  text := Param.text
  isCleaned := isCleaned
  act := fun m => act (family m)
  add := fun m => addParam (family m)

end

end Criteria.Param
