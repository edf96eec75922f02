import Criteria.Dialects
import Criteria.Proofs.Param.Run

/-!
# What a parameter remembers

A parameter remembers the parts of its text once they have been read. Nobody can tell: all that is seen
of parameters in a run is seen of parameters that read their text again at every use.
-/

namespace Criteria.Param

variable {Mode Part Entry Answer : Type}

/-- A parameter that remembers no reading: its text, and the cleaned parts if it has been cleaned. -/
structure Forgetful (Part : Type) where
  text : Text
  cleaned : Option (List Part)
deriving DecidableEq, Repr

namespace Forgetful

def ofText (t : Text) : Forgetful Part := ⟨Text.trim t, none⟩

def isCleaned (q : Forgetful Part) : Bool := q.cleaned.isSome

/-- The cleaned parts, or else what the text says. -/
def parts (d : Dialect Part Entry) (q : Forgetful Part) : Except SyntaxError (List Part) :=
  match q.cleaned with
  | some parts => .ok parts
  | none => d.parse q.text

def addText (d : Dialect Part Entry) (t : Text) (q : Forgetful Part) : Except SyntaxError Unit × Forgetful Part :=
  let t := Text.trim t
  if q.text = [] then (.ok (), ofText t)
  else if t = [] then (.ok (), q)
  else
    match q.cleaned with
    | none => (.ok (), ⟨d.mergeTexts q.text t, none⟩)
    | some cleaned =>
      match d.parse t with
      | .ok added => (.ok (), ⟨d.mergeTexts q.text t, some (d.mergeParts cleaned added)⟩)
      | .error e => (.error e, q)

def add (d : Dialect Part Entry) (q other : Forgetful Part) : Except SyntaxError Unit × Forgetful Part :=
  if q.isCleaned || other.isCleaned then
    match q.parts d, other.parts d with
    | .ok first, .ok second => (.ok (), ⟨mergedText d q.text other.text, some (d.mergeParts first second)⟩)
    | .error e, _ => (.error e, q)
    | _, .error e => (.error e, q)
  else (.ok (), ⟨mergedText d q.text other.text, none⟩)

def clean {State : Type} (d : Dialect Part Entry) (reset : Bool) (check : Check State Entry) (s : State)
    (q : Forgetful Part) : Except SyntaxError State × Forgetful Part :=
  let q := if reset then { q with cleaned := none } else q
  match q.parts d with
  | .ok parts => (.ok (d.sift check parts s).2, { q with cleaned := some (d.sift check parts s).1 })
  | .error e => (.error e, q)

/-- What an action does. A read leaves the parameter as it is. -/
def act (d : Dialect Part Entry) (action : Action Part Entry Answer) (q : Forgetful Part) :
    Except SyntaxError Answer × Forgetful Part :=
  match action with
  | .set t => (.ok (), ofText t)
  | .addText t => q.addText d t
  | .parts => (q.parts d, q)
  | .rawParts => (d.parse q.text, q)
  | .canonical => ((q.parts d).map d.render, q)
  | .query find => ((q.parts d).map find, q)
  | .clean reset check s => q.clean d reset check s

/-- Parameters of a family of dialects that read their text again at every use. -/
def keeping (family : Mode → Dialect Part Entry) : Keeping Mode Part Entry (Forgetful Part) where
  ofText := ofText
  text := Forgetful.text
  isCleaned := isCleaned
  act := fun m => act (family m)
  add := fun m => add (family m)

theorem act_of_isRead (d : Dialect Part Entry) {action : Action Part Entry Answer} (read : action.isRead)
    (q : Forgetful Part) : (q.act d action).2 = q := by
  cases action with
  | parts | rawParts | canonical | query => rfl
  | set | addText | clean => simp [Action.isRead] at read

end Forgetful

/-- All of a parameter but what it remembers. -/
def forget (p : Param Part) : Forgetful Part := ⟨p.text, p.cleaned⟩

/-- What a parameter remembers is what its text says. -/
def Sound (d : Dialect Part Entry) (p : Param Part) : Prop :=
  ∀ parts, p.parsed = some parts → d.parse p.text = .ok parts

/-- What is done with a parameter agrees with what is done with one that remembers nothing: the answer
    and all that is left are the same, and what is remembered is sound. -/
def Agrees (d : Dialect Part Entry) (done : Except SyntaxError Answer × Param Part)
    (done' : Except SyntaxError Answer × Forgetful Part) : Prop :=
  Sound d done.2 ∧ done' = (done.1, done.2.forget)

section
variable {d : Dialect Part Entry} {p : Param Part}

theorem sound_ofText (d : Dialect Part Entry) (t : Text) : Sound d (ofText t) := nofun

theorem agrees_rawParts (sound : Sound d p) : Agrees d (p.rawParts d) (d.parse p.text, p.forget) := by
  rw [rawParts]
  split
  · rename_i parts remembered
    exact ⟨sound, by rw [sound parts remembered]⟩
  · split
    · rename_i parts read
      refine ⟨fun parts' same => ?_, by rw [read]; rfl⟩
      rw [← Option.some.inj same]
      exact read
    · rename_i e failed
      exact ⟨sound, by rw [failed]⟩

theorem agrees_parts (sound : Sound d p) : Agrees d (p.parts d) (p.forget.parts d, p.forget) := by
  rw [parts, Forgetful.parts]
  cases cleaned : p.cleaned with
  | some parts => exact ⟨sound, by simp [forget, cleaned]⟩
  | none =>
    have same : p.forget.cleaned = none := cleaned
    rw [same]
    exact agrees_rawParts sound

theorem agrees_query {Answer : Type} (find : List Part → Answer) (sound : Sound d p) :
    Agrees d (p.query d find) ((p.forget.parts d).map find, p.forget) := by
  obtain ⟨kept, same⟩ := agrees_parts sound
  rw [Prod.mk.injEq] at same
  exact ⟨kept, by rw [query, same.1, same.2]⟩

theorem agrees_addText (t : Text) (sound : Sound d p) : Agrees d (p.addText d t) (p.forget.addText d t) := by
  have texts : p.forget.text = p.text := rfl
  have cleaned : p.forget.cleaned = p.cleaned := rfl
  rw [addText, Forgetful.addText, texts, cleaned]
  split
  · exact ⟨sound_ofText d _, rfl⟩
  · split
    · exact ⟨sound, rfl⟩
    · cases p.cleaned with
      | none => exact ⟨nofun, rfl⟩
      | some parts =>
        cases d.parse (Text.trim t) with
        | ok added => exact ⟨nofun, rfl⟩
        | error e => exact ⟨sound, rfl⟩

/-- The dialect of an added parameter may be another one if it reads texts in the same way. -/
theorem agrees_addParam {d' : Dialect Part Entry} (alike : d'.parse = d.parse) {other : Param Part}
    (sound : Sound d p) (soundOther : Sound d' other) :
    Agrees d (p.addParam d other) (p.forget.add d other.forget) := by
  have soundHere : Sound d other := fun parts remembered => alike ▸ soundOther parts remembered
  obtain ⟨kept, same⟩ := agrees_parts sound
  obtain ⟨-, same'⟩ := agrees_parts soundHere
  rw [Prod.mk.injEq] at same same'
  have cleaned : (p.isCleaned || other.isCleaned) = (p.forget.isCleaned || other.forget.isCleaned) := rfl
  rw [addParam, Forgetful.add, ← cleaned]
  split
  · rw [same.1, same'.1]
    rcases read : p.parts d with ⟨first, q⟩
    rw [read] at kept same
    cases first with
    | error e => exact ⟨kept, by rw [same.2]⟩
    | ok first =>
      have text : q.text = p.text := congrArg Forgetful.text same.2.symm
      cases (other.parts d).1 with
      | error e => exact ⟨kept, by simp [same.2]⟩
      | ok second =>
        refine ⟨nofun, ?_⟩
        simp [forget, text]
  · exact ⟨nofun, rfl⟩

theorem agrees_clean {State : Type} (reset : Bool) (check : Check State Entry) (s : State) (sound : Sound d p) :
    Agrees d (p.clean d reset check s) (p.forget.clean d reset check s) := by
  have begun : (if reset then { p.forget with cleaned := none } else p.forget) =
      (if reset then { p with cleaned := none } else p : Param Part).forget := by cases reset <;> rfl
  have soundBegun : Sound d (if reset then { p with cleaned := none } else p : Param Part) := by
    cases reset <;> exact sound
  rw [clean, Forgetful.clean, begun]
  generalize (if reset then { p with cleaned := none } else p : Param Part) = p at soundBegun
  obtain ⟨kept, same⟩ := agrees_parts soundBegun
  rcases read : p.parts d with ⟨result, q⟩
  rw [read, Prod.mk.injEq] at same
  rw [read] at kept
  rw [same.1, same.2]
  cases result with
  | error e => exact ⟨kept, rfl⟩
  | ok parts => exact ⟨kept, rfl⟩

/-- Every action agrees with what it does without a memory. -/
theorem agrees_act (action : Action Part Entry Answer) (sound : Sound d p) :
    Agrees d (p.act d action) (p.forget.act d action) := by
  cases action with
  | set t => exact ⟨sound_ofText d t, rfl⟩
  | addText t => exact agrees_addText t sound
  | parts => exact agrees_parts sound
  | rawParts => exact agrees_rawParts sound
  | canonical => exact agrees_query d.render sound
  | query find => exact agrees_query find sound
  | clean reset check s => exact agrees_clean reset check s sound

end

/-- Every mode reads texts in the same way. -/
def Uniform (family : Mode → Dialect Part Entry) : Prop := ∀ m m', (family m).parse = (family m').parse

/-- In a run parameters do what they would do without a memory. -/
theorem refines_forgetful {family : Mode → Dialect Part Entry} (uniform : Uniform family) :
    (keeping family).Refines (Forgetful.keeping family) (fun m => Sound (family m)) forget where
  new := fun _ t => ⟨sound_ofText _ t, rfl⟩
  text := fun _ => rfl
  isCleaned := fun _ => rfl
  act := fun action sound => agrees_act action sound
  add := fun sound soundOther => agrees_addParam (uniform _ _) sound soundOther

/-- Nobody can tell that parameters remember what they have read. -/
structure RemembersUnseen (family : Mode → Dialect Part Entry) : Prop where
  /-- Every run is reported as if nothing was remembered. -/
  reports : ∀ steps, (keeping family).reports [] steps = (Forgetful.keeping family).reports [] steps
  /-- At any time the parts of a text are what the text says. -/
  rawParts : ∀ steps m p, (m, p) ∈ (keeping family).after [] steps → (p.rawParts (family m)).1 = (family m).parse p.text
  /-- After a read the run goes on as it would without the read. -/
  reads : ∀ (before : List (Step Mode Part Entry)) (i : Nat) {Answer : Type} (action : Action Part Entry Answer)
    (later : List (Step Mode Part Entry)), action.isRead →
      (keeping family).reports ((keeping family).after [] (before ++ [.act i action])) later =
        (keeping family).reports ((keeping family).after [] before) later

private theorem step_of_isRead (family : Mode → Dialect Part Entry) (row : List (Mode × Forgetful Part)) (i : Nat)
    {action : Action Part Entry Answer} (read : action.isRead) :
    ((Forgetful.keeping family).step row (.act i action)).2 = row := by
  rw [Keeping.step]
  split
  · rename_i m q found
    have same : (q.act (family m) action).2 = q := q.act_of_isRead (family m) read
    obtain ⟨bound, held⟩ := List.getElem?_eq_some_iff.mp found
    simp only [Forgetful.keeping, same, ← held, List.set_getElem_self]
  · rfl

theorem remembersUnseen_of_uniform {family : Mode → Dialect Part Entry} (uniform : Uniform family) :
    RemembersUnseen family := by
  have refines := refines_forgetful uniform
  have start : ∀ x ∈ ([] : List (Mode × Param Part)), Sound (family x.1) x.2 := nofun
  refine ⟨fun steps => (refines.reports start steps).symm, ?_, ?_⟩
  · intro steps m p held
    obtain ⟨-, same⟩ := agrees_rawParts (refines.sound start steps _ held)
    exact (congrArg Prod.fst same).symm
  · intro before i Answer action later read
    have sound := refines.sound start before
    rw [Keeping.after_append, ← refines.reports sound, ← refines.reports (refines.sound sound _), ← refines.after sound]
    rw [Keeping.after, Keeping.after, step_of_isRead family _ i read]

/-- In all three languages nobody can tell that parameters remember what they have read. -/
theorem remembers_unseen :
    RemembersUnseen Filter.dialect ∧ RemembersUnseen (fun _ : Unit => Options.dialect) ∧
      RemembersUnseen (fun _ : Unit => Sort.dialect) :=
  ⟨remembersUnseen_of_uniform fun _ _ => rfl, remembersUnseen_of_uniform fun _ _ => rfl,
    remembersUnseen_of_uniform fun _ _ => rfl⟩

end Criteria.Param
