import Criteria.Proofs.Literal.Joined
import Criteria.Proofs.Param.Parts

/-!
# Failing operations

An action that fails leaves a parameter as it was, as far as can be seen. There is one exception: a check
that is to begin again with all parts of the text gives up the cleaned parts before it reads the text. If
a parameter is cleaned and its text cannot be read, then the cleaned parts are lost. In options and sort
orders the text of a cleaned parameter can always be read.
-/

namespace Criteria.Param

variable {Mode Part Entry Answer : Type}

/-- Two parameters between which nobody can tell. -/
structure SameView (d : Dialect Part Entry) (p p' : Param Part) : Prop where
  text : p'.text = p.text
  isCleaned : p'.isCleaned = p.isCleaned
  parts : (p'.parts d).1 = (p.parts d).1
  rawParts : (p'.rawParts d).1 = (p.rawParts d).1

namespace Forgetful

variable {d : Dialect Part Entry} {e : SyntaxError}

private theorem of_ok_eq_error {A : Type} {P : Prop} {a : A} : (.ok a : Except SyntaxError A) = .error e → P := nofun

theorem addText_of_error {t : Text} {q : Forgetful Part} :
    (q.addText d t).1 = .error e → (q.addText d t).2 = q := by
  rw [addText]
  split
  · exact of_ok_eq_error
  · split
    · exact of_ok_eq_error
    · cases q.cleaned with
      | none => exact of_ok_eq_error
      | some cleaned =>
        cases d.parse (Text.trim t) with
        | ok added => exact of_ok_eq_error
        | error e => exact fun _ => rfl

theorem add_of_error {q other : Forgetful Part} : (q.add d other).1 = .error e → (q.add d other).2 = q := by
  rw [add]
  split
  · cases q.parts d with
    | error e => exact fun _ => rfl
    | ok first =>
      cases other.parts d with
      | error e => exact fun _ => rfl
      | ok second => exact of_ok_eq_error
  · exact of_ok_eq_error

/-- A check that fails has given up the cleaned parts if it was to begin again. -/
theorem clean_of_error {State : Type} {reset : Bool} {check : Check State Entry} {s : State} {q : Forgetful Part} :
    (q.clean d reset check s).1 = .error e →
      (q.clean d reset check s).2 = if reset then { q with cleaned := none } else q := by
  rw [clean]
  generalize (if reset then { q with cleaned := none } else q) = q
  cases q.parts d with
  | error e => exact fun _ => rfl
  | ok parts => exact of_ok_eq_error

/-- An action that fails has given up the cleaned parts if it is a check that was to begin again. -/
theorem act_of_error {action : Action Part Entry Answer} {q : Forgetful Part} (failed : (q.act d action).1 = .error e) :
    (q.act d action).2 = if action.resets then { q with cleaned := none } else q := by
  cases action with
  | set t => cases failed
  | addText t => exact addText_of_error failed
  | parts | rawParts | canonical | query => rfl
  | clean reset check s => exact clean_of_error failed

/-- A check that begins again fails only if the text cannot be read. -/
theorem not_parse_of_resets {action : Action Part Entry Answer} (resets : action.resets) {q : Forgetful Part}
    (failed : (q.act d action).1 = .error e) (parts : List Part) : d.parse q.text ≠ .ok parts := by
  intro read
  cases action with
  | clean reset check s =>
    obtain rfl : reset = true := resets
    have same : (Forgetful.mk q.text none).parts d = .ok parts := read
    simp [act, clean, same] at failed
  | set | addText | parts | rawParts | canonical | query => cases resets

end Forgetful

section
variable {d : Dialect Part Entry} {p p' : Param Part}

/-- Nobody can tell between sound parameters that are the same without their memory. -/
theorem sameView_of_forget (sound : Sound d p) (sound' : Sound d p') (same : p'.forget = p.forget) :
    SameView d p p' where
  text := congrArg Forgetful.text same
  isCleaned := congrArg Forgetful.isCleaned same
  parts := by
    have here := congrArg Prod.fst (agrees_parts sound).2
    have there := congrArg Prod.fst (agrees_parts sound').2
    rw [← here, ← there, same]
  rawParts := by
    have here := congrArg Prod.fst (agrees_rawParts sound).2
    have there := congrArg Prod.fst (agrees_rawParts sound').2
    have texts : p'.text = p.text := congrArg Forgetful.text same
    rw [← here, ← there, texts]

/-- An action that fails leaves a parameter as it was, unless it is a check that begins again and the
    parameter is cleaned. -/
theorem sameView_act_iff (sound : Sound d p) {action : Action Part Entry Answer} {e : SyntaxError}
    (failed : (p.act d action).1 = .error e) :
    SameView d p (p.act d action).2 ↔ ¬ (action.resets ∧ p.isCleaned) := by
  obtain ⟨sound', same⟩ := agrees_act action sound
  have left : (p.act d action).2.forget = if action.resets then { p.forget with cleaned := none } else p.forget := by
    rw [← Forgetful.act_of_error (e := e) (by rw [same, failed]), same]
  constructor
  · rintro view ⟨resets, cleaned⟩
    rw [if_pos resets] at left
    have lost : (p.act d action).2.isCleaned = false := congrArg Forgetful.isCleaned left
    rw [view.isCleaned, cleaned] at lost
    cases lost
  · intro kept
    refine sameView_of_forget sound sound' ?_
    rw [left]
    split
    · rename_i resets
      have uncleaned : p.cleaned = none := by simpa [isCleaned] using fun cleaned => kept ⟨resets, cleaned⟩
      rw [forget, uncleaned]
    · rfl

/-- An addition that fails leaves the parameter as it was. -/
theorem sameView_addParam (sound : Sound d p) {other : Param Part} (soundOther : Sound d other) {e : SyntaxError}
    (failed : (p.addParam d other).1 = .error e) : SameView d p (p.addParam d other).2 := by
  obtain ⟨sound', same⟩ := agrees_addParam rfl sound soundOther
  have left : (p.forget.add d other.forget).2 = p.forget := by
    refine Forgetful.add_of_error (e := e) ?_
    rw [same, failed]
  rw [same] at left
  exact sameView_of_forget sound sound' left

end

/-- In every run an operation that fails leaves the parameter as it was. -/
structure FailsUnseen (family : Mode → Dialect Part Entry) : Prop where
  act : ∀ steps m p, (m, p) ∈ (keeping family).after [] steps →
    ∀ {Answer : Type} (action : Action Part Entry Answer) e, (p.act (family m) action).1 = .error e →
      SameView (family m) p (p.act (family m) action).2
  add : ∀ steps m p m' other, (m, p) ∈ (keeping family).after [] steps → (m', other) ∈ (keeping family).after [] steps →
    ∀ e, (p.addParam (family m) other).1 = .error e → SameView (family m) p (p.addParam (family m) other).2

/-- Where two texts can be read, their merged text can be read. -/
def ReadsMerged (family : Mode → Dialect Part Entry) : Prop :=
  ∀ m {t t' parts parts'}, (family m).parse t = .ok parts → (family m).parse t' = .ok parts' →
    ∃ both, (family m).parse ((family m).mergeTexts t t') = .ok both

section
variable {family : Mode → Dialect Part Entry}

private theorem sameView_addParam_of_run (uniform : Uniform family) {steps : List (Step Mode Part Entry)} {m m' : Mode}
    {p other : Param Part} (held : (m, p) ∈ (keeping family).after [] steps)
    (heldOther : (m', other) ∈ (keeping family).after [] steps) {e : SyntaxError}
    (failed : (p.addParam (family m) other).1 = .error e) : SameView (family m) p (p.addParam (family m) other).2 := by
  obtain ⟨sound, -⟩ := sound_of_run uniform held
  obtain ⟨soundOther, -⟩ := sound_of_run uniform heldOther
  exact sameView_addParam sound (fun parts remembered => uniform m' m ▸ soundOther parts remembered) failed

private theorem exists_parse_of_isCleaned (uniform : Uniform family) (merged : ReadsMerged family)
    {steps : List (Step Mode Part Entry)} {m : Mode} {p : Param Part} (held : (m, p) ∈ (keeping family).after [] steps)
    (cleaned : p.isCleaned) : ∃ parts, (family m).parse p.text = .ok parts := by
  have lasts (m' : Mode) : Lasts (family m') fun t _ => ∃ parts, (family m).parse t = .ok parts := by
    rw [uniform m m']
    refine ⟨fun read => ⟨_, read⟩, fun _ _ read => read, ?_⟩
    rintro t t' - - ⟨first, read⟩ ⟨second, read'⟩
    unfold mergedText
    split
    · exact ⟨second, read'⟩
    · split
      · exact ⟨first, read⟩
      · exact merged m' read read'
  obtain ⟨kept, found⟩ := Option.isSome_iff_exists.mp cleaned
  have asked : (p.parts (family m)).1 = .ok kept := by rw [parts, found]
  exact parts_of_run _ uniform (fun m' _ _ => lasts m') held asked

/-- If merged texts can be read, then no failing operation is seen. -/
theorem failsUnseen_of_readsMerged (uniform : Uniform family) (merged : ReadsMerged family) : FailsUnseen family where
  act := by
    intro steps m p held Answer action e failed
    obtain ⟨sound, -⟩ := sound_of_run uniform held
    refine (sameView_act_iff sound failed).mpr ?_
    rintro ⟨resets, cleaned⟩
    obtain ⟨parts, read⟩ := exists_parse_of_isCleaned uniform merged held cleaned
    have failed' : (p.forget.act (family m) action).1 = .error e := by rw [(agrees_act action sound).2, failed]
    exact Forgetful.not_parse_of_resets resets failed' parts read
  add := fun _ _ _ _ _ held heldOther _ failed => sameView_addParam_of_run uniform held heldOther failed

end

/-- In filters an operation that fails leaves the parameter as it was, except for a check that begins again
    on a cleaned parameter: it loses the cleaned parts. In options and sort orders there is no exception. -/
theorem sameView_of_failed {steps : List (Step Filter.PruneMode Filter.Part Filter.Comparison)}
    {mode : Filter.PruneMode} {p : Param Filter.Part} (held : (mode, p) ∈ (keeping Filter.dialect).after [] steps) :
    (∀ {Answer : Type} (action : Action Filter.Part Filter.Comparison Answer) e,
      (p.act (Filter.dialect mode) action).1 = .error e →
        (SameView (Filter.dialect mode) p (p.act (Filter.dialect mode) action).2 ↔
          ¬ (action.resets ∧ p.isCleaned))) ∧
      (∀ mode' other e, (mode', other) ∈ (keeping Filter.dialect).after [] steps →
        (p.addParam (Filter.dialect mode) other).1 = .error e →
          SameView (Filter.dialect mode) p (p.addParam (Filter.dialect mode) other).2) ∧
      FailsUnseen (fun _ : Unit => Options.dialect) ∧ FailsUnseen (fun _ : Unit => Sort.dialect) := by
  have uniform : Uniform Filter.dialect := fun _ _ => rfl
  refine ⟨fun action e failed => ?_, fun mode' other e heldOther failed => ?_, ?_, ?_⟩
  · obtain ⟨sound, -⟩ := sound_of_run uniform held
    exact sameView_act_iff sound failed
  · exact sameView_addParam_of_run uniform held heldOther failed
  · have merged : ReadsMerged fun _ : Unit => Options.dialect := fun _ _ _ _ _ first second =>
      ⟨_, Options.parse_joined first second⟩
    exact failsUnseen_of_readsMerged (fun _ _ => rfl) merged
  · have merged : ReadsMerged fun _ : Unit => Sort.dialect := fun _ _ _ _ _ first second =>
      ⟨_, Sort.parse_joined first second⟩
    exact failsUnseen_of_readsMerged (fun _ _ => rfl) merged

-- A cleaned parameter gets a text that takes a bracket of the merged text with its last backslash.
private def escaping : List (Step Filter.PruneMode Filter.Part Filter.Comparison) :=
  [.new .emptyGroups "a eq b\\".toList,
    .act 0 (.clean false (Check.pure fun _ => true) ()),
    .act 0 (.addText "c eq 3".toList)]

private def unreadable : Param Filter.Part where
  text := "(a eq b\\) and (c eq 3)".toList
  parsed := none
  cleaned := some [.enter .and, .leaf ⟨['a'], .eq, .text ['b', '\\']⟩, .leaf ⟨['c'], .eq, .int 3⟩, .leave .and]

private def again : Action Filter.Part Filter.Comparison Unit := .clean true (Check.pure fun _ => true) ()

/-- Its text cannot be read again: the check that begins again fails, and the cleaned parts are lost. -/
theorem not_sameView_unreadable :
    (.emptyGroups, unreadable) ∈ (keeping Filter.dialect).after [] escaping ∧
      (unreadable.act (Filter.dialect .emptyGroups) again).1 = .error .unclosedOpening ∧
        again.resets ∧ unreadable.isCleaned ∧
          ¬ SameView (Filter.dialect .emptyGroups) unreadable (unreadable.act (Filter.dialect .emptyGroups) again).2 := by
  have held : (.emptyGroups, unreadable) ∈ (keeping Filter.dialect).after [] escaping := by
    have row : (keeping Filter.dialect).after [] escaping = [(.emptyGroups, unreadable)] := by
      rw [Filter.dialect_eq_parseWithin]
      decide +kernel
    rw [row]
    exact List.mem_cons_self
  have failed : (unreadable.act (Filter.dialect .emptyGroups) again).1 = .error .unclosedOpening := by
    rw [Filter.dialect_eq_parseWithin]
    decide +kernel
  obtain ⟨ofAction, -⟩ := sameView_of_failed held
  exact ⟨held, failed, rfl, rfl, fun view => (ofAction again _ failed).mp view ⟨rfl, rfl⟩⟩

end Criteria.Param
