import Criteria.Proofs.Filter.Shape
import Criteria.Proofs.Filter.Tree
import Criteria.Proofs.Options.Distinct
import Criteria.Proofs.Param.Failure

/-!
# Several checks

A check without a memory goes on with what earlier checks have left. Two of them leave what one check of
both predicates leaves, in either order. A check that begins again leaves what it would have left if there
had been no checks before it.
-/

namespace Criteria.Param

variable {Mode Part Entry Answer : Type}

/-- Keeps what a predicate accepts of what earlier checks have left. -/
def narrow (d : Dialect Part Entry) (accepts : Entry → Bool) (p : Param Part) : Except SyntaxError Unit × Param Part :=
  p.clean d false (Check.pure accepts) ()

/-- A parameter after any number of checks, each of which may have begun again. -/
inductive Checked (d : Dialect Part Entry) (p : Param Part) : Param Part → Prop
  | unchecked : Checked d p p
  | clean {p' : Param Part} {State : Type} (reset : Bool) (check : Check State Entry) (s : State) :
      Checked d p p' → Checked d p (p'.clean d reset check s).2

/-- The same answer, and parameters between which nobody can tell. -/
structure SameOutcome (d : Dialect Part Entry) (done done' : Except SyntaxError Answer × Param Part) : Prop where
  answer : done'.1 = done.1
  view : SameView d done.2 done'.2

/-- Checks of a parameter add up. -/
structure ChecksAddUp (d : Dialect Part Entry) (p : Param Part) : Prop where
  /-- Two predicates, one after the other, do what their conjunction does; the first one fails if it fails. -/
  both : ∀ accepts also, (p.narrow d accepts).1 = (p.narrow d fun entry => accepts entry && also entry).1 ∧
    SameOutcome d (p.narrow d fun entry => accepts entry && also entry) ((p.narrow d accepts).2.narrow d also)
  /-- Their order does not matter. -/
  swapped : ∀ accepts also,
    SameOutcome d ((p.narrow d also).2.narrow d accepts) ((p.narrow d accepts).2.narrow d also)
  /-- A second time the same predicate changes nothing. -/
  again : ∀ accepts, SameOutcome d (p.narrow d accepts) ((p.narrow d accepts).2.narrow d accepts)
  /-- A check that begins again does the same after all checks. -/
  anew : ∀ p', Checked d p p' → ∀ {State : Type} (check : Check State Entry) (s : State),
    SameOutcome d (p.clean d true check s) (p'.clean d true check s)

/-- Of some parts a second predicate leaves what one check of both predicates leaves. -/
def SiftsTogether (d : Dialect Part Entry) (parts : List Part) : Prop :=
  ∀ accepts also, d.sift (Check.pure also) (d.sift (Check.pure accepts) parts ()).1 () =
    d.sift (Check.pure fun entry => accepts entry && also entry) parts ()

namespace Forgetful

variable {d : Dialect Part Entry}

theorem clean_text {State : Type} (reset : Bool) (check : Check State Entry) (s : State) (q : Forgetful Part) :
    (q.clean d reset check s).2.text = q.text := by
  have same : (if reset then { q with cleaned := none } else q).text = q.text := by cases reset <;> rfl
  rw [clean]
  generalize (if reset then { q with cleaned := none } else q) = begun at same
  cases begun.parts d <;> exact same

/-- A check that begins again only looks at the text. -/
theorem clean_anew {State : Type} (check : Check State Entry) (s : State) {q q' : Forgetful Part}
    (same : q'.text = q.text) : q'.clean d true check s = q.clean d true check s := by
  rw [clean, clean, if_pos rfl, if_pos rfl, same]

def narrow (d : Dialect Part Entry) (accepts : Entry → Bool) (q : Forgetful Part) :
    Except SyntaxError Unit × Forgetful Part :=
  q.clean d false (Check.pure accepts) ()

theorem narrow_answer (accepts also : Entry → Bool) (q : Forgetful Part) :
    (q.narrow d accepts).1 = (q.narrow d also).1 := by
  rw [narrow, narrow, clean, clean]
  cases asked : q.parts d <;> simp [asked]

theorem narrow_narrow {q : Forgetful Part} (together : ∀ parts, q.parts d = .ok parts → SiftsTogether d parts)
    (accepts also : Entry → Bool) :
    (q.narrow d accepts).2.narrow d also = q.narrow d fun entry => accepts entry && also entry := by
  cases asked : q.parts d with
  | error e =>
    have failed (accepts : Entry → Bool) : q.narrow d accepts = (.error e, q) := by simp [narrow, clean, asked]
    rw [failed, failed, failed]
  | ok parts =>
    have kept (accepts : Entry → Bool) :
        q.narrow d accepts = (.ok (), ⟨q.text, some (d.sift (Check.pure accepts) parts ()).1⟩) := by
      simp [narrow, clean, asked]
    rw [kept, kept, ← together parts asked]
    rfl

end Forgetful

section
variable {d : Dialect Part Entry} {p p' : Param Part}

/-- Outcomes are the same if they are the same without a memory. -/
theorem sameOutcome_of_agrees {done done' : Except SyntaxError Answer × Param Part}
    {without : Except SyntaxError Answer × Forgetful Part} (first : Agrees d done without)
    (second : Agrees d done' without) : SameOutcome d done done' := by
  obtain ⟨sound, same⟩ := first
  obtain ⟨sound', same'⟩ := second
  obtain ⟨answer, left⟩ := Prod.mk.inj (same.symm.trans same')
  exact ⟨answer.symm, sameView_of_forget sound sound' left.symm⟩

theorem agrees_narrow (accepts : Entry → Bool) (sound : Sound d p) :
    Agrees d (p.narrow d accepts) (p.forget.narrow d accepts) :=
  agrees_clean false (Check.pure accepts) () sound

theorem agrees_narrow_narrow (accepts also : Entry → Bool) (sound : Sound d p) :
    Agrees d ((p.narrow d accepts).2.narrow d also) ((p.forget.narrow d accepts).2.narrow d also) := by
  obtain ⟨kept, same⟩ := agrees_narrow accepts sound
  rw [same]
  exact agrees_narrow also kept

theorem Checked.sound (checked : Checked d p p') (sound : Sound d p) : Sound d p' ∧ p'.text = p.text := by
  induction checked with
  | unchecked => exact ⟨sound, rfl⟩
  | clean reset check s _ ih =>
    obtain ⟨sound', text⟩ := ih
    obtain ⟨kept, same⟩ := agrees_clean reset check s sound'
    have left := congrArg (fun done => done.2.text) same
    exact ⟨kept, left.symm.trans ((Forgetful.clean_text ..).trans text)⟩

theorem checksAddUp_of_siftsTogether (sound : Sound d p)
    (together : ∀ parts, (p.parts d).1 = .ok parts → SiftsTogether d parts) : ChecksAddUp d p := by
  have asks : (p.parts d).1 = p.forget.parts d := (congrArg Prod.fst (agrees_parts sound).2).symm
  have narrowed (accepts also : Entry → Bool) := Forgetful.narrow_narrow (asks ▸ together) accepts also
  have both (accepts also : Entry → Bool) : Agrees d ((p.narrow d accepts).2.narrow d also)
      (p.forget.narrow d fun entry => accepts entry && also entry) :=
    narrowed accepts also ▸ agrees_narrow_narrow accepts also sound
  refine ⟨fun accepts also => ⟨?_, ?_⟩, fun accepts also => ?_, fun accepts => ?_, fun p' checked State check s => ?_⟩
  · have answer (accepts : Entry → Bool) : (p.narrow d accepts).1 = (p.forget.narrow d accepts).1 :=
      (congrArg Prod.fst (agrees_narrow accepts sound).2).symm
    rw [answer, answer]
    exact Forgetful.narrow_answer ..
  · exact sameOutcome_of_agrees (agrees_narrow _ sound) (both accepts also)
  · have commuted : (fun entry => also entry && accepts entry) = fun entry => accepts entry && also entry :=
      funext fun entry => Bool.and_comm ..
    exact sameOutcome_of_agrees (commuted ▸ both also accepts) (both accepts also)
  · have repeated : (fun entry => accepts entry && accepts entry) = accepts := funext fun entry => Bool.and_self _
    have twice := both accepts accepts
    rw [repeated] at twice
    exact sameOutcome_of_agrees (agrees_narrow accepts sound) twice
  · obtain ⟨sound', text⟩ := checked.sound sound
    have anew : p'.forget.clean d true check s = p.forget.clean d true check s := Forgetful.clean_anew check s text
    exact sameOutcome_of_agrees (agrees_clean true check s sound) (anew ▸ agrees_clean true check s sound')

end

/-! ## The three languages -/

theorem siftsTogether_options (tokens : List Text) : SiftsTogether Options.dialect tokens := by
  intro accepts also
  simp only [Options.dialect, Options.sift, Check.filter_pure]
  rw [← Options.distinct_filter, Options.distinct_distinct, List.filter_filter]
  simp only [Bool.and_comm]

theorem siftsTogether_sort (keys : List Sort.Key) : SiftsTogether Sort.dialect keys := by
  intro accepts also
  simp only [Sort.dialect, Check.filter_pure, List.filter_filter, Bool.and_comm]

theorem siftsTogether_filter (mode : Filter.PruneMode) (f : Filter.Forest) : SiftsTogether (Filter.dialect mode) f.parts :=
  fun accepts also => f.prune_prune mode accepts also ()

/-- In every run checks add up, in all three languages. -/
theorem checks_add_up :
    (∀ steps mode p, (mode, p) ∈ (keeping Filter.dialect).after [] steps → ChecksAddUp (Filter.dialect mode) p) ∧
      (∀ steps m p, (m, p) ∈ (keeping fun _ : Unit => Options.dialect).after [] steps →
        ChecksAddUp Options.dialect p) ∧
      (∀ steps m p, (m, p) ∈ (keeping fun _ : Unit => Sort.dialect).after [] steps → ChecksAddUp Sort.dialect p) := by
  refine ⟨fun steps mode p held => ?_, fun steps m p held => ?_, fun steps m p held => ?_⟩
  · obtain ⟨sound, -⟩ := sound_of_run (fun _ _ => rfl) held
    refine checksAddUp_of_siftsTogether sound fun parts asked => ?_
    obtain ⟨f, rfl⟩ := (Filter.isWellFormed_parts held asked).exists_forest
    exact siftsTogether_filter mode f
  · obtain ⟨sound, -⟩ := sound_of_run (fun _ _ => rfl) held
    exact checksAddUp_of_siftsTogether sound fun parts _ => siftsTogether_options parts
  · obtain ⟨sound, -⟩ := sound_of_run (fun _ _ => rfl) held
    exact checksAddUp_of_siftsTogether sound fun parts _ => siftsTogether_sort parts

private def nested : Param Filter.Part := ofText "a eq 1 and (b eq 2 or (c eq 3 and d eq 4))".toList

private def without (field : Char) (x : Filter.Comparison) : Bool := x.field ≠ [field]

/-- Both predicates take a comparison out of a group of two. What is left of the two groups stands alone,
    whichever predicate comes first. -/
theorem checksAddUp_nested :
    (.emptyOrSingletonGroups, nested) ∈ (keeping Filter.dialect).after []
        [.new .emptyOrSingletonGroups "a eq 1 and (b eq 2 or (c eq 3 and d eq 4))".toList] ∧
      ((nested.narrow (Filter.dialect .emptyOrSingletonGroups) fun x => without 'b' x && without 'd' x).2.parts
          (Filter.dialect .emptyOrSingletonGroups)).1 =
        .ok [.enter .and, .leaf ⟨['a'], .eq, .int 1⟩, .leaf ⟨['c'], .eq, .int 3⟩, .leave .and] ∧
      ChecksAddUp (Filter.dialect .emptyOrSingletonGroups) nested := by
  have held : (.emptyOrSingletonGroups, nested) ∈ (keeping Filter.dialect).after []
      [.new .emptyOrSingletonGroups "a eq 1 and (b eq 2 or (c eq 3 and d eq 4))".toList] := List.mem_cons_self
  obtain ⟨filters, -⟩ := checks_add_up
  exact ⟨held, by rw [Filter.dialect_eq_parseWithin]; decide +kernel, filters _ _ _ held⟩

end Criteria.Param
