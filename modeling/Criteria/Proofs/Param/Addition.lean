import Criteria.Proofs.Param.Narrow

/-!
# Two ways to add

To add a text is to add a new parameter with the text: both fail, or both leave the same. There is one
exception. Where a cleaned parameter has an empty text, an added text takes its place as if nothing had
been cleaned, and is not even read. An added parameter leaves it cleaned.
-/

namespace Criteria.Param

variable {Mode Part Entry : Type}

/-- An empty text has no parts, and no parts add nothing to what has been sifted or merged. -/
structure EmptyAddsNothing (d : Dialect Part Entry) : Prop where
  parse_nil : d.parse [] = .ok []
  sift : ∀ {State : Type} (check : Check State Entry) (parts : List Part) (s : State),
    d.mergeParts (d.sift check parts s).1 [] = (d.sift check parts s).1
  merge : ∀ parts parts', d.mergeParts (d.mergeParts parts parts') [] = d.mergeParts parts parts'

namespace Forgetful

variable {d : Dialect Part Entry} {q : Forgetful Part}

theorem ofText_trim (t : Text) : (ofText (Text.trim t) : Forgetful Part) = ofText t := by
  rw [ofText, ofText, (Text.trimmed_trim t).trim_eq_self]

/-- Where nothing is cleaned only the texts are put together, and nothing is read. -/
theorem add_ofText_uncleaned (text t : Text) :
    add d ⟨text, none⟩ (ofText t) = (.ok (), ⟨mergedText d text (Text.trim t), none⟩) := rfl

/-- Where something is cleaned the added text is read. -/
theorem add_ofText_cleaned (text : Text) (parts : List Part) (t : Text) :
    add d ⟨text, some parts⟩ (ofText t) =
      match d.parse (Text.trim t) with
      | .ok added => (.ok (), ⟨mergedText d text (Text.trim t), some (d.mergeParts parts added)⟩)
      | .error e => (.error e, ⟨text, some parts⟩) := by
  have asked : (ofText t : Forgetful Part).parts d = d.parse (Text.trim t) := rfl
  have here : (⟨text, some parts⟩ : Forgetful Part).parts d = .ok parts := rfl
  rw [add, here, asked]
  cases d.parse (Text.trim t) <;> rfl

/-- Unless a cleaned parameter has an empty text, a new parameter adds what its text adds. -/
theorem add_ofText_eq_addText (nothing : EmptyAddsNothing d)
    (settled : ∀ parts, q.cleaned = some parts → d.mergeParts parts [] = parts) (t : Text)
    (usual : ¬ (q.isCleaned ∧ q.text = [])) : q.add d (ofText t) = q.addText d t := by
  obtain ⟨text, _ | parts⟩ := q
  · rw [add_ofText_uncleaned, addText, mergedText, ofText_trim]
    split
    · rfl
    · split <;> rfl
  · have nonempty : text ≠ [] := fun empty => usual ⟨rfl, empty⟩
    have settled : d.mergeParts parts [] = parts := settled parts rfl
    rw [add_ofText_cleaned, addText, mergedText, if_neg nonempty, if_neg nonempty]
    by_cases blank : Text.trim t = []
    · -- only an added parameter is read although it is empty
      simp only [blank, nothing.parse_nil, settled, if_true]
    · cases d.parse (Text.trim t) <;> simp only [if_neg blank]

/-- A parameter that is cleaned stays so when another one is added. -/
theorem isCleaned_add (other : Forgetful Part) (cleaned : q.isCleaned) : (q.add d other).2.isCleaned := by
  have either : (q.isCleaned || other.isCleaned) = true := by rw [cleaned, Bool.true_or]
  rw [add, if_pos either]
  split
  · rfl
  · exact cleaned
  · exact cleaned

/-- It stays so when a text is added, unless its text is empty. -/
theorem isCleaned_addText_iff (t : Text) (cleaned : q.isCleaned) : (q.addText d t).2.isCleaned ↔ q.text ≠ [] := by
  obtain ⟨parts, found⟩ := Option.isSome_iff_exists.mp cleaned
  rw [addText]
  split
  · rename_i empty
    exact ⟨fun kept => absurd kept Bool.false_ne_true, fun nonempty => absurd empty nonempty⟩
  · rename_i nonempty
    refine ⟨fun _ => nonempty, fun _ => ?_⟩
    split
    · exact cleaned
    · rw [found]
      cases d.parse (Text.trim t) with
      | ok added => rfl
      | error e => exact cleaned

end Forgetful

/-- A text and a new parameter with it add the same, unless the parameter that they are added to is cleaned
    and its text is empty. -/
structure AddsAlike (d : Dialect Part Entry) (t : Text) (p : Param Part) : Prop where
  sameOutcome_iff : SameOutcome d (p.addParam d (ofText t)) (p.addText d t) ↔ ¬ (p.isCleaned ∧ p.text = [])
  /-- With the new parameter it stays cleaned. -/
  isCleaned_addParam : p.isCleaned → (p.addParam d (ofText t)).2.isCleaned
  /-- With the text it stays cleaned only if it had a text before. -/
  isCleaned_addText_iff : p.isCleaned → ((p.addText d t).2.isCleaned ↔ p.text ≠ [])

theorem addsAlike_of_settled {d : Dialect Part Entry} {p : Param Part} (nothing : EmptyAddsNothing d) (sound : Sound d p)
    (settled : ∀ parts, p.cleaned = some parts → d.mergeParts parts [] = parts) (t : Text) : AddsAlike d t p := by
  have added : Agrees d (p.addParam d (ofText t)) (p.forget.add d (Forgetful.ofText t)) :=
    agrees_addParam rfl sound (sound_ofText d t)
  have texts := agrees_addText t sound
  have stays : p.isCleaned → (p.addParam d (ofText t)).2.isCleaned := by
    intro cleaned
    have kept : (p.forget.add d (Forgetful.ofText t)).2.isCleaned := Forgetful.isCleaned_add _ cleaned
    rwa [added.2] at kept
  have loses : p.isCleaned → ((p.addText d t).2.isCleaned ↔ p.text ≠ []) := by
    intro cleaned
    have kept : (p.forget.addText d t).2.isCleaned ↔ p.text ≠ [] := Forgetful.isCleaned_addText_iff t cleaned
    rwa [texts.2] at kept
  refine ⟨⟨?_, fun usual => ?_⟩, stays, loses⟩
  · rintro same ⟨cleaned, empty⟩
    have kept := stays cleaned
    rw [← same.view.isCleaned] at kept
    exact (loses cleaned).mp kept empty
  · have alike : p.forget.add d (Forgetful.ofText t) = p.forget.addText d t :=
      Forgetful.add_ofText_eq_addText nothing settled t usual
    exact sameOutcome_of_agrees (alike ▸ added) texts

section
variable {family : Mode → Dialect Part Entry} {steps : List (Step Mode Part Entry)} {m : Mode} {p : Param Part}

/-- In every run no parts add nothing to cleaned ones. -/
theorem settled_of_run (uniform : Uniform family) (merges : ∀ m m', (family m).mergeParts = (family m').mergeParts)
    (nothing : ∀ m, EmptyAddsNothing (family m)) (held : (m, p) ∈ (keeping family).after [] steps) {parts : List Part}
    (cleaned : p.cleaned = some parts) : (family m).mergeParts parts [] = parts := by
  have settles (m' : Mode) : Settles (family m') (fun _ => True) (fun _ _ => True)
      fun _ parts => (family m).mergeParts parts [] = parts := by
    rw [merges m m']
    exact ⟨fun _ => trivial, fun _ _ => trivial, fun _ _ => trivial, fun _ => trivial,
      fun check s _ => (nothing m').sift check _ s, fun _ _ _ _ => (nothing m').merge _ _⟩
  exact cleaned_of_run _ _ _ uniform (fun m' _ _ => settles m') held cleaned

theorem addsAlike_of_run (uniform : Uniform family) (merges : ∀ m m', (family m).mergeParts = (family m').mergeParts)
    (nothing : ∀ m, EmptyAddsNothing (family m)) (held : (m, p) ∈ (keeping family).after [] steps) (t : Text) :
    AddsAlike (family m) t p := by
  obtain ⟨sound, -⟩ := sound_of_run uniform held
  exact addsAlike_of_settled (nothing m) sound (fun _ => settled_of_run uniform merges nothing held) t

end

/-! ## The three languages -/

theorem emptyAddsNothing_filter (mode : Filter.PruneMode) : EmptyAddsNothing (Filter.dialect mode) := by
  have kept (parts : List Filter.Part) : Filter.mergeParts parts [] = parts := by
    rw [Filter.mergeParts]
    split
    · rename_i empty
      exact empty.symm
    · rw [if_pos rfl]
  have blank : Filter.parse [] = .ok [] := rfl
  exact ⟨blank, fun _ _ _ => kept _, fun _ _ => kept _⟩

/-- Cleaned options have no repetitions that could go. -/
theorem emptyAddsNothing_options : EmptyAddsNothing Options.dialect := by
  have kept (tokens : List Text) : Options.distinct (Options.distinct tokens ++ []) = Options.distinct tokens := by
    rw [List.append_nil, Options.distinct_distinct]
  exact ⟨by decide, fun _ _ _ => kept _, fun _ _ => kept _⟩

theorem emptyAddsNothing_sort : EmptyAddsNothing Sort.dialect :=
  ⟨by decide, fun _ _ _ => List.append_nil _, fun _ _ => List.append_nil _⟩

/-- In every run a text and a new parameter with it add the same, unless the parameter that they are added to
    is cleaned and its text is empty. This holds in all three languages. -/
theorem adds_alike (t : Text) :
    (∀ steps mode p, (mode, p) ∈ (keeping Filter.dialect).after [] steps → AddsAlike (Filter.dialect mode) t p) ∧
      (∀ steps m p, (m, p) ∈ (keeping fun _ : Unit => Options.dialect).after [] steps →
        AddsAlike Options.dialect t p) ∧
      (∀ steps m p, (m, p) ∈ (keeping fun _ : Unit => Sort.dialect).after [] steps → AddsAlike Sort.dialect t p) := by
  refine ⟨fun steps mode p held => ?_, fun steps m p held => ?_, fun steps m p held => ?_⟩
  · exact addsAlike_of_run (fun _ _ => rfl) (fun _ _ => rfl) emptyAddsNothing_filter held t
  · exact addsAlike_of_run (fun _ _ => rfl) (fun _ _ => rfl) (fun _ => emptyAddsNothing_options) held t
  · exact addsAlike_of_run (fun _ _ => rfl) (fun _ _ => rfl) (fun _ => emptyAddsNothing_sort) held t

-- An empty parameter is cleaned before anything is added to it.
private def emptied : Param Filter.Part where
  text := []
  parsed := some []
  cleaned := some []

private def emptying : List (Step Filter.PruneMode Filter.Part Filter.Comparison) :=
  [.new .emptyGroups [], .act 0 (.clean false (Check.pure fun _ => true) ())]

/-- The added text gives up the cleaning, the added parameter keeps it. -/
theorem not_sameOutcome_emptied :
    (.emptyGroups, emptied) ∈ (keeping Filter.dialect).after [] emptying ∧ emptied.isCleaned ∧ emptied.text = [] ∧
      ¬ (emptied.addText (Filter.dialect .emptyGroups) "a eq 1".toList).2.isCleaned ∧
        (emptied.addParam (Filter.dialect .emptyGroups) (ofText "a eq 1".toList)).2.isCleaned ∧
          ¬ SameOutcome (Filter.dialect .emptyGroups)
            (emptied.addParam (Filter.dialect .emptyGroups) (ofText "a eq 1".toList))
            (emptied.addText (Filter.dialect .emptyGroups) "a eq 1".toList) := by
  have held : (.emptyGroups, emptied) ∈ (keeping Filter.dialect).after [] emptying := by
    have row : (keeping Filter.dialect).after [] emptying = [(.emptyGroups, emptied)] := by
      rw [Filter.dialect_eq_parseWithin]
      decide +kernel
    rw [row]
    exact List.mem_cons_self
  obtain ⟨filters, -, -⟩ := adds_alike "a eq 1".toList
  have alike := filters _ _ _ held
  refine ⟨held, rfl, rfl, fun kept => ?_, alike.isCleaned_addParam rfl, fun same => ?_⟩
  · exact (alike.isCleaned_addText_iff rfl).mp kept rfl
  · exact alike.sameOutcome_iff.mp same ⟨rfl, rfl⟩

end Criteria.Param
