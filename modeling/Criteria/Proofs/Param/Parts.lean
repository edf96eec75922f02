import Criteria.Proofs.Param.Memory

/-!
# What the parts of parameters have in common

The parts of a parameter are read from a text, sifted and merged, over and over. What is read has and
sifting and merging keep, the parts of every parameter of a run have. Parts that have been sifted or
merged may have more than what is only read.
-/

namespace Criteria.Param

variable {Mode Part Entry Answer : Type}

/-- What parts have that are read from a text, also after they have been sifted, and after they and
    their text have been merged with others. -/
structure Lasts (d : Dialect Part Entry) (Has : Text → List Part → Prop) : Prop where
  read : ∀ {t parts}, d.parse t = .ok parts → Has t parts
  sift : ∀ {t parts} {State : Type} (check : Check State Entry) (s : State), Has t parts →
    Has t (d.sift check parts s).1
  merge : ∀ {t t' parts parts'}, Has t parts → Has t' parts' →
    Has (mergedText d t t') (d.mergeParts parts parts')

/-- The same about the texts that a parameter can have: they are trimmed, or merged of such texts. -/
structure LastsAmong (d : Dialect Part Entry) (Fits : Text → Prop) (Has : Text → List Part → Prop) : Prop where
  trimmed : ∀ t, Fits (Text.trim t)
  merged : ∀ {t t'}, Fits t → Fits t' → Fits (mergedText d t t')
  read : ∀ {t parts}, Fits t → d.parse t = .ok parts → Has t parts
  sift : ∀ {t parts} {State : Type} (check : Check State Entry) (s : State), Has t parts →
    Has t (d.sift check parts s).1
  merge : ∀ {t t' parts parts'}, Fits t → Fits t' → Has t parts → Has t' parts' →
    Has (mergedText d t t') (d.mergeParts parts parts')

theorem Lasts.among {d : Dialect Part Entry} {Has : Text → List Part → Prop} (lasts : Lasts d Has) :
    LastsAmong d (fun _ => True) Has where
  trimmed := fun _ => trivial
  merged := fun _ _ => trivial
  read := fun _ => lasts.read
  sift := lasts.sift
  merge := fun _ _ => lasts.merge

/-- What all parts have, and what those have that have been sifted or merged. -/
structure Settles (d : Dialect Part Entry) (Fits : Text → Prop) (Has Cleaned : Text → List Part → Prop) : Prop where
  trimmed : ∀ t, Fits (Text.trim t)
  merged : ∀ {t t'}, Fits t → Fits t' → Fits (mergedText d t t')
  read : ∀ {t parts}, Fits t → d.parse t = .ok parts → Has t parts
  cleaned : ∀ {t parts}, Cleaned t parts → Has t parts
  sift : ∀ {t parts} {State : Type} (check : Check State Entry) (s : State), Has t parts →
    Cleaned t (d.sift check parts s).1
  merge : ∀ {t t' parts parts'}, Fits t → Fits t' → Has t parts → Has t' parts' →
    Cleaned (mergedText d t t') (d.mergeParts parts parts')

theorem LastsAmong.settles {d : Dialect Part Entry} {Fits : Text → Prop} {Has : Text → List Part → Prop}
    (lasts : LastsAmong d Fits Has) : Settles d Fits Has Has where
  trimmed := lasts.trimmed
  merged := lasts.merged
  read := lasts.read
  cleaned := id
  sift := lasts.sift
  merge := lasts.merge

namespace Forgetful

variable {d : Dialect Part Entry} {Fits : Text → Prop} {Has Cleaned : Text → List Part → Prop}

/-- The text is one of those texts, and the cleaned parts have what cleaned parts have. -/
structure Keeps (Fits : Text → Prop) (Cleaned : Text → List Part → Prop) (q : Forgetful Part) : Prop where
  fits : Fits q.text
  has : ∀ parts, q.cleaned = some parts → Cleaned q.text parts

private theorem keeps_uncleaned {t : Text} (fits : Fits t) : Keeps Fits Cleaned (⟨t, none⟩ : Forgetful Part) :=
  ⟨fits, nofun⟩

theorem keeps_ofText (settles : Settles d Fits Has Cleaned) (t : Text) : Keeps Fits Cleaned (ofText t : Forgetful Part) :=
  keeps_uncleaned (settles.trimmed t)

theorem Keeps.parts (settles : Settles d Fits Has Cleaned) {q : Forgetful Part} (keeps : Keeps Fits Cleaned q)
    {parts : List Part} (asked : q.parts d = .ok parts) : Has q.text parts := by
  rw [Forgetful.parts] at asked
  split at asked
  · rename_i cleaned found
    cases asked
    exact settles.cleaned (keeps.has _ found)
  · exact settles.read keeps.fits asked

theorem Keeps.addText (settles : Settles d Fits Has Cleaned) {q : Forgetful Part} (keeps : Keeps Fits Cleaned q)
    (t : Text) : Keeps Fits Cleaned (q.addText d t).2 := by
  rw [Forgetful.addText]
  split
  · exact keeps_ofText settles _
  · rename_i nonempty
    split
    · exact keeps
    · rename_i more
      have both : mergedText d q.text (Text.trim t) = d.mergeTexts q.text (Text.trim t) := by
        rw [mergedText, if_neg nonempty, if_neg more]
      have fits := settles.merged keeps.fits (settles.trimmed t)
      rw [both] at fits
      split
      · exact keeps_uncleaned fits
      · rename_i cleaned found
        split
        · rename_i added read
          refine ⟨fits, ?_⟩
          rintro _ ⟨⟩
          have here : Has q.text cleaned := settles.cleaned (keeps.has _ found)
          have merged := settles.merge keeps.fits (settles.trimmed t) here (settles.read (settles.trimmed t) read)
          rwa [both] at merged
        · exact keeps

theorem Keeps.clean (settles : Settles d Fits Has Cleaned) {State : Type} (reset : Bool) (check : Check State Entry)
    (s : State) {q : Forgetful Part} (keeps : Keeps Fits Cleaned q) : Keeps Fits Cleaned (q.clean d reset check s).2 := by
  have start : Keeps Fits Cleaned (if reset then { q with cleaned := none } else q) := by
    split
    · exact ⟨keeps.fits, nofun⟩
    · exact keeps
  rw [Forgetful.clean]
  generalize (if reset then { q with cleaned := none } else q) = q at start
  cases asked : q.parts d with
  | error e => exact start
  | ok parts =>
    refine ⟨start.fits, ?_⟩
    rintro _ ⟨⟩
    exact settles.sift check s (start.parts settles asked)

theorem Keeps.act (settles : Settles d Fits Has Cleaned) (action : Action Part Entry Answer) {q : Forgetful Part}
    (keeps : Keeps Fits Cleaned q) : Keeps Fits Cleaned (q.act d action).2 := by
  cases action with
  | set t => exact keeps_ofText settles t
  | addText t => exact keeps.addText settles t
  | parts | rawParts | canonical | query => exact keeps
  | clean reset check s => exact keeps.clean settles reset check s

theorem Keeps.add (settles : Settles d Fits Has Cleaned) {q other : Forgetful Part} (keeps : Keeps Fits Cleaned q)
    (keepsOther : Keeps Fits Cleaned other) : Keeps Fits Cleaned (q.add d other).2 := by
  have fits := settles.merged keeps.fits keepsOther.fits
  rw [Forgetful.add]
  split
  · split
    · rename_i first second asked asked'
      refine ⟨fits, ?_⟩
      rintro _ ⟨⟩
      exact settles.merge keeps.fits keepsOther.fits (keeps.parts settles asked) (keepsOther.parts settles asked')
    · exact keeps
    · exact keeps
  · exact keeps_uncleaned fits

/-- In a run whose modes have it every cleaned parameter keeps it. -/
theorem keeps_of_run {family : Mode → Dialect Part Entry} {steps : List (Step Mode Part Entry)}
    (settles : ∀ m t, .new m t ∈ steps → Settles (family m) Fits Has Cleaned) :
    ∀ x ∈ (keeping family).after [] steps, Settles (family x.1) Fits Has Cleaned ∧ Keeps Fits Cleaned x.2 :=
  (keeping family).invariant (fun x => Settles (family x.1) Fits Has Cleaned ∧ Keeps Fits Cleaned x.2)
    (fun m t member => ⟨settles m t member, keeps_ofText (settles m t member) t⟩)
    (fun _ _ _ action held => ⟨held.1, held.2.act held.1 action⟩)
    (fun _ _ _ _ held heldOther => ⟨held.1, held.2.add held.1 heldOther.2⟩) nofun

end Forgetful

section
variable {family : Mode → Dialect Part Entry} {steps : List (Step Mode Part Entry)} {m : Mode} {p : Param Part}

/-- The parameters of a run remember what their texts say, and without a memory the run leaves them too. -/
theorem sound_of_run (uniform : Uniform family) (held : (m, p) ∈ (keeping family).after [] steps) :
    Sound (family m) p ∧ (m, p.forget) ∈ (Forgetful.keeping family).after [] steps := by
  have refines := refines_forgetful uniform
  have start : ∀ x ∈ ([] : List (Mode × Param Part)), Sound (family x.1) x.2 := nofun
  refine ⟨refines.sound start steps _ held, ?_⟩
  have same := refines.after start steps
  rw [List.map_nil] at same
  rw [same]
  exact List.mem_map.mpr ⟨_, held, rfl⟩

/-- What is read has and sifting and merging keep, the parts of every parameter of a run have. -/
theorem parts_of_run_among (Fits : Text → Prop) (Has : Text → List Part → Prop) (uniform : Uniform family)
    (lasts : ∀ m t, .new m t ∈ steps → LastsAmong (family m) Fits Has) (held : (m, p) ∈ (keeping family).after [] steps)
    {parts : List Part} (asked : (p.parts (family m)).1 = .ok parts) : Fits p.text ∧ Has p.text parts := by
  obtain ⟨sound, held⟩ := sound_of_run uniform held
  obtain ⟨settles, keeps⟩ := Forgetful.keeps_of_run (fun m t member => (lasts m t member).settles) _ held
  refine ⟨keeps.fits, keeps.parts settles ?_⟩
  rw [← asked]
  exact congrArg Prod.fst (agrees_parts sound).2

theorem parts_of_run (Has : Text → List Part → Prop) (uniform : Uniform family)
    (lasts : ∀ m t, .new m t ∈ steps → Lasts (family m) Has) (held : (m, p) ∈ (keeping family).after [] steps)
    {parts : List Part} (asked : (p.parts (family m)).1 = .ok parts) : Has p.text parts :=
  (parts_of_run_among (fun _ => True) Has uniform (fun m t member => (lasts m t member).among) held asked).2

/-- What cleaned parts have, they have in every run. -/
theorem cleaned_of_run (Fits : Text → Prop) (Has Cleaned : Text → List Part → Prop) (uniform : Uniform family)
    (settles : ∀ m t, .new m t ∈ steps → Settles (family m) Fits Has Cleaned)
    (held : (m, p) ∈ (keeping family).after [] steps) {parts : List Part} (cleaned : p.cleaned = some parts) :
    Cleaned p.text parts := by
  obtain ⟨-, held⟩ := sound_of_run uniform held
  obtain ⟨-, keeps⟩ := Forgetful.keeps_of_run settles _ held
  exact keeps.has parts cleaned

end

end Criteria.Param
