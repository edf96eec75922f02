import Criteria.Proofs.Filter.Merge
import Criteria.Proofs.Filter.Shape
import Criteria.Proofs.Literal.Joined
import Criteria.Proofs.Options.Distinct
import Criteria.Proofs.Param.Parts

/-!
# What cleaned parts come from

The text of a parameter and its cleaned parts go their own ways: texts are joined, parts are merged, sifted
and freed of repetitions. As long as the text can be read, it still says all that the cleaned parts say, in
the same order. A text that cannot be read has left a bracket open; then no addition closes it.
-/

namespace Criteria

namespace Filter

theorem leaves_mergeParts (first second : List Part) :
    leaves (mergeParts first second) = leaves first ++ leaves second := by
  unfold mergeParts
  split
  · rename_i empty
    rw [empty, leaves_nil, List.nil_append]
  · split
    · rename_i empty
      rw [empty, leaves_nil, List.append_nil]
    · rw [leaves_group, leaves_append]

/-- A text of a parameter that leaves no bracket open can be read, and the comparisons of some parts are
    among those of the text, in order. -/
def Covers (t : Text) (parts : List Part) : Prop :=
  IsWellFormed (fun _ => True) parts ∧ ∃ n, LeavesOpen t n ∧
    (n = 0 → ∃ raw, parse t = .ok raw ∧ (leaves parts).Sublist (leaves raw))

theorem covers_of_parse {t : Text} (trimmed : Text.trim t = t) {parts : List Part} (read : parse t = .ok parts) :
    Covers t parts := by
  refine ⟨(isWellFormed_of_parse read).mono fun _ _ => trivial, 0, ?_, fun _ => ⟨parts, read, List.Sublist.refl _⟩⟩
  by_cases empty : t = []
  · rw [empty]
    exact leavesOpen_nil
  · have paired : BracketsPair t := bracketsPair_of_parse (by rwa [trimmed]) read
    rwa [BracketsPair, trimmed] at paired

theorem Covers.sublist {t : Text} {parts kept : List Part} (covers : Covers t parts)
    (shape : IsWellFormed (fun _ => True) kept) (sublist : (leaves kept).Sublist (leaves parts)) : Covers t kept := by
  obtain ⟨-, n, opens, read⟩ := covers
  refine ⟨shape, n, opens, fun none => ?_⟩
  obtain ⟨raw, readText, within⟩ := read none
  exact ⟨raw, readText, sublist.trans within⟩

theorem Covers.eq_nil {parts : List Part} (covers : Covers [] parts) : leaves parts = [] := by
  obtain ⟨-, n, opens, read⟩ := covers
  obtain ⟨raw, blank, sublist⟩ := read (opens.unique leavesOpen_nil)
  obtain rfl : [] = raw := Except.ok.inj blank
  exact List.sublist_nil.mp sublist

theorem Covers.sublist_of_parse {t : Text} {parts raw : List Part} (trimmed : Text.trim t = t) (covers : Covers t parts)
    (read : parse t = .ok raw) : (leaves parts).Sublist (leaves raw) := by
  obtain ⟨-, n, opens, among⟩ := covers
  cases n with
  | zero =>
    obtain ⟨raw', read', sublist⟩ := among rfl
    cases read.symm.trans read'
    exact sublist
  | succ k =>
    rw [← trimmed] at opens
    cases read.symm.trans (parse_of_leavesOpen opens)

theorem Covers.mergeTexts {t t' : Text} {parts parts' : List Part} (trimmed : Text.trim t = t)
    (trimmed' : Text.trim t' = t') (nonempty : t ≠ []) (nonempty' : t' ≠ []) (covers : Covers t parts)
    (covers' : Covers t' parts') : Covers (mergeTexts t t') (mergeParts parts parts') := by
  obtain ⟨shape, n, opens, read⟩ := covers
  obtain ⟨shape', k, opens', read'⟩ := covers'
  obtain ⟨all, merged, closed⟩ := opens.mergeTexts opens'
  refine ⟨shape.mergeParts (fun _ _ _ _ => trivial) shape', all, merged, fun none => ?_⟩
  obtain ⟨⟨rfl, ended⟩, rfl, ended'⟩ := closed.mp none
  obtain ⟨raw, readHere, sublist⟩ := read rfl
  obtain ⟨raw', readThere, sublist'⟩ := read' rfl
  obtain ⟨m, masked, balanced⟩ := opens
  obtain ⟨m', masked', balanced'⟩ := opens'
  refine ⟨group .and (raw ++ raw'), ?_, ?_⟩
  · obtain ⟨atoms, spelled, rfl⟩ := Literal.mask_eq_ok_iff.mp masked
    obtain ⟨others, spelled', rfl⟩ := Literal.mask_eq_ok_iff.mp masked'
    have halves := @parse_mergeTexts_iff t t' _ _ (by rwa [trimmed]) (by rwa [trimmed']) (by rwa [trimmed])
      (by rwa [trimmed']) balanced balanced'
    rw [trimmed, trimmed'] at halves
    exact halves.mpr ⟨(whole_maskFrom_iff spelled 0).mpr ended, (whole_maskFrom_iff spelled' 0).mpr ended', raw, raw',
      readHere, readThere, rfl⟩
  · rw [leaves_mergeParts, leaves_group, leaves_append]
    exact sublist.append sublist'

theorem lastsAmong_covers (mode : PruneMode) :
    Param.LastsAmong (dialect mode) (fun t => Text.trim t = t) Covers where
  trimmed := fun t => (Text.trimmed_trim t).trim_eq_self
  merged := by
    intro t t' trimmed trimmed'
    unfold Param.mergedText
    split
    · exact trimmed'
    · split
      · exact trimmed
      · exact trim_mergeTexts t t'
  read := fun trimmed read => covers_of_parse trimmed read
  sift := fun check s covers => covers.sublist (covers.1.prune (fun _ => trivial) check s) (leaves_prune_sublist mode check _ s)
  merge := by
    intro t t' parts parts' trimmed trimmed' covers covers'
    have shape := covers.1.mergeParts (fun _ _ _ _ => trivial) covers'.1
    unfold Param.mergedText
    split
    · rename_i empty
      rw [empty] at covers
      refine covers'.sublist shape ?_
      rw [dialect, leaves_mergeParts, covers.eq_nil, List.nil_append]
    · rename_i nonempty
      split
      · rename_i empty
        rw [empty] at covers'
        refine covers.sublist shape ?_
        rw [dialect, leaves_mergeParts, covers'.eq_nil, List.append_nil]
      · rename_i nonempty'
        exact covers.mergeTexts trimmed trimmed' nonempty nonempty' covers'

end Filter

namespace Param

/-- A text says all that some entries say, in the same order. -/
def Lists {Entry : Type} (d : Dialect Entry Entry) (t : Text) (entries : List Entry) : Prop :=
  ∃ raw, d.parse t = .ok raw ∧ entries.Sublist raw

theorem Lists.sublist_of_parse {Entry : Type} {d : Dialect Entry Entry} {t : Text} {entries raw : List Entry}
    (held : Lists d t entries) (read : d.parse t = .ok raw) : entries.Sublist raw := by
  obtain ⟨raw', read', sublist⟩ := held
  cases read.symm.trans read'
  exact sublist

/-- In a language of lists the text always says it, if merging and sifting only take entries away. -/
theorem lasts_lists {Entry : Type} {d : Dialect Entry Entry} (blank : d.parse [] = .ok [])
    (joined : ∀ {t t' first second}, d.parse t = .ok first → d.parse t' = .ok second →
      d.parse (d.mergeTexts t t') = .ok (first ++ second))
    (merged : ∀ first second, (d.mergeParts first second).Sublist (first ++ second))
    (sifted : ∀ {State : Type} (check : Check State Entry) entries s, (d.sift check entries s).1.Sublist entries) :
    Lasts d (Lists d) where
  read := fun read => ⟨_, read, List.Sublist.refl _⟩
  sift := by
    rintro t entries State check s ⟨raw, read, sublist⟩
    exact ⟨raw, read, (sifted check entries s).trans sublist⟩
  merge := by
    rintro t t' entries entries' ⟨raw, read, sublist⟩ ⟨raw', read', sublist'⟩
    have both := (merged entries entries').trans (sublist.append sublist')
    unfold mergedText
    split
    · rename_i empty
      rw [empty, blank] at read
      obtain rfl : [] = raw := Except.ok.inj read
      exact ⟨raw', read', both⟩
    · split
      · rename_i empty
        rw [empty, blank] at read'
        obtain rfl : [] = raw' := Except.ok.inj read'
        rw [List.append_nil] at both
        exact ⟨raw, read, both⟩
      · exact ⟨_, joined read read', both⟩

theorem lasts_lists_options : Lasts Options.dialect (Lists Options.dialect) := by
  refine lasts_lists (by decide) Options.parse_joined (fun _ _ => Options.distinct_sublist _) fun check tokens s => ?_
  exact (Options.distinct_sublist _).trans (Check.filter_sublist check tokens s)

theorem lasts_lists_sort : Lasts Sort.dialect (Lists Sort.dialect) :=
  lasts_lists (by decide) Sort.parse_joined (fun _ _ => List.Sublist.refl _) Check.filter_sublist

/-- In every run, what is left of a cleaned parameter whose text can be read stands in its text, in order
    and no more often. -/
def KeepsOrder {Mode Part Entry : Type} (family : Mode → Dialect Part Entry) (entries : List Part → List Entry) : Prop :=
  ∀ steps m p, (m, p) ∈ (keeping family).after [] steps → p.isCleaned →
    ∀ raw, (p.rawParts (family m)).1 = .ok raw →
      ∃ parts, (p.parts (family m)).1 = .ok parts ∧ (entries parts).Sublist (entries raw)

section
variable {Mode Part Entry : Type} {family : Mode → Dialect Part Entry} {entries : List Part → List Entry}

/-- It is so if cleaned parts have this of every text that can be read. -/
theorem keepsOrder_of_lastsAmong {Fits : Text → Prop} {Has : Text → List Part → Prop} (uniform : Uniform family)
    (lasts : ∀ m, LastsAmong (family m) Fits Has)
    (sublist : ∀ m {t parts raw}, Fits t → Has t parts → (family m).parse t = .ok raw → (entries parts).Sublist (entries raw)) :
    KeepsOrder family entries := by
  intro steps m p held cleaned raw asked
  obtain ⟨sound, -⟩ := sound_of_run uniform held
  have read : (family m).parse p.text = .ok raw := (congrArg Prod.fst (agrees_rawParts sound).2).trans asked
  obtain ⟨kept, found⟩ := Option.isSome_iff_exists.mp cleaned
  have parts : (p.parts (family m)).1 = .ok kept := by rw [Param.parts, found]
  obtain ⟨fits, has⟩ := parts_of_run_among Fits Has uniform (fun m _ _ => lasts m) held parts
  exact ⟨kept, parts, sublist m fits has read⟩

end

/-- Cleaned filters have their comparisons from the text, cleaned options their tokens and cleaned sort
    orders their keys: none is new, none stands more often or in another place. -/
theorem keeps_order :
    KeepsOrder Filter.dialect Filter.leaves ∧ KeepsOrder (fun _ : Unit => Options.dialect) id ∧
      KeepsOrder (fun _ : Unit => Sort.dialect) id := by
  refine ⟨keepsOrder_of_lastsAmong (fun _ _ => rfl) Filter.lastsAmong_covers ?_,
    keepsOrder_of_lastsAmong (fun _ _ => rfl) (fun _ => lasts_lists_options.among) ?_,
    keepsOrder_of_lastsAmong (fun _ _ => rfl) (fun _ => lasts_lists_sort.among) ?_⟩
  · intro mode t parts raw trimmed covers read
    exact covers.sublist_of_parse trimmed read
  · intro _ t tokens raw _ held read
    exact held.sublist_of_parse read
  · intro _ t keys raw _ held read
    exact held.sublist_of_parse read

-- A parameter loses one of two alternatives, then it gets the other one as a restriction.
private def restricting : List (Step Filter.PruneMode Filter.Part Filter.Comparison) :=
  [.new .emptyGroups "a eq 1 or b eq 2".toList,
    .act 0 (.clean false (Check.pure fun x => x.field ≠ ['a']) ()),
    .act 0 (.addText "b eq 2".toList)]

private def restricted : Param Filter.Part where
  text := "(a eq 1 or b eq 2) and (b eq 2)".toList
  parsed := none
  cleaned := some [.enter .and, .enter .or, .leaf ⟨['b'], .eq, .int 2⟩, .leave .or, .leaf ⟨['b'], .eq, .int 2⟩,
    .leave .and]

/-- What is left has the second comparison twice, and so has the text. -/
theorem keepsOrder_restricted :
    (.emptyGroups, restricted) ∈ (keeping Filter.dialect).after [] restricting ∧ restricted.isCleaned ∧
      ∃ raw parts, (restricted.rawParts (Filter.dialect .emptyGroups)).1 = .ok raw ∧
        (restricted.parts (Filter.dialect .emptyGroups)).1 = .ok parts ∧
          Filter.leaves parts = [⟨['b'], .eq, .int 2⟩, ⟨['b'], .eq, .int 2⟩] ∧
            (Filter.leaves parts).Sublist (Filter.leaves raw) := by
  have held : (.emptyGroups, restricted) ∈ (keeping Filter.dialect).after [] restricting := by
    have row : (keeping Filter.dialect).after [] restricting = [(.emptyGroups, restricted)] := by
      rw [Filter.dialect_eq_parseWithin]
      decide +kernel
    rw [row]
    exact List.mem_cons_self
  obtain ⟨raw, asked⟩ : ∃ raw, (restricted.rawParts (Filter.dialect .emptyGroups)).1 = .ok raw :=
    ⟨[.enter .and, .enter .or, .leaf ⟨['a'], .eq, .int 1⟩, .leaf ⟨['b'], .eq, .int 2⟩, .leave .or,
      .leaf ⟨['b'], .eq, .int 2⟩, .leave .and], by rw [Filter.dialect_eq_parseWithin]; decide +kernel⟩
  obtain ⟨filters, -, -⟩ := keeps_order
  obtain ⟨parts, kept, sublist⟩ := filters _ _ _ held rfl raw asked
  cases kept
  exact ⟨held, rfl, raw, _, asked, rfl, rfl, sublist⟩

end Param
end Criteria
