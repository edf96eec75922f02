import Criteria.Filter.Keyword
import Criteria.Proofs.Filter.Segment
import Criteria.Proofs.Text.Stretch

/-!
# Spaces around connectors

Blanks of any kind divide words, but a connector is only looked for with spaces around it. In each run of
words between brackets, a blank between a connector and another word has to be a space where it touches the
connector. What is cut out of a text at its brackets inherits that.
-/

namespace Criteria.Filter

/-- The connectors among the words of a text have spaces around them. -/
def Connector.Spaced (t : Text) : Prop := ∀ c : Connector, Text.SpacedAround c.word t

theorem Connector.Spaced.stretch {p t : Text} (h : Connector.Spaced t) (stretch : Text.IsStretch p t) :
    Connector.Spaced p :=
  fun c => (h c).stretch stretch

instance {P : Connector → Prop} [DecidablePred P] : Decidable (∀ c, P c) :=
  decidable_of_iff (P .and ∧ P .or)
    ⟨fun both c => match c with | .and => both.1 | .or => both.2, fun all => ⟨all .and, all .or⟩⟩

instance (t : Text) : Decidable (Connector.Spaced t) :=
  inferInstanceAs (Decidable (∀ c : Connector, Text.SpacedAround c.word t))

/-- The runs of a text between its unescaped brackets. -/
def runs : Text → List Text
  | [] => [[]]
  | c :: r =>
    if c = Literal.escape then
      match r with
      | [] => [[c]]
      | d :: r => (runs r).modifyHead fun run => c :: d :: run
    else if c = '(' ∨ c = ')' then [] :: runs r
    else (runs r).modifyHead (c :: ·)
termination_by structural t => t

/-- In each run of words between brackets the connectors have spaces around them. -/
def ConnectorsSpaced (t : Text) : Prop := ∀ run ∈ runs t, Connector.Spaced run

instance (t : Text) : Decidable (ConnectorsSpaced t) :=
  inferInstanceAs (Decidable (∀ run ∈ runs t, Connector.Spaced run))

theorem runs_bareEscape : runs [Literal.escape] = [[Literal.escape]] := by
  rw [runs.eq_def]
  simp

theorem runs_escape (d : Char) (r : Text) :
    runs (Literal.escape :: d :: r) = (runs r).modifyHead fun run => Literal.escape :: d :: run := by
  rw [runs.eq_def]
  simp

theorem runs_bracket {c : Char} (bracket : c = '(' ∨ c = ')') (r : Text) : runs (c :: r) = [] :: runs r := by
  have notEscape : c ≠ Literal.escape := by rcases bracket with rfl | rfl <;> decide
  rw [runs.eq_def]
  simp [notEscape, bracket]

theorem runs_cons {c : Char} (notEscape : c ≠ Literal.escape) (notOpening : c ≠ '(') (notClosing : c ≠ ')')
    (r : Text) : runs (c :: r) = (runs r).modifyHead (c :: ·) := by
  rw [runs.eq_def]
  simp [notEscape, notOpening, notClosing]

theorem runs_of_flat {t : Text} (flat : Token.scan t = (t, [])) : runs t = [t] := by
  fun_induction Token.scan t with
  | case1 => rfl
  | case2 => exact runs_bareEscape
  | case3 d r ih =>
    have rest : Token.scan r = (r, []) := by simpa [Prod.ext_iff] using flat
    rw [runs_escape, ih rest]
    rfl
  | case4 | case5 => cases flat
  | case6 c r notEscape notOpening notClosing ih =>
    have rest : Token.scan r = (r, []) := by simpa [Prod.ext_iff] using flat
    rw [runs_cons notEscape notOpening notClosing, ih rest]
    rfl

/-- A text without brackets is one run. -/
theorem ConnectorsSpaced.of_bare {t : Text} (h : ConnectorsSpaced t) (bare : ¬ ('(' ∈ t ∨ ')' ∈ t)) :
    Connector.Spaced t :=
  h t (by rw [runs_of_flat (Token.scan_of_bare bare)]; exact List.mem_cons_self)

theorem subset_of_mem_runs {t run : Text} (member : run ∈ runs t) : run ⊆ t := by
  have longer {ps : List Text} {w r run : Text} (within : ∀ p ∈ ps, p ⊆ r) (member : run ∈ ps.modifyHead (w ++ ·)) :
      run ⊆ w ++ r := by
    cases ps with
    | nil => simp at member
    | cons p ps =>
      rcases List.mem_cons.mp member with rfl | later
      · exact List.append_subset.mpr ⟨List.subset_append_left w r,
          List.subset_append_of_subset_right w (within p List.mem_cons_self)⟩
      · exact List.subset_append_of_subset_right _ (within run (List.mem_cons_of_mem _ later))
  match t with
  | [] => exact fun c inside => by simp [List.mem_singleton.mp member] at inside
  | c :: r =>
    by_cases isEscape : c = Literal.escape
    · subst isEscape
      match r with
      | [] =>
        rw [runs_bareEscape, List.mem_singleton] at member
        rw [member]
        exact List.Subset.refl _
      | d :: r =>
        rw [runs_escape] at member
        exact longer (w := [Literal.escape, d]) (fun p => subset_of_mem_runs) member
    · by_cases bracket : c = '(' ∨ c = ')'
      · rw [runs_bracket bracket] at member
        rcases List.mem_cons.mp member with rfl | later
        · exact List.nil_subset _
        · exact List.subset_cons_of_subset c (subset_of_mem_runs later)
      · rw [not_or] at bracket
        rw [runs_cons isEscape bracket.1 bracket.2] at member
        exact longer (w := [c]) (fun p => subset_of_mem_runs) member
termination_by structural t

/-- Nothing but spaces stands around any word if all blanks are spaces. -/
theorem connectorsSpaced_of_spacesOnly {t : Text} (spaces : Text.SpacesOnly t) : ConnectorsSpaced t :=
  fun _ member c => (spaces.mono (subset_of_mem_runs member)).around c.word

private theorem runs_blanks_append {s : Text} (blank : ∀ c ∈ s, Text.isBlank c) (t : Text) :
    runs (s ++ t) = (runs t).modifyHead (s ++ ·) := by
  induction s with
  | nil =>
    rw [List.nil_append]
    cases runs t <;> rfl
  | cons b s ih =>
    obtain ⟨notEscape, notOpening, notClosing⟩ := Token.ordinary_of_isBlank (blank b List.mem_cons_self)
    rw [List.cons_append, runs_cons notEscape notOpening notClosing,
      ih fun c member => blank c (List.mem_cons_of_mem _ member)]
    cases runs t <;> rfl

private theorem runs_append_blanks {s : Text} (blank : ∀ c ∈ s, Text.isBlank c) (t : Text) :
    Text.Widened s (runs t) (runs (t ++ s)) := by
  have bare {s : Text} (blank : ∀ c ∈ s, Text.isBlank c) : runs s = [s] := by
    have same := runs_blanks_append blank []
    simpa [runs] using same
  match t with
  | [] =>
    rw [List.nil_append, bare blank]
    exact .single s []
  | c :: r =>
    by_cases isEscape : c = Literal.escape
    · subst isEscape
      match r with
      | [] =>
        rw [runs_bareEscape]
        cases s with
        | nil => exact .single [] [Literal.escape]
        | cons b s =>
          rw [List.cons_append, List.nil_append, runs_escape, bare fun c member => blank c (List.mem_cons_of_mem _ member)]
          exact .single (b :: s) [Literal.escape]
      | d :: r =>
        rw [List.cons_append, List.cons_append, runs_escape, runs_escape]
        exact (runs_append_blanks blank r).modifyHead [Literal.escape, d]
    · by_cases bracket : c = '(' ∨ c = ')'
      · rw [List.cons_append, runs_bracket bracket, runs_bracket bracket]
        exact (runs_append_blanks blank r).cons []
      · rw [not_or] at bracket
        rw [List.cons_append, runs_cons isEscape bracket.1 bracket.2, runs_cons isEscape bracket.1 bracket.2]
        exact (runs_append_blanks blank r).modifyHead [c]

/-- The runs of a text are stretches of some runs. -/
def RunsWithin (wholes : List Text) (t : Text) : Prop := ∀ run ∈ runs t, ∃ whole ∈ wholes, Text.IsStretch run whole

theorem runsWithin_trim (t : Text) : RunsWithin (runs t) (Text.trim t) := by
  obtain ⟨a, s, front, back, whole⟩ := Text.trim_between t
  obtain ⟨before, last, same, longer⟩ := runs_append_blanks back (a ++ Text.trim t)
  rw [← whole] at longer
  rw [runs_blanks_append front] at same
  -- a run of the trimmed text gains the blanks in front if it is the first one, and those behind if it is the last
  intro run member
  have first : ∃ grown ∈ before ++ [last], Text.IsStretch run grown := by
    rw [← same]
    cases all : runs (Text.trim t) with
    | nil => simp [all] at member
    | cons head rest =>
      rw [all] at member
      rcases List.mem_cons.mp member with rfl | member
      · refine ⟨a ++ run, List.mem_cons_self, ?_⟩
        simpa using Text.isStretch_of_blanks (r := []) front (by simp) run
      · exact ⟨run, List.mem_cons_of_mem _ member, .refl run⟩
  obtain ⟨grown, member, stretch⟩ := first
  rw [longer]
  rcases List.mem_append.mp member with member | member
  · exact ⟨grown, List.mem_append_left _ member, stretch⟩
  · obtain rfl := List.mem_singleton.mp member
    refine ⟨grown ++ s, by simp, stretch.trans ?_⟩
    simpa using Text.isStretch_of_blanks (a := []) (by simp) back grown

/-- A segment is cut out of some runs: a text out of one of them. -/
def Segment.Within (wholes : List Text) : Segment → Prop
  | .text t => ∃ whole ∈ wholes, Text.IsStretch t whole
  | .group inner => RunsWithin wholes inner

theorem Segment.Within.mono {wholes more : List Text} {s : Segment} (h : s.Within wholes) (sub : wholes ⊆ more) :
    s.Within more := by
  cases s with
  | text t =>
    obtain ⟨whole, among, stretch⟩ := h
    exact ⟨whole, sub among, stretch⟩
  | group inner =>
    intro run member
    obtain ⟨whole, among, stretch⟩ := h run member
    exact ⟨whole, sub among, stretch⟩

private theorem within_ofText {wholes : List Text} {t : Text} (first : wholes.head? = some t) {s : Segment}
    (member : s ∈ Segment.ofText t) : s.Within wholes := by
  unfold Segment.ofText at member
  split at member
  · simp at member
  · rw [List.mem_singleton.mp member]
    exact ⟨t, List.mem_of_head? first, Text.isStretch_trim t⟩

-- The text up to the next bracket that matters holds the first runs, and the segments are cut out of later ones.
private theorem Segment.Scans.within {depth : Nat} {t x : Text} {segments : List Segment}
    (h : Segment.Scans depth t x segments) :
    (depth = 0 → (runs t).head? = some x) ∧ runs x <+: runs t ∧ ∀ s ∈ segments, s.Within (runs t).tail := by
  have longer {depth : Nat} {p q : List Text} {x : Text} {segments : List Segment} (w : Text)
      (ih : (depth = 0 → q.head? = some x) ∧ p <+: q ∧ ∀ s ∈ segments, s.Within q.tail) :
      (depth = 0 → (q.modifyHead (w ++ ·)).head? = some (w ++ x)) ∧ p.modifyHead (w ++ ·) <+: q.modifyHead (w ++ ·) ∧
        ∀ s ∈ segments, s.Within (q.modifyHead (w ++ ·)).tail := by
    obtain ⟨first, ⟨rest, rfl⟩, within⟩ := ih
    cases p with
    | nil => cases rest <;> simp_all
    | cons run p => exact ⟨fun outside => by simpa using first outside, ⟨rest, rfl⟩, within⟩
  have later {t : Text} {segments : List Segment} (within : ∀ s ∈ segments, s.Within (runs t).tail) :
      ∀ s ∈ segments, s.Within (runs t) :=
    fun s member => (within s member).mono (List.tail_sublist _).subset
  induction h with
  | nil | bareEscape => exact ⟨fun _ => rfl, List.prefix_refl _, by simp⟩
  | escaped d rest ih =>
    rw [runs_escape, runs_escape]
    exact longer [Literal.escape, d] ih
  | @groupOpens r inner segments rest ih =>
    obtain ⟨-, begins, within⟩ := ih
    rw [runs_bracket (.inl rfl)]
    refine ⟨fun _ => rfl, ⟨runs r, rfl⟩, fun s member => ?_⟩
    rcases List.mem_cons.mp member with rfl | member
    · exact (show Segment.Within (runs inner) (.group (Text.trim inner)) from runsWithin_trim inner).mono begins.subset
    · exact later within s member
  | opens rest ih =>
    obtain ⟨-, begins, within⟩ := ih
    rw [runs_bracket (.inl rfl), runs_bracket (.inl rfl)]
    exact ⟨by simp, (List.prefix_cons_inj []).mpr begins, later within⟩
  | @groupCloses r x segments rest ih =>
    obtain ⟨first, -, within⟩ := ih
    rw [runs_bracket (.inr rfl)]
    refine ⟨by simp, ⟨runs r, rfl⟩, fun s member => ?_⟩
    rcases List.mem_append.mp member with member | member
    · exact within_ofText (first rfl) member
    · exact later within s member
  | closes rest ih =>
    obtain ⟨-, begins, within⟩ := ih
    rw [runs_bracket (.inr rfl), runs_bracket (.inr rfl)]
    exact ⟨by simp, (List.prefix_cons_inj []).mpr begins, later within⟩
  | @plain _ c _ _ _ notEscape notOpening notClosing rest ih =>
    rw [runs_cons notEscape notOpening notClosing, runs_cons notEscape notOpening notClosing]
    exact longer [c] ih

/-- The segments of a text are cut out of its runs. -/
theorem within_of_mem_ofMasked {t : Text} {segments : List Segment} (divided : Segment.ofMasked t = .ok segments)
    {s : Segment} (member : s ∈ segments) : s.Within (runs t) := by
  obtain ⟨x, rest, read, rfl⟩ := Segment.exists_scans divided
  obtain ⟨first, -, within⟩ := read.within
  rcases List.mem_append.mp member with member | member
  · exact within_ofText (first rfl) member
  · exact (within s member).mono (List.tail_sublist _).subset

namespace ConnectorsSpaced

variable {t u : Text} {segments : List Segment}

theorem text (h : ConnectorsSpaced t) (divided : Segment.ofMasked t = .ok segments) (member : .text u ∈ segments) :
    Connector.Spaced u := by
  obtain ⟨whole, among, stretch⟩ := within_of_mem_ofMasked divided member
  exact (h whole among).stretch stretch

theorem group (h : ConnectorsSpaced t) (divided : Segment.ofMasked t = .ok segments) (member : .group u ∈ segments) :
    ConnectorsSpaced u := by
  intro run inside
  obtain ⟨whole, among, stretch⟩ := within_of_mem_ofMasked divided member run inside
  exact (h whole among).stretch stretch

end ConnectorsSpaced
end Criteria.Filter
