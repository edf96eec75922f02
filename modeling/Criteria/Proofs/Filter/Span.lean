import Criteria.Dialects
import Criteria.Proofs.Filter.Alike
import Criteria.Proofs.Filter.Detach
import Criteria.Proofs.Filter.Reading
import Criteria.Proofs.Literal.Fault

/-!
# Where errors point

Only the masking of literals gives an error a place, and the place is right in the text that is masked. Options and
sort orders are masked as they are given. A filter is trimmed first, so that its places are those of the trimmed text.
-/

namespace Criteria

open Literal (Masked)

/-- A reading fails for no cause that has a place in the text. -/
def Unplaced {A : Type} (x : Except SyntaxError A) : Prop := ∀ e, x = .error e → e.span? = none

namespace Unplaced

variable {A B : Type}

theorem ok (a : A) : Unplaced (.ok a) := nofun

theorem error {e : SyntaxError} (h : e.span? = none) : Unplaced (.error e : Except SyntaxError A) := by
  rintro _ ⟨⟩
  exact h

theorem throw_bind {e : SyntaxError} (h : e.span? = none) (f : A → Except SyntaxError B) :
    Unplaced ((throw e : Except SyntaxError A) >>= f) := error h

theorem bind {x : Except SyntaxError A} {f : A → Except SyntaxError B} (h : Unplaced x) (h' : ∀ a, Unplaced (f a)) :
    Unplaced (x >>= f) := by
  cases x with
  | error e => exact error (h e rfl)
  | ok a => exact h' a

theorem map {x : Except SyntaxError A} (h : Unplaced x) (f : A → B) : Unplaced (x.map f) := by
  cases x with
  | error e => exact error (h e rfl)
  | ok a => exact ok (f a)

theorem mapM {f : A → Except SyntaxError B} (h : ∀ a, Unplaced (f a)) (as : List A) : Unplaced (as.mapM f) := by
  induction as with
  | nil => exact ok []
  | cons a as ih =>
    rw [List.mapM_cons]
    exact (h a).bind fun b => ih.bind fun bs => ok (b :: bs)

end Unplaced

namespace Filter

variable {A B : Type} {m : Masked}

/-- A reading of masked text fails for no cause that has a place, whatever groups are stored. -/
def IsUnplaced (x : Reading A) : Prop := ∀ g, Unplaced (outcome x g).1

namespace IsUnplaced

theorem pure (a : A) : IsUnplaced (pure a) := fun _ => .ok a

theorem thrown {e : SyntaxError} (h : e.span? = none) : IsUnplaced (throw e : Reading A) := fun _ => .error h

theorem throw_bind {e : SyntaxError} (h : e.span? = none) (f : A → Reading B) :
    IsUnplaced ((throw e : Reading A) >>= f) := by
  intro g
  rw [outcome_bind, outcome_throw]
  exact .error h

theorem lift {x : Except SyntaxError A} (h : Unplaced x) : IsUnplaced (liftM x) := by
  intro g
  rw [outcome_lift]
  exact h

theorem bind {x : Reading A} {f : A → Reading B} (h : IsUnplaced x) (h' : ∀ a, IsUnplaced (f a)) : IsUnplaced (x >>= f) := by
  intro g
  have first := h g
  rw [outcome_bind]
  generalize outcome x g = result at first
  obtain ⟨r, k⟩ := result
  cases r with
  | error e => exact .error (first e rfl)
  | ok a => exact h' a k

theorem mapM {f : A → Reading B} (h : ∀ a, IsUnplaced (f a)) (as : List A) : IsUnplaced (as.mapM f) := by
  induction as with
  | nil => exact pure []
  | cons a as ih =>
    rw [List.mapM_cons]
    exact (h a).bind fun b => ih.bind fun bs => pure (b :: bs)

end IsUnplaced

theorem unplaced_readOperator (negated : Bool) (keyword : Text) : Unplaced (readOperator negated keyword) := by
  unfold readOperator
  split
  · exact .error rfl
  · exact .ok _

theorem unplaced_readComparison (negated : Bool) (field keyword : Text) (words : List Text) :
    Unplaced (readComparison m negated field keyword words) := by
  unfold readComparison
  dsimp only
  split
  · exact .throw_bind rfl _
  split
  · exact .throw_bind rfl _
  split
  · exact .throw_bind rfl _
  split
  · exact .throw_bind rfl _
  exact (unplaced_readOperator negated keyword).bind fun o => .ok _

theorem isUnplaced_take? (token : Text) : IsUnplaced (GroupTable.take? token) := by
  refine .bind (fun g => .ok g) fun g => ?_
  split
  · exact .pure none
  · split
    · exact .bind (fun _ => .ok _) fun _ => .pure _
    · exact .pure none

theorem isUnplaced_readCondition (t : Text) : IsUnplaced (readCondition m t) := by
  unfold readCondition
  split
  · exact .thrown rfl
  · refine (isUnplaced_take? _).bind fun taken => ?_
    cases taken with
    | some parts => exact .pure parts
    | none => exact .thrown rfl
  · dsimp only
    split
    · exact .lift (unplaced_readComparison _ _ _ _)
    · exact .thrown rfl

theorem isUnplaced_readFlat (t : Text) : IsUnplaced (readFlat m t) :=
  .bind (.mapM (fun _ => .bind (.mapM isUnplaced_readCondition _) fun _ => .pure _) _) fun _ => .pure _

theorem unplaced_detach (after : Bool) (t : Text) : Unplaced (detach m after t) := by
  cases named : Connector.ofWord? t with
  | some c =>
    cases after with
    | true =>
      simp only [detach, named]
      exact .throw_bind rfl _
    | false =>
      simp only [detach, named]
      exact .ok _
  | none =>
    cases after with
    | true =>
      rw [detach_after named]
      exact .ok _
    | false =>
      cases found : leading? t with
      | none =>
        simp only [detach, named, found]
        exact .throw_bind rfl _
      | some pair =>
        obtain ⟨c, rest⟩ := pair
        obtain ⟨r, front, rfl⟩ := leading?_eq_some_iff.mp found
        cases apart : Connector.ofWord? (Text.trimStart r) with
        | some d =>
          simp only [detach, named, found, apart]
          exact .throw_bind rfl _
        | none =>
          rw [detach_behind named front apart]
          exact .ok _

theorem Segment.unplaced_ofMasked (t : Text) : Unplaced (Segment.ofMasked t) := by
  have scanned (depth : Nat) (t : Text) : Unplaced (Segment.scan depth t) := by
    fun_induction Segment.scan depth t with
    | case1 | case3 => exact .ok _
    | case2 | case4 | case8 => exact .error rfl
    | _ => exact .map ‹_› _
  exact (scanned 0 t).map _

theorem isUnplaced_readSegments {segments : List Segment} (inner : ∀ t, .group t ∈ segments → IsUnplaced (readText m t))
    (after : Bool) : IsUnplaced (readSegments m after segments) := by
  induction segments generalizing after with
  | nil =>
    rw [readSegments_nil]
    cases after with
    | true => exact .thrown rfl
    | false => exact .pure []
  | cons s r ih =>
    have later := ih fun t member => inner t (List.mem_cons_of_mem _ member)
    cases s with
    | text t =>
      rw [readSegments_text]
      exact .bind (.lift (unplaced_detach after t)) fun result => .bind (later result.2) fun back => .pure _
    | group t =>
      rw [readSegments_group]
      cases after with
      | false => exact .throw_bind (e := .missingConnectorBeforeGroup) rfl _
      | true =>
        exact .bind (inner t List.mem_cons_self) fun parts => .bind (fun g => .ok _) fun mark =>
          .bind (later false) fun back => .pure _

theorem isUnplaced_readText (t : Text) : IsUnplaced (readText m t) := by
  induction t using readText_induction with
  | flat t bare =>
    rw [readText_flat bare]
    exact isUnplaced_readFlat t
  | unpaired t e brackets failed =>
    rw [readText_unpaired brackets failed]
    exact .thrown (Segment.unplaced_ofMasked t e failed)
  | whole t inner brackets divided ih =>
    rw [readText_group brackets divided]
    exact ih
  | level t segments brackets divided several ih =>
    rw [readText_segments brackets divided several]
    exact .bind (isUnplaced_readSegments ih true) fun pieces => isUnplaced_readFlat _

end Filter

/-! ## Errors with a place -/

/-- Where nothing behind the masking gives an error a place, an error with a place is one of the masking. -/
theorem mask_of_bind_error {A : Type} {f : Masked → Except SyntaxError A} (unplaced : ∀ m, Unplaced (f m)) {t : Text}
    {e : SyntaxError} {s : Span} (failed : Literal.mask t >>= f = .error e) (placed : e.span? = some s) :
    Literal.mask t = .error e := by
  cases masked : Literal.mask t with
  | error e' =>
    rw [masked] at failed
    cases failed
    rfl
  | ok m =>
    rw [masked] at failed
    rw [unplaced m e failed] at placed
    cases placed

theorem Options.mask_of_parse_error {t : Text} {e : SyntaxError} {s : Span} (failed : Options.dialect.parse t = .error e)
    (placed : e.span? = some s) : Literal.mask t = .error e :=
  mask_of_bind_error (fun _ => .ok _) failed placed

theorem Sort.unplaced_readKey (m : Masked) (piece : Text) : Unplaced (Sort.readKey m piece) := by
  unfold Sort.readKey
  split
  · exact .ok _
  · exact .ok _
  · refine .map ?_ _
    unfold Sort.readDirection
    split
    · exact .ok _
    · exact .error rfl
  · exact .error rfl

theorem Sort.mask_of_parse_error {t : Text} {e : SyntaxError} {s : Span} (failed : Sort.dialect.parse t = .error e)
    (placed : e.span? = some s) : Literal.mask t = .error e :=
  mask_of_bind_error (fun m => (Unplaced.mapM (Sort.unplaced_readKey m) _).bind fun _ => .ok _) failed placed

theorem Filter.mask_of_parse_error {t : Text} {e : SyntaxError} {s : Span} (failed : Filter.parse t = .error e)
    (placed : e.span? = some s) : Literal.mask (Text.trim t) = .error e := by
  by_cases blank : Text.trim t = []
  · simp only [Filter.parse, if_pos blank] at failed
    cases failed
  · simp only [Filter.parse, if_neg blank] at failed
    exact mask_of_bind_error (fun m => Filter.isUnplaced_readText m.text []) failed placed

theorem Text.byteSize_eq_zero_iff {t : Text} : Text.byteSize t = 0 ↔ t = [] := by
  cases t with
  | nil => simp
  | cons c t =>
    have positive := c.utf8Size_pos
    simp only [Text.byteSize_cons, List.cons_ne_nil, iff_false]
    omega

theorem Literal.Fault.ne_nil {t : Text} {e : SyntaxError} (h : Literal.Fault t e) : t ≠ [] := by
  cases h <;> simp

private theorem eq_surrounded_iff {a m b : Text} : m = a ++ m ++ b ↔ a = [] ∧ b = [] := by
  constructor
  · intro same
    have size := congrArg List.length same
    rw [List.length_append, List.length_append] at size
    exact ⟨List.eq_nil_of_length_eq_zero (by omega), List.eq_nil_of_length_eq_zero (by omega)⟩
  · rintro ⟨rfl, rfl⟩
    simp

/-- A place that is right in a trimmed text is right in the whole text exactly if no blank was taken from its start, and
    none from its end either where the place reaches up to the end. -/
theorem pointsInto_untrimmed_iff {t : Text} {e : SyntaxError} {s : Span} (masked : Literal.mask (Text.trim t) = .error e)
    (placed : e.span? = some s) :
    s.PointsInto t ↔ Text.trimStart t = t ∧ (Text.trim t = t ∨ ∃ position, e = .controlCharacter position) := by
  obtain ⟨a, b, front, back, whole⟩ := Text.trim_between t
  have fault := Literal.mask_eq_error_iff.mp masked
  have started : Text.trimStart t = Text.trim t ++ b := by
    conv => lhs; rw [whole, List.append_assoc, Text.trimStart_blanks_append front]
    refine Text.trimStart_eq_self fun c head => (Text.trimmed_trim t).1 c ?_
    rwa [List.head?_append_of_ne_nil _ fault.ne_nil] at head
  have keptStart : Text.trimStart t = t ↔ Text.byteSize a = 0 := by
    rw [Text.byteSize_eq_zero_iff, started]
    conv => lhs; rhs; rw [whole, List.append_assoc]
    exact List.self_eq_append_left
  have kept : Text.trim t = t ↔ Text.byteSize a = 0 ∧ Text.byteSize b = 0 := by
    rw [Text.byteSize_eq_zero_iff, Text.byteSize_eq_zero_iff, ← eq_surrounded_iff, ← whole]
  have outside := Literal.endsOutside_of_ordinary fun c member => Filter.ordinary_of_isBlank (front c member)
  have unquoted : Literal.quote ∉ b := fun member => absurd (back _ member) (by decide)
  obtain ⟨e', fault', moved⟩ := fault.surrounded outside unquoted
  rw [← List.append_assoc, ← whole] at fault' moved
  have reported : s.PointsInto t ↔ e'.span? = some s := by
    rw [Span.pointsInto_iff, Literal.mask_eq_error_iff.mpr fault']
    simp
  have sizes := congrArg Text.byteSize whole
  rw [Text.byteSize_append, Text.byteSize_append] at sizes
  rw [reported, keptStart, kept]
  rcases moved with ⟨start, stop, rfl, rfl⟩ | ⟨position, rfl, rfl⟩
  · have last : stop = Text.byteSize (Text.trim t) := by
      generalize Text.trim t = u at fault
      cases fault
      rfl
    cases placed
    simp only [SyntaxError.span?, Option.some.injEq, Span.mk.injEq, reduceCtorEq, exists_false, or_false]
    omega
  · cases placed
    simp only [SyntaxError.span?, Option.some.injEq, Span.mk.injEq, SyntaxError.controlCharacter.injEq, exists_eq',
      or_true, and_true]
    omega

/-- An error that has a place points at a fault of the text that was given: always for options and for sort orders, and
    for filters at the fault of the trimmed text, which is right in the text that was given exactly if no blank was
    taken from its start, and none from its end either where a literal is not closed. -/
theorem span_pointsInto {t : Text} {e : SyntaxError} {s : Span} (placed : e.span? = some s) :
    (Options.dialect.parse t = .error e → s.PointsInto t) ∧ (Sort.dialect.parse t = .error e → s.PointsInto t) ∧
    (Filter.parse t = .error e → s.PointsInto (Text.trim t) ∧
      (s.PointsInto t ↔ Text.trimStart t = t ∧ (Text.trim t = t ∨ ∃ position, e = .controlCharacter position))) := by
  refine ⟨fun failed => ?_, fun failed => ?_, fun failed => ⟨?_, ?_⟩⟩
  · exact Span.pointsInto_iff.mpr ⟨e, Options.mask_of_parse_error failed placed, placed⟩
  · exact Span.pointsInto_iff.mpr ⟨e, Sort.mask_of_parse_error failed placed, placed⟩
  · exact Span.pointsInto_iff.mpr ⟨e, Filter.mask_of_parse_error failed placed, placed⟩
  · exact pointsInto_untrimmed_iff (Filter.mask_of_parse_error failed placed) placed

/-- Behind two blanks, the literal that is not closed begins two bytes after the place that is reported. -/
theorem span_blanksBefore :
    Filter.parse [' ', ' ', 'a', ' ', 'e', 'q', ' ', Literal.quote, 'b'] = .error (.unterminatedLiteral 5 7) ∧
    (⟨5, 7⟩ : Span).PointsInto ['a', ' ', 'e', 'q', ' ', Literal.quote, 'b'] ∧
    ¬ (⟨5, 7⟩ : Span).PointsInto [' ', ' ', 'a', ' ', 'e', 'q', ' ', Literal.quote, 'b'] := by
  have failed : Filter.parse [' ', ' ', 'a', ' ', 'e', 'q', ' ', Literal.quote, 'b'] =
      .error (.unterminatedLiteral 5 7) := by rfl
  obtain ⟨-, -, place⟩ := span_pointsInto (e := .unterminatedLiteral 5 7) (s := ⟨5, 7⟩) rfl
  obtain ⟨points, kept⟩ := place failed
  refine ⟨failed, points, fun whole => ?_⟩
  exact absurd (kept.mp whole).1 (by decide)

end Criteria
