import Criteria.Proofs.Filter.Token

/-!
# Segments and tokens

A text is cut into segments exactly when the brackets among its tokens pair up. The segments hold the
tokens of the text in order, groups are trimmed and have paired brackets themselves, and no two texts
stand side by side.
-/

namespace Criteria.Filter.Segment

theorem scan_bareEscape (depth : Nat) :
    scan depth [Literal.escape] = if depth = 0 then .ok ([Literal.escape], []) else .error .unclosedOpening := by
  rw [scan.eq_def]
  simp

theorem scan_escape (depth : Nat) (d : Char) (r : Text) :
    scan depth (Literal.escape :: d :: r) =
      (scan depth r).map fun (t, segments) => (Literal.escape :: d :: t, segments) := by
  rw [scan.eq_def]
  simp

theorem scan_opening (r : Text) :
    scan 0 ('(' :: r) = (scan 1 r).map fun (inner, segments) => ([], .group (Text.trim inner) :: segments) := by
  rw [scan.eq_def]
  simp [Literal.escape]

theorem scan_opening_succ (depth : Nat) (r : Text) :
    scan (depth + 1) ('(' :: r) = (scan (depth + 2) r).map fun (t, segments) => ('(' :: t, segments) := by
  rw [scan.eq_def]
  simp [Literal.escape]

theorem scan_closing_one (r : Text) :
    scan 1 (')' :: r) = (scan 0 r).map fun (t, segments) => ([], ofText t ++ segments) := by
  rw [scan.eq_def]
  simp [Literal.escape]

theorem scan_closing_succ (depth : Nat) (r : Text) :
    scan (depth + 2) (')' :: r) = (scan (depth + 1) r).map fun (t, segments) => (')' :: t, segments) := by
  rw [scan.eq_def]
  simp [Literal.escape]

theorem scan_cons {c : Char} (notEscape : c ≠ Literal.escape) (notOpening : c ≠ '(') (notClosing : c ≠ ')')
    (depth : Nat) (r : Text) :
    scan depth (c :: r) = (scan depth r).map fun (t, segments) => (c :: t, segments) := by
  rw [scan.eq_def]
  simp [notEscape, notOpening, notClosing]

/-- Characters without a meaning for brackets are passed over. -/
theorem scan_append {w : Text} (bare : ∀ c ∈ w, c ≠ Literal.escape ∧ c ≠ '(' ∧ c ≠ ')') (depth : Nat) (r : Text) :
    scan depth (w ++ r) = (scan depth r).map fun (t, segments) => (w ++ t, segments) := by
  induction w with
  | nil =>
    rw [List.nil_append]
    cases scan depth r <;> rfl
  | cons c w ih =>
    obtain ⟨notEscape, notOpening, notClosing⟩ := bare c List.mem_cons_self
    rw [List.cons_append, scan_cons notEscape notOpening notClosing,
      ih fun d member => bare d (List.mem_cons_of_mem _ member)]
    cases scan depth r <;> rfl

/-- How a text is read inside some brackets: what stands in front of the next outermost bracket, and the segments from
    there on. -/
inductive Scans : Nat → Text → Text → List Segment → Prop
  | nil : Scans 0 [] [] []
  | bareEscape : Scans 0 [Literal.escape] [Literal.escape] []
  | escaped {depth : Nat} {r x : Text} {segments : List Segment} (d : Char) (rest : Scans depth r x segments) :
      Scans depth (Literal.escape :: d :: r) (Literal.escape :: d :: x) segments
  | groupOpens {r inner : Text} {segments : List Segment} (rest : Scans 1 r inner segments) :
      Scans 0 ('(' :: r) [] (.group (Text.trim inner) :: segments)
  | opens {depth : Nat} {r x : Text} {segments : List Segment} (rest : Scans (depth + 2) r x segments) :
      Scans (depth + 1) ('(' :: r) ('(' :: x) segments
  | groupCloses {r x : Text} {segments : List Segment} (rest : Scans 0 r x segments) :
      Scans 1 (')' :: r) [] (ofText x ++ segments)
  | closes {depth : Nat} {r x : Text} {segments : List Segment} (rest : Scans (depth + 1) r x segments) :
      Scans (depth + 2) (')' :: r) (')' :: x) segments
  | plain {depth : Nat} {c : Char} {r x : Text} {segments : List Segment} (notEscape : c ≠ Literal.escape)
      (notOpening : c ≠ '(') (notClosing : c ≠ ')') (rest : Scans depth r x segments) :
      Scans depth (c :: r) (c :: x) segments

theorem scans_of_scan {depth : Nat} {t x : Text} {segments : List Segment} (h : scan depth t = .ok (x, segments)) :
    Scans depth t x segments := by
  fun_induction scan depth t generalizing x segments with
  | case1 =>
    cases h
    exact .nil
  | case3 =>
    cases h
    exact .bareEscape
  | case2 | case4 | case8 => cases h
  | case5 depth d r ih =>
    obtain ⟨⟨y, rest⟩, read, same⟩ := map_eq_ok_iff.mp h
    cases same
    exact .escaped d (ih read)
  | case6 r notEscape ih =>
    obtain ⟨⟨inner, rest⟩, read, same⟩ := map_eq_ok_iff.mp h
    cases same
    exact .groupOpens (ih read)
  | case7 depth r inside notEscape ih =>
    obtain ⟨⟨y, rest⟩, read, same⟩ := map_eq_ok_iff.mp h
    cases same
    obtain ⟨outer, rfl⟩ := Nat.exists_eq_succ_of_ne_zero inside
    exact .opens (ih read)
  | case9 r notEscape notOpening ih =>
    obtain ⟨⟨y, rest⟩, read, same⟩ := map_eq_ok_iff.mp h
    cases same
    exact .groupCloses (ih read)
  | case10 r depth notEscape notOpening ih =>
    obtain ⟨⟨y, rest⟩, read, same⟩ := map_eq_ok_iff.mp h
    cases same
    exact .closes (ih read)
  | case11 depth c r notEscape notOpening notClosing ih =>
    obtain ⟨⟨y, rest⟩, read, same⟩ := map_eq_ok_iff.mp h
    cases same
    exact .plain notEscape notOpening notClosing (ih read)

theorem Scans.scan_eq {depth : Nat} {t x : Text} {segments : List Segment} (h : Scans depth t x segments) :
    scan depth t = .ok (x, segments) := by
  induction h with
  | nil | bareEscape => rfl
  | escaped d rest ih => rw [scan_escape, ih, Except.map]
  | groupOpens rest ih => rw [scan_opening, ih, Except.map]
  | opens rest ih => rw [scan_opening_succ, ih, Except.map]
  | groupCloses rest ih => rw [scan_closing_one, ih, Except.map]
  | closes rest ih => rw [scan_closing_succ, ih, Except.map]
  | plain notEscape notOpening notClosing rest ih => rw [scan_cons notEscape notOpening notClosing, ih, Except.map]

/-- Characters without a meaning for brackets stand in front of what is behind them. -/
theorem scans_append_iff {w : Text} (bare : ∀ c ∈ w, c ≠ Literal.escape ∧ c ≠ '(' ∧ c ≠ ')') {depth : Nat} {r y : Text}
    {segments : List Segment} :
    Scans depth (w ++ r) y segments ↔ ∃ x, y = w ++ x ∧ Scans depth r x segments := by
  constructor
  · intro h
    have read := h.scan_eq
    rw [scan_append bare] at read
    obtain ⟨⟨x, later⟩, read, same⟩ := map_eq_ok_iff.mp read
    cases same
    exact ⟨x, rfl, scans_of_scan read⟩
  · rintro ⟨x, rfl, h⟩
    apply scans_of_scan
    rw [scan_append bare, h.scan_eq, Except.map]

/-- The segments of a text are those behind its first stretch, after that stretch if it is a text. -/
theorem exists_scans {t : Text} {segments : List Segment} (divided : ofMasked t = .ok segments) :
    ∃ x later, Scans 0 t x later ∧ segments = ofText x ++ later := by
  obtain ⟨⟨x, later⟩, read, same⟩ := map_eq_ok_iff.mp divided
  exact ⟨x, later, scans_of_scan read, same.symm⟩

/-! ## The tokens of segments -/

/-- The tokens that a segment stands for. -/
def tokens : Segment → List Token
  | .text t => (Text.words t).map .word
  | .group inner => .opening :: (Token.ofMasked inner ++ [.closing])

@[simp] theorem flatMap_tokens_ofText (t : Text) :
    (ofText t).flatMap tokens = (Text.words t).map .word := by
  unfold ofText
  split
  · rename_i blank
    rw [← Text.words_trim, blank]
    simp
  · simp [tokens]

/-- What the segments after a text stand for, if the text began inside `depth` brackets. -/
private def following (depth : Nat) (segments : List Segment) : List Token :=
  if depth = 0 then segments.flatMap tokens else .closing :: segments.flatMap tokens

private theorem Scans.tokens {depth : Nat} {t x : Text} {segments : List Segment} (h : Scans depth t x segments) :
    Token.scan t = ((Token.scan x).1, (Token.scan x).2 ++ following depth segments) ∧
      (depth = 0 → Token.scan x = (x, [])) := by
  induction h with
  | nil | bareEscape => simp [Token.scan, following]
  | escaped d rest ih =>
    obtain ⟨run, flat⟩ := ih
    rw [Token.scan_escape, Token.scan_escape, run]
    exact ⟨rfl, fun outside => by rw [flat outside]⟩
  | groupOpens rest ih =>
    rw [Token.scan_opening, ih.1]
    simp [Token.ofRun, Token.scan, following, Segment.tokens, Token.ofMasked_trim]
    simp [Token.ofMasked, Token.ofRun]
  | opens rest ih =>
    rw [Token.scan_opening, Token.scan_opening, ih.1]
    simp [Token.ofRun, following]
  | groupCloses rest ih =>
    obtain ⟨run, flat⟩ := ih
    rw [Token.scan_closing, run, flat rfl]
    simp [Token.ofRun, Token.scan, following]
  | closes rest ih =>
    rw [Token.scan_closing, Token.scan_closing, ih.1]
    simp [Token.ofRun, following]
  | plain notEscape notOpening notClosing rest ih =>
    obtain ⟨run, flat⟩ := ih
    rw [Token.scan_cons notEscape notOpening notClosing, Token.scan_cons notEscape notOpening notClosing, run]
    exact ⟨rfl, fun outside => by rw [flat outside]⟩

/-- What stands in front of the groups of a text has no bracket among its tokens. -/
theorem Scans.flat {t x : Text} {segments : List Segment} (h : Scans 0 t x segments) : Token.scan x = (x, []) :=
  h.tokens.2 rfl

/-- The segments of a text hold its tokens in order. -/
theorem flatMap_tokens {t : Text} {segments : List Segment} (divided : ofMasked t = .ok segments) :
    segments.flatMap tokens = Token.ofMasked t := by
  obtain ⟨x, later, read, rfl⟩ := exists_scans divided
  rw [Token.ofMasked, read.tokens.1, read.flat]
  simp [Token.ofRun, following]

/-- What is wrong with brackets that leave so many open, or that close one too many. -/
def fault? : Option Nat → Option SyntaxError
  | none => some .unbalancedClosing
  | some 0 => none
  | some (_ + 1) => some .unclosedOpening

private theorem scan_eq_error_iff {depth : Nat} {t : Text} {e : SyntaxError} :
    scan depth t = .error e ↔ fault? (Token.nest depth (Token.scan t).2) = some e := by
  fun_induction scan depth t with
  | case1 | case3 => simp [Token.scan, Token.nest, fault?]
  | case2 depth inside | case4 depth inside =>
    obtain ⟨outer, rfl⟩ := Nat.exists_eq_succ_of_ne_zero inside
    simp [Token.scan, Token.nest, fault?]
  | case5 depth d r ih =>
    rw [Token.scan_escape, map_eq_error_iff]
    exact ih
  | case6 r notEscape ih =>
    rw [Token.scan_opening, Token.nest, Token.nest_ofRun, map_eq_error_iff]
    exact ih
  | case7 depth r notEscape inside ih =>
    rw [Token.scan_opening, Token.nest, Token.nest_ofRun, map_eq_error_iff]
    exact ih
  | case8 r =>
    rw [Token.scan_closing]
    simp [Token.nest, fault?]
  | case9 r notEscape notOpening ih =>
    rw [Token.scan_closing, Token.nest, Token.nest_ofRun, map_eq_error_iff]
    exact ih
  | case10 r depth notEscape notOpening ih =>
    rw [Token.scan_closing, Token.nest, Token.nest_ofRun, map_eq_error_iff]
    exact ih
  | case11 depth c r notEscape notOpening notClosing ih =>
    rw [Token.scan_cons notEscape notOpening notClosing, map_eq_error_iff]
    exact ih

/-- A text is rejected for what is wrong with its brackets, and for nothing else. -/
theorem ofMasked_eq_error_iff {t : Text} {e : SyntaxError} :
    ofMasked t = .error e ↔ fault? (Token.nest 0 (Token.ofMasked t)) = some e := by
  rw [ofMasked, map_eq_error_iff, scan_eq_error_iff, Token.nest_ofMasked]

/-- A text is cut into segments exactly when its brackets pair up. -/
theorem ofMasked_isOk_iff (t : Text) :
    (∃ segments, ofMasked t = .ok segments) ↔ Token.Balanced (Token.ofMasked t) := by
  have accepted : (∃ segments, ofMasked t = .ok segments) ↔ ∀ e, ofMasked t ≠ .error e := by
    cases ofMasked t <;> simp
  have faultless (after : Option Nat) : (∀ e, fault? after ≠ some e) ↔ after = some 0 := by
    rcases after with _ | _ | _ <;> simp [fault?]
  simp only [accepted, ne_eq, ofMasked_eq_error_iff]
  exact faultless _

/-- A text is rejected for a bracket that nothing closes. -/
theorem ofMasked_unclosed {k : Nat} {t : Text} (unclosed : Token.nest 0 (Token.ofMasked t) = some (k + 1)) :
    ofMasked t = .error .unclosedOpening := by
  rw [ofMasked_eq_error_iff, unclosed, fault?]

theorem nesting_le_of_mem {s : Segment} {segments : List Segment} (member : s ∈ segments) :
    s.nesting ≤ totalNesting segments := by
  induction segments with
  | nil => simp at member
  | cons other r ih =>
    rw [totalNesting_cons]
    rcases List.mem_cons.mp member with rfl | later
    · omega
    · have rest := ih later
      omega

/-- A group of a text is shorter than the text. -/
theorem length_lt_of_group {t inner : Text} {segments : List Segment} (h : ofMasked t = .ok segments)
    (member : .group inner ∈ segments) : inner.length < t.length := by
  have nonempty : t ≠ [] := by
    rintro rfl
    cases h
    simp [ofText, Text.trim, Text.trimEnd, Text.trimStart] at member
  have smaller := totalNesting_lt nonempty h
  have held := nesting_le_of_mem member
  simp only [nesting] at held
  omega

/-- Inside brackets, a text that never closes more of them than it opened is passed over. -/
theorem scan_inside {x : Text} (whole : Token.Whole x) {depth after : Nat}
    (nested : Token.nest depth (Token.ofMasked x) = some after) (around : Nat) (r : Text) :
    scan (around + 1 + depth) (x ++ r) =
      (scan (around + 1 + after) r).map fun (t, segments) => (x ++ t, segments) := by
  have again {c : Char} {x : Text} {reading : Except SyntaxError (Text × List Segment)} :
      (reading.map fun (t, segments) => (x ++ t, segments)).map (fun (t, segments) => (c :: t, segments)) =
        reading.map fun (t, segments) => (c :: x ++ t, segments) := by
    cases reading <;> rfl
  induction whole generalizing depth with
  | nil =>
    rw [Token.ofMasked_nil] at nested
    obtain rfl : depth = after := Option.some.inj nested
    rw [List.nil_append]
    cases scan (around + 1 + depth) r <;> rfl
  | escaped c rest ih =>
    rw [Token.nest_escaped] at nested
    rw [List.cons_append, List.cons_append, scan_escape, ih nested]
    cases scan (around + 1 + after) r <;> rfl
  | @plain c t notEscape rest ih =>
    rw [List.cons_append]
    by_cases opening : c = '('
    · subst opening
      rw [Token.nest_opening] at nested
      rw [show around + 1 + depth = around + depth + 1 by omega, scan_opening_succ,
        show around + depth + 2 = around + 1 + (depth + 1) by omega, ih nested, again]
    · by_cases closing : c = ')'
      · subst closing
        cases depth with
        | zero =>
          rw [Token.nest_closing_zero] at nested
          cases nested
        | succ depth =>
          rw [Token.nest_closing_succ] at nested
          rw [show around + 1 + (depth + 1) = around + depth + 2 by omega, scan_closing_succ,
            show around + depth + 1 = around + 1 + depth by omega, ih nested, again]
      · rw [Token.nest_cons notEscape opening closing] at nested
        rw [scan_cons notEscape opening closing, ih nested, again]

/-! ## The shape of a run of segments -/

/-- Whether a run of segments begins with a text. -/
def beginsWithText : List Segment → Bool
  | .text _ :: _ => true
  | _ => false

/-- No two texts of a run stand side by side. -/
def Apart : List Segment → Prop
  | [] => True
  | .text _ :: r => beginsWithText r = false ∧ Apart r
  | .group _ :: r => Apart r

/-- A text between groups is trimmed and not blank, and the brackets inside a group pair up. -/
def Sound : Segment → Prop
  | .text t => Text.Trimmed t ∧ t ≠ []
  | .group inner => Token.Balanced (Token.ofMasked inner)

private theorem apart_ofText_append {t : Text} {segments : List Segment}
    (flat : beginsWithText segments = false) (apart : Apart segments) : Apart (ofText t ++ segments) := by
  unfold ofText
  split
  · exact apart
  · exact ⟨flat, apart⟩

private theorem sound_ofText {t : Text} {s : Segment} (h : s ∈ ofText t) : s.Sound := by
  unfold ofText at h
  split at h
  · simp at h
  · rename_i nonempty
    rw [List.mem_singleton.mp h]
    exact ⟨Text.trimmed_trim t, nonempty⟩

private theorem Scans.shape {depth : Nat} {t x : Text} {segments : List Segment} (h : Scans depth t x segments) :
    (depth = 0 → beginsWithText segments = false) ∧ Apart segments ∧ (∀ s ∈ segments, s.Sound) ∧
      (∀ d, depth = d + 1 → Token.nest d (Token.scan x).2 = some 0) := by
  induction h with
  | nil | bareEscape => exact ⟨fun _ => rfl, trivial, by simp, by simp⟩
  | escaped d rest ih =>
    rw [Token.scan_escape]
    exact ih
  | groupOpens rest ih =>
    obtain ⟨-, apart, sound, inside⟩ := ih
    refine ⟨fun _ => rfl, apart, ?_, by simp⟩
    intro s member
    rcases List.mem_cons.mp member with rfl | member
    · rw [Sound, Token.ofMasked_trim, Token.Balanced, Token.ofMasked, Token.nest_ofRun]
      exact inside 0 rfl
    · exact sound s member
  | @opens depth r x segments rest ih =>
    obtain ⟨-, apart, sound, inside⟩ := ih
    refine ⟨by simp, apart, sound, ?_⟩
    intro d here
    cases here
    rw [Token.scan_opening]
    simpa [Token.nest, Token.nest_ofRun] using inside (depth + 1) rfl
  | groupCloses rest ih =>
    obtain ⟨front, apart, sound, -⟩ := ih
    refine ⟨by simp, apart_ofText_append (front rfl) apart, ?_, ?_⟩
    · intro s member
      rcases List.mem_append.mp member with member | member
      · exact sound_ofText member
      · exact sound s member
    · intro d here
      cases here
      rfl
  | @closes depth r x segments rest ih =>
    obtain ⟨-, apart, sound, inside⟩ := ih
    refine ⟨by simp, apart, sound, ?_⟩
    intro d here
    cases here
    rw [Token.scan_closing]
    simpa [Token.nest, Token.nest_ofRun] using inside depth rfl
  | plain notEscape notOpening notClosing rest ih =>
    rw [Token.scan_cons notEscape notOpening notClosing]
    exact ih

theorem apart_ofMasked {t : Text} {segments : List Segment} (divided : ofMasked t = .ok segments) :
    Apart segments := by
  obtain ⟨x, later, read, rfl⟩ := exists_scans divided
  obtain ⟨front, apart, -, -⟩ := read.shape
  exact apart_ofText_append (front rfl) apart

theorem sound_of_mem_ofMasked {t : Text} {segments : List Segment} (divided : ofMasked t = .ok segments)
    {s : Segment} (member : s ∈ segments) : s.Sound := by
  obtain ⟨x, later, read, rfl⟩ := exists_scans divided
  rcases List.mem_append.mp member with member | member
  · exact sound_ofText member
  · obtain ⟨-, -, sound, -⟩ := read.shape
    exact sound s member

/-- The text of a segment. -/
def content : Segment → Text
  | .text t => t
  | .group inner => inner

theorem content_subset_ofText {t : Text} : ∀ s ∈ ofText t, s.content ⊆ t := by
  unfold ofText
  split
  · simp
  · intro s member
    rw [List.mem_singleton.mp member]
    exact Text.trim_subset t

/-- The characters of segments are characters of the text that they are cut out of. -/
theorem Scans.content_subset {depth : Nat} {t x : Text} {segments : List Segment} (h : Scans depth t x segments) :
    x ⊆ t ∧ ∀ s ∈ segments, s.content ⊆ t := by
  have behind {r : Text} {segments : List Segment} (w : Text) (inside : ∀ s ∈ segments, s.content ⊆ r) :
      ∀ s ∈ segments, s.content ⊆ w ++ r := fun s member => List.subset_append_of_subset_right w (inside s member)
  induction h with
  | nil | bareEscape => simp
  | escaped d rest ih =>
    exact ⟨List.cons_subset_cons _ (List.cons_subset_cons d ih.1), behind [Literal.escape, d] ih.2⟩
  | opens rest ih | closes rest ih | plain _ _ _ rest ih =>
    exact ⟨List.cons_subset_cons _ ih.1, behind [_] ih.2⟩
  | groupOpens rest ih =>
    obtain ⟨front, inside⟩ := ih
    refine ⟨List.nil_subset _, behind ['('] (List.forall_mem_cons.mpr ⟨?_, inside⟩)⟩
    exact List.Subset.trans (Text.trim_subset _) front
  | groupCloses rest ih =>
    obtain ⟨front, inside⟩ := ih
    refine ⟨List.nil_subset _, behind [')'] fun s member => ?_⟩
    rcases List.mem_append.mp member with member | member
    · exact List.Subset.trans (content_subset_ofText s member) front
    · exact inside s member

theorem content_subset {t : Text} {segments : List Segment} (divided : ofMasked t = .ok segments) :
    ∀ s ∈ segments, s.content ⊆ t := by
  obtain ⟨x, later, read, rfl⟩ := exists_scans divided
  obtain ⟨front, back⟩ := read.content_subset
  intro s member
  rcases List.mem_append.mp member with member | member
  · exact List.Subset.trans (content_subset_ofText s member) front
  · exact back s member

end Criteria.Filter.Segment
