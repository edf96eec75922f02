import Criteria.Proofs.Filter.Alike
import Criteria.Proofs.Text.Squeeze

/-!
# Blanks outside literals

Masking leaves the blanks around literals where they are. So a text is masked to a trimmed text when it is
trimmed, and to a squeezed text when every run of blanks outside its literals is written as one space. Its
literals stay.
-/

namespace Criteria.Literal

open Criteria.Filter (ordinary_of_isBlank not_isBlank_of_mem_placeholder)
open Text (isBlank squeezeFrom squeeze)

/-- A text with one space for each run of blanks outside literals. The text begins inside a literal or outside
    of all, and perhaps in the middle of a run. -/
def respaceFrom (inside gap : Bool) : Text → Text
  | [] => []
  | c :: r =>
    if c = escape then
      match r with
      | [] => [c]
      | d :: r =>
        if isBlank d ∧ inside = false then c :: ' ' :: respaceFrom inside true r
        else c :: d :: respaceFrom inside false r
    else if c = quote then c :: respaceFrom (!inside) false r
    else if isBlank c ∧ inside = false then
      if gap then respaceFrom inside true r else ' ' :: respaceFrom inside true r
    else c :: respaceFrom inside false r
termination_by structural t => t

/-- A text with one space for each run of blanks outside literals. -/
def respace (t : Text) : Text := respaceFrom false false t

section
variable {t s : Text} {atoms : List Atom}

theorem Spells.append_blanks (h : Spells t atoms) (blank : ∀ c ∈ s, isBlank c) :
    ∃ others, Spells (t ++ s) others ∧ (∀ n, maskFrom n others = maskFrom n atoms ++ s) ∧
      others.filterMap Atom.content? = atoms.filterMap Atom.content? := by
  cases s with
  | nil => exact ⟨atoms, by rwa [List.append_nil], fun n => (List.append_nil _).symm, rfl⟩
  | cons c s =>
    have plain : ∀ d ∈ c :: s, Ordinary d := fun d member => ordinary_of_isBlank (blank d member)
    have blanks := Spells.nil.plain_append fun d member => plain d (List.mem_cons_of_mem c member)
    rw [List.append_nil] at blanks
    obtain ⟨others, spelled, text, contents⟩ := h.append_cons (plain c List.mem_cons_self) blanks
    refine ⟨others, spelled, fun n => ?_, ?_⟩
    · rw [text, maskFrom_plain_append, maskFrom, List.append_nil]
    · rw [contents, contents_plain_append, List.filterMap_nil, List.append_nil]

/-- A text without the blanks at its end still ends outside of all literals. -/
theorem Spells.of_append_blanks (blank : ∀ c ∈ s, isBlank c) (h : Spells (t ++ s) atoms) :
    ∃ others, Spells t others := by
  have unquoted : quote ∉ s := fun member => absurd (blank quote member) (by decide)
  generalize whole : t ++ s = u at h
  induction h generalizing t with
  | nil =>
    obtain ⟨rfl, -⟩ := List.append_eq_nil_iff.mp whole
    exact ⟨_, .nil⟩
  | bareEscape =>
    match t with
    | [] => exact ⟨_, .nil⟩
    | [c] =>
      obtain ⟨rfl, -⟩ := List.cons.inj whole
      exact ⟨_, .bareEscape⟩
    | c :: d :: t => simp at whole
  | escaped c rest ih =>
    match t with
    | [] => exact ⟨_, .nil⟩
    | [d] =>
      obtain ⟨rfl, -⟩ := List.cons.inj whole
      exact ⟨_, .bareEscape⟩
    | d :: e :: t =>
      obtain ⟨rfl, later⟩ := List.cons.inj whole
      obtain ⟨rfl, tail⟩ := List.cons.inj later
      obtain ⟨others, spelled⟩ := ih tail
      exact ⟨_, .escaped e spelled⟩
  | plain ordinary rest ih =>
    match t with
    | [] => exact ⟨_, .nil⟩
    | d :: t =>
      obtain ⟨rfl, tail⟩ := List.cons.inj whole
      obtain ⟨others, spelled⟩ := ih tail
      exact ⟨_, .plain ordinary spelled⟩
  | @literal inner _ u _ quoted rest ih =>
    match t with
    | [] => exact ⟨_, .nil⟩
    | d :: t =>
      obtain ⟨rfl, tail⟩ := List.cons.inj whole
      -- the quote that ends the literal is not among the blanks
      rcases Text.append_eq_append_cons_iff.mp tail with ⟨x, rfl, later⟩ | ⟨x, -, rfl⟩
      · obtain ⟨others, spelled⟩ := ih later.symm
        exact ⟨_, .literal quoted spelled⟩
      · exact absurd (by simp) unquoted

theorem Spells.of_blanks_append (blank : ∀ c ∈ s, isBlank c) (h : Spells (s ++ t) atoms) :
    ∃ others, Spells t others := by
  induction s generalizing atoms with
  | nil => exact ⟨atoms, h⟩
  | cons b s ih =>
    have ordinary := ordinary_of_isBlank (blank b List.mem_cons_self)
    generalize whole : b :: s ++ t = u at h
    cases h with
    | nil => simp at whole
    | plain _ rest =>
      obtain ⟨-, rfl⟩ := List.cons.inj whole
      exact ih (fun c member => blank c (List.mem_cons_of_mem _ member)) rest
    | bareEscape | escaped => exact absurd (List.cons.inj whole).1 ordinary.1
    | literal => exact absurd (List.cons.inj whole).1 ordinary.2.1

end

/-- Only the empty text is masked as the empty text. -/
theorem mask_text_eq_nil_iff {t : Text} {m : Masked} (masked : mask t = .ok m) : m.text = [] ↔ t = [] := by
  obtain ⟨atoms, spelled, rfl⟩ := mask_eq_ok_iff.mp masked
  exact spelled.maskFrom_eq_nil_iff 0

/-- Blanks at the ends stay where they are when a text is masked. -/
theorem exists_mask_of_trim {t : Text} {m : Masked} (masked : mask (Text.trim t) = .ok m) :
    ∃ a b, (∀ c ∈ a, isBlank c) ∧ (∀ c ∈ b, isBlank c) ∧ mask t = .ok ⟨a ++ m.text ++ b, m.literals⟩ := by
  obtain ⟨a, b, front, back, whole⟩ := Text.trim_between t
  obtain ⟨atoms, spelled, rfl⟩ := mask_eq_ok_iff.mp masked
  refine ⟨a, b, front, back, mask_eq_ok_iff.mpr ?_⟩
  obtain ⟨both, spelledBoth, text, contents⟩ := spelled.append_blanks back
  refine ⟨a.map .plain ++ both, ?_, ?_⟩
  · rw [whole, List.append_assoc]
    exact spelledBoth.plain_append fun c member => ordinary_of_isBlank (front c member)
  · rw [Masked.ofAtoms, maskFrom_plain_append, contents_plain_append, text, contents, List.append_assoc]
    rfl

/-- A trimmed text is masked to the trimmed text that the whole text is masked to. -/
theorem mask_trim_eq_ok_iff {t : Text} {k : Masked} :
    mask (Text.trim t) = .ok k ↔ ∃ m, mask t = .ok m ∧ k = ⟨Text.trim m.text, m.literals⟩ := by
  have trims {k : Masked} (masked : mask (Text.trim t) = .ok k) :
      ∃ m, mask t = .ok m ∧ k = ⟨Text.trim m.text, m.literals⟩ := by
    obtain ⟨a, b, front, back, whole⟩ := exists_mask_of_trim masked
    obtain ⟨atoms, spelled, rfl⟩ := mask_eq_ok_iff.mp masked
    have trimmed : Text.trim (a ++ maskFrom 0 atoms ++ b) = maskFrom 0 atoms :=
      Text.trim_eq front back ((spelled.trimmed_maskFrom_iff 0).mpr (Text.trimmed_trim t))
    exact ⟨_, whole, congrArg (Masked.mk · _) trimmed.symm⟩
  refine ⟨trims, ?_⟩
  rintro ⟨m, masked, rfl⟩
  obtain ⟨others, spelled⟩ : ∃ others, Spells (Text.trim t) others := by
    obtain ⟨a, b, front, back, whole⟩ := Text.trim_between t
    obtain ⟨atoms, spelled, -⟩ := mask_eq_ok_iff.mp masked
    rw [whole] at spelled
    obtain ⟨_, rest⟩ := spelled.of_append_blanks back
    exact rest.of_blanks_append front
  have trimmed : mask (Text.trim t) = .ok (Masked.ofAtoms others) := mask_eq_ok_iff.mpr ⟨others, spelled, rfl⟩
  obtain ⟨m', masked', same⟩ := trims trimmed
  cases masked.symm.trans masked'
  rw [trimmed, same]

section
variable (inside gap : Bool)

theorem respaceFrom_bareEscape : respaceFrom inside gap [escape] = [escape] := by
  rw [respaceFrom.eq_def]
  simp

theorem respaceFrom_escape (d : Char) (r : Text) :
    respaceFrom inside gap (escape :: d :: r) =
      if isBlank d ∧ inside = false then escape :: ' ' :: respaceFrom inside true r
      else escape :: d :: respaceFrom inside false r := by
  rw [respaceFrom.eq_def]
  simp

theorem respaceFrom_quote (r : Text) :
    respaceFrom inside gap (quote :: r) = quote :: respaceFrom (!inside) false r := by
  have notEscape : quote ≠ escape := by decide
  rw [respaceFrom.eq_def]
  simp [notEscape]

variable {inside}

theorem respaceFrom_cons {c : Char} (notEscape : c ≠ escape) (notQuote : c ≠ quote)
    (kept : inside = true ∨ ¬ isBlank c) (r : Text) : respaceFrom inside gap (c :: r) = c :: respaceFrom inside false r := by
  have other : ¬ (isBlank c ∧ inside = false) := by
    rintro ⟨blank, rfl⟩
    simp [blank] at kept
  rw [respaceFrom.eq_def]
  simp only [notEscape, notQuote, other, if_false]

theorem respaceFrom_blank {b : Char} (blank : isBlank b) (r : Text) :
    respaceFrom false gap (b :: r) =
      if gap then respaceFrom false true r else ' ' :: respaceFrom false true r := by
  obtain ⟨notEscape, notQuote, -⟩ := ordinary_of_isBlank blank
  rw [respaceFrom.eq_def]
  simp [notEscape, notQuote, blank]

end

/-- A literal stays as it is. -/
theorem Quoted.respaceFrom_append {inner content : Text} (h : Quoted inner content) (gap : Bool) (t : Text) :
    respaceFrom true gap (inner ++ quote :: t) = inner ++ quote :: respaceFrom false false t := by
  induction h generalizing gap with
  | nil => exact respaceFrom_quote true gap t
  | plain notQuote notEscape _ ih =>
    rw [List.cons_append, respaceFrom_cons gap notEscape notQuote (.inl rfl), ih]
    rfl
  | escaped c _ ih =>
    rw [List.cons_append, List.cons_append, respaceFrom_escape, if_neg (by simp), ih]
    rfl

/-- With one space for each run of blanks a text is masked to the squeezed masked text. -/
theorem Spells.respaced {t : Text} {atoms : List Atom} (h : Spells t atoms) (gap : Bool) :
    ∃ others, Spells (respaceFrom false gap t) others ∧
      (∀ n, maskFrom n others = squeezeFrom gap (maskFrom n atoms)) ∧
        others.filterMap Atom.content? = atoms.filterMap Atom.content? := by
  have notBlank : ¬ isBlank escape := by decide
  induction h generalizing gap with
  | nil => exact ⟨[], .nil, fun n => rfl, rfl⟩
  | bareEscape =>
    rw [respaceFrom_bareEscape]
    refine ⟨_, .bareEscape, fun n => ?_, rfl⟩
    rw [maskFrom, maskFrom, Text.squeezeFrom_cons notBlank, Text.squeezeFrom_nil]
  | escaped c rest ih =>
    rw [respaceFrom_escape]
    by_cases blank : isBlank c
    · obtain ⟨others, spelled, text, contents⟩ := ih true
      rw [if_pos ⟨blank, rfl⟩]
      refine ⟨_, .escaped ' ' spelled, fun n => ?_, contents⟩
      rw [maskFrom, maskFrom, Text.squeezeFrom_cons notBlank, (Text.squeezeFrom_blank blank _).2, text]
    · obtain ⟨others, spelled, text, contents⟩ := ih false
      rw [if_neg (by simp [blank])]
      refine ⟨_, .escaped c spelled, fun n => ?_, contents⟩
      rw [maskFrom, maskFrom, Text.squeezeFrom_cons notBlank, Text.squeezeFrom_cons blank, text]
  | @plain c _ _ ordinary rest ih =>
    by_cases blank : isBlank c
    · obtain ⟨others, spelled, text, contents⟩ := ih true
      rw [respaceFrom_blank gap blank]
      cases gap with
      | true => exact ⟨others, spelled, fun n => by rw [text, maskFrom, (Text.squeezeFrom_blank blank _).1], contents⟩
      | false =>
        refine ⟨_, .plain (by decide) spelled, fun n => ?_, contents⟩
        rw [maskFrom, text, maskFrom, (Text.squeezeFrom_blank blank _).2]
    · obtain ⟨others, spelled, text, contents⟩ := ih false
      rw [respaceFrom_cons gap ordinary.1 ordinary.2.1 (.inr blank)]
      refine ⟨_, .plain ordinary spelled, fun n => ?_, contents⟩
      rw [maskFrom, text, maskFrom, Text.squeezeFrom_cons blank]
  | literal quoted rest ih =>
    obtain ⟨others, spelled, text, contents⟩ := ih false
    rw [respaceFrom_quote, Bool.not_false, quoted.respaceFrom_append]
    refine ⟨_, .literal quoted spelled, fun n => ?_, by simpa [Atom.content?] using contents⟩
    rw [maskFrom, maskFrom, text, Text.squeezeFrom_solid_append (by simp [placeholder]) fun c =>
      not_isBlank_of_mem_placeholder]

private theorem isOk_scan_respaceFrom (inside gap : Bool) (t : Text) :
    (inside = false → ∀ p p', (Atom.scan p (respaceFrom inside gap t)).isOk = (Atom.scan p' t).isOk) ∧
      (inside = true → ∀ s p s' p',
        (Atom.scanLiteral s p (respaceFrom inside gap t)).isOk = (Atom.scanLiteral s' p' t).isOk) := by
  have isOk_map {A B : Type} (f : A → B) (x : Except SyntaxError A) : (x.map f).isOk = x.isOk := by
    cases x <;> rfl
  fun_induction respaceFrom inside gap t with
  | case1 => exact ⟨fun _ _ _ => rfl, fun _ _ _ _ _ => rfl⟩
  | case2 =>
    exact ⟨fun _ p p' => by rw [Atom.scan_bareEscape, Atom.scan_bareEscape], fun _ s p s' p' => by
      rw [Atom.scanLiteral_bareEscape, Atom.scanLiteral_bareEscape]; rfl⟩
  | case3 inside gap d r outside ih =>
    simp only [Atom.scan_escaped, Atom.scanLiteral_escaped, isOk_map]
    exact ⟨fun here p p' => ih.1 here _ _, fun here s p s' p' => ih.2 here _ _ _ _⟩
  | case4 inside gap d r _ ih =>
    simp only [Atom.scan_escaped, Atom.scanLiteral_escaped, isOk_map]
    exact ⟨fun here p p' => ih.1 here _ _, fun here s p s' p' => ih.2 here _ _ _ _⟩
  | case5 inside gap r _ ih =>
    simp only [Atom.scan_quote, Atom.scanLiteral_quote, isOk_map]
    refine ⟨fun here p p' => ih.2 (by simp [here]) _ _ _ _, fun here s p s' p' => ih.1 (by simp [here]) _ _⟩
  | case6 inside c r _ _ blank ih =>
    obtain ⟨blank, rfl⟩ := blank
    refine ⟨fun _ p p' => ?_, nofun⟩
    rw [Atom.scan_plain (ordinary_of_isBlank blank), isOk_map]
    exact ih.1 rfl _ _
  | case7 inside gap c r _ _ blank _ ih =>
    obtain ⟨blank, rfl⟩ := blank
    refine ⟨fun _ p p' => ?_, nofun⟩
    rw [Atom.scan_plain (ordinary_of_isBlank blank), Atom.scan_plain (by decide), isOk_map, isOk_map]
    exact ih.1 rfl _ _
  | case8 inside gap c r notEscape notQuote _ ih =>
    refine ⟨fun here p p' => ?_, fun here s p s' p' => ?_⟩
    · by_cases isSentinel : c = sentinel
      · rw [isSentinel, Atom.scan_sentinel, Atom.scan_sentinel]
        rfl
      · have ordinary : Ordinary c := ⟨notEscape, notQuote, isSentinel⟩
        rw [Atom.scan_plain ordinary, Atom.scan_plain ordinary, isOk_map, isOk_map]
        exact ih.1 here _ _
    · rw [Atom.scanLiteral_plain notQuote notEscape, Atom.scanLiteral_plain notQuote notEscape, isOk_map, isOk_map]
      exact ih.2 here _ _ _ _

/-- With one space for each run of blanks outside literals a text is masked to the squeezed masked text, with the
    same literals. -/
theorem mask_respace_eq_ok_iff {t : Text} {k : Masked} :
    mask (respace t) = .ok k ↔ ∃ m, mask t = .ok m ∧ k = ⟨squeeze m.text, m.literals⟩ := by
  have squeezes {m : Masked} (masked : mask t = .ok m) : mask (respace t) = .ok ⟨squeeze m.text, m.literals⟩ := by
    obtain ⟨atoms, spelled, rfl⟩ := mask_eq_ok_iff.mp masked
    obtain ⟨others, spelled, text, contents⟩ := spelled.respaced false
    refine mask_eq_ok_iff.mpr ⟨others, spelled, ?_⟩
    rw [Masked.ofAtoms, text, contents]
    rfl
  constructor
  · intro masked
    have isOk := (isOk_scan_respaceFrom false false t).1 rfl 0 0
    obtain ⟨atoms, read, -⟩ := map_eq_ok_iff.mp masked
    cases scanned : Atom.scan 0 t with
    | error e =>
      have read : Atom.scan 0 (respaceFrom false false t) = .ok atoms := read
      rw [read, scanned] at isOk
      cases isOk
    | ok others =>
      have whole : mask t = .ok (Masked.ofAtoms others) := by rw [mask, scanned]; rfl
      exact ⟨_, whole, Except.ok.inj (masked.symm.trans (squeezes whole))⟩
  · rintro ⟨m, masked, rfl⟩
    exact squeezes masked

end Criteria.Literal
