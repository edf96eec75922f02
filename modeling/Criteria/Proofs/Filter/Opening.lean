import Criteria.Proofs.Filter.Recognition
import Criteria.Proofs.Filter.Single

/-!
# What follows an opening bracket

A group holds conditions, and a condition has a field and an operator. So in a text that is read, every opening
bracket is followed by another one or by two words. In a text without blanks no two words stand side by side:
where brackets pair up in it, nothing that holds it between blanks is read.
-/

namespace Criteria.Filter

open Literal (Masked)

namespace Token

/-- Tokens that begin with an opening bracket or with two words. -/
def Leads : List Token → Prop
  | .opening :: _ | .word _ :: .word _ :: _ => True
  | _ => False

/-- Every opening bracket is followed by another one or by two words. -/
def OpeningsLead : List Token → Prop
  | [] => True
  | .opening :: r => Leads r ∧ OpeningsLead r
  | _ :: r => OpeningsLead r

/-- At least one of two tokens is a bracket. -/
def Parted : Token → Token → Prop
  | .word _, .word _ => False
  | _, _ => True

variable {x y : List Token}

theorem Leads.append (h : Leads x) (y : List Token) : Leads (x ++ y) := by
  match x, h with
  | .opening :: _, _ | .word _ :: .word _ :: _, _ => trivial

theorem leads_words {ws : List Text} (several : 2 ≤ ws.length) : Leads (ws.map .word) := by
  match ws, several with
  | _ :: _ :: _, _ => trivial

theorem OpeningsLead.append (h : OpeningsLead x) (h' : OpeningsLead y) : OpeningsLead (x ++ y) := by
  induction x with
  | nil => exact h'
  | cons token x ih =>
    cases token with
    | opening => exact ⟨h.1.append y, ih h.2⟩
    | closing | word w => exact ih h

theorem openingsLead_flatMap {A : Type} {as : List A} {tokens : A → List Token}
    (each : ∀ a ∈ as, OpeningsLead (tokens a)) : OpeningsLead (as.flatMap tokens) := by
  induction as with
  | nil => trivial
  | cons a as ih =>
    rw [List.forall_mem_cons] at each
    exact each.1.append (ih each.2)

theorem OpeningsLead.of_append (h : OpeningsLead (x ++ y)) : OpeningsLead y := by
  induction x with
  | nil => exact h
  | cons token x ih =>
    cases token with
    | opening => exact ih h.2
    | closing | word w => exact ih h

theorem openingsLead_words (ws : List Text) : OpeningsLead (ws.map .word) := by
  induction ws with
  | nil => trivial
  | cons w ws ih => exact ih

/-- Where every opening bracket leads, a bracket that is closed has two words side by side behind it. -/
theorem not_isChain_of_openingsLead {depth : Nat} (leads : Leads (x ++ y)) (openings : OpeningsLead (x ++ y))
    (closed : nest (depth + 1) x = some 0) : ¬ x.IsChain Parted := by
  intro apart
  induction x generalizing depth with
  | nil => cases closed
  | cons token x ih =>
    cases token with
    | closing => exact leads
    | opening => exact ih openings.1 openings.2 closed apart.tail
    | word v =>
      cases x with
      | nil => cases closed
      | cons token x =>
        cases token with
        | word w => exact (List.isChain_cons_cons.mp apart).1
        | opening | closing => exact leads

private theorem isChain_ofRun {run : Text × List Token} (solid : ∀ c ∈ run.1, ¬ Text.isBlank c)
    (apart : ∀ w, (word w :: run.2).IsChain Parted) : (ofRun run).IsChain Parted := by
  rw [ofRun]
  by_cases none : run.1 = []
  · rw [none, Text.words_nil]
    exact (apart []).tail
  · rw [Text.words_eq_singleton none solid]
    exact apart run.1

/-- In a text without blanks no two words stand side by side. -/
theorem isChain_ofMasked {t : Text} (solid : ∀ c ∈ t, ¬ Text.isBlank c) : (ofMasked t).IsChain Parted := by
  have run : (∀ c ∈ (scan t).1, ¬ Text.isBlank c) ∧ ∀ w, (word w :: (scan t).2).IsChain Parted := by
    fun_induction scan t with
    | case1 | case2 => exact ⟨solid, fun w => .singleton _⟩
    | case3 d r ih =>
      rw [List.forall_mem_cons, List.forall_mem_cons] at solid ⊢
      obtain ⟨front, apart⟩ := ih solid.2.2
      exact ⟨⟨solid.1, solid.2.1, front⟩, apart⟩
    | case4 r notEscape ih | case5 r notEscape notOpening ih =>
      obtain ⟨front, apart⟩ := ih (List.forall_mem_cons.mp solid).2
      refine ⟨List.forall_mem_nil _, fun w => .cons_cons trivial ?_⟩
      exact List.isChain_cons.mpr ⟨fun _ _ => trivial, isChain_ofRun front apart⟩
    | case6 c r notEscape notOpening notClosing ih =>
      rw [List.forall_mem_cons] at solid ⊢
      obtain ⟨front, apart⟩ := ih solid.2
      exact ⟨⟨solid.1, front⟩, apart⟩
  exact isChain_ofRun run.1 run.2

/-- The first bracket of those that pair up is an opening one. -/
theorem exists_opening (brackets : ∀ ws : List Text, x ≠ ws.map .word) (balanced : Balanced x) :
    ∃ (ws : List Text) (r : List Token), x = ws.map .word ++ .opening :: r ∧ nest 1 r = some 0 := by
  induction x with
  | nil => exact absurd rfl (brackets [])
  | cons token x ih =>
    cases token with
    | opening => exact ⟨[], x, rfl, balanced⟩
    | closing => cases balanced
    | word w =>
      have later : ∀ ws : List Text, x ≠ ws.map .word := fun ws same => brackets (w :: ws) (by rw [same]; rfl)
      obtain ⟨ws, r, rfl, closed⟩ := ih later balanced
      exact ⟨w :: ws, r, rfl, closed⟩

/-- Between words and other tokens stand brackets without two words side by side. They leave `after` brackets open,
    and what stands behind them closes none of these. -/
def Obstructed (after : Option Nat) (tokens : List Token) : Prop :=
  ∃ (ws : List Text) (x r : List Token), tokens = ws.map .word ++ (x ++ r) ∧ x.IsChain Parted ∧
    (∀ vs : List Text, x ≠ vs.map .word) ∧ nest 0 x = after ∧ ∀ k, after = some k → ∃ j, nest 0 r = some j

namespace Obstructed

variable {after : Option Nat}

theorem ne_nil (h : Obstructed after x) : x ≠ [] := by
  rintro rfl
  obtain ⟨ws, x, r, none, -, brackets, -⟩ := h
  obtain ⟨-, behind⟩ := List.append_eq_nil_iff.mp none.symm
  exact brackets [] (List.append_eq_nil_iff.mp behind).1

theorem nest_eq {k : Nat} (h : Obstructed (some k) x) : ∃ j, nest 0 x = some (j + k) := by
  obtain ⟨ws, x, r, rfl, -, -, inner, later⟩ := h
  obtain ⟨j, rest⟩ := later k rfl
  refine ⟨j, ?_⟩
  have shifted := nest_add rest k
  rw [Nat.zero_add] at shifted
  rw [nest_words_append, nest_append, inner]
  exact shifted

theorem nest_eq_none (h : Obstructed none x) : nest 0 x = none := by
  obtain ⟨ws, x, r, rfl, -, -, inner, -⟩ := h
  rw [nest_words_append, nest_append, inner]
  rfl

theorem append_word (h : Obstructed after x) (w : Text) (h' : Obstructed after y) :
    Obstructed after (x ++ .word w :: y) := by
  obtain ⟨ws, x, r, rfl, apart, brackets, inner, later⟩ := h
  refine ⟨ws, x, r ++ .word w :: y, by simp, apart, brackets, inner, ?_⟩
  rintro k rfl
  obtain ⟨i, first⟩ := later k rfl
  obtain ⟨j, second⟩ := h'.nest_eq
  have shifted := nest_add second i
  rw [Nat.zero_add] at shifted
  refine ⟨j + k + i, ?_⟩
  rw [nest_append, first]
  exact shifted

/-- Not every opening bracket leads, or the brackets do not pair up. -/
theorem not_openingsLead (h : Obstructed after x) (balanced : Balanced x) : ¬ OpeningsLead x := by
  intro openings
  match after with
  | none => exact absurd (balanced.symm.trans h.nest_eq_none) (by simp)
  | some (k + 1) =>
    obtain ⟨j, nested⟩ := h.nest_eq
    exact absurd (balanced.symm.trans nested) (by simp)
  | some 0 =>
    obtain ⟨ws, x, r, rfl, apart, brackets, closed, -⟩ := h
    obtain ⟨vs, inner, rfl, nested⟩ := exists_opening brackets closed
    have behind := openings.of_append
    rw [List.append_assoc] at behind
    obtain ⟨leads, later⟩ : Leads (inner ++ r) ∧ OpeningsLead (inner ++ r) := behind.of_append
    exact not_isChain_of_openingsLead leads later nested apart.right_of_append.tail

end Obstructed
end Token

/-! ## Texts that are read -/

section
variable {m : Masked} {t u : Text} {g g' : GroupTable} {parts : List Part} {segments : List Segment}

/-- A condition without a mark has a field and an operator. -/
theorem several_of_yields_readCondition (unmarked : ∀ w ∈ Text.words t, w.head? ≠ some Literal.sentinel)
    (read : Yields (readCondition m t) g parts g') : 2 ≤ (Text.words t).length := by
  match words : Text.words t with
  | [] => simp [readCondition, words] at read
  | [w] =>
    obtain ⟨n, number, -⟩ := GroupTable.yields_take?_some_iff.mp ((yields_readCondition_single_iff words).mp read)
    rw [GroupTable.markNumber?_eq_none (unmarked w (by rw [words]; exact List.mem_cons_self))] at number
    cases number
  | _ :: _ :: _ => simp

/-- A level without marks has as many words. -/
theorem several_of_yields_readFlat (unmarked : ∀ w ∈ Text.words t, w.head? ≠ some Literal.sentinel)
    (read : Yields (readFlat m t) g parts g') : 2 ≤ (Text.words t).length := by
  obtain ⟨p, ps, alternatives⟩ := List.exists_cons_of_ne_nil (Text.cut_ne_nil (Connector.between .or) t)
  obtain ⟨q, qs, conditions⟩ := List.exists_cons_of_ne_nil (Text.cut_ne_nil (Connector.between .and) p)
  rw [readFlat, alternatives] at read
  obtain ⟨_, _, first, -⟩ := yields_bind_iff.mp read
  obtain ⟨_, _, _, -, first, -⟩ := yields_mapM_cons_iff.mp first
  obtain ⟨_, _, first, -⟩ := yields_bind_iff.mp first
  rw [conditions] at first
  obtain ⟨_, _, _, -, first, -⟩ := yields_mapM_cons_iff.mp first
  have outer : p ∈ Text.cut (Connector.between .or) t := by
    rw [alternatives]
    exact List.mem_cons_self
  have inner : q ∈ Text.cut (Connector.between .and) p := by
    rw [conditions]
    exact List.mem_cons_self
  have within := ((Text.isStretch_of_mem_cut inner).trans (Text.isStretch_of_mem_cut outer)).words
  exact Nat.le_trans (several_of_yields_readCondition (fun w member => unmarked w (within.subset member)) first)
    within.length_le

/-- Every group of a level that is read is read. -/
theorem exists_yields_of_mem_group {after : Bool} {pieces : List Text}
    (read : Yields (readSegments m after segments) g pieces g') (member : .group u ∈ segments) :
    ∃ h parts h', Yields (readText m u) h parts h' := by
  induction segments generalizing after g pieces with
  | nil => simp at member
  | cons s segments ih =>
    cases s with
    | text t =>
      obtain ⟨front, next, back, -, later, -⟩ := yields_readSegments_text_iff.mp read
      exact ih later (by simpa using member)
    | group t =>
      obtain ⟨-, parts, h, back, inner, later, -⟩ := yields_readSegments_group_iff.mp read
      rcases List.mem_cons.mp member with same | member
      · cases same
        exact ⟨g, parts, h, inner⟩
      · exact ih later member

/-- A level begins with a group or with a condition. -/
theorem leads_of_yields_level
    (unmarked : ∀ u, .text u ∈ segments → ∀ w ∈ Text.words u, w.head? ≠ some Literal.sentinel)
    (sound : ∀ s ∈ segments, s.Sound) (apart : Segment.Apart segments)
    (read : Yields (do let pieces ← readSegments m true segments; readFlat m ([' '].intercalate pieces)) g parts g') :
    Token.Leads (segments.flatMap Segment.tokens) := by
  obtain ⟨pieces, h, first, last⟩ := yields_bind_iff.mp read
  cases segments with
  | nil => exact absurd (yields_readSegments_nil_iff.mp first).1 (by simp)
  | cons s segments =>
    cases s with
    | group u => trivial
    | text u =>
      refine (Token.leads_words ?_).append _
      obtain ⟨front, next, back, detached, later, rfl⟩ := yields_readSegments_text_iff.mp first
      cases next with
      | true =>
        -- a connector is taken off, and something stands before it
        obtain ⟨-, ends⟩ := words_of_detach detached
        obtain ⟨ws, c, words⟩ := ends rfl
        rcases detach_cases detached with ⟨_, -, ⟨⟩⟩ | ⟨named, -⟩ | ⟨-, ⟨⟩, -⟩
        have others : ws ≠ [] := by
          rintro rfl
          have trimmed : Text.Trimmed u := (sound _ List.mem_cons_self).1
          rw [trimmed.eq_of_words words, Connector.ofWord?_word] at named
          cases named
        have positive := List.length_pos_iff.mpr others
        rw [words, List.length_append, List.length_singleton]
        omega
      | false =>
        -- nothing else stands in the level
        obtain rfl := eq_of_detach_after detached
        cases segments with
        | nil =>
          obtain ⟨-, rfl, rfl⟩ := yields_readSegments_nil_iff.mp later
          rw [List.append_nil, List.intercalate_singleton] at last
          exact several_of_yields_readFlat (unmarked u List.mem_cons_self) last
        | cons s segments =>
          cases s with
          | text v => exact absurd apart.1 (by simp [Segment.beginsWithText])
          | group v => exact absurd (yields_readSegments_group_iff.mp later).1 Bool.false_ne_true

/-- Where a text is read, an opening bracket, and the text itself, goes on with another bracket or two words. -/
theorem leads_of_yields (unmarked : Unmarked t) (read : Yields (readText m t) g parts g') :
    Token.Leads (Token.ofMasked t) ∧ Token.OpeningsLead (Token.ofMasked t) := by
  induction t using readText_induction generalizing g parts g' with
  | flat t brackets =>
    rw [readText_flat brackets] at read
    rw [Token.ofMasked_of_bare brackets]
    exact ⟨Token.leads_words (several_of_yields_readFlat unmarked.head?_words read), Token.openingsLead_words _⟩
  | unpaired t e brackets failed =>
    obtain ⟨segments, divided⟩ := exists_segments_of_yields brackets read
    cases failed.symm.trans divided
  | whole t inner brackets divided ih =>
    rw [readText_group brackets divided] at read
    obtain ⟨leads, openings⟩ := ih (unmarked.group divided List.mem_cons_self) read
    rw [← Segment.flatMap_tokens divided, List.flatMap_singleton]
    exact ⟨trivial, leads.append _, openings.append trivial⟩
  | level t segments brackets divided several ih =>
    rw [readText_segments brackets divided several] at read
    rw [← Segment.flatMap_tokens divided]
    refine ⟨leads_of_yields_level (fun u => unmarked.text divided) (fun s => Segment.sound_of_mem_ofMasked divided)
      (Segment.apart_ofMasked divided) read, ?_⟩
    obtain ⟨pieces, h, first, -⟩ := yields_bind_iff.mp read
    refine Token.openingsLead_flatMap fun s member => ?_
    cases s with
    | text u => exact Token.openingsLead_words _
    | group u =>
      obtain ⟨_, _, _, inner⟩ := exists_yields_of_mem_group first member
      obtain ⟨leads, openings⟩ := ih u member (unmarked.group divided member) inner
      exact ⟨leads.append _, openings.append trivial⟩

/-- A text that is read has its brackets paired up. -/
theorem balanced_of_yields (read : Yields (readText m t) g parts g') : Token.Balanced (Token.ofMasked t) := by
  by_cases brackets : '(' ∈ t ∨ ')' ∈ t
  · exact (Segment.ofMasked_isOk_iff t).mp (exists_segments_of_yields brackets read)
  · exact Token.balanced_of_bare brackets

/-- A text is not read if brackets without two words side by side stand in it. -/
theorem not_yields_of_obstructed {after : Option Nat} (unmarked : Unmarked t)
    (obstructed : Token.Obstructed after (Token.ofMasked t)) : ¬ Yields (readText m t) g parts g' :=
  fun read => obstructed.not_openingsLead (balanced_of_yields read) (leads_of_yields unmarked read).2

end
end Criteria.Filter
