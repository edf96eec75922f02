import Criteria.Proofs.Filter.Meaning
import Criteria.Proofs.Filter.Reading

/-!
# Reading alike texts

A text that is alike to one that is read is read as well, from a table that holds other groups before
those of the text, and with related parts. The relation has to hold between comparisons of alike texts
and to be kept by joining.

A mark stands first in its text or right behind a connector with a space on both sides, so that every
condition in which it is not the only word is rejected: no value holds a mark.
-/

namespace Criteria.Filter

open Literal (Masked)
open Text (isBlank)

/-- What a relation of parts has to satisfy so that alike texts are read as related parts. -/
structure Compatible (l : Likeness) (m m' : Masked) (Related : List Part → List Part → Prop) : Prop where
  space : l.plain ' '
  compare : ∀ (field field' : Text) (o : Operator) (value value' : Text), IsField field → field ≠ [] →
    (∀ c ∈ field, ¬ isBlank c) → Alike l.flat.unmarked true field field' →
      Alike l.flat.unmarked true value value' →
        Related (compare (m.restore field) o (Value.ofMasked m value))
          (compare (m'.restore field') o (Value.ofMasked m' value'))
  join : ∀ (c : Connector) (members members' : List (List Part)), members ≠ [] →
    List.Forall₂ Related members members' → Related (join c members) (join c members')

/-- Two tables hold related groups behind others. -/
def TablesAlike (Related : List Part → List Part → Prop) (base base' g g' : GroupTable) : Prop :=
  ∃ new new', g = base ++ new ∧ g' = base' ++ new' ∧ List.Forall₂ (Option.Rel Related) new new'

/-- The second reading succeeds from an alike table if the first one does, with a related result. -/
def Follows {A A' : Type} (Related : List Part → List Part → Prop) (base base' : GroupTable)
    (Same : A → A' → Prop) (x : Reading A) (x' : Reading A') : Prop :=
  ∀ g g' a h, TablesAlike Related base base' g g' → Yields x g a h →
    ∃ a' h', Yields x' g' a' h' ∧ Same a a' ∧ TablesAlike Related base base' h h'

/-- The likeness of flat texts whose marks stand for groups behind others. -/
def Likeness.marked (l : Likeness) (base base' : GroupTable) : Likeness :=
  { l with marks := fun n n' => ∃ i, n = base.length + i ∧ n' = base'.length + i }

variable {Related : List Part → List Part → Prop} {base base' : GroupTable} {l : Likeness} {m m' : Masked}
variable {A A' B B' : Type}

theorem Follows.bind {Same : A → A' → Prop} {Same' : B → B' → Prop} {x : Reading A} {x' : Reading A'}
    {f : A → Reading B} {f' : A' → Reading B'} (h : Follows Related base base' Same x x')
    (next : ∀ a a', Same a a' → Follows Related base base' Same' (f a) (f' a')) :
    Follows Related base base' Same' (x >>= f) (x' >>= f') := by
  intro g g' b h₂ tables read
  obtain ⟨a, h₁, first, second⟩ := yields_bind_iff.mp read
  obtain ⟨a', h₁', first', same, tables₁⟩ := h g g' a h₁ tables first
  obtain ⟨b', h₂', second', same', tables₂⟩ := next a a' same h₁ h₁' b h₂ tables₁ second
  exact ⟨b', h₂', yields_bind_iff.mpr ⟨a', h₁', first', second'⟩, same', tables₂⟩

theorem Follows.pure {Same : A → A' → Prop} {a : A} {a' : A'} (same : Same a a') :
    Follows Related base base' Same (pure a) (pure a') := by
  intro g g' b h tables read
  obtain ⟨rfl, rfl⟩ := yields_pure_iff.mp read
  exact ⟨a', g', yields_pure_iff.mpr ⟨rfl, rfl⟩, same, tables⟩

/-- A reading that fails is followed by any other. -/
theorem Follows.throw_bind {Same : B → B' → Prop} {e : SyntaxError} {f : A → Reading B} {x' : Reading B'} :
    Follows Related base base' Same (throw e >>= f) x' := by
  intro g g' b k tables read
  obtain ⟨a, h, first, -⟩ := yields_bind_iff.mp read
  exact absurd first not_yields_throw

theorem Follows.throw {Same : A → A' → Prop} {e : SyntaxError} {x' : Reading A'} :
    Follows Related base base' Same (throw e) x' :=
  fun _ _ _ _ _ read => absurd read not_yields_throw

theorem Follows.lift {Same : A → A' → Prop} {x : Except SyntaxError A} {x' : Except SyntaxError A'}
    (h : ∀ a, x = .ok a → ∃ a', x' = .ok a' ∧ Same a a') :
    Follows Related base base' Same (liftM x) (liftM x') := by
  intro g g' a k tables read
  obtain ⟨result, rfl⟩ := yields_lift_iff.mp read
  obtain ⟨a', result', same⟩ := h a result
  exact ⟨a', g', yields_lift_iff.mpr ⟨result', rfl⟩, same, tables⟩

theorem Follows.mapM {R : Text → Text → Prop} {Same : A → A' → Prop} {f : Text → Reading A}
    {f' : Text → Reading A'} {ts ts' : List Text} (alike : List.Forall₂ R ts ts')
    (one : ∀ t ∈ ts, ∀ t', R t t' → Follows Related base base' Same (f t) (f' t')) :
    Follows Related base base' (fun as as' => List.Forall₂ Same as as' ∧ as.length = ts.length)
      (ts.mapM f) (ts'.mapM f') := by
  induction alike with
  | nil =>
    rw [List.mapM_nil, List.mapM_nil]
    exact Follows.pure ⟨.nil, rfl⟩
  | @cons t t' ts ts' first rest ih =>
    rw [List.mapM_cons, List.mapM_cons]
    refine Follows.bind (one t List.mem_cons_self t' first) fun a a' same => ?_
    refine Follows.bind (ih fun u member => one u (List.mem_cons_of_mem _ member)) fun as as' others => ?_
    exact Follows.pure ⟨.cons same others.1, congrArg (· + 1) others.2⟩

private theorem forall₂_getElem? {R : A → A' → Prop} {as : List A} {as' : List A'} (h : List.Forall₂ R as as')
    {i : Nat} {a : A} (held : as[i]? = some a) : ∃ a', as'[i]? = some a' ∧ R a a' := by
  induction h generalizing i with
  | nil => simp at held
  | @cons b b' _ _ first rest ih =>
    cases i with
    | zero =>
      cases held
      exact ⟨b', rfl, first⟩
    | succ i => exact ih held

private theorem forall₂_set {R : A → A' → Prop} {as : List A} {as' : List A'} (h : List.Forall₂ R as as')
    {a : A} {a' : A'} (same : R a a') (i : Nat) : List.Forall₂ R (as.set i a) (as'.set i a') := by
  induction h generalizing i with
  | nil => exact .nil
  | cons first rest ih =>
    cases i with
    | zero => exact .cons same rest
    | succ i => exact .cons first (ih i)

-- What a mark takes out of one table is related to what the mark that answers it takes out of the other.
private theorem exists_taken {token token' : Text} (h : Alike (l.marked base base') true token token')
    (solid : ∀ c ∈ token, ¬ isBlank c) {g g' k : GroupTable} {parts : List Part}
    (tables : TablesAlike Related base base' g g') (read : Yields (GroupTable.take? token) g (some parts) k) :
    ∃ parts' k', Yields (GroupTable.take? token') g' (some parts') k' ∧ Related parts parts' ∧
      TablesAlike Related base base' k k' := by
  obtain ⟨n, number, held, rfl⟩ := GroupTable.yields_take?_some_iff.mp read
  have notMark (other : token.head? ≠ some Literal.sentinel) : False := by
    rw [GroupTable.markNumber?_eq_none other] at number
    cases number
  have alone {r : Text} (ends : Text.EndsWord r) (solid : ∀ c ∈ r, ¬ isBlank c) : r = [] := by
    cases r with
    | nil => rfl
    | cons c r => exact absurd (ends c rfl) (solid c List.mem_cons_self)
  cases h with
  | nil => exact (notMark nofun).elim
  | bareEscape => exact (notMark (by decide)).elim
  | escaped => exact (notMark (by simp [Literal.escape, Literal.sentinel])).elim
  | plain ordinary => exact (notMark (by simpa using ordinary.2.2)).elim
  | literal => exact (notMark (by simp [Literal.placeholder, Literal.quote, Literal.sentinel])).elim
  | @mark a a' r r' same ends ends' rest =>
    have empty : r = [] := alone ends fun c member => solid c (List.mem_append_right _ member)
    have empty' : r' = [] := rest.eq_nil_iff.mp empty
    subst empty empty'
    obtain ⟨i, rfl, rfl⟩ := same
    rw [List.append_nil, GroupTable.markNumber?_mark] at number
    rw [List.append_nil]
    cases number
    obtain ⟨new, new', rfl, rfl, related⟩ := tables
    rw [List.getElem?_append_right (Nat.le_add_right _ _), Nat.add_sub_cancel_left] at held
    obtain ⟨slot, held', same⟩ := forall₂_getElem? related held
    cases same with
    | @some _ parts' same =>
      refine ⟨parts', (base' ++ new').set (base'.length + i) none, ?_, same, ?_⟩
      · rw [GroupTable.yields_take?_some_iff]
        refine ⟨_, GroupTable.markNumber?_mark _, ?_, rfl⟩
        rw [List.getElem?_append_right (Nat.le_add_right _ _), Nat.add_sub_cancel_left]
        exact held'
      · refine ⟨new.set i none, new'.set i none, ?_, ?_, forall₂_set related .none i⟩
        · rw [List.set_append_right _ _ (Nat.le_add_right _ _), Nat.add_sub_cancel_left]
        · rw [List.set_append_right _ _ (Nat.le_add_right _ _), Nat.add_sub_cancel_left]

theorem follows_store {parts parts' : List Part} (same : Related parts parts') :
    Follows Related base base' (fun k k' => ∃ i, k = GroupTable.mark (base.length + i) ∧
      k' = GroupTable.mark (base'.length + i)) (GroupTable.store parts) (GroupTable.store parts') := by
  rintro g g' k h ⟨new, new', rfl, rfl, related⟩ read
  obtain ⟨rfl, rfl⟩ := GroupTable.yields_store_iff.mp read
  refine ⟨_, _, GroupTable.yields_store_iff.mpr ⟨rfl, rfl⟩, ⟨new.length, by simp, ?_⟩, ?_⟩
  · rw [List.length_append, related.length_eq]
  · refine ⟨new ++ [some parts], new' ++ [some parts'], by simp, by simp, ?_⟩
    exact List.rel_append related (.cons (.some same) .nil)

/-- Every mark of a text stands first or behind a connector with a space on both sides; any other
    sentinel is escaped. -/
def MarksLed (t : Text) : Prop :=
  ∀ a r, t = a ++ Literal.sentinel :: r →
    a.getLast? = some Literal.escape ∨ a = [] ∨ ∃ c : Connector, c.between <:+ ' ' :: a

theorem MarksLed.front {c : Connector} {x y : Text} (h : MarksLed (x ++ c.between ++ y)) : MarksLed x := by
  rintro a r rfl
  exact h a (r ++ c.between ++ y) (by simp)

theorem MarksLed.back {c : Connector} {x y : Text} (h : MarksLed (x ++ c.between ++ y)) : MarksLed y := by
  rintro a r rfl
  by_cases empty : a = []
  · exact .inr (.inl empty)
  rcases h (x ++ c.between ++ a) r (by simp) with escaped | none | ⟨d, behind⟩
  · rw [List.getLast?_append, List.getLast?_eq_some_getLast empty, Option.some_or] at escaped
    exact .inl (by rw [List.getLast?_eq_some_getLast empty]; exact escaped)
  · exact absurd (List.append_eq_nil_iff.mp none).2 empty
  · have spaced : ' ' :: a <:+ ' ' :: (x ++ c.between ++ a) :=
      ⟨' ' :: (x ++ ' ' :: c.word), by simp [Connector.between]⟩
    rcases Nat.le_total d.between.length (' ' :: a).length with short | long
    · exact .inr (.inr ⟨d, List.suffix_of_suffix_length_le behind spaced short⟩)
    · obtain ⟨z, whole⟩ := List.suffix_of_suffix_length_le spaced behind long
      cases z with
      | nil => exact .inr (.inr ⟨d, [], whole.symm⟩)
      | cons b z =>
        -- the connector itself would hold a space
        have inner : z ++ ' ' :: a = d.word ++ [' '] := (List.cons.inj whole).2
        obtain ⟨a', e, rfl⟩ : ∃ a' e, a = a' ++ [e] := ⟨_, _, (List.dropLast_concat_getLast empty).symm⟩
        rw [← List.cons_append, ← List.append_assoc] at inner
        have word := (List.append_inj' inner rfl).1
        exact absurd Text.isBlank_space (d.solid_word ' ' (by rw [← word]; simp))

/-- The pieces of a text without further connectors hold their marks in the same way. -/
theorem MarksLed.of_mem_cut {c : Connector} {t p : Text} (h : MarksLed t) (member : p ∈ Text.cut c.between t) :
    MarksLed p := by
  have separator : c.between ≠ [] := Text.between_ne_nil c.word
  induction t using Text.piece_induction separator with
  | last t bare =>
    rw [Text.cut_eq_singleton bare, List.mem_singleton] at member
    rwa [member]
  | more x y first ih =>
    rw [Text.cut_append separator first] at member
    rcases List.mem_cons.mp member with rfl | later
    · exact h.front
    · exact ih h.back later

theorem Alike.escaped_sentinel {first : Bool} {t t' : Text} (h : Alike l first t t')
    (unmarked : ∀ n n', ¬ l.marks n n') {a r : Text} (whole : t = a ++ Literal.sentinel :: r) :
    a.getLast? = some Literal.escape := by
  have behind {x b : Text} (last : b.getLast? = some Literal.escape) :
      (x ++ b).getLast? = some Literal.escape := by
    rw [List.getLast?_append, last, Option.some_or]
  induction h generalizing a with
  | nil => simp at whole
  | bareEscape =>
    cases a with
    | nil => exact absurd (List.cons.inj whole).1 (by decide)
    | cons => simp at whole
  | escaped c rest ih =>
    match a with
    | [] => exact absurd (List.cons.inj whole).1 (by decide)
    | [d] => exact congrArg some (List.cons.inj whole).1.symm
    | d :: e :: a =>
      obtain ⟨-, later⟩ := List.cons.inj whole
      exact behind (x := [d, e]) (ih (List.cons.inj later).2)
  | plain ordinary allowed rest ih =>
    cases a with
    | nil => exact absurd (List.cons.inj whole).1 ordinary.2.2
    | cons d a => exact behind (x := [d]) (ih (List.cons.inj whole).2)
  | literal same rest ih =>
    have absent (n : Nat) : Literal.sentinel ∉ Literal.placeholder n := by
      intro member
      rcases mem_placeholder member with same | digit
      · exact absurd same (by decide)
      · exact absurd digit (by decide)
    obtain ⟨b, rfl, tail⟩ := Text.exists_of_append_eq whole (absent _)
    exact behind (ih tail)
  | mark same => exact absurd same (unmarked _ _)

/-- A text in which every sentinel is escaped has no marks. -/
theorem Alike.to_unmarked {first : Bool} {t t' : Text} (h : Alike l first t t')
    (escaped : ∀ a r, t = a ++ Literal.sentinel :: r →
      a.getLast? = some Literal.escape ∨ a = [] ∧ first = false) : Alike l.unmarked first t t' := by
  have shift {x t : Text} {first later : Bool} (h : ∀ a r, x ++ t = a ++ Literal.sentinel :: r →
        a.getLast? = some Literal.escape ∨ a = [] ∧ first = false) (nonempty : x ≠ [])
      (last : x.getLast? = some Literal.escape → later = false) :
      ∀ a r, t = a ++ Literal.sentinel :: r → a.getLast? = some Literal.escape ∨ a = [] ∧ later = false := by
    rintro a r rfl
    rcases h (x ++ a) r (by simp) with ends | ⟨none, -⟩
    · by_cases empty : a = []
      · rw [empty, List.append_nil] at ends
        exact .inr ⟨empty, last ends⟩
      · rw [List.getLast?_append, List.getLast?_eq_some_getLast empty, Option.some_or] at ends
        exact .inl (by rw [List.getLast?_eq_some_getLast empty]; exact ends)
    · exact absurd (List.append_eq_nil_iff.mp none).1 nonempty
  induction h with
  | nil first => exact .nil first
  | bareEscape first => exact .bareEscape first
  | escaped c rest ih =>
    refine .escaped c (ih (shift (x := [Literal.escape, c]) escaped (by simp) ?_))
    intro last
    obtain rfl : c = Literal.escape := by simpa using last
    decide
  | @plain first c t t' ordinary allowed rest ih =>
    refine .plain ordinary allowed (ih (shift (x := [c]) escaped (by simp) ?_))
    intro last
    exact absurd (by simpa using last) ordinary.1
  | literal same rest ih =>
    refine .literal same (ih (shift escaped (by simp [Literal.placeholder]) ?_))
    intro last
    rfl
  | mark same ends ends' rest ih =>
    rcases escaped [] _ (by simp [GroupTable.mark, GroupTable.markStart]; rfl) with last | ⟨-, other⟩
    · simp at last
    · cases other

/-! ## Pieces of a level -/

/-- Wherever the pieces stand, with a space before each, they hold their marks behind connectors; with
    `after` they may also begin with a mark, if a connector or nothing stands before them. -/
def SpacedLed (after : Bool) (pieces : List Text) : Prop :=
  ∀ x : Text, (after = true → x = [] ∨ ∃ c : Connector, ' ' :: c.word <:+ x) →
    ∀ a r, pieces.flatMap (' ' :: ·) = a ++ Literal.sentinel :: r →
      (x ++ a).getLast? = some Literal.escape ∨ x ++ a = [' '] ∨ ∃ c : Connector, c.between <:+ x ++ a

theorem spacedLed_nil (after : Bool) : SpacedLed after [] := by
  intro x _ a r whole
  simp at whole

theorem spacedLed_group (n : Nat) {back : List Text} (h : SpacedLed false back) :
    SpacedLed true (GroupTable.mark n :: back) := by
  intro x before a r whole
  rw [List.flatMap_cons] at whole
  rcases Text.append_eq_append_cons_iff.mp whole with ⟨r', inside, -⟩ | ⟨a', rfl, later⟩
  · have front : a = [' '] := by
      rcases a with _ | ⟨b, _ | ⟨d, a⟩⟩
      · exact absurd (List.cons.inj inside).1 (by decide)
      · rw [(List.cons.inj inside).1]
      · obtain ⟨-, mark⟩ := List.cons.inj inside
        have member : Literal.sentinel ∈ 'g' :: Text.ofNat n := by
          rw [show 'g' :: Text.ofNat n = a ++ Literal.sentinel :: r' from (List.cons.inj mark).2]
          simp
        rcases List.mem_cons.mp member with same | digit
        · exact absurd same (by decide)
        · exact absurd ((Text.isDigits_ofNat n).2 _ digit) (by decide)
    rw [front]
    rcases before rfl with rfl | ⟨c, z, rfl⟩
    · exact .inr (.inl rfl)
    · exact .inr (.inr ⟨c, z, by simp [Connector.between]⟩)
  · rw [← List.append_assoc]
    exact h (x ++ ' ' :: GroupTable.mark n) (by simp) a' r later

theorem spacedLed_text {after next : Bool} {front back : List Text}
    (escaped : ∀ p ∈ front, ∀ a r, p = a ++ Literal.sentinel :: r → a.getLast? = some Literal.escape)
    (ends : next = true → ∃ c : Connector, front.getLast? = some c.word) (h : SpacedLed next back) :
    SpacedLed after (front ++ back) := by
  intro x before a r whole
  rw [List.flatMap_append] at whole
  rcases Text.append_eq_append_cons_iff.mp whole with ⟨r', inside, -⟩ | ⟨a', rfl, later⟩
  · left
    clear whole before ends
    induction front generalizing x a with
    | nil => simp at inside
    | cons p front ih =>
      rw [List.flatMap_cons] at inside
      rcases Text.append_eq_append_cons_iff.mp inside with ⟨q, inPiece, -⟩ | ⟨a', rfl, later⟩
      · cases a with
        | nil => exact absurd (List.cons.inj inPiece).1 (by decide)
        | cons b a =>
          have last := escaped p List.mem_cons_self a q (List.cons.inj inPiece).2
          rw [List.getLast?_append, List.getLast?_cons, last]
          rfl
      · rw [← List.append_assoc]
        exact ih (fun q member => escaped q (List.mem_cons_of_mem _ member)) _ _ later
  · rw [← List.append_assoc]
    refine h (x ++ front.flatMap (' ' :: ·)) ?_ a' r later
    intro connector
    obtain ⟨c, last⟩ := ends connector
    obtain ⟨others, rfl⟩ := List.getLast?_eq_some_iff.mp last
    exact .inr ⟨c, x ++ others.flatMap (' ' :: ·), by simp⟩

private theorem intercalate_space (pieces : List Text) (nonempty : pieces ≠ []) :
    pieces.flatMap (' ' :: ·) = ' ' :: [' '].intercalate pieces := by
  induction pieces with
  | nil => exact absurd rfl nonempty
  | cons p r ih =>
    cases r with
    | nil => simp
    | cons q r =>
      rw [List.flatMap_cons, ih (by simp), List.intercalate_cons_cons]
      simp

theorem marksLed_of_spacedLed {pieces : List Text} (h : SpacedLed true pieces) :
    MarksLed ([' '].intercalate pieces) := by
  intro a r whole
  have nonempty : pieces ≠ [] := by
    rintro rfl
    simp at whole
  have spaced := intercalate_space pieces nonempty
  rw [whole] at spaced
  rcases h [] (fun _ => .inl rfl) (' ' :: a) r spaced with last | only | behind
  · rw [List.nil_append, List.getLast?_cons] at last
    cases ends : a.getLast? with
    | none =>
      rw [ends] at last
      exact absurd last (by decide)
    | some d =>
      rw [ends] at last
      exact .inl last
  · exact .inr (.inl (List.cons.inj only).2)
  · exact .inr (.inr behind)

/-! ## Conditions -/

private theorem sentinel_solid : ¬ isBlank Literal.sentinel := by decide

private theorem unmarked_of_read {first : Bool} {t t' first' second : Text} {rest : List Text}
    (h : Alike l first t t') (led : MarksLed t) (uncut : ∀ c : Connector, ¬ c.between <:+: t)
    (words : Text.words t = first' :: second :: rest) (plain : ∀ c : Connector, first' ≠ c.word)
    (unmarked : first'.head? ≠ some Literal.sentinel) : Alike l.unmarked first t t' := by
  obtain ⟨s, behind, blank, whole, -, -⟩ := Text.exists_of_words_eq_cons words
  apply h.to_unmarked
  intro a r split
  rcases led a r split with escaped | rfl | ⟨c, z, spaced⟩
  · exact .inl escaped
  · -- the text would begin with the mark, and so would its first word
    exfalso
    rw [List.nil_append] at split
    cases s with
    | cons b s =>
      obtain ⟨rfl, -⟩ := List.cons.inj (whole.symm.trans split)
      exact sentinel_solid (blank _ List.mem_cons_self)
    | nil =>
      cases first' with
      | nil => exact Text.ne_nil_of_mem_words (by rw [words]; exact List.mem_cons_self) rfl
      | cons d w =>
        obtain ⟨rfl, -⟩ := List.cons.inj (whole.symm.trans split)
        exact unmarked rfl
  · exfalso
    cases z with
    | nil =>
      have front : a = c.word ++ [' '] := (List.cons.inj spaced).2.symm
      rw [front, List.append_assoc, List.singleton_append] at split
      rw [split, Text.words_append_space, c.words_word] at words
      exact plain c (List.cons.inj words).1.symm
    | cons b z =>
      obtain ⟨-, rfl⟩ := List.cons.inj spaced
      exact uncut c ⟨z, Literal.sentinel :: r, split.symm⟩

private theorem dangling?_eq {first : Bool} {ws ws' : List Text} (h : List.Forall₂ (Alike l first) ws ws') :
    dangling? ws = dangling? ws' := by
  have lasts : ws.getLast?.bind Connector.ofWord? = ws'.getLast?.bind Connector.ofWord? := by
    induction h with
    | nil => rfl
    | cons one rest ih =>
      cases rest with
      | nil => exact one.ofWord?_eq
      | cons => simpa [List.getLast?_cons_cons] using ih
  have heads : ws.head?.bind Connector.ofWord? = ws'.head?.bind Connector.ofWord? := by
    cases h with
    | nil => rfl
    | cons one rest => exact one.ofWord?_eq
  rw [dangling?, dangling?, heads, lasts]

-- The words of a comparison are alike to words of a comparison that is split in the same way.
private theorem exists_split {negated : Bool} {field keyword : Text} {value ws' : List Text}
    (h : List.Forall₂ (Alike l true) ((if negated then [notWord] else []) ++ field :: keyword :: value) ws') :
    ∃ field' keyword' value', ws' = (if negated then [notWord] else []) ++ field' :: keyword' :: value' ∧
      Alike l true field field' ∧ Alike l true keyword keyword' ∧ List.Forall₂ (Alike l true) value value' := by
  have comparison {ws' : List Text} (h : List.Forall₂ (Alike l true) (field :: keyword :: value) ws') :
      ∃ field' keyword' value', ws' = field' :: keyword' :: value' ∧ Alike l true field field' ∧
        Alike l true keyword keyword' ∧ List.Forall₂ (Alike l true) value value' := by
    cases h with
    | cons first rest =>
      cases rest with
      | cons second others => exact ⟨_, _, _, rfl, first, second, others⟩
  cases negated with
  | false => exact comparison h
  | true =>
    cases h with
    | cons first rest =>
      obtain rfl := first.eq_of_bare (by decide)
      obtain ⟨field', keyword', value', rfl, alike⟩ := comparison rest
      exact ⟨field', keyword', value', rfl, alike⟩

variable (compatible : Compatible l m m' Related) {t t' : Text}

include compatible

theorem follows_condition (h : Alike (l.flat.marked base base') true t t') (led : MarksLed t)
    (uncut : ∀ c : Connector, ¬ c.between <:+: t) :
    Follows Related base base' Related (readCondition m t) (readCondition m' t') := by
  intro g g' parts k tables read
  match words : Text.words t with
  | [] => simp [readCondition, words] at read
  | [token] =>
    have alike := h.words
    rw [words] at alike
    obtain ⟨token', others, one, none, words'⟩ := List.forall₂_cons_left_iff.mp alike
    cases none
    rw [yields_readCondition_single_iff words] at read
    have solid := Text.solid_of_mem_words (t := t) (w := token) (by rw [words]; exact List.mem_cons_self)
    obtain ⟨parts', k', read', same, tables'⟩ := exists_taken one solid tables read
    exact ⟨parts', k', (yields_readCondition_single_iff words').mpr read', same, tables'⟩
  | first :: second :: rest =>
    obtain ⟨plain, unmarked⟩ := first_of_yields_readCondition words read
    have unmarkedAlike : Alike (l.flat.marked base base').unmarked true t t' :=
      unmarked_of_read h led uncut words plain unmarked
    have space : (l.flat.marked base base').unmarked.plain ' ' := ⟨compatible.space, fun _ => by decide⟩
    have noMarks : ∀ n n', ¬ l.flat.unmarked.marks n n' := fun _ _ => id
    obtain ⟨rfl, negated, field, keyword, value, split, negates, compared⟩ :=
      exists_of_yields_readCondition words read
    have alike := unmarkedAlike.words
    rw [split] at alike
    obtain ⟨field', keyword', value', split', fields, keywords, values⟩ := exists_split alike
    obtain ⟨isField, -, edges, o, rfl, rfl⟩ := readComparison_eq_ok_iff.mp compared
    have member : field ∈ Text.words t := by
      rw [split]
      simp
    have written : keyword' = o.word := by
      refine (keywords.eq_of_bare ?_).symm
      cases o <;> decide
    have negates' : field' = notWord → negated = true := by
      rintro rfl
      exact negates (fields.symm.eq_of_bare (by decide)).symm
    refine ⟨_, g', ?_, compatible.compare field field' (if negated then o.negate else o) _ _ isField
      (Text.ne_nil_of_mem_words member) (Text.solid_of_mem_words member) fields
      (Alike.intercalate_space space values), tables⟩
    rw [readCondition_eq split' negates', yields_lift_iff, readComparison_eq_ok_iff]
    refine ⟨⟨fields.isField noMarks isField, ?_, ?_, o, written, rfl⟩, rfl⟩
    · exact fields.symm.head?_ne_sentinel fun n n' => noMarks n' n
    · rw [← dangling?_eq values]
      exact edges

private theorem follows_joined (c : Connector) {f f' : Text → Reading (List Part)}
    (h : Alike (l.flat.marked base base') true t t')
    (one : ∀ p ∈ Text.cut c.between t, ∀ p', Alike (l.flat.marked base base') true p p' →
      Follows Related base base' Related (f p) (f' p')) :
    Follows Related base base' Related
      (do let members ← (Text.cut c.between t).mapM f; return join c members)
      (do let members ← (Text.cut c.between t').mapM f'; return join c members) := by
  refine Follows.bind (Follows.mapM (h.cut c) one) ?_
  rintro members members' ⟨same, size⟩
  refine Follows.pure (compatible.join c members members' ?_ same)
  rintro rfl
  exact Text.cut_ne_nil _ t (List.length_eq_zero_iff.mp size.symm)

theorem follows_flat (h : Alike (l.flat.marked base base') true t t') (led : MarksLed t) :
    Follows Related base base' Related (readFlat m t) (readFlat m' t') := by
  have separator (c : Connector) : c.between ≠ [] := Text.between_ne_nil c.word
  refine follows_joined compatible .or h fun p member p' alike => ?_
  refine follows_joined compatible .and alike fun q inner q' alike => ?_
  refine follows_condition compatible alike ((led.of_mem_cut member).of_mem_cut inner) fun c within => ?_
  cases c with
  | and => exact Text.not_infix_of_mem_cut (separator .and) inner within
  | or =>
    have outer := within.trans (Text.infix_of_mem_cut (separator .and) inner)
    exact Text.not_infix_of_mem_cut (separator .or) member outer

/-! ## Texts with brackets -/

omit compatible in
private theorem to_flat {first : Bool} (h : Alike l first t t') (unmarked : ∀ n n', ¬ l.marks n n')
    (bare : ∀ c ∈ t, c ≠ '(' ∧ c ≠ ')') : Alike (l.flat.marked base base') first t t' := by
  induction h with
  | nil first => exact .nil first
  | bareEscape first => exact .bareEscape first
  | escaped c rest ih =>
    exact .escaped c (ih fun d member => bare d (List.mem_cons_of_mem _ (List.mem_cons_of_mem _ member)))
  | plain ordinary allowed rest ih =>
    exact .plain ordinary ⟨allowed, fun _ => bare _ List.mem_cons_self⟩
      (ih fun d member => bare d (List.mem_cons_of_mem _ member))
  | literal same rest ih => exact .literal same (ih fun d member => bare d (List.mem_append_right _ member))
  | mark same => exact absurd same (unmarked _ _)

/-- Alike pieces whose marks stand behind spaces once more items were read before them. -/
private def PiecesAlike (l : Likeness) (base base' : GroupTable) (after : Bool) (pieces pieces' : List Text) : Prop :=
  List.Forall₂ (Alike (l.flat.marked base base') true) pieces pieces' ∧ SpacedLed after pieces

omit compatible in
private theorem PiecesAlike.group {back back' : List Text} (h : PiecesAlike l base base' false back back') (i : Nat) :
    PiecesAlike l base base' true (GroupTable.mark (base.length + i) :: back)
      (GroupTable.mark (base'.length + i) :: back') := by
  refine ⟨.cons ?_ h.1, spacedLed_group _ h.2⟩
  have mark : Alike (l.flat.marked base base') true (GroupTable.mark (base.length + i) ++ [])
      (GroupTable.mark (base'.length + i) ++ []) := .mark ⟨i, rfl, rfl⟩ nofun nofun (.nil false)
  rwa [List.append_nil, List.append_nil] at mark

omit compatible in
private theorem follows_detach (unmarked : ∀ n n', ¬ l.marks n n') (alike : Alike l.flat true t t') (after : Bool) :
    Follows Related base base'
      (fun result result' => result'.2 = result.2 ∧ ∀ back back', PiecesAlike l base base' result.2 back back' →
        PiecesAlike l base base' after (result.1 ++ back) (result'.1 ++ back'))
      (liftM (detach m after t)) (liftM (detach m' after t')) := by
  refine Follows.lift fun ⟨front, next⟩ detached => ?_
  obtain ⟨front', detached', fronts⟩ := alike.detach detached
  have marked : List.Forall₂ (Alike (l.flat.marked base base') true) front front' :=
    fronts.imp fun _ _ one => one.mono (fun _ => id) (fun _ _ => id) fun n n' same => absurd same (unmarked n n')
  have escaped : ∀ p ∈ front, ∀ a r, p = a ++ Literal.sentinel :: r → a.getLast? = some Literal.escape := by
    intro p member a r whole
    obtain ⟨p', -, alike⟩ := exists_of_forall₂ fronts member
    exact alike.escaped_sentinel unmarked whole
  have ends : next = true → ∃ c : Connector, front.getLast? = some c.word := by
    rintro rfl
    exact getLast?_of_detach detached
  exact ⟨_, detached', rfl, fun back back' h => ⟨List.rel_append marked h.1, spacedLed_text escaped ends h.2⟩⟩

omit compatible in
private theorem follows_segments (unmarked : ∀ n n', ¬ l.marks n n') {segments segments' : List Segment}
    (h : List.Forall₂ (SegmentAlike l) segments segments')
    (inner : ∀ t t', .group t ∈ segments → Alike l true t t' →
      Follows Related base base' Related (readText m t) (readText m' t')) (after : Bool) :
    Follows Related base base' (PiecesAlike l base base' after)
      (readSegments m after segments) (readSegments m' after segments') := by
  induction h generalizing after with
  | nil =>
    rw [readSegments_nil, readSegments_nil]
    cases after with
    | true => exact Follows.throw
    | false => exact Follows.pure ⟨.nil, spacedLed_nil _⟩
  | cons one rest ih =>
    have later := ih fun t t' member => inner t t' (List.mem_cons_of_mem _ member)
    cases one with
    | text alike =>
      rw [readSegments_text, readSegments_text]
      refine Follows.bind (follows_detach unmarked alike after) ?_
      rintro ⟨front, next⟩ ⟨front', _⟩ ⟨rfl, extends'⟩
      exact Follows.bind (later _) fun back back' same => Follows.pure (extends' back back' same)
    | @group t t' alike =>
      rw [readSegments_group, readSegments_group]
      cases after with
      | false => exact Follows.throw_bind
      | true =>
        refine Follows.bind (inner t t' List.mem_cons_self alike) fun parts parts' same => ?_
        refine Follows.bind (follows_store same) ?_
        rintro mark mark' ⟨i, rfl, rfl⟩
        exact Follows.bind (later false) fun back back' same => Follows.pure (same.group i)

/-- A text that is alike to one that is read is read as related parts. -/
theorem follows_text (unmarked : ∀ n n', ¬ l.marks n n') (h : Alike l true t t') :
    Follows Related base base' Related (readText m t) (readText m' t') := by
  induction t using readText_induction generalizing t' with
  | flat t brackets =>
    rw [readText_flat brackets, readText_flat fun brackets' => brackets (h.brackets_iff.mpr brackets')]
    have bare : ∀ c ∈ t, c ≠ '(' ∧ c ≠ ')' := by
      intro c member
      constructor <;> rintro rfl <;> simp [member] at brackets
    have led : MarksLed t := fun a r whole => .inl (h.escaped_sentinel unmarked whole)
    exact follows_flat compatible (to_flat h unmarked bare) led
  | unpaired t e brackets failed =>
    intro g g' parts k tables read
    obtain ⟨segments, divided⟩ := exists_segments_of_yields brackets read
    cases failed.symm.trans divided
  | whole t inner brackets divided ih =>
    obtain ⟨segments', divided', alike⟩ := h.segments unmarked divided
    cases alike with
    | cons one rest =>
      cases rest
      cases one with
      | group same =>
        rw [readText_group brackets divided, readText_group (h.brackets_iff.mp brackets) divided']
        exact ih same
  | level t segments brackets divided several ih =>
    obtain ⟨segments', divided', alike⟩ := h.segments unmarked divided
    have several' : ∀ u, segments' ≠ [.group u] := by
      rintro u rfl
      cases alike with
      | cons one rest =>
        cases rest
        cases one
        exact several _ rfl
    rw [readText_segments brackets divided several, readText_segments (h.brackets_iff.mp brackets) divided' several']
    refine Follows.bind (follows_segments unmarked alike (fun u u' member same => ih u member same) true) ?_
    rintro pieces pieces' ⟨same, led⟩
    have space : (l.flat.marked base base').plain ' ' := ⟨compatible.space, fun _ => by decide⟩
    exact follows_flat compatible (Alike.intercalate_space space same) (marksLed_of_spacedLed led)

omit compatible in
/-- Equal parts are compatible with texts whose literals agree. -/
theorem compatible_eq {l : Likeness} {m m' : Masked} (agree : l.Agree m m') (space : l.plain ' ') :
    Compatible l m m' (· = ·) where
  space := space
  compare := by
    intro field field' o value value' _ _ _ fields values
    have noMarks : ∀ n n', ¬ l.flat.unmarked.marks n n' := fun _ _ => id
    have agreeUnmarked : l.flat.unmarked.Agree m m' := agree
    rw [fields.restore_eq agreeUnmarked noMarks, values.value_eq agreeUnmarked noMarks]
  join := by
    intro c members members' _ same
    rw [List.forall₂_eq_eq_eq] at same
    rw [same]

omit compatible in
/-- What holds of the comparisons of a text and is kept by joining holds of all that is read. -/
theorem invariant_of_parse {P : List Part → Prop} {t : Text} {parts : List Part} (read : parse t = .ok parts)
    (nonblank : Text.trim t ≠ [])
    (compare : ∀ (m : Masked) (field : Text) (o : Operator) (value : Text), IsField field → field ≠ [] →
      (∀ c ∈ field, ¬ isBlank c) → Alike (Likeness.numbered m.literals.length 0 0).flat true field field →
        P (compare (m.restore field) o (Value.ofMasked m value)))
    (join : ∀ (c : Connector) (members : List (List Part)), members ≠ [] → (∀ p ∈ members, P p) → P (join c members)) :
    P parts := by
  rcases parse_eq_ok_iff.mp read with ⟨blank, -⟩ | ⟨-, m, g', masked, reading⟩
  · exact absurd blank nonblank
  obtain ⟨atoms, spelled, rfl⟩ := Literal.mask_eq_ok_iff.mp masked
  have compatible : Compatible (Likeness.numbered (atoms.filterMap Literal.Atom.content?).length 0 0)
      (Masked.ofAtoms atoms) (Masked.ofAtoms atoms) (fun p _ => P p) :=
    { space := trivial
      compare := by
        intro field field' o value value' isField nonempty solid fields _
        have same : field = field' := fields.eq_of_numbered
        rw [← same] at fields
        exact compare _ field o value isField nonempty solid fields
      join := by
        intro c members members' nonempty all
        refine join c members nonempty fun p member => ?_
        obtain ⟨p', -, holds⟩ := exists_of_forall₂ all member
        exact holds }
  have tables : TablesAlike (fun p _ => P p) [] [] [] [] := ⟨[], [], rfl, rfl, .nil⟩
  obtain ⟨-, -, -, holds, -⟩ :=
    follows_text compatible (fun _ _ => id) (alike_numbered spelled 0 0) [] [] parts g' tables reading
  exact holds

end Criteria.Filter
