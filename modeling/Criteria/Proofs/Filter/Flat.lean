import Criteria.Proofs.Filter.Encoding
import Criteria.Proofs.Filter.Spacing

/-!
# Reading one level of a text

A level with spaces around its connectors is cut at them exactly where a derivation joins its
operands, so that it is read as a derivation when there is one and rejected otherwise. Both directions
go from conditions to conjunctions to alternatives; the step from operands to what they are joined to
is the same each time.
-/

namespace Criteria.Filter

open Literal (Masked)

variable {m : Masked} {A : Type}

private theorem lookup_stored (base inner : GroupTable) (parts : List Part) (after : GroupTable) :
    (base ++ (inner ++ [some parts]) ++ after)[base.length + inner.length]? = some (some parts) := by
  rw [List.append_assoc, List.getElem?_append_right (by omega), Nat.add_sub_cancel_left,
    List.append_assoc, List.getElem?_append_right (by omega), Nat.sub_self]
  rfl

private theorem set_stored (base inner : GroupTable) (parts : List Part) (after : GroupTable) :
    (base ++ (inner ++ [some parts]) ++ after).set (base.length + inner.length) none =
      base ++ (inner ++ [none]) ++ after := by
  rw [List.append_assoc, List.set_append_right _ _ (by omega), Nat.add_sub_cancel_left,
    List.append_assoc, List.set_append_right _ _ (by omega), Nat.sub_self]
  simp

private theorem outcome_take?_stored (base inner : GroupTable) (parts : List Part) (after : GroupTable) :
    outcome (GroupTable.take? (GroupTable.mark (base.length + inner.length)))
        (base ++ (inner ++ [some parts]) ++ after) =
      (.ok (some parts), base ++ (inner ++ [none]) ++ after) := by
  rw [GroupTable.outcome_take?_mark (lookup_stored base inner parts after), set_stored]

theorem consumes_primary (p : Primary) {t : Text} {base stored : GroupTable} (after : GroupTable)
    (coded : Encodes m base.length p.items (Text.words t) stored) :
    Consumes (readCondition m t) base stored after (p.parts m) := by
  cases p with
  | condition c =>
    obtain ⟨same, rfl, unmarked⟩ := Encodes.eq_of_words coded
    refine ⟨[], rfl, yields_condition m c same (unmarked c.field ?_) _⟩
    simp [Condition.texts]
  | group a =>
    generalize words : Text.words t = ws at coded
    cases coded with
    | group inner rest =>
      cases rest with
      | nil =>
        refine ⟨inner ++ [none], by simp, ?_⟩
        rw [yields_readCondition_single_iff words]
        exact outcome_take?_stored base inner (a.parts m) after

/-- No connector stands between two words of a text. -/
def ConnectorsAtEdges (ws : List Text) : Prop :=
  ∀ before (c : Connector) rest, ws = before ++ c.word :: rest → before = [] ∨ rest = []

/-- A word with words on both sides is no connector. -/
theorem ConnectorsAtEdges.plain (front : List Text) {inner : List Text} (back : List Text)
    (edges : ConnectorsAtEdges (front ++ (inner ++ back))) (nonempty : front ≠ [])
    (last : back = [] → ∀ w ∈ inner.getLast?, ∀ c : Connector, w ≠ c.word) : ∀ w ∈ inner, ∀ c : Connector, w ≠ c.word := by
  rintro w member c rfl
  obtain ⟨before, behind, rfl⟩ := List.append_of_mem member
  rcases edges (front ++ before) c (behind ++ back) (by simp) with none | none
  · exact nonempty (List.append_eq_nil_iff.mp none).1
  · obtain ⟨rfl, none⟩ := List.append_eq_nil_iff.mp none
    exact last none c.word (by simp) c rfl

theorem exists_primary_of_yields {t : Text} {base stored after g' : GroupTable} {items : List Item}
    {parts : List Part} (coded : Encodes m base.length items (Text.words t) stored) (led : Led true items)
    (edges : ConnectorsAtEdges (Text.words t))
    (read : Yields (readCondition m t) (base ++ stored ++ after) parts g') :
    (∃ p : Primary, p.items = items ∧ p.parts m = parts) ∧
      ∃ spent : GroupTable, spent.length = stored.length ∧ g' = base ++ spent ++ after := by
  match words : Text.words t with
  | [] => simp [readCondition, words] at read
  | [token] =>
    rw [yields_readCondition_single_iff words, Yields] at read
    rw [words] at coded
    cases coded with
    | word unmarked rest =>
      rw [GroupTable.outcome_take?_of_not_mark (GroupTable.markNumber?_eq_none unmarked)] at read
      cases read
    | @group _ a _ _ _ inner rest =>
      cases rest
      rw [outcome_take?_stored] at read
      cases read
      exact ⟨⟨.group a, rfl, rfl⟩, inner ++ [none], by simp, rfl⟩
  | first :: second :: rest =>
    have firstPlain := first_of_yields_readCondition words read
    obtain ⟨rfl, negated, field, keyword, value, split, negates, compared⟩ :=
      exists_of_yields_readCondition words read
    obtain ⟨isField, unmarked, dangling, operator, rfl, rfl⟩ := readComparison_eq_ok_iff.mp compared
    have plain : ∀ w ∈ value, ∀ c : Connector, w ≠ c.word := by
      rw [split] at edges
      exact ConnectorsAtEdges.plain ((if negated then [notWord] else []) ++ [field, operator.word]) []
        (by simpa using edges) (by simp) fun _ => (dangling?_eq_none_iff.mp dangling).2
    -- the first word is no connector and no mark, so that no group can follow it
    rw [words] at coded edges
    obtain ⟨others, rfl, codedOthers⟩ := coded.word_of_unmarked firstPlain.2
    have ledOthers : Led (Connector.ofWord? first).isSome others := led
    rw [Connector.ofWord?_eq_none_iff.mpr firstPlain.1] at ledOthers
    have plainOthers : ∀ w ∈ (second :: rest).dropLast, ∀ c : Connector, w ≠ c.word := by
      rw [← List.dropLast_concat_getLast (List.cons_ne_nil second rest)] at edges
      exact ConnectorsAtEdges.plain [first] _ edges (by simp) (by simp)
    obtain ⟨rfl, rfl⟩ := codedOthers.eq_words_of_led ledOthers plainOthers
    let c : Condition := ⟨negated, field, operator, value, isField, negates, plain⟩
    refine ⟨⟨.condition c, ?_, rfl⟩, [], rfl, rfl⟩
    rw [Primary.items, ← List.map_cons, ← words, split]
    rfl

/-- Items that are joined by a connector, with the values of the operands. -/
inductive Joined (c : Connector) (Operand : List Item → A → Prop) : List Item → List A → Prop
  | one {items : List Item} {a : A} (operand : Operand items a) : Joined c Operand items [a]
  | more {items r : List Item} {a : A} {as : List A} (operand : Operand items a)
      (rest : Joined c Operand r as) : Joined c Operand (items ++ .word c.word :: r) (a :: as)

variable {c : Connector} {Operand : List Item → A → Prop} {f : Text → Reading A}

/-- If every operand can be read, so can a text in which they are joined. -/
theorem consumes_joined (unjoined : ∀ items a, Operand items a → items ≠ [] ∧ .word c.word ∉ items)
    (operand : ∀ p items base stored after a, Connector.Spaced p → Operand items a →
      Encodes m base.length items (Text.words p) stored → Consumes (f p) base stored after a)
    {items : List Item} {as : List A} (joined : Joined c Operand items as) {t : Text}
    (spaced : Connector.Spaced t) {base stored : GroupTable} (after : GroupTable)
    (coded : Encodes m base.length items (Text.words t) stored) :
    Consumes ((Text.cut c.between t).mapM f) base stored after as := by
  have absent {n : Nat} {items : List Item} {a : A} {ws : List Text} {stored : GroupTable}
      (one : Operand items a) (coded : Encodes m n items ws stored) : c.word ∉ ws := by
    intro member
    exact (unjoined items a one).2 (coded.mem_items c.head?_word_ne_sentinel member)
  induction joined generalizing t base stored with
  | one one =>
    have whole : Text.cut c.between t = [t] :=
      Text.cut_eq_singleton (Text.not_infix_of_not_mem_words c.word_ne_nil c.solid_word (absent one coded))
    obtain ⟨spent, size, read⟩ := operand t _ base stored after _ spaced one coded
    refine ⟨spent, size, ?_⟩
    rw [whole, yields_mapM_cons_iff]
    exact ⟨_, _, [], rfl, read, yields_mapM_nil_iff.mpr ⟨rfl, rfl⟩⟩
  | @more items r a as one rest ih =>
    obtain ⟨front, back, s₁, s₂, divided, rfl, left, right⟩ := coded.split_items
    generalize size : base.length + s₁.length = n at right
    cases right with
    | @word _ _ _ back _ unmarked right =>
      have frontNonempty := left.words_ne_nil (unjoined items a one).1
      have backNonempty : back ≠ [] := by
        apply right.words_ne_nil
        cases rest with
        | one other => exact (unjoined _ _ other).1
        | more other => simp
      obtain ⟨x, y, rfl, xWords, yWords⟩ := (spaced c).exists_between divided frontNonempty backNonempty
      have xSpaced := spaced.stretch (Text.isStretch_before_between x y)
      have ySpaced := spaced.stretch (Text.isStretch_behind_between x y)
      have pieces : Text.cut c.between (x ++ Text.between c.word ++ y) = x :: Text.cut c.between y :=
        Text.cut_word c.word_ne_nil c.solid_word (xWords ▸ absent one left) y
      obtain ⟨spent₁, size₁, first⟩ :=
        operand x items base s₁ (s₂ ++ after) a xSpaced one (xWords ▸ left)
      have codedRest : Encodes m (base ++ spent₁).length r (Text.words y) s₂ := by
        rw [List.length_append, size₁, size, yWords]
        exact right
      obtain ⟨spent₂, size₂, later⟩ := ih ySpaced codedRest
      refine ⟨spent₁ ++ spent₂, by simp [size₁, size₂], ?_⟩
      rw [pieces, yields_mapM_cons_iff]
      refine ⟨a, base ++ spent₁ ++ s₂ ++ after, as, rfl, ?_, ?_⟩
      · simpa using first
      · simpa using later

/-- If a text in which pieces are joined can be read, so can each of the pieces. -/
theorem exists_joined_of_yields (Operand : List Item → A → Prop) {pieces : List Text} (nonempty : pieces ≠ [])
    (operand : ∀ p ∈ pieces, ∀ items base stored after a g',
      Encodes m base.length items (Text.words p) stored → Led true items →
        Yields (f p) (base ++ stored ++ after) a g' →
          Operand items a ∧ ∃ spent : GroupTable, spent.length = stored.length ∧ g' = base ++ spent ++ after)
    {items : List Item} {as : List A} {base stored after g' : GroupTable}
    (coded : Encodes m base.length items (Text.words (c.between.intercalate pieces)) stored)
    (led : Led true items) (read : Yields (pieces.mapM f) (base ++ stored ++ after) as g') :
    Joined c Operand items as ∧
      ∃ spent : GroupTable, spent.length = stored.length ∧ g' = base ++ spent ++ after := by
  induction pieces generalizing items as base stored with
  | nil => exact absurd rfl nonempty
  | cons p pieces ih =>
    obtain ⟨a, h, rest, rfl, first, later⟩ := yields_mapM_cons_iff.mp read
    cases pieces with
    | nil =>
      obtain ⟨rfl, rfl⟩ := yields_mapM_nil_iff.mp later
      rw [List.intercalate_singleton] at coded
      obtain ⟨one, spent⟩ := operand p List.mem_cons_self items base stored after a h coded led first
      exact ⟨.one one, spent⟩
    | cons q pieces =>
      have words : Text.words (c.between.intercalate (p :: q :: pieces)) =
          Text.words p ++ c.word :: Text.words (c.between.intercalate (q :: pieces)) := by
        rw [List.intercalate_cons_cons]
        exact Text.words_append_between c.word_ne_nil c.solid_word p _
      rw [words] at coded
      obtain ⟨front, back, s₁, s₂, rfl, rfl, left, right⟩ := coded.split_words
      obtain ⟨rear, rfl, codedRear⟩ := right.word_of_unmarked c.head?_word_ne_sentinel
      obtain ⟨ledFront, ledBack⟩ := led_append_connector led
      rw [← List.append_assoc, List.append_assoc] at first
      obtain ⟨one, spent₁, size₁, rfl⟩ :=
        operand p List.mem_cons_self front base s₁ (s₂ ++ after) a h left ledFront first
      rw [← size₁, ← List.length_append] at codedRear
      rw [← List.append_assoc] at later
      obtain ⟨joined, spent₂, size₂, rfl⟩ := ih (by simp)
        (fun p member => operand p (List.mem_cons_of_mem _ member)) codedRear ledBack later
      exact ⟨.more one joined, spent₁ ++ spent₂, by simp [size₁, size₂], by simp⟩

/-- The items and parts of a primary. -/
def IsPrimary (m : Masked) (items : List Item) (parts : List Part) : Prop :=
  ∃ p : Primary, p.items = items ∧ p.parts m = parts

/-- The items and parts of a conjunction. -/
def IsConjunction (m : Masked) (items : List Item) (parts : List Part) : Prop :=
  ∃ c : Conjunction, c.items = items ∧ join .and (c.members m) = parts

theorem Conjunction.joined (m : Masked) (c : Conjunction) :
    Joined .and (IsPrimary m) c.items (c.members m) := by
  cases c with
  | one p => exact .one ⟨p, rfl, rfl⟩
  | more p r => exact .more ⟨p, rfl, rfl⟩ (r.joined m)

theorem Alternatives.joined (m : Masked) (a : Alternatives) :
    Joined .or (IsConjunction m) a.items (a.members m) := by
  cases a with
  | one c => exact .one ⟨c, rfl, rfl⟩
  | more c r => exact .more ⟨c, rfl, rfl⟩ (r.joined m)

theorem exists_conjunction_of_joined {items : List Item} {members : List (List Part)}
    (h : Joined .and (IsPrimary m) items members) :
    ∃ c : Conjunction, c.items = items ∧ c.members m = members := by
  induction h with
  | one operand =>
    obtain ⟨p, rfl, rfl⟩ := operand
    exact ⟨.one p, rfl, rfl⟩
  | more operand rest ih =>
    obtain ⟨p, rfl, rfl⟩ := operand
    obtain ⟨r, rfl, rfl⟩ := ih
    exact ⟨.more p r, rfl, rfl⟩

theorem exists_alternatives_of_joined {items : List Item} {members : List (List Part)}
    (h : Joined .or (IsConjunction m) items members) :
    ∃ a : Alternatives, a.items = items ∧ a.members m = members := by
  induction h with
  | one operand =>
    obtain ⟨c, rfl, rfl⟩ := operand
    exact ⟨.one c, rfl, rfl⟩
  | more operand rest ih =>
    obtain ⟨c, rfl, rfl⟩ := operand
    obtain ⟨r, rfl, rfl⟩ := ih
    exact ⟨.more c r, rfl, rfl⟩

theorem Primary.unjoined (p : Primary) (d : Connector) : p.items ≠ [] ∧ .word d.word ∉ p.items := by
  cases p with
  | group a => simp [items]
  | condition c =>
    refine ⟨by simp [items, Condition.texts], ?_⟩
    rw [items, List.mem_map]
    rintro ⟨w, member, same⟩
    cases same
    exact c.plain_texts d member

theorem Conjunction.unjoined (c : Conjunction) : c.items ≠ [] ∧ .word Connector.or.word ∉ c.items := by
  cases c with
  | one p => exact p.unjoined .or
  | more p r =>
    refine ⟨by simp [items], ?_⟩
    rw [items, List.mem_append, List.mem_cons]
    rintro (member | same | member)
    · exact (p.unjoined .or).2 member
    · cases same
    · exact r.unjoined.2 member

/-- How the conditions of one alternative are read. -/
private def readConjunction (m : Masked) (t : Text) : Reading (List Part) := do
  let conditions ← (Text.cut (Connector.between .and) t).mapM (readCondition m)
  return join .and conditions

private theorem consumes_conjunction {t : Text} (spaced : Connector.Spaced t) {items : List Item}
    {parts : List Part} (one : IsConjunction m items parts) {base stored : GroupTable} (after : GroupTable)
    (coded : Encodes m base.length items (Text.words t) stored) :
    Consumes (readConjunction m t) base stored after parts := by
  obtain ⟨c, rfl, rfl⟩ := one
  refine Consumes.map (consumes_joined ?_ ?_ (c.joined m) spaced after coded) (join .and)
  · rintro items parts ⟨p, rfl, rfl⟩
    exact p.unjoined .and
  · rintro p items base stored after parts - ⟨primary, rfl, rfl⟩ coded
    exact consumes_primary primary after coded

/-- A level that has a derivation is read as the parts of the derivation. -/
theorem consumes_readFlat (a : Alternatives) {t : Text} (spaced : Connector.Spaced t)
    {base stored : GroupTable} (after : GroupTable)
    (coded : Encodes m base.length a.items (Text.words t) stored) :
    Consumes (readFlat m t) base stored after (a.parts m) := by
  refine Consumes.map (consumes_joined (f := readConjunction m) ?_ ?_ (a.joined m) spaced after coded) (join .or)
  · rintro items parts ⟨c, rfl, rfl⟩
    exact c.unjoined
  · intro p items base stored after parts spaced one coded
    exact consumes_conjunction spaced one after coded

-- With spaces around it, a connector between two words would be a place to cut.
private theorem connectorsAtEdges {t : Text} (spaced : Connector.Spaced t)
    (uncut : ∀ c : Connector, ¬ c.between <:+: t) : ConnectorsAtEdges (Text.words t) := by
  intro before c rest split
  by_cases front : before = []
  · exact .inl front
  · by_cases back : rest = []
    · exact .inr back
    · obtain ⟨a, r, whole, -, -⟩ := (spaced c).exists_between split front back
      exact absurd ⟨a, r, whole.symm⟩ (uncut c)

private theorem exists_conjunction_of_yields {t : Text} (spaced : Connector.Spaced t)
    (uncut : ¬ Connector.or.between <:+: t) {items : List Item} {base stored after g' : GroupTable}
    {parts : List Part} (coded : Encodes m base.length items (Text.words t) stored) (led : Led true items)
    (read : Yields (readConjunction m t) (base ++ stored ++ after) parts g') :
    IsConjunction m items parts ∧
      ∃ spent : GroupTable, spent.length = stored.length ∧ g' = base ++ spent ++ after := by
  have separator : Connector.and.between ≠ [] := Text.between_ne_nil _
  obtain ⟨members, h, pieces, done⟩ := yields_bind_iff.mp read
  obtain ⟨rfl, rfl⟩ := yields_pure_iff.mp done
  rw [← Text.intercalate_cut separator t] at coded
  obtain ⟨joined, spent⟩ := exists_joined_of_yields (IsPrimary m) (Text.cut_ne_nil _ t)
    (by
      intro p member items base stored after parts g' coded led read
      have inside : p <:+: t := Text.infix_of_mem_cut separator member
      have pSpaced : Connector.Spaced p := spaced.stretch (Text.isStretch_of_mem_cut member)
      refine exists_primary_of_yields coded led (connectorsAtEdges pSpaced ?_) read
      intro c
      cases c with
      | and => exact Text.not_infix_of_mem_cut separator member
      | or => exact fun within => uncut (within.trans inside))
    coded led pieces
  obtain ⟨c, rfl, rfl⟩ := exists_conjunction_of_joined joined
  exact ⟨⟨c, rfl, rfl⟩, spent⟩

/-- A level that is read has a derivation, and what is read are the parts of the derivation. -/
theorem exists_alternatives_of_yields {t : Text} (spaced : Connector.Spaced t) {items : List Item}
    {base stored g' : GroupTable} {parts : List Part}
    (coded : Encodes m base.length items (Text.words t) stored) (led : Led true items)
    (read : Yields (readFlat m t) (base ++ stored) parts g') :
    (∃ a : Alternatives, a.items = items ∧ a.parts m = parts) ∧
      ∃ spent : GroupTable, g' = base ++ spent := by
  have separator : Connector.or.between ≠ [] := Text.between_ne_nil _
  obtain ⟨members, h, pieces, done⟩ := yields_bind_iff.mp read
  obtain ⟨rfl, rfl⟩ := yields_pure_iff.mp done
  rw [← Text.intercalate_cut separator t] at coded
  rw [← List.append_nil (base ++ stored)] at pieces
  obtain ⟨joined, spent, -, rfl⟩ := exists_joined_of_yields (IsConjunction m)
    (f := readConjunction m) (Text.cut_ne_nil _ t)
    (by
      intro p member items base stored after parts g' coded led read
      exact exists_conjunction_of_yields (spaced.stretch (Text.isStretch_of_mem_cut member))
        (Text.not_infix_of_mem_cut separator member) coded led read)
    coded led pieces
  obtain ⟨a, rfl, rfl⟩ := exists_alternatives_of_joined joined
  exact ⟨⟨a, rfl, rfl⟩, spent, by simp⟩

end Criteria.Filter
