import Criteria.Proofs.Filter.Meaning
import Criteria.Proofs.Filter.Merge
import Criteria.Proofs.Filter.Negation
import Criteria.Proofs.Filter.Opening
import Criteria.Proofs.Filter.Respaced
import Criteria.Proofs.Value.Pieces

/-!
# Lists of values

A condition with a list of values stands for the alternatives of its values: it is read as the same parts as the
conditions with one value each that are joined by `or`. Each value is the same value in both texts, although its
words stand among others and its literals have other numbers.

What a text is masked to depends on where it stands: its literals are numbered after those before it. What does
not depend on the numbers holds wherever it stands, and can be settled text by text.
-/

namespace Criteria.Literal

open Criteria.Filter (Alike Likeness)

/-- The masked form of a text has a property wherever the text stands, in a masked text that has its literals. -/
def Stands (t : Text) (P : Masked → Text → Prop) : Prop :=
  ∃ atoms, Spells t atoms ∧ ∀ m n, Masked.Holds m n atoms → P m (maskFrom n atoms)

namespace Stands

variable {t u : Text} {P Q R : Masked → Text → Prop}

theorem mono (h : Stands t P) (imp : ∀ m x, P m x → Q m x) : Stands t Q := by
  obtain ⟨atoms, spelled, reads⟩ := h
  exact ⟨atoms, spelled, fun m n held => imp m _ (reads m n held)⟩

/-- A text with a property is masked, and its masked form has the property. -/
theorem exists_mask (h : Stands t P) : ∃ m, mask t = .ok m ∧ P m m.text := by
  obtain ⟨atoms, spelled, reads⟩ := h
  exact ⟨Masked.ofAtoms atoms, mask_eq_ok_iff.mpr ⟨atoms, spelled, rfl⟩, reads _ 0 (Masked.holds_ofAtoms atoms)⟩

/-- A text of ordinary characters is its own masked form. -/
theorem of_ordinary (ordinary : ∀ c ∈ t, Ordinary c) : Stands t fun _ x => x = t := by
  have spelled := Spells.plain_append ordinary .nil
  rw [List.append_nil] at spelled
  refine ⟨_, spelled, fun m n _ => ?_⟩
  rw [maskFrom_plain_append, maskFrom, List.append_nil]

/-- Texts stand side by side at an ordinary character. -/
theorem append_cons {c : Char} (ordinary : Ordinary c) (h : Stands t P) (h' : Stands u Q)
    (both : ∀ m x y, P m x → Q m y → R m (x ++ c :: y)) : Stands (t ++ c :: u) R := by
  obtain ⟨atoms, spelled, reads⟩ := h
  obtain ⟨others, spelled', reads'⟩ := h'
  obtain ⟨joined, spelledBoth, masked, contents⟩ := spelled.append_cons ordinary spelled'
  refine ⟨joined, spelledBoth, fun m n held => ?_⟩
  obtain ⟨front, back⟩ := held.append contents
  rw [masked]
  exact both m _ _ (reads m n front) (reads' m _ back)

/-- What holds of every text that is alike to a masked text, holds wherever that one stands. -/
theorem of_mask {m : Masked} (masked : mask t = .ok m)
    (alike : ∀ (count n : Nat) (m' : Masked) (x : Text), Alike (Likeness.numbered count 0 n) true m.text x →
      (Likeness.numbered count 0 n).Agree m m' → P m' x) : Stands t P := by
  obtain ⟨atoms, spelled, rfl⟩ := mask_eq_ok_iff.mp masked
  refine ⟨atoms, spelled, fun m' n held => ?_⟩
  exact alike _ n m' _ (Filter.alike_numbered spelled 0 n) (Filter.agree_of_holds (Masked.holds_ofAtoms atoms) held)

end Stands
end Criteria.Literal

namespace Criteria.Filter

open Literal (Masked Stands EndsInEscape)

/-- A comparison has an alternative for each member of its value. -/
theorem compare_ofMasked (field : Text) (o : Operator) (m : Masked) {t : Text} (trimmed : Text.Trimmed t) :
    compare field o (Value.ofMasked m t) = join .or ((Value.members m t).map fun v => [.leaf ⟨field, o, v⟩]) := by
  have scalar (p : Text) : compare field o (Value.ofScalar m p) = [.leaf ⟨field, o, Value.ofScalar m p⟩] :=
    compare_scalar field o (Value.isFiniteScalar_ofScalar m p)
  have flattened (vs : List Value) :
      (vs.map fun v => [Part.leaf ⟨field, o, v⟩]).flatten = vs.map fun v => .leaf ⟨field, o, v⟩ := by
    rw [← List.flatMap_def, List.map_eq_flatMap]
  obtain ⟨p, ps, pieces⟩ := Value.exists_listPieces t
  rw [Value.ofMasked, Value.members, pieces]
  cases ps with
  | nil =>
    have whole : Value.listPieces t = [t] := Value.listPieces_eq_singleton (by rw [pieces]; rfl)
    obtain rfl : p = t := by simpa [pieces] using whole
    rw [List.map_singleton, List.map_singleton, trimmed.trim_eq_self]
    exact scalar p
  | cons q r => exact congrArg (group .or) (flattened _).symm

/-- The text of a condition with its field, its operator and its value. -/
def conditionText (negated : Bool) (field : Text) (o : Operator) (value : Text) : Text :=
  let comparison := field ++ ' ' :: (o.word ++ ' ' :: value)
  if negated then negation comparison else comparison

instance {P : Masked → Prop} [DecidablePred P] (t : Text) : Decidable (∃ m, Literal.mask t = .ok m ∧ P m) :=
  match masked : Literal.mask t with
  | .ok m => decidable_of_iff (P m) (by simp)
  | .error e => isFalse (by simp)

/-- A text that can stand for the field of a condition: masked it is one word, and one without a meaning of its own. -/
def NamesField (t : Text) : Prop :=
  ∃ m, Literal.mask t = .ok m ∧ Text.words m.text = [m.text] ∧ IsField m.text ∧ m.text ≠ notWord

/-- A text that has no unescaped bracket when it is masked. -/
def Unbracketed (t : Text) : Prop :=
  ∃ m, Literal.mask t = .ok m ∧ Token.ofMasked m.text = (Text.words m.text).map .word

instance (w : Text) : Decidable (IsField w) :=
  inferInstanceAs (Decidable ((∀ c : Connector, w ≠ c.word) ∧ ¬ (1 < w.length ∧ _ = _ ∧ _ = _)))

instance (t : Text) : Decidable (NamesField t) :=
  inferInstanceAs (Decidable (∃ m, Literal.mask t = .ok m ∧ _ = _ ∧ IsField m.text ∧ m.text ≠ notWord))

instance (t : Text) : Decidable (Unbracketed t) :=
  inferInstanceAs (Decidable (∃ m, Literal.mask t = .ok m ∧ _ = _))

/-- A text that can be an item of a list: masked it has no unescaped bracket or comma, and no connector among its
    words. -/
def IsItem (t : Text) : Prop :=
  ∃ m, Literal.mask t = .ok m ∧ Token.ofMasked m.text = (Text.words m.text).map .word ∧
    Value.listPieces m.text = [m.text] ∧ ∀ c : Connector, c.word ∉ Text.words m.text

instance (t : Text) : Decidable (IsItem t) :=
  inferInstanceAs (Decidable (∃ m, Literal.mask t = .ok m ∧ _ = _ ∧ _ = _ ∧ ∀ c : Connector, c.word ∉ Text.words m.text))

/-- Alike texts have the same members. -/
theorem Alike.members_eq {l : Likeness} {m m' : Masked} {first : Bool} {t t' : Text} (h : Alike l first t t')
    (agree : l.Agree m m') (unmarked : ∀ n n', ¬ l.marks n n') : Value.members m t = Value.members m' t' := by
  obtain ⟨p, r, p', r', left, right, alike, later⟩ := h.listPieces unmarked
  rw [Value.members, Value.members, left, right]
  exact pieces_eq agree unmarked (.cons alike.begin later)

/-- A masked text has the members of a value, and neither a bracket nor a connector divides it. -/
structure HasMembers (values : List Value) (m : Masked) (x : Text) : Prop where
  flat : Token.scan x = (x, [])
  plain : ∀ c : Connector, c.word ∉ Text.words x
  members : Value.members m ([' '].intercalate (Text.words x)) = values

theorem HasMembers.append_comma {m : Masked} {x y : Text} {values others : List Value} (h : HasMembers values m x)
    (whole : Token.Whole x) (h' : HasMembers others m y) : HasMembers (values ++ others) m (x ++ ',' :: y) where
  flat := Token.scan_append_cons (by decide) (by decide) (by decide) h.flat h'.flat
  plain c member := by
    have absent : ',' ∉ c.word := by cases c <;> decide
    rcases Text.mem_words_append_cons member with inside | inside | comma
    · exact h.plain c inside
    · exact h'.plain c inside
    · exact absent comma
  members := by rw [Value.members_words_append_comma m whole, h.members, h'.members]

/-- A masked text is an item with its value. If no backslash ends the item, then none takes the comma behind it. -/
structure HasItem (v : Text) (value : Value) (m : Masked) (x : Text) : Prop extends HasMembers [value] m x where
  ends : ¬ EndsInEscape v → Token.Whole x

/-- An item has the same value wherever it stands. -/
theorem IsItem.exists_value {v : Text} (item : IsItem v) : ∃ value, Stands v (HasItem v value) := by
  obtain ⟨m, masked, flat, single, plain⟩ := item
  -- the words of an item are joined with single spaces before it is read, also in a list
  obtain ⟨value, alone⟩ : ∃ value, Value.members m ([' '].intercalate (Text.words m.text)) = [value] :=
    ⟨_, by rw [Value.members_intercalate_words, single, List.map_singleton]⟩
  have whole (ended : ¬ EndsInEscape v) : Token.Whole m.text := by
    obtain ⟨atoms, spelled, rfl⟩ := Literal.mask_eq_ok_iff.mp masked
    exact (whole_maskFrom_iff spelled 0).mpr ended
  refine ⟨value, .of_mask masked fun count n m' x alike agree => ⟨⟨?_, ?_, ?_⟩, ?_⟩⟩
  · exact alike.undivided (fun _ _ => id) (Token.scan_of_flat flat)
  · exact fun c member => plain c (alike.symm.word_mem_words member)
  · have words := Alike.intercalate_space trivial alike.words
    rw [← alone, words.members_eq agree fun _ _ => id]
  · exact fun ended => alike.whole (fun _ _ => id) (whole ended)

/-- Items with commas between them are the members of one value. -/
theorem stands_list {value : Text → Value} {v : Text} {values : List Text}
    (items : ∀ u ∈ v :: values, Stands u (HasItem u (value u))) (ended : ∀ u ∈ (v :: values).dropLast, ¬ EndsInEscape u) :
    Stands ([','].intercalate (v :: values)) (HasMembers ((v :: values).map value)) := by
  induction values generalizing v with
  | nil =>
    rw [List.intercalate_singleton]
    exact (items v List.mem_cons_self).mono fun m x has => has.toHasMembers
  | cons w values ih =>
    have others := ih (fun u member => items u (List.mem_cons_of_mem _ member)) fun u member =>
      ended u (List.mem_cons_of_mem _ member)
    rw [List.intercalate_cons_cons, List.append_assoc]
    refine (items v List.mem_cons_self).append_cons (by decide) others fun m x y has later => ?_
    exact has.append_comma (has.ends (ended v List.mem_cons_self)) later

/-! ## Conditions -/

/-- A masked text is a word that names a field. -/
structure HasField (name : Text) (m : Masked) (x : Text) : Prop where
  flat : Token.scan x = (x, [])
  word : Text.words x = [x]
  isField : IsField x
  ne_notWord : x ≠ notWord
  restored : m.restore x = name

/-- A field without brackets has the same name wherever it stands. -/
theorem NamesField.exists_name {f : Text} (field : NamesField f) (unbracketed : Unbracketed f) :
    ∃ name, Stands f (HasField name) := by
  obtain ⟨m, masked, word, isField, other⟩ := field
  obtain ⟨m', masked', tokens⟩ := unbracketed
  cases masked.symm.trans masked'
  have flat := Token.scan_of_flat tokens
  refine ⟨m.restore m.text, .of_mask masked fun count n m' x alike agree => ⟨?_, ?_, ?_, ?_, ?_⟩⟩
  · exact alike.undivided (fun _ _ => id) flat
  · have member : m.text ∈ Text.words m.text := by rw [word]; exact List.mem_cons_self
    exact Text.words_eq_singleton (fun none => Text.ne_nil_of_mem_words member (alike.eq_nil_iff.mpr none))
      (alike.solid (Text.solid_of_mem_words member))
  · exact alike.isField (fun _ _ => id) isField
  · rintro rfl
    exact other (alike.symm.eq_of_bare (by decide)).symm
  · exact (alike.restore_eq agree fun _ _ => id).symm

/-- A masked text that is a word with brackets in it. -/
structure HasBrackets (after : Option Nat) (x : Text) : Prop where
  solid : ∀ c ∈ x, ¬ Text.isBlank c
  brackets : ∀ ws : List Text, Token.ofMasked x ≠ ws.map .word
  nested : Token.nest 0 (Token.ofMasked x) = after

/-- A field with brackets leaves as many of them open wherever it stands. -/
theorem NamesField.exists_brackets {f : Text} (field : NamesField f) (bracketed : ¬ Unbracketed f) :
    ∃ after, Stands f fun _ => HasBrackets after := by
  obtain ⟨m, masked, word, -⟩ := field
  refine ⟨Token.nest 0 (Token.ofMasked m.text), .of_mask masked fun count n m' x alike agree => ⟨?_, ?_, ?_⟩⟩
  · have member : m.text ∈ Text.words m.text := by rw [word]; exact List.mem_cons_self
    exact alike.solid (Text.solid_of_mem_words member)
  · intro ws words
    have flat := alike.symm.undivided (fun _ _ => id) (Token.scan_of_flat words)
    refine bracketed ⟨m, masked, ?_⟩
    rw [Token.ofMasked, flat, Token.ofRun, List.append_nil]
  · exact (alike.nest_eq (fun _ _ => id) 0).symm

section
variable {m : Masked} {x y f v name : Text} {negated : Bool} {o : Operator} {values : List Value} {parts : List Part}
  {members : List (List Part)} {P Q : Masked → Text → Prop}

/-- A condition stands where its field and its value stand. -/
theorem stands_conditionText (field : Stands f P) (value : Stands v Q) :
    Stands (conditionText negated f o v) fun m z => ∃ x y, P m x ∧ Q m y ∧ z = conditionText negated x o y := by
  have space : Literal.Ordinary ' ' := by decide
  have operator : Stands o.word fun _ x => x = o.word := .of_ordinary (by cases o <;> decide)
  have behind : Stands (o.word ++ ' ' :: v) fun m z => ∃ y, Q m y ∧ z = o.word ++ ' ' :: y :=
    operator.append_cons space value fun m _ y same has => ⟨y, has, by rw [same]⟩
  have comparison : Stands (conditionText false f o v) fun m z =>
      ∃ x y, P m x ∧ Q m y ∧ z = conditionText false x o y := by
    refine field.append_cons space behind ?_
    rintro m x _ has ⟨y, has', rfl⟩
    exact ⟨x, y, has, has', rfl⟩
  cases negated with
  | false => exact comparison
  | true =>
    have negation : Stands notWord fun _ x => x = notWord := .of_ordinary (by decide)
    refine negation.append_cons space comparison ?_
    rintro m _ _ rfl ⟨x, y, has, has', rfl⟩
    exact ⟨x, y, has, has', rfl⟩

theorem scan_conditionText (flat : Token.scan x = (x, [])) (flat' : Token.scan y = (y, [])) :
    Token.scan (conditionText negated x o y) = (conditionText negated x o y, []) := by
  have operator : Token.scan o.word = (o.word, []) := Token.scan_of_bare (by cases o <;> decide)
  have comparison : Token.scan (conditionText false x o y) = (conditionText false x o y, []) := by
    refine Token.scan_append_cons (by decide) (by decide) (by decide) flat ?_
    exact Token.scan_append_cons (by decide) (by decide) (by decide) operator flat'
  cases negated with
  | false => exact comparison
  | true => exact Token.scan_append_cons (by decide) (by decide) (by decide) (Token.scan_of_bare (by decide)) comparison

/-- What adds up over spaces adds up over a condition. -/
theorem conditionText_of_splits {A : Type} {split : Text → List A}
    (splits : ∀ x y, split (x ++ ' ' :: y) = split x ++ split y) :
    split (conditionText negated x o y) =
      (if negated then split notWord else []) ++ (split x ++ (split o.word ++ split y)) := by
  have comparison : split (conditionText false x o y) = split x ++ (split o.word ++ split y) := by
    rw [conditionText, if_neg Bool.false_ne_true, splits, splits]
  cases negated with
  | false => exact comparison
  | true =>
    rw [← comparison]
    exact splits notWord (conditionText false x o y)

theorem words_conditionText : Text.words (conditionText negated x o y) =
    (if negated then [notWord] else []) ++ (Text.words x ++ o.word :: Text.words y) := by
  have operator : Text.words o.word = [o.word] :=
    Text.words_eq_singleton (by cases o <;> decide) (by cases o <;> decide)
  have negation : Text.words notWord = [notWord] := by decide
  rw [conditionText_of_splits Text.words_append_space, operator, negation]
  rfl

theorem ofMasked_conditionText : Token.ofMasked (conditionText negated x o y) =
    (if negated then [.word notWord] else []) ++ (Token.ofMasked x ++ .word o.word :: Token.ofMasked y) := by
  have operator : Token.ofMasked o.word = [.word o.word] := by cases o <;> decide
  have negation : Token.ofMasked notWord = [.word notWord] := by decide
  rw [conditionText_of_splits (Token.ofMasked_append_blank Text.isBlank_space), operator, negation]
  rfl

/-- A masked text is a condition with its parts. -/
structure HasCondition (parts : List Part) (m : Masked) (x : Text) : Prop where
  flat : Token.scan x = (x, [])
  derived : ∃ c : Condition, c.texts = Text.words x ∧ c.parts m = parts

/-- A condition has an alternative for each member of its value. -/
theorem HasField.condition (field : HasField name m x) (value : HasMembers values m y) :
    HasCondition (join .or (values.map fun v => [.leaf ⟨name, if negated then o.negate else o, v⟩])) m
      (conditionText negated x o y) := by
  have trimmed : Text.Trimmed ([' '].intercalate (Text.words y)) := Text.trimmed_intercalate_space fun w member =>
    ⟨Text.ne_nil_of_mem_words member, .of_solid (Text.solid_of_mem_words member)⟩
  refine ⟨scan_conditionText field.flat value.flat, ⟨negated, x, o, Text.words y, field.isField,
    fun same => absurd same field.ne_notWord, fun w member c same => value.plain c (same ▸ member)⟩, ?_, ?_⟩
  · rw [words_conditionText, field.word]
    rfl
  · rw [Condition.parts, compare_ofMasked _ _ m trimmed, value.members, field.restored]

/-- The brackets of a field stand in the tokens of a condition with it. -/
theorem HasBrackets.condition {after : Option Nat} (h : HasBrackets after x) (flat : Token.scan y = (y, [])) :
    Token.Obstructed after (Token.ofMasked (conditionText negated x o y)) := by
  have closed : Token.nest 0 (Token.word o.word :: Token.ofMasked y) = some 0 := by
    rw [Token.nest, Token.nest_ofMasked, flat]
    rfl
  refine ⟨if negated then [notWord] else [], _, _, ?_, Token.isChain_ofMasked h.solid, h.brackets, h.nested, fun _ _ =>
    ⟨0, closed⟩⟩
  rw [ofMasked_conditionText]
  cases negated <;> rfl

theorem obstructed_or {after : Option Nat} (h : Token.Obstructed after (Token.ofMasked x))
    (h' : Token.Obstructed after (Token.ofMasked y)) :
    Token.Obstructed after (Token.ofMasked (x ++ Connector.between .or ++ y)) := by
  have whole : x ++ Connector.between .or ++ y = x ++ ' ' :: (Connector.or.word ++ ' ' :: y) := by
    simp [Connector.between]
  have connector : Token.ofMasked Connector.or.word = [.word Connector.or.word] := by decide
  rw [whole, Token.ofMasked_append_blank Text.isBlank_space, Token.ofMasked_append_blank Text.isBlank_space, connector]
  exact h.append_word _ h'

/-- A text is not read where brackets stand in its way. -/
theorem not_parse_of_obstructed {t : Text} {after : Option Nat}
    (h : Stands t fun _ z => Token.Obstructed after (Token.ofMasked z)) : parse t ≠ .ok parts := by
  obtain ⟨m, masked, obstructed⟩ := h.exists_mask
  have trimmed : Literal.mask (Text.trim t) = .ok ⟨Text.trim m.text, m.literals⟩ :=
    Literal.mask_trim_eq_ok_iff.mpr ⟨m, masked, rfl⟩
  have unmarked := unmarked_of_mask trimmed
  rw [← Token.ofMasked_trim] at obstructed
  rw [Ne, parse_eq_ok_iff]
  rintro (⟨blank, -⟩ | ⟨-, m', g', masked', read⟩)
  · have none : Text.trim m.text = [] := (Literal.mask_text_eq_nil_iff trimmed).mpr blank
    rw [none, Token.ofMasked_nil] at obstructed
    exact obstructed.ne_nil rfl
  · cases trimmed.symm.trans masked'
    exact not_yields_of_obstructed unmarked obstructed read

/-! ## Alternatives -/

/-- A masked text is read as alternatives, each of them a condition: the connector between them has spaces around it. -/
structure HasAlternatives (members : List (List Part)) (m : Masked) (x : Text) : Prop where
  flat : Token.scan x = (x, [])
  noAnd : Connector.and.word ∉ Text.words x
  spaced : Text.SpacedAround Connector.or.word x
  starts : (Text.words x).head? ≠ some Connector.or.word
  derived : ∃ a : Alternatives, a.tokens = (Text.words x).map .word ∧ a.members m = members

theorem HasCondition.plain (h : HasCondition parts m x) (c : Connector) : c.word ∉ Text.words x := by
  obtain ⟨condition, texts, -⟩ := h.derived
  rw [← texts]
  exact condition.plain_texts c

/-- One condition is an alternative on its own. -/
theorem HasCondition.alternatives (h : HasCondition parts m x) : HasAlternatives [parts] m x where
  flat := h.flat
  noAnd := h.plain .and
  spaced := .of_not_mem Connector.or.word_ne_nil Connector.or.solid_word (h.plain .or)
  starts first := h.plain .or (List.mem_of_head? first)
  derived := by
    obtain ⟨c, texts, rfl⟩ := h.derived
    exact ⟨.one (.one (.condition c)), congrArg (List.map Token.word) texts, rfl⟩

/-- A condition may stand before alternatives. -/
theorem HasCondition.or (h : HasCondition parts m x) (h' : HasAlternatives members m y) :
    HasAlternatives (parts :: members) m (x ++ Connector.between .or ++ y) := by
  have split : Text.words (x ++ Connector.between .or ++ y) = Text.words x ++ Connector.or.word :: Text.words y :=
    Text.words_append_between Connector.or.word_ne_nil Connector.or.solid_word x y
  have whole : x ++ Connector.between .or ++ y = x ++ ' ' :: (Connector.or.word ++ ' ' :: y) := by
    simp [Connector.between]
  refine ⟨?_, ?_, ?_, ?_, ?_⟩
  · rw [whole]
    refine Token.scan_append_cons (by decide) (by decide) (by decide) h.flat ?_
    exact Token.scan_append_cons (by decide) (by decide) (by decide) (Token.scan_of_bare (by decide)) h'.flat
  · rw [split, List.mem_append, List.mem_cons]
    rintro (inside | same | inside)
    · exact h.plain .and inside
    · exact absurd same (by decide)
    · exact h'.noAnd inside
  · exact .append_between Connector.or.word_ne_nil Connector.or.solid_word (h.plain .or) h'.starts h'.spaced
  · obtain ⟨c, texts, -⟩ := h.derived
    obtain ⟨w, ws, words⟩ : ∃ w ws, Text.words x = w :: ws := List.exists_cons_of_ne_nil (by simp [← texts, Condition.texts])
    rw [split, words]
    intro first
    exact h.plain .or (by rw [words]; exact List.mem_of_head? first)
  · obtain ⟨c, texts, rfl⟩ := h.derived
    obtain ⟨a, tokens, rfl⟩ := h'.derived
    refine ⟨.more (.one (.condition c)) a, ?_, rfl⟩
    rw [split, List.map_append, List.map_cons, ← tokens, ← texts]
    rfl

/-- A text of alternatives is read as them. -/
theorem parse_of_hasAlternatives {t : Text} (h : Stands t (HasAlternatives members)) :
    parse t = .ok (join .or members) := by
  obtain ⟨m, masked, has⟩ := h.exists_mask
  have spaced : ConnectorsSpaced m.text := by
    intro run member c
    rw [runs_of_flat has.flat, List.mem_singleton] at member
    rw [member]
    cases c with
    | or => exact has.spaced
    | and => exact .of_not_mem Connector.and.word_ne_nil Connector.and.solid_word has.noAnd
  obtain ⟨a, tokens, rfl⟩ := has.derived
  refine (parse_eq_ok_iff_denotes masked spaced).mpr (.inr ⟨a, ?_, rfl⟩)
  rw [tokens, Token.ofMasked, has.flat, Token.ofRun, List.append_nil]

end

/-- Texts with `or` between them have what a first one and the texts behind it have together. -/
theorem stands_alternatives {A : Type} {text : A → Text} {P : A → Masked → Text → Prop}
    {Q : List A → Masked → Text → Prop} (one : ∀ b m x, P b m x → Q [b] m x)
    (more : ∀ b bs m x y, P b m x → Q bs m y → Q (b :: bs) m (x ++ Connector.between .or ++ y)) {a : A} {as : List A}
    (each : ∀ b ∈ a :: as, Stands (text b) (P b)) :
    Stands ((Connector.between .or).intercalate ((a :: as).map text)) (Q (a :: as)) := by
  induction as generalizing a with
  | nil =>
    rw [List.map_singleton, List.intercalate_singleton]
    exact (each a List.mem_cons_self).mono (one a)
  | cons b as ih =>
    have others := ih fun b member => each b (List.mem_cons_of_mem _ member)
    have connector : Stands Connector.or.word fun _ x => x = Connector.or.word := .of_ordinary (by decide)
    have behind : Stands (Connector.or.word ++ ' ' :: (Connector.between .or).intercalate ((b :: as).map text)) fun m z =>
        ∃ y, Q (b :: as) m y ∧ z = Connector.or.word ++ ' ' :: y :=
      connector.append_cons (by decide) others fun m _ y same has => ⟨y, has, by rw [same]⟩
    have whole : (Connector.between .or).intercalate ((a :: b :: as).map text) =
        text a ++ ' ' :: (Connector.or.word ++ ' ' :: (Connector.between .or).intercalate ((b :: as).map text)) := by
      rw [List.map_cons, List.map_cons, List.intercalate_cons_cons]
      simp [Connector.between]
    rw [whole]
    refine (each a List.mem_cons_self).append_cons (by decide) behind ?_
    rintro m x _ has ⟨y, later, rfl⟩
    have joined := more a (b :: as) m x y has later
    simpa [Connector.between] using joined

section
variable {f : Text} {values : List Text}

/-- With a field without brackets, a condition with a list of values and its alternatives are read as the same parts. -/
theorem parse_list_of_unbracketed (field : NamesField f) (unbracketed : Unbracketed f) (negated : Bool) (o : Operator)
    (nonempty : values ≠ []) (items : ∀ v ∈ values, IsItem v) (ended : ∀ v ∈ values.dropLast, ¬ EndsInEscape v) :
    ∃ parts, parse (conditionText negated f o ([','].intercalate values)) = .ok parts ∧
      parse ((Connector.between .or).intercalate (values.map (conditionText negated f o))) = .ok parts := by
  obtain ⟨name, names⟩ := field.exists_name unbracketed
  choose! value stands using fun v member => (items v member).exists_value
  obtain ⟨v, others, rfl⟩ := List.exists_cons_of_ne_nil nonempty
  have condition {t : Text} {values : List Value} (members : Stands t (HasMembers values)) :
      Stands (conditionText negated f o t)
        (HasCondition (join .or (values.map fun v => [.leaf ⟨name, if negated then o.negate else o, v⟩]))) := by
    refine (stands_conditionText names members).mono ?_
    rintro m _ ⟨x, y, has, has', rfl⟩
    exact has.condition has'
  have list := (condition (stands_list stands ended)).mono fun m x has => has.alternatives
  have each (u : Text) (member : u ∈ v :: others) := condition ((stands u member).mono fun m x has => has.toHasMembers)
  have alternatives := stands_alternatives
    (Q := fun us => HasAlternatives (us.map fun u => [.leaf ⟨name, if negated then o.negate else o, value u⟩]))
    (fun u m x has => has.alternatives) (fun u us m x y has has' => has.or has') each
  refine ⟨_, parse_of_hasAlternatives list, ?_⟩
  rw [parse_of_hasAlternatives alternatives, List.map_map]
  rfl

/-- With brackets in the field, neither of them is read. -/
theorem not_parse_list_of_bracketed (field : NamesField f) (bracketed : ¬ Unbracketed f) (negated : Bool) (o : Operator)
    (nonempty : values ≠ []) (items : ∀ v ∈ values, IsItem v) (ended : ∀ v ∈ values.dropLast, ¬ EndsInEscape v)
    (parts : List Part) :
    parse (conditionText negated f o ([','].intercalate values)) ≠ .ok parts ∧
      parse ((Connector.between .or).intercalate (values.map (conditionText negated f o))) ≠ .ok parts := by
  obtain ⟨after, names⟩ := field.exists_brackets bracketed
  choose! value stands using fun v member => (items v member).exists_value
  obtain ⟨v, others, rfl⟩ := List.exists_cons_of_ne_nil nonempty
  have condition {t : Text} {values : List Value} (members : Stands t (HasMembers values)) :
      Stands (conditionText negated f o t) fun _ z => Token.Obstructed after (Token.ofMasked z) := by
    refine (stands_conditionText names members).mono ?_
    rintro m _ ⟨x, y, has, has', rfl⟩
    exact has.condition has'.flat
  have each (u : Text) (member : u ∈ v :: others) := condition ((stands u member).mono fun m x has => has.toHasMembers)
  have alternatives := stands_alternatives (Q := fun _ _ z => Token.Obstructed after (Token.ofMasked z))
    (fun _ _ _ => id) (fun _ _ _ _ _ => obstructed_or) each
  exact ⟨not_parse_of_obstructed (condition (stands_list stands ended)), not_parse_of_obstructed alternatives⟩

/-- A condition with a list of values stands for the conditions with one value each that are joined by `or`: both are
    read as the same parts, or neither is. They are read unless there are brackets in their field. -/
theorem parse_list_eq_alternatives (field : NamesField f) (negated : Bool) (o : Operator) (nonempty : values ≠ [])
    (items : ∀ v ∈ values, IsItem v) (ended : ∀ v ∈ values.dropLast, ¬ EndsInEscape v) :
    (∀ parts, parse (conditionText negated f o ([','].intercalate values)) = .ok parts ↔
      parse ((Connector.between .or).intercalate (values.map (conditionText negated f o))) = .ok parts) ∧
      ((∃ parts, parse (conditionText negated f o ([','].intercalate values)) = .ok parts) ↔ Unbracketed f) := by
  by_cases unbracketed : Unbracketed f
  · obtain ⟨parts, list, alternatives⟩ := parse_list_of_unbracketed field unbracketed negated o nonempty items ended
    exact ⟨fun _ => by rw [list, alternatives], iff_of_true ⟨parts, list⟩ unbracketed⟩
  · have neither := not_parse_list_of_bracketed field unbracketed negated o nonempty items ended
    exact ⟨fun parts => iff_of_false (neither parts).1 (neither parts).2,
      iff_of_false (fun ⟨parts, list⟩ => (neither parts).1 list) unbracketed⟩

end

private def items : List Text := ["1\\, 2".toList, "'x, or y'".toList, [], "\t7".toList, "z\\".toList]

private def itemParts : List Part :=
  [.enter .or, .leaf ⟨"a'b c'".toList, .ne, .text "1\\, 2".toList⟩, .leaf ⟨"a'b c'".toList, .ne, .text "x, or y".toList⟩,
    .leaf ⟨"a'b c'".toList, .ne, .text []⟩, .leaf ⟨"a'b c'".toList, .ne, .int 7⟩,
    .leaf ⟨"a'b c'".toList, .ne, .text ['z', '\\']⟩, .leave .or]

/-- An escaped and a quoted comma, an item without a word, a number behind a tab and a backslash at the end, after a
    field with a literal. -/
theorem parse_list_eq_alternatives_negated :
    NamesField "a'b c'".toList ∧ items ≠ [] ∧ (∀ v ∈ items, IsItem v) ∧ (∀ v ∈ items.dropLast, ¬ EndsInEscape v) ∧
      parse "not a'b c' eq 1\\, 2,'x, or y',,\t7,z\\".toList = .ok itemParts ∧
        parse ((Connector.between .or).intercalate (items.map (conditionText true "a'b c'".toList .eq))) =
            .ok itemParts ∧
          Unbracketed "a'b c'".toList := by
  have field : NamesField "a'b c'".toList := by decide +kernel
  have nonempty : items ≠ [] := List.cons_ne_nil _ _
  have each : ∀ v ∈ items, IsItem v := by
    simp only [items, List.forall_mem_cons]
    refine ⟨?_, ?_, ?_, ?_, ?_, List.forall_mem_nil _⟩
    all_goals decide +kernel
  have ended : ∀ v ∈ items.dropLast, ¬ EndsInEscape v := by decide
  have list : conditionText true "a'b c'".toList .eq ([','].intercalate items) =
      "not a'b c' eq 1\\, 2,'x, or y',,\t7,z\\".toList := by decide +kernel
  have read : parse "not a'b c' eq 1\\, 2,'x, or y',,\t7,z\\".toList = .ok itemParts := by
    rw [parse_eq_parseWithin]
    decide +kernel
  obtain ⟨same, readable⟩ := parse_list_eq_alternatives field true .eq nonempty each ended
  rw [list] at same readable
  exact ⟨field, nonempty, each, ended, read, (same itemParts).mp read, readable.mp ⟨itemParts, read⟩⟩

/-- A word with brackets is a field that no condition is read with. -/
example : NamesField "a(b)".toList ∧ ¬ Unbracketed "a(b)".toList := by decide +kernel

/-- A word with a quote that nothing closes. Twice in a text, it closes itself: what stands between the two is a
    literal, and the alternatives are read as one comparison with it in its field. -/
theorem parse_list_ne_alternatives_unclosed :
    Text.words "a'".toList = ["a'".toList] ∧ IsField "a'".toList ∧ "a'".toList ≠ notWord ∧
      (∀ v ∈ [['1'], ['2']], IsItem v ∧ ¬ EndsInEscape v) ∧
      parse (conditionText false "a'".toList .eq ([','].intercalate [['1'], ['2']])) =
          .error (.unterminatedLiteral 1 9) ∧
        parse ((Connector.between .or).intercalate ([['1'], ['2']].map (conditionText false "a'".toList .eq))) =
          .ok [.leaf ⟨"a' eq 1 or a'".toList, .eq, .int 2⟩] := by
  refine ⟨by decide, by decide, by decide, ?_, ?_, ?_⟩
  · simp only [List.forall_mem_cons]
    exact ⟨⟨by decide +kernel, by decide⟩, ⟨by decide +kernel, by decide⟩, List.forall_mem_nil _⟩
  all_goals
    rw [parse_eq_parseWithin]
    decide +kernel

end Criteria.Filter
