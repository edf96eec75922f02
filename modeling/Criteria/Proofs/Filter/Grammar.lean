import Criteria.Filter.Parser
import Criteria.Proofs.Filter.Segment

/-!
# The grammar of filters

A filter text derives from

    alternatives ::= conjunction ('or' conjunction)*
    conjunction  ::= primary ('and' primary)*
    primary      ::= '(' alternatives ')' | condition
    condition    ::= ['not'] field operator word*

The trees below are its derivations. A tree has the tokens that it derives and the parts that it
stands for: a node with several operands is a group around them, a node with one operand is that
operand.
-/

namespace Criteria.Filter

open Literal (Masked)

/-- A word that can name a field: no connector, and none that begins and ends with a quote. -/
def IsField (w : Text) : Prop :=
  (∀ c : Connector, w ≠ c.word) ∧
    ¬ (1 < w.length ∧ w.head? = some Literal.quote ∧ w.getLast? = some Literal.quote)

/-- A condition as it is written. A leading word `not` always negates, and no word of the value is a
    connector. -/
structure Condition where
  negated : Bool
  field : Text
  operator : Operator
  value : List Text
  isField : IsField field
  negated_of_not : field = notWord → negated = true
  plain : ∀ w ∈ value, ∀ c : Connector, w ≠ c.word

namespace Condition

/-- The words of a condition. -/
def texts (c : Condition) : List Text :=
  (if c.negated then [notWord] else []) ++ c.field :: c.operator.word :: c.value

/-- The comparison that a condition asks for, with its operator negated after `not`; a list of values
    is a group of alternatives. -/
def parts (m : Masked) (c : Condition) : List Part :=
  compare (m.restore c.field) (if c.negated then c.operator.negate else c.operator)
    (Value.ofMasked m ([' '].intercalate c.value))

end Condition

mutual

/-- Conjunctions joined by `or`. -/
inductive Alternatives
  | one (c : Conjunction)
  | more (c : Conjunction) (r : Alternatives)

/-- Primaries joined by `and`. -/
inductive Conjunction
  | one (p : Primary)
  | more (p : Primary) (r : Conjunction)

/-- Alternatives in brackets, or a condition. -/
inductive Primary
  | group (a : Alternatives)
  | condition (c : Condition)

end

mutual

/-- The tokens that alternatives derive. -/
def Alternatives.tokens : Alternatives → List Token
  | .one c => c.tokens
  | .more c r => c.tokens ++ .word Connector.or.word :: r.tokens

/-- The tokens that a conjunction derives. -/
def Conjunction.tokens : Conjunction → List Token
  | .one p => p.tokens
  | .more p r => p.tokens ++ .word Connector.and.word :: r.tokens

/-- The tokens that a primary derives. -/
def Primary.tokens : Primary → List Token
  | .group a => .opening :: (a.tokens ++ [.closing])
  | .condition c => c.texts.map .word

end

mutual

/-- The parts of each of the alternatives. -/
def Alternatives.members (m : Masked) : Alternatives → List (List Part)
  | .one c => [join .and (c.members m)]
  | .more c r => join .and (c.members m) :: r.members m

/-- The parts of each primary of a conjunction. -/
def Conjunction.members (m : Masked) : Conjunction → List (List Part)
  | .one p => [p.parts m]
  | .more p r => p.parts m :: r.members m

/-- The parts of a primary; brackets leave no trace of their own. -/
def Primary.parts (m : Masked) : Primary → List Part
  | .group a => join .or (a.members m)
  | .condition c => c.parts m

end

/-- The flat filter that a derivation stands for. -/
def Alternatives.parts (m : Masked) (a : Alternatives) : List Part := join .or (a.members m)

/-- What stands on one level of a text: a word, or a group in brackets. -/
inductive Item
  | word (w : Text)
  | group (a : Alternatives)

/-- The tokens of an item. -/
def Item.tokens : Item → List Token
  | .word w => [.word w]
  | .group a => .opening :: (a.tokens ++ [.closing])

/-- The items of a primary. -/
def Primary.items : Primary → List Item
  | .group a => [.group a]
  | .condition c => c.texts.map .word

/-- The items of a conjunction. -/
def Conjunction.items : Conjunction → List Item
  | .one p => p.items
  | .more p r => p.items ++ .word Connector.and.word :: r.items

/-- The items of alternatives. -/
def Alternatives.items : Alternatives → List Item
  | .one c => c.items
  | .more c r => c.items ++ .word Connector.or.word :: r.items

theorem flatMap_tokens_words (ws : List Text) :
    (ws.map Item.word).flatMap Item.tokens = ws.map .word := by
  induction ws with
  | nil => rfl
  | cons w ws ih => simp [Item.tokens, ih]

theorem eq_nil_of_flatMap_tokens {items : List Item} (h : items.flatMap Item.tokens = []) : items = [] := by
  cases items with
  | nil => rfl
  | cons item items => cases item <;> simp [Item.tokens] at h

theorem Primary.flatMap_tokens (p : Primary) : p.items.flatMap Item.tokens = p.tokens := by
  cases p with
  | group a => simp [items, tokens, Item.tokens]
  | condition c => exact flatMap_tokens_words c.texts

theorem Conjunction.flatMap_tokens (c : Conjunction) : c.items.flatMap Item.tokens = c.tokens := by
  match c with
  | .one p => exact p.flatMap_tokens
  | .more p r =>
    rw [items, List.flatMap_append, List.flatMap_cons, p.flatMap_tokens, r.flatMap_tokens]
    rfl

/-- The items of a derivation hold its tokens. -/
theorem Alternatives.flatMap_tokens (a : Alternatives) : a.items.flatMap Item.tokens = a.tokens := by
  match a with
  | .one c => exact c.flatMap_tokens
  | .more c r =>
    rw [items, List.flatMap_append, List.flatMap_cons, c.flatMap_tokens, r.flatMap_tokens]
    rfl

mutual

private theorem Alternatives.nest_tokens (a : Alternatives) (depth : Nat) (r : List Token) :
    Token.nest depth (a.tokens ++ r) = Token.nest depth r := by
  match a with
  | .one c => exact c.nest_tokens depth r
  | .more c rest =>
    rw [Alternatives.tokens, List.append_assoc, c.nest_tokens]
    exact rest.nest_tokens depth r

private theorem Conjunction.nest_tokens (c : Conjunction) (depth : Nat) (r : List Token) :
    Token.nest depth (c.tokens ++ r) = Token.nest depth r := by
  match c with
  | .one p => exact p.nest_tokens depth r
  | .more p rest =>
    rw [Conjunction.tokens, List.append_assoc, p.nest_tokens]
    exact rest.nest_tokens depth r

private theorem Primary.nest_tokens (p : Primary) (depth : Nat) (r : List Token) :
    Token.nest depth (p.tokens ++ r) = Token.nest depth r := by
  match p with
  | .group a =>
    rw [Primary.tokens, List.cons_append, List.append_assoc, Token.nest, a.nest_tokens]
    rfl
  | .condition c => exact Token.nest_words_append depth c.texts r

end

/-- The brackets of a derivation pair up. -/
theorem Alternatives.balanced (a : Alternatives) : Token.Balanced a.tokens := by
  simpa [Token.Balanced, Token.nest] using a.nest_tokens 0 []

/-- Segments stand for items if texts stand for their words and groups for derivations of their
    tokens. -/
inductive Matches : List Segment → List Item → Prop
  | nil : Matches [] []
  | text (t : Text) {segments : List Segment} {items : List Item} (rest : Matches segments items) :
      Matches (.text t :: segments) ((Text.words t).map .word ++ items)
  | group {inner : Text} {a : Alternatives} {segments : List Segment} {items : List Item}
      (derives : Token.ofMasked inner = a.tokens) (rest : Matches segments items) :
      Matches (.group inner :: segments) (.group a :: items)

theorem Matches.flatMap_tokens {segments : List Segment} {items : List Item} (h : Matches segments items) :
    segments.flatMap Segment.tokens = items.flatMap Item.tokens := by
  induction h with
  | nil => rfl
  | text t rest ih =>
    rw [List.flatMap_cons, List.flatMap_append, ih, flatMap_tokens_words]
    rfl
  | group derives rest ih =>
    rw [List.flatMap_cons, List.flatMap_cons, ih, Segment.tokens, Item.tokens, derives]

/-- Items that begin with the tokens of words begin with these words. -/
theorem items_of_words {ws : List Text} {items : List Item} {r : List Token}
    (h : ws.map .word ++ r = items.flatMap Item.tokens) :
    ∃ rest, items = ws.map .word ++ rest ∧ r = rest.flatMap Item.tokens := by
  induction ws generalizing items with
  | nil => exact ⟨items, rfl, h⟩
  | cons w ws ih =>
    cases items with
    | nil => simp at h
    | cons item items =>
      cases item with
      | word v =>
        rw [List.flatMap_cons] at h
        obtain ⟨same, tail⟩ := List.cons.inj h
        cases same
        obtain ⟨rest, rfl, rfl⟩ := ih tail
        exact ⟨rest, rfl, rfl⟩
      | group a => simp [Item.tokens] at h

/-- Segments with paired brackets stand for any items that hold the same tokens. -/
theorem matches_of_tokens_eq {segments : List Segment} (sound : ∀ s ∈ segments, s.Sound) {items : List Item}
    (h : segments.flatMap Segment.tokens = items.flatMap Item.tokens) : Matches segments items := by
  induction segments generalizing items with
  | nil =>
    cases items with
    | nil => exact .nil
    | cons item items => cases item <;> simp [Item.tokens] at h
  | cons s segments ih =>
    have later : ∀ s ∈ segments, s.Sound := fun s member => sound s (List.mem_cons_of_mem _ member)
    rw [List.flatMap_cons] at h
    cases s with
    | text t =>
      obtain ⟨rest, rfl, tail⟩ := items_of_words h
      exact .text t (ih later tail)
    | group inner =>
      cases items with
      | nil => simp [Segment.tokens] at h
      | cons item items =>
        cases item with
        | word w => simp [Segment.tokens, Item.tokens] at h
        | group a =>
          have inside : Token.Balanced (Token.ofMasked inner) := sound (.group inner) List.mem_cons_self
          rw [List.flatMap_cons, Segment.tokens, Item.tokens, List.cons_append, List.cons_append,
            List.append_assoc, List.append_assoc] at h
          obtain ⟨derives, tail⟩ := inside.append_closing_inj a.balanced (List.cons.inj h).2
          exact .group derives (ih later tail)

end Criteria.Filter
