import Criteria.Proofs.Filter.Condition
import Criteria.Proofs.Text.Cut

/-!
# Groups as marks

On one level of a text the groups have been read and stored, and their marks stand among the words.
`Encodes` says which items the words stand for. Reading a level takes the groups out that were stored
for it and leaves every other group where it is.
-/

namespace Criteria.Filter

open Literal (Masked)

variable {m : Masked} {A : Type}

/-- Words stand for items if the table of groups has grown from the length `n` by `stored`: a mark
    stands for the group that is stored under its number, any other word for itself. -/
inductive Encodes (m : Masked) : Nat → List Item → List Text → GroupTable → Prop
  | nil (n : Nat) : Encodes m n [] [] []
  | word {n : Nat} {w : Text} {items : List Item} {ws : List Text} {stored : GroupTable}
      (unmarked : w.head? ≠ some Literal.sentinel) (rest : Encodes m n items ws stored) :
      Encodes m n (.word w :: items) (w :: ws) stored
  | group {n : Nat} {a : Alternatives} {items : List Item} {ws : List Text} {stored : GroupTable}
      (inner : GroupTable) (rest : Encodes m (n + inner.length + 1) items ws stored) :
      Encodes m n (.group a :: items) (GroupTable.mark (n + inner.length) :: ws)
        (inner ++ some (a.parts m) :: stored)

namespace Encodes

variable {n : Nat} {items : List Item} {ws : List Text} {stored : GroupTable}

/-- Words that are no marks stand for themselves. -/
theorem ofWords {ws : List Text} (unmarked : ∀ w ∈ ws, w.head? ≠ some Literal.sentinel) (n : Nat) :
    Encodes m n (ws.map .word) ws [] := by
  induction ws with
  | nil => exact .nil n
  | cons w ws ih =>
    exact .word (unmarked w List.mem_cons_self) (ih fun v member => unmarked v (List.mem_cons_of_mem _ member))

theorem append {items' : List Item} {ws' : List Text} {stored' : GroupTable}
    (h : Encodes m n items ws stored) (h' : Encodes m (n + stored.length) items' ws' stored') :
    Encodes m n (items ++ items') (ws ++ ws') (stored ++ stored') := by
  induction h with
  | nil n => exact h'
  | word unmarked rest ih => exact .word unmarked (ih h')
  | group inner rest ih =>
    rw [List.append_assoc, List.cons_append]
    refine .group inner (ih ?_)
    rw [List.length_append, List.length_cons] at h'
    rw [Nat.add_assoc _ inner.length, Nat.add_assoc, Nat.add_assoc, Nat.add_comm 1]
    exact h'

/-- Where the items divide, the words and the stored groups divide too. -/
theorem split_items {front back : List Item} (h : Encodes m n (front ++ back) ws stored) :
    ∃ w₁ w₂ s₁ s₂, ws = w₁ ++ w₂ ∧ stored = s₁ ++ s₂ ∧ Encodes m n front w₁ s₁ ∧
      Encodes m (n + s₁.length) back w₂ s₂ := by
  induction front generalizing n ws stored with
  | nil => exact ⟨[], ws, [], stored, rfl, rfl, .nil n, h⟩
  | cons item front ih =>
    cases h with
    | word unmarked rest =>
      obtain ⟨w₁, w₂, s₁, s₂, rfl, rfl, left, right⟩ := ih rest
      exact ⟨_ :: w₁, w₂, s₁, s₂, rfl, rfl, .word unmarked left, right⟩
    | group inner rest =>
      obtain ⟨w₁, w₂, s₁, s₂, rfl, rfl, left, right⟩ := ih rest
      refine ⟨_ :: w₁, w₂, inner ++ _ :: s₁, s₂, rfl, by simp, .group inner left, ?_⟩
      rw [List.length_append, List.length_cons, Nat.add_comm s₁.length, ← Nat.add_assoc, ← Nat.add_assoc]
      exact right

/-- Where the words divide, the items and the stored groups divide too. -/
theorem split_words {front back : List Text} (h : Encodes m n items (front ++ back) stored) :
    ∃ i₁ i₂ s₁ s₂, items = i₁ ++ i₂ ∧ stored = s₁ ++ s₂ ∧ Encodes m n i₁ front s₁ ∧
      Encodes m (n + s₁.length) i₂ back s₂ := by
  induction front generalizing n items stored with
  | nil => exact ⟨[], items, [], stored, rfl, rfl, .nil n, h⟩
  | cons w front ih =>
    cases h with
    | word unmarked rest =>
      obtain ⟨i₁, i₂, s₁, s₂, rfl, rfl, left, right⟩ := ih rest
      exact ⟨_ :: i₁, i₂, s₁, s₂, rfl, rfl, .word unmarked left, right⟩
    | group inner rest =>
      obtain ⟨i₁, i₂, s₁, s₂, rfl, rfl, left, right⟩ := ih rest
      refine ⟨_ :: i₁, i₂, inner ++ _ :: s₁, s₂, rfl, by simp, .group inner left, ?_⟩
      rw [List.length_append, List.length_cons, Nat.add_comm s₁.length, ← Nat.add_assoc, ← Nat.add_assoc]
      exact right

theorem head?_mark (k : Nat) : (GroupTable.mark k).head? = some Literal.sentinel := rfl

/-- A word that is no mark stands for itself. -/
theorem word_of_unmarked {w : Text} (h : Encodes m n items (w :: ws) stored)
    (unmarked : w.head? ≠ some Literal.sentinel) :
    ∃ rest, items = .word w :: rest ∧ Encodes m n rest ws stored := by
  cases h with
  | word _ rest => exact ⟨_, rfl, rest⟩
  | group inner rest => exact absurd (head?_mark _) unmarked

theorem mem_items {w : Text} (h : Encodes m n items ws stored) (unmarked : w.head? ≠ some Literal.sentinel)
    (member : w ∈ ws) : .word w ∈ items := by
  induction h with
  | nil => simp at member
  | word _ rest ih =>
    rcases List.mem_cons.mp member with rfl | member
    · exact List.mem_cons_self
    · exact List.mem_cons_of_mem _ (ih member)
  | group inner rest ih =>
    rcases List.mem_cons.mp member with rfl | member
    · exact absurd (head?_mark _) unmarked
    · exact List.mem_cons_of_mem _ (ih member)

theorem words_ne_nil (h : Encodes m n items ws stored) (nonempty : items ≠ []) : ws ≠ [] := by
  cases h with
  | nil => exact absurd rfl nonempty
  | word => simp
  | group => simp

/-- Items that are words have no groups stored. -/
theorem eq_of_words {vs : List Text} (h : Encodes m n (vs.map .word) ws stored) :
    ws = vs ∧ stored = [] ∧ ∀ w ∈ vs, w.head? ≠ some Literal.sentinel := by
  induction vs generalizing ws stored with
  | nil =>
    cases h
    exact ⟨rfl, rfl, by simp⟩
  | cons v vs ih =>
    cases h with
    | word unmarked rest =>
      obtain ⟨rfl, rfl, others⟩ := ih rest
      refine ⟨rfl, rfl, ?_⟩
      intro w member
      rcases List.mem_cons.mp member with rfl | member
      · exact unmarked
      · exact others w member

end Encodes

/-- Every group among some items comes right after a connector, or first if `led` allows it. -/
def Led (led : Bool) : List Item → Prop
  | [] => True
  | .word w :: r => Led (Connector.ofWord? w).isSome r
  | .group _ :: r => led = true ∧ Led false r

theorem Led.mono {led : Bool} {items : List Item} (h : Led false items) : Led led items := by
  cases items with
  | nil => trivial
  | cons item r =>
    cases item with
    | word w => exact h
    | group a => exact absurd h.1 Bool.false_ne_true

theorem led_append_connector {led : Bool} {front back : List Item} {c : Connector}
    (h : Led led (front ++ .word c.word :: back)) : Led led front ∧ Led true back := by
  induction front generalizing led with
  | nil =>
    have behind : Led (Connector.ofWord? c.word).isSome back := h
    rw [Connector.ofWord?_word] at behind
    exact ⟨trivial, behind⟩
  | cons item front ih =>
    cases item with
    | word w =>
      have later : Led (Connector.ofWord? w).isSome (front ++ .word c.word :: back) := h
      exact ih later
    | group a =>
      obtain ⟨first, later⟩ := h
      exact ⟨⟨first, (ih later).1⟩, (ih later).2⟩

/-- Without connectors before the last word there is no group after a word. -/
theorem Encodes.eq_words_of_led {n : Nat} {items : List Item} {ws : List Text} {stored : GroupTable}
    (h : Encodes m n items ws stored) (led : Led false items)
    (plain : ∀ w ∈ ws.dropLast, ∀ c : Connector, w ≠ c.word) : items = ws.map .word ∧ stored = [] := by
  induction h with
  | nil => exact ⟨rfl, rfl⟩
  | group inner rest ih => exact absurd led.1 Bool.false_ne_true
  | @word n w items ws stored unmarked rest ih =>
    cases rest with
    | nil => exact ⟨rfl, rfl⟩
    | word | group =>
      rw [List.dropLast_cons_of_ne_nil (by simp)] at plain
      have named : Connector.ofWord? w = none :=
        Connector.ofWord?_eq_none_iff.mpr (plain w List.mem_cons_self)
      have later : Led (Connector.ofWord? w).isSome _ := led
      rw [named] at later
      obtain ⟨same, empty⟩ := ih later fun v member => plain v (List.mem_cons_of_mem _ member)
      rw [same]
      exact ⟨rfl, empty⟩

/-- A reading succeeds with `a` and touches no groups but those `stored` between others. -/
def Consumes (x : Reading A) (base stored after : GroupTable) (a : A) : Prop :=
  ∃ spent : GroupTable, spent.length = stored.length ∧
    Yields x (base ++ stored ++ after) a (base ++ spent ++ after)

theorem Consumes.map {B : Type} {x : Reading A} {base stored after : GroupTable} {a : A}
    (h : Consumes x base stored after a) (f : A → B) :
    Consumes (do let b ← x; return f b) base stored after (f a) := by
  obtain ⟨spent, size, read⟩ := h
  refine ⟨spent, size, yields_bind_iff.mpr ⟨a, _, read, ?_⟩⟩
  exact yields_pure_iff.mpr ⟨rfl, rfl⟩

end Criteria.Filter
