import Criteria.Proofs.Filter.Simulation
import Criteria.Proofs.Filter.Tree
import Criteria.Proofs.Filter.Written

/-!
# Filters that are written and read back

A forest whose fields are readable and whose values are finite scalars is written as a text whose tokens
have a derivation. The derivation has a node for every member, so that the text is read as the forest
without its groups of one member.

The parts that are read from any text are those of one tree whose groups have several members. Its fields
are readable and its values are finite scalars, so that it can be written.
-/

namespace Criteria.Filter

open Literal (Masked)

mutual

/-- What is written for a tree, to be joined by spaces. -/
def Tree.pieces : Tree → List Text
  | .leaf x => [x.render]
  | .group c first rest => ['('] :: (first.pieces ++ rest.pieces c ++ [[')']])

/-- What is written for trees behind another one. -/
def Forest.pieces (c : Connector) : Forest → List Text
  | .nil => []
  | .cons first rest => c.word :: (first.pieces ++ rest.pieces c)

end

mutual

private theorem Tree.tokensFrom_parts (t : Tree) (here : Place) (around : List Place) (r : List Part) :
    tokensFrom here around (t.parts ++ r) = here.joint ++ t.pieces ++ tokensFrom here.next around r := by
  match t with
  | .leaf x => simp [Tree.parts, Tree.pieces, tokensFrom]
  | .group c first rest =>
    have whole : (Tree.group c first rest).parts ++ r = .enter c :: (first.parts ++ (rest.parts ++ .leave c :: r)) := by
      simp [Tree.parts, Filter.group]
    have begins : (⟨c, false⟩ : Place).joint = [] := rfl
    have begun : (⟨c, false⟩ : Place).next = ⟨c, true⟩ := rfl
    rw [whole, tokensFrom, first.tokensFrom_parts, begins, begun, rest.tokensFrom_parts, tokensFrom]
    simp [Tree.pieces]

private theorem Forest.tokensFrom_parts (f : Forest) (c : Connector) (around : List Place) (r : List Part) :
    tokensFrom ⟨c, true⟩ around (f.parts ++ r) = f.pieces c ++ tokensFrom ⟨c, true⟩ around r := by
  match f with
  | .nil => rfl
  | .cons first rest =>
    have joint : (⟨c, true⟩ : Place).joint = [c.word] := rfl
    have next : (⟨c, true⟩ : Place).next = ⟨c, true⟩ := rfl
    rw [Forest.parts, List.append_assoc, first.tokensFrom_parts, joint, next, rest.tokensFrom_parts]
    simp [Forest.pieces]

end

theorem render_parts (first : Tree) (rest : Forest) :
    render (Forest.cons first rest).parts = [' '].intercalate (first.pieces ++ rest.pieces .and) := by
  have begins : (⟨.and, false⟩ : Place).joint = [] := rfl
  have begun : (⟨.and, false⟩ : Place).next = ⟨.and, true⟩ := rfl
  have ends : tokensFrom ⟨.and, true⟩ [] [] = [] := rfl
  rw [render, Forest.parts, first.tokensFrom_parts, begins, begun, ← List.append_nil rest.parts, rest.tokensFrom_parts,
    ends, List.append_nil, List.nil_append]

/-- The words of a comparison. -/
def IsComparisonRun (m : Masked) (x : Comparison) (ts : List Token) : Prop :=
  ∃ w v, ts = [.word w, .word x.operator.word, .word v] ∧ IsFieldWord m w x.field ∧ IsValueWord m v x.value

/-- A comparison that can be written: its field is readable, its value is a finite scalar. -/
def Writable (x : Comparison) : Prop := Readable x.field ∧ x.value.IsFiniteScalar

theorem written_comparison {x : Comparison} (writable : Writable x) :
    Written x.render fun m ts => IsComparisonRun m x ts := by
  have back : Written (x.operator.word ++ ' ' :: x.value.render) fun m ts =>
      ∃ v, ts = [.word x.operator.word, .word v] ∧ IsValueWord m v x.value := by
    refine (written_operator x.operator).append (written_value writable.2) ?_
    rintro m ts us rfl ⟨v, rfl, value⟩
    exact ⟨v, rfl, value⟩
  refine writable.1.append back ?_
  rintro m ts us ⟨w, rfl, field⟩ ⟨v, rfl, value⟩
  exact ⟨w, v, rfl, field, value⟩

/-- The words of a comparison are a condition, unless its field reads as a negation. -/
theorem exists_condition {m : Masked} {x : Comparison} {ts : List Token} (run : IsComparisonRun m x ts)
    (scalar : x.value.IsFiniteScalar) (named : x.field ≠ notWord) :
    ∃ c : Condition, c.texts.map .word = ts ∧ c.parts m = [.leaf x] := by
  obtain ⟨w, v, rfl, field, value⟩ := run
  have notNegated : w = notWord → false = true := fun same => absurd (field.notWord_iff.mp same) named
  have plain : ∀ u ∈ [v], ∀ c : Connector, u ≠ c.word := by
    intro u member
    rw [List.mem_singleton.mp member]
    exact value.plain
  refine ⟨⟨false, w, x.operator, [v], field.isField, notNegated, plain⟩, rfl, ?_⟩
  have single : compare x.field x.operator x.value = [.leaf x] := by
    obtain ⟨name, operator, found⟩ := x
    cases found with
    | list => exact absurd scalar id
    | _ => rfl
  simp only [Condition.parts, List.intercalate_singleton, field.restored, value.read]
  exact single

/-- Members joined by a connector: the operands of a conjunction or of alternatives. -/
private def IsJoined (m : Masked) : Connector → List (List Part) → List Token → Prop
  | .and, members, ts => ∃ c : Conjunction, c.tokens = ts ∧ c.members m = members
  | .or, members, ts => ∃ a : Alternatives, a.tokens = ts ∧ a.members m = members

private theorem isJoined_one (m : Masked) (c : Connector) (p : Primary) : IsJoined m c [p.parts m] p.tokens := by
  cases c with
  | and => exact ⟨.one p, rfl, rfl⟩
  | or => exact ⟨.one (.one p), rfl, rfl⟩

private theorem isJoined_more {m : Masked} {c : Connector} {members : List (List Part)} {ts : List Token} (p : Primary)
    (h : IsJoined m c members ts) : IsJoined m c (p.parts m :: members) (p.tokens ++ .word c.word :: ts) := by
  cases c with
  | and =>
    obtain ⟨conjunction, rfl, rfl⟩ := h
    exact ⟨.more p conjunction, rfl, rfl⟩
  | or =>
    obtain ⟨alternatives, rfl, rfl⟩ := h
    exact ⟨.more (.one p) alternatives, rfl, rfl⟩

private theorem exists_alternatives {m : Masked} {c : Connector} {members : List (List Part)} {ts : List Token}
    (h : IsJoined m c members ts) : ∃ a : Alternatives, a.tokens = ts ∧ a.parts m = join c members := by
  cases c with
  | and =>
    obtain ⟨conjunction, rfl, rfl⟩ := h
    exact ⟨.one conjunction, rfl, rfl⟩
  | or =>
    obtain ⟨alternatives, rfl, rfl⟩ := h
    exact ⟨alternatives, rfl, rfl⟩

private def Forest.members : Forest → List (List Part)
  | .nil => []
  | .cons first rest => first.unwrap.parts :: rest.members

private theorem Forest.flatten_members (f : Forest) : f.members.flatten = f.unwrap.parts := by
  match f with
  | .nil => rfl
  | .cons first rest =>
    rw [Forest.members, List.flatten_cons, rest.flatten_members]
    rfl

private theorem join_members (c : Connector) (first : Tree) (rest : Forest) :
    join c (first.unwrap.parts :: rest.members) = (Tree.join c first.unwrap rest.unwrap).parts := by
  cases rest with
  | nil => rfl
  | cons second rest =>
    have several : join c (first.unwrap.parts :: (Forest.cons second rest).members) =
        Filter.group c (first.unwrap.parts :: (Forest.cons second rest).members).flatten := rfl
    rw [several, List.flatten_cons, Forest.flatten_members]
    rfl

mutual

private theorem Tree.written (t : Tree) (good : ∀ x ∈ leaves t.parts, Writable x ∧ x.field ≠ notWord) :
    Written ([' '].intercalate t.pieces) fun m ts => ∃ p : Primary, p.tokens = ts ∧ p.parts m = t.unwrap.parts := by
  match t with
  | .leaf x =>
    obtain ⟨writable, named⟩ := good x (by simp [Tree.parts])
    refine (written_comparison writable).piece.mono ?_
    rintro m ts run
    obtain ⟨c, rfl, parts⟩ := exists_condition run writable.2 named
    exact ⟨.condition c, rfl, parts⟩
  | .group c first rest =>
    rw [Tree.parts, leaves_group, leaves_append] at good
    have inner := rest.written c (fun x member => good x (List.mem_append_right _ member))
      (first.written fun x member => good x (List.mem_append_left _ member))
    have closed := inner.pieces written_closing.piece (R := fun m ts => ∃ a : Alternatives,
      ts = a.tokens ++ [.closing] ∧ a.parts m = (Tree.join c first.unwrap rest.unwrap).parts) (by
        rintro m ts us joined rfl
        obtain ⟨a, rfl, parts⟩ := exists_alternatives joined
        exact ⟨a, rfl, parts.trans (join_members c first rest)⟩)
    refine written_opening.piece.pieces closed ?_
    rintro m ts us rfl ⟨a, rfl, parts⟩
    exact ⟨.group a, rfl, parts⟩

-- Trees that are written behind a piece are joined to it.
private theorem Forest.written (f : Forest) (c : Connector) (good : ∀ x ∈ leaves f.parts, Writable x ∧ x.field ≠ notWord)
    {ps : List Text} {parts : List Part} (front : Written ([' '].intercalate ps) fun m ts =>
      ∃ p : Primary, p.tokens = ts ∧ p.parts m = parts) :
    Written ([' '].intercalate (ps ++ f.pieces c)) fun m ts => IsJoined m c (parts :: f.members) ts := by
  match f with
  | .nil =>
    rw [Forest.pieces, List.append_nil]
    refine front.mono ?_
    rintro m ts ⟨p, rfl, rfl⟩
    exact isJoined_one m c p
  | .cons second rest =>
    rw [Forest.parts, leaves_append] at good
    have back := rest.written c (fun x member => good x (List.mem_append_right _ member))
      (second.written fun x member => good x (List.mem_append_left _ member))
    have joined := (written_connector c).piece.pieces back (R := fun m ts => ∃ us, ts = .word c.word :: us ∧
      IsJoined m c (second.unwrap.parts :: rest.members) us) (by
        rintro m ts us rfl joined
        exact ⟨us, rfl, joined⟩)
    refine front.pieces joined ?_
    rintro m ts us ⟨p, rfl, rfl⟩ ⟨vs, rfl, later⟩
    exact isJoined_more p later

end

/-- A written forest is read as the forest without its groups of one member, joined by `and`. -/
theorem parse_render_cons (first : Tree) (rest : Forest)
    (good : ∀ x ∈ leaves (Forest.cons first rest).parts, Writable x ∧ x.field ≠ notWord) :
    parse (render (Forest.cons first rest).parts) = .ok (Tree.join .and first.unwrap rest.unwrap).parts := by
  rw [Forest.parts, leaves_append] at good
  have joined := rest.written .and (fun x member => good x (List.mem_append_right _ member))
    (first.written fun x member => good x (List.mem_append_left _ member))
  rw [render_parts]
  refine (joined.mono ?_).parse_eq
  rintro m ts joined
  obtain ⟨a, rfl, parts⟩ := exists_alternatives joined
  exact ⟨a, rfl, parts.trans (join_members .and first rest)⟩

theorem compare_scalar (field : Text) (o : Operator) {v : Value} (scalar : v.IsFiniteScalar) :
    compare field o v = [.leaf ⟨field, o, v⟩] := by
  cases v with
  | list => exact absurd scalar id
  | _ => rfl

/-- The parts of a tree whose groups have several members and whose comparisons can be written. -/
def IsFull (parts : List Part) : Prop :=
  ∃ t : Tree, t.parts = parts ∧ t.unwrap = t ∧ ∀ x ∈ leaves parts, Writable x

private theorem exists_forest {members : List (List Part)} (h : ∀ p ∈ members, IsFull p) :
    ∃ f : Forest, f.parts = members.flatten ∧ f.unwrap = f ∧ ∀ x ∈ leaves members.flatten, Writable x := by
  induction members with
  | nil => exact ⟨.nil, rfl, rfl, by simp⟩
  | cons p members ih =>
    obtain ⟨t, rfl, full, writable⟩ := h p List.mem_cons_self
    obtain ⟨f, parts, fullRest, writableRest⟩ := ih fun q member => h q (List.mem_cons_of_mem _ member)
    refine ⟨.cons t f, ?_, ?_, ?_⟩
    · rw [Forest.parts, parts, List.flatten_cons]
    · rw [Forest.unwrap, full, fullRest]
    · intro x member
      rw [List.flatten_cons, leaves_append] at member
      exact (List.mem_append.mp member).elim (writable x) (writableRest x)

theorem IsFull.group (c : Connector) {p q : List Part} {members : List (List Part)}
    (h : ∀ r ∈ p :: q :: members, IsFull r) : IsFull (group c (p :: q :: members).flatten) := by
  obtain ⟨t, rfl, full, writable⟩ := h p List.mem_cons_self
  obtain ⟨u, rfl, fullSecond, writableSecond⟩ := h q (List.mem_cons_of_mem _ List.mem_cons_self)
  have others : ∀ r ∈ members, IsFull r := fun r member =>
    h r (List.mem_cons_of_mem _ (List.mem_cons_of_mem _ member))
  obtain ⟨f, parts, fullRest, writableRest⟩ := exists_forest others
  refine ⟨.group c t (.cons u f), ?_, ?_, ?_⟩
  · rw [Tree.parts, Forest.parts, parts, List.flatten_cons, List.flatten_cons]
  · rw [Tree.unwrap, full, Forest.unwrap, fullSecond, fullRest]
    rfl
  · intro x member
    rw [leaves_group, List.flatten_cons, List.flatten_cons, leaves_append, leaves_append] at member
    rcases List.mem_append.mp member with member | member
    · exact writable x member
    · exact (List.mem_append.mp member).elim (writableSecond x) (writableRest x)

theorem isFull_leaf {x : Comparison} (writable : Writable x) : IsFull [.leaf x] := by
  refine ⟨.leaf x, rfl, rfl, fun y member => ?_⟩
  rw [leaves_leaf, List.mem_singleton] at member
  rwa [member]

/-- What is read from a text that is not blank is a tree that can be written. -/
theorem isFull_of_parse {t : Text} {parts : List Part} (read : parse t = .ok parts) (nonblank : Text.trim t ≠ []) :
    IsFull parts := by
  refine invariant_of_parse read nonblank ?_ ?_
  · intro m field o value isField nonempty solid alike
    have readable := readable_of_alike isField nonempty solid alike
    rcases Value.ofMasked_cases m value with scalar | ⟨v, w, r, list, scalars⟩
    · rw [compare_scalar _ o scalar]
      exact isFull_leaf ⟨readable, scalar⟩
    · have several : compare (m.restore field) o (.list (v :: w :: r)) =
          group .or ((v :: w :: r).map fun u => [Part.leaf ⟨m.restore field, o, u⟩]).flatten := by
        rw [← List.flatMap_def, ← List.map_eq_flatMap]
        rfl
      rw [list, several]
      refine IsFull.group .or fun p member => ?_
      have held : p ∈ (v :: w :: r).map fun u => [Part.leaf ⟨m.restore field, o, u⟩] := member
      obtain ⟨u, inside, rfl⟩ := List.mem_map.mp held
      exact isFull_leaf ⟨readable, scalars u inside⟩
  · intro c members nonempty full
    match members with
    | [p] => exact full p List.mem_cons_self
    | p :: q :: members => exact IsFull.group c full

/-- A field that was read stays the same field wherever it is written. -/
theorem readable_of_parse {t : Text} {parts : List Part} (read : parse t = .ok parts) {x : Comparison}
    (member : x ∈ leaves parts) : Readable x.field := by
  by_cases blank : Text.trim t = []
  · rcases parse_eq_ok_iff.mp read with ⟨-, rfl⟩ | ⟨nonblank, -⟩
    · simp at member
    · exact absurd blank nonblank
  · obtain ⟨-, -, -, writable⟩ := isFull_of_parse read blank
    exact (writable x member).1

end Criteria.Filter
