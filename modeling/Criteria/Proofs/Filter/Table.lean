import Criteria.Proofs.Filter.Level
import Criteria.Proofs.Filter.Reading

/-!
# The table of groups

A reading stores its groups behind those that stand in the table and takes out no others. What it gives does not
depend on the table, and if it succeeds, it has taken out all groups that it stored: each stands in one place of what
is read.
-/

namespace Criteria.Filter

open Literal (Masked)

variable {A B : Type} {m : Masked}

/-- A reading that is numbered by where its slots begin gives the same from every table that has them there, and leaves
    all other slots as they are. If it succeeds, it has taken out all of its groups. -/
def Takes (slots : GroupTable) (P : A → Prop) (read : Nat → Reading A) : Prop :=
  ∃ (result : Except SyntaxError A) (left : GroupTable),
    (∀ front back, outcome (read front.length) (front ++ slots ++ back) = (result, front ++ left ++ back)) ∧
      ∀ a, result = .ok a → P a ∧ left = slots.map fun _ => none

namespace Takes

variable {slots more : GroupTable} {P : A → Prop} {Q : B → Prop} {read : Nat → Reading A}

theorem pure {a : A} (h : P a) : Takes [] P fun _ => pure a :=
  ⟨.ok a, [], fun _ _ => outcome_pure a _, fun _ same => by cases same; exact ⟨h, rfl⟩⟩

theorem imp {P' : A → Prop} (h : Takes slots P read) (weaker : ∀ a, P a → P' a) : Takes slots P' read := by
  obtain ⟨result, left, run, success⟩ := h
  exact ⟨result, left, run, fun a ok => ⟨weaker a (success a ok).1, (success a ok).2⟩⟩

theorem bind {next : A → Nat → Reading B} (h : Takes slots P read) (h' : ∀ a, P a → Takes more Q (next a)) :
    Takes (slots ++ more) Q fun n => read n >>= fun a => next a (n + slots.length) := by
  obtain ⟨result, left, run, success⟩ := h
  have first (front back : GroupTable) : outcome (read front.length) (front ++ (slots ++ more) ++ back) =
      (result, front ++ left ++ (more ++ back)) := by
    rw [← run]
    simp
  cases result with
  | error e =>
    refine ⟨.error e, left ++ more, fun front back => ?_, nofun⟩
    rw [outcome_bind, first]
    simp
  | ok a =>
    obtain ⟨holds, rfl⟩ := success a rfl
    obtain ⟨result', left', run', success'⟩ := h' a holds
    refine ⟨result', (slots.map fun _ => none) ++ left', fun front back => ?_, fun b ok => ?_⟩
    · rw [outcome_bind, first]
      have second := run' (front ++ slots.map fun _ => none) back
      rw [List.length_append, List.length_map] at second
      simpa using second
    · obtain ⟨holds', rfl⟩ := success' b ok
      exact ⟨holds', List.map_append.symm⟩

theorem map {f : A → B} (h : Takes slots P read) (h' : ∀ a, P a → Q (f a)) :
    Takes slots Q fun n => read n >>= fun a => Pure.pure (f a) := by
  have both : Takes (slots ++ []) Q fun n => read n >>= fun a => Pure.pure (f a) :=
    h.bind fun a holds => .pure (h' a holds)
  rwa [List.append_nil] at both

/-- Readings of levels that follow each other take out the groups of all. -/
theorem mapM {f : Text → Reading A} {R : Level → A → Prop} {pieces : List Level}
    (one : ∀ p ∈ pieces, Takes p.slots (R p) fun n => f (p.text n)) :
    Takes (pieces.flatMap Level.slots) (List.Forall₂ R pieces) fun n => (Level.texts n pieces).mapM f := by
  induction pieces with
  | nil => exact .pure .nil
  | cons p pieces ih =>
    obtain ⟨here, there⟩ := List.forall_mem_cons.mp one
    have both := here.bind fun a holds => (ih there).map fun as all => List.Forall₂.cons holds all
    simpa only [Level.texts, List.mapM_cons, List.flatMap_cons] using both

theorem of_error {e : SyntaxError} (run : ∀ n g, outcome (read n) g = (.error e, g)) : Takes slots P read :=
  ⟨.error e, slots, fun front _ => run front.length _, nofun⟩

end Takes

/-- How parts are laid out: what stands for a text with the marks of a table, the parts that it gives, and the groups
    that have a place in it. -/
structure Layout (T : Type) where
  stands : GroupTable → Text → T → Prop
  parts : T → List Part
  groups : T → List (List Part)

/-- What stands in the place of a condition. -/
inductive Occupant
  | comparison (parts : List Part)
  | group (parts : List Part)

/-- A condition without marks is a comparison, and one that is a mark is the group that the mark stands for. -/
def Layout.condition (m : Masked) : Layout Occupant where
  stands table t
    | .comparison parts => Literal.sentinel ∉ t ∧ Yields (readCondition m t) [] parts []
    | .group parts => ∃ n, Text.words t = [GroupTable.mark n] ∧ table[n]? = some (some parts)
  parts
    | .comparison parts => parts
    | .group parts => parts
  groups
    | .comparison _ => []
    | .group parts => [parts]

/-- A text is laid out piece by piece between the occurrences of a connector. -/
def Layout.joined {T : Type} (l : Layout T) (c : Connector) : Layout (List T) where
  stands table t as := List.Forall₂ (l.stands table) (Text.cut c.between t) as
  parts as := join c (as.map l.parts)
  groups as := as.flatMap l.groups

/-- A text without brackets is laid out as alternatives of conditions. -/
def Layout.flat (m : Masked) : Layout (List (List Occupant)) := ((Layout.condition m).joined .and).joined .or

section
open Level (slots texts)

namespace Layout

variable {T : Type} {l : Layout T}

/-- The parts of a level are laid out with its groups in order, whatever table the groups are stored in. -/
def Gives (l : Layout T) (x : Level) (parts : List Part) : Prop :=
  ∃ a, (∀ front back, l.stands (front ++ x.slots ++ back) (x.text front.length) a) ∧ l.parts a = parts ∧
    l.groups a = x.groups

theorem exists_of_gives {pieces : List Level} {members : List (List Part)}
    (given : List.Forall₂ l.Gives pieces members) : ∃ as : List T,
      (∀ front back,
        List.Forall₂ (l.stands (front ++ pieces.flatMap Level.slots ++ back)) (texts front.length pieces) as) ∧
        as.map l.parts = members ∧ as.flatMap l.groups = (pieces.flatMap Level.slots).reduceOption := by
  induction given with
  | nil => exact ⟨[], fun _ _ => .nil, rfl, rfl⟩
  | @cons p _ pieces _ first rest ih =>
    obtain ⟨a, here, rfl, inside⟩ := first
    obtain ⟨as, there, rfl, order⟩ := ih
    refine ⟨a :: as, fun front back => ?_, rfl, ?_⟩
    · have head := here front (pieces.flatMap Level.slots ++ back)
      have tail := there (front ++ p.slots) back
      rw [List.length_append] at tail
      simp only [List.flatMap_cons, texts, List.append_assoc] at head tail ⊢
      exact .cons head tail
    · rw [List.flatMap_cons, List.flatMap_cons, List.reduceOption_append, inside, order]
      rfl

/-- The pieces of a level between connectors take out their groups in order. -/
theorem takes_joined (c : Connector) {f : Text → Reading (List Part)} {x : Level} {pieces : List Level}
    (cut : ∀ n, Text.cut c.between (x.text n) = texts n pieces) (table : x.slots = pieces.flatMap Level.slots)
    (one : ∀ p ∈ pieces, Takes p.slots (l.Gives p) fun n => f (p.text n)) :
    Takes x.slots ((l.joined c).Gives x) fun n => do
      let members ← (Text.cut c.between (x.text n)).mapM f
      return join c members := by
  simp only [cut]
  rw [table]
  refine (Takes.mapM one).map fun members given => ?_
  obtain ⟨as, standing, rfl, order⟩ := exists_of_gives given
  refine ⟨as, fun front back => ?_, rfl, order.trans (congrArg List.reduceOption table.symm)⟩
  change List.Forall₂ _ (Text.cut c.between _) as
  rw [cut, table]
  exact standing front back

end Layout

/-- A condition that is a mark takes its group out of the last slot of the group. -/
theorem takes_mark (m : Masked) {x : Level} {skipped : Nat} (parts : List Part)
    (words : ∀ n, Text.words (x.text n) = [GroupTable.mark (n + skipped)]) :
    Takes (Symbol.group skipped parts).slots (· = parts) fun n => readCondition m (x.text n) := by
  refine ⟨.ok parts, List.replicate skipped none ++ [none], fun front back => ?_, fun taken same => ?_⟩
  · refine (yields_readCondition_single_iff (words front.length)).mpr (GroupTable.yields_take?_some_iff.mpr ?_)
    exact ⟨_, GroupTable.markNumber?_mark _, by simp [Symbol.slots], by simp [Symbol.slots]⟩
  · cases same
    exact ⟨rfl, by simp [Symbol.slots]⟩

/-- A condition of a level takes out its group, if it is one. -/
theorem takes_condition (m : Masked) {p : Level} (led : p.Led)
    (uncut : ∀ (c : Connector) n, ¬ c.between <:+: p.text n) :
    Takes p.slots ((Layout.condition m).Gives p) fun n => readCondition m (p.text n) := by
  rcases led.cases uncut with ⟨t, unmarked, rfl⟩ | ⟨front, skipped, parts, back, rfl, apart, first⟩
  · obtain ⟨result, same⟩ := exists_outcome_unmarked m unmarked
    have empty : Level.groups (Level.ofText t) = [] := by
      rw [Level.groups, Level.slots_ofText]
      rfl
    refine ⟨result, [], fun front back => ?_, ?_⟩
    · simp only [Level.text_ofText, Level.slots_ofText, same]
    · rintro parts rfl
      refine ⟨⟨.comparison parts, fun front back => ?_, rfl, empty.symm⟩, by rw [Level.slots_ofText]; rfl⟩
      rw [Level.text_ofText]
      exact ⟨unmarked, same []⟩
  · have word := Level.words_text_group skipped parts apart
    rcases first with rfl | ⟨c, rfl⟩
    · rw [show (Level.ofText [] ++ Symbol.group skipped parts :: back) = .group skipped parts :: back from rfl]
      rcases Level.words_text_eq_nil_or back with ⟨empty, blank⟩ | more
      · have alone (n : Nat) :
            Text.words (Level.text n (.group skipped parts :: back)) = [GroupTable.mark (n + skipped)] := by
          rw [word, blank]
        have table : slots (.group skipped parts :: back) = (Symbol.group skipped parts).slots := by
          rw [Level.slots_group, empty, List.append_nil]
        have held : Level.groups (.group skipped parts :: back) = [parts] := by
          rw [Level.groups, table, Level.reduceOption_slots_group]
        rw [table]
        refine (takes_mark m parts alone).imp ?_
        rintro _ rfl
        refine ⟨.group _, fun front behind => ⟨_, alone _, ?_⟩, rfl, held.symm⟩
        rw [table]
        simp [Symbol.slots]
      · refine .of_error (e := .groupAsField) fun n g => ?_
        obtain ⟨second, rest, words⟩ := List.exists_cons_of_ne_nil (more (n + skipped + 1))
        have named : GroupTable.mark (n + skipped) ≠ notWord := by
          intro same
          exact head?_notWord_ne_sentinel (same ▸ rfl)
        have all := (word n).trans (congrArg _ words)
        rw [readCondition_unnegated all named, readComparison_mark, outcome_lift]
    · refine .of_error (e := .adjacentConnectors) fun n g => ?_
      have whole : Text.words (Level.text n (Level.ofText (c.word ++ [' ']) ++ .group skipped parts :: back)) =
          c.word :: GroupTable.mark (n + skipped) :: Text.words (Level.text (n + skipped + 1) back) := by
        rw [Level.text_append, Level.text_ofText, Level.slots_ofText, List.append_assoc, List.singleton_append,
          Text.words_append_space, c.words_word, List.length_nil, Nat.add_zero, word]
        rfl
      rw [readCondition_unnegated whole c.word_ne_notWord, readComparison_connector, outcome_lift]

/-- A level is read as alternatives of conditions, and each of its groups has one place among them. -/
theorem takes_flat (m : Masked) {x : Level} (led : x.Led) :
    Takes x.slots ((Layout.flat m).Gives x) fun n => readFlat m (x.text n) := by
  obtain ⟨pieces, cut, table, outer⟩ := led.exists_cut .or
  refine Layout.takes_joined .or cut table fun p member => ?_
  obtain ⟨led, -, noOr⟩ := outer p member
  obtain ⟨conditions, cut, table, inner⟩ := led.exists_cut .and
  refine Layout.takes_joined .and cut table fun q among => ?_
  obtain ⟨led, within, noAnd⟩ := inner q among
  refine takes_condition m led fun c n between => ?_
  cases c with
  | and => exact noAnd n between
  | or => exact noOr n (Level.infix_text_of_infix within between n)

/-- The text inside a segment if it is a group. -/
def Segment.inner? : Segment → Option Text
  | .text _ => none
  | .group inner => some inner

/-- How the parts of a text are put together of the groups that were stored while it was read: each group of a level
    has one place in the layout of the level, and it is the place of the mark of its slot. -/
inductive Assembled (m : Masked) : Text → List (List Part) → List Part → Prop
  | flat {t : Text} {parts : List Part} (bare : ¬ ('(' ∈ t ∨ ')' ∈ t)) (read : Yields (readFlat m t) [] parts []) :
      Assembled m t [] parts
  | whole {t inner : Text} {stored : List (List Part)} {parts : List Part}
      (divided : Segment.ofMasked t = .ok [.group inner]) (rest : Assembled m inner stored parts) :
      Assembled m t stored parts
  | level {t : Text} {segments : List Segment} {nested : List (List (List Part) × List Part)} {conditions : List Text}
      {table : GroupTable} {alternatives : List (List Occupant)} (divided : Segment.ofMasked t = .ok segments)
      (inner : List.Forall₂ (fun inner group => Assembled m inner group.1 group.2) (segments.filterMap Segment.inner?)
        nested)
      (read : Yields (readSegments m true segments) [] conditions table)
      (standing : (Layout.flat m).stands table ([' '].intercalate conditions) alternatives)
      (once : (Layout.flat m).groups alternatives = nested.map Prod.snd) :
      Assembled m t (nested.flatMap fun group => group.1 ++ [group.2]) ((Layout.flat m).parts alternatives)

/-- A text is read as the same from every table, and if that succeeds, no group of it stays behind. -/
def LeavesNothing (m : Masked) (t : Text) : Prop :=
  ∃ (result : Except SyntaxError (List Part)) (new : GroupTable),
    (∀ g, outcome (readText m t) g = (result, g ++ new)) ∧
      ∀ parts, result = .ok parts → ∃ stored, Assembled m t stored parts ∧ new = List.replicate stored.length none

/-- What the segments of a text are read as, for every table: a level with their groups. -/
structure IsLevelOf (m : Masked) (after : Bool) (segments : List Segment) (pieces : List Level) : Prop where
  isPiece : ∀ p ∈ pieces, p.IsPiece
  led : ∀ n, SpacedLed after (texts n pieces)
  nested : ∃ nested : List (List (List Part) × List Part),
    List.Forall₂ (fun inner group => Assembled m inner group.1 group.2) (segments.filterMap Segment.inner?) nested ∧
      (pieces.flatMap slots).reduceOption = nested.map Prod.snd ∧
        (pieces.flatMap slots).length = (nested.flatMap fun group => group.1 ++ [group.2]).length

theorem IsLevelOf.text {after next : Bool} {t : Text} {segments : List Segment} {front : List Text} {back : List Level}
    (unmarked : Literal.sentinel ∉ t) (detached : detach m after t = .ok (front, next))
    (h : IsLevelOf m next segments back) :
    IsLevelOf m after (.text t :: segments) (front.map Level.ofText ++ back) where
  isPiece := by
    intro p member
    rcases List.mem_append.mp member with member | member
    · obtain ⟨q, among, rfl⟩ := List.mem_map.mp member
      exact .inl ⟨q, fun marked => unmarked (subset_of_detach detached q among marked), rfl⟩
    · exact h.isPiece p member
  led := by
    intro n
    rw [Level.texts_ofText_append]
    refine spacedLed_text (fun p member a r whole => ?_) ?_ (h.led n)
    · exact absurd (subset_of_detach detached p member (by simp [whole])) unmarked
    · rintro rfl
      exact getLast?_of_detach detached
  nested := by
    rw [List.flatMap_append, Level.flatMap_slots_ofText]
    exact h.nested

theorem IsLevelOf.group {t : Text} {segments : List Segment} {stored : List (List Part)} {parts : List Part}
    {back : List Level} (assembled : Assembled m t stored parts) (h : IsLevelOf m false segments back) :
    IsLevelOf m true (.group t :: segments) ([.group stored.length parts] :: back) where
  isPiece := List.forall_mem_cons.mpr ⟨.inr ⟨_, _, rfl⟩, h.isPiece⟩
  led := by
    intro n
    have led := spacedLed_group (n + stored.length) (h.led (n + (stored.length + 1)))
    simpa [texts, Level.text, slots, Symbol.slots] using led
  nested := by
    obtain ⟨nested, inner, order, size⟩ := h.nested
    have table : ([.group stored.length parts] :: back).flatMap slots =
        (Symbol.group stored.length parts).slots ++ back.flatMap slots := by simp [slots]
    refine ⟨(stored, parts) :: nested, .cons assembled inner, ?_, ?_⟩
    · rw [table, List.reduceOption_append, Level.reduceOption_slots_group, order]
      rfl
    · rw [table, List.length_append, size]
      simp [Symbol.slots]
      omega

/-- The segments of a text are read as a level, and its groups are stored in its slots in order, behind the table. -/
def ReadAsLevel (m : Masked) (after : Bool) (segments : List Segment) : Prop :=
  ∃ (result : Except SyntaxError (List Level)) (new : GroupTable),
    (∀ g, outcome (readSegments m after segments) g = (result.map (texts g.length), g ++ new)) ∧
      ∀ pieces, result = .ok pieces → IsLevelOf m after segments pieces ∧ new = pieces.flatMap slots

namespace ReadAsLevel

variable {after : Bool} {segments : List Segment} {t : Text}

theorem of_error {e : SyntaxError} (new : GroupTable)
    (run : ∀ g, outcome (readSegments m after segments) g = (.error e, g ++ new)) : ReadAsLevel m after segments :=
  ⟨.error e, new, run, fun _ same => by cases same⟩

theorem of_isLevelOf {pieces : List Level} (level : IsLevelOf m after segments pieces)
    (run : ∀ g, outcome (readSegments m after segments) g = (.ok (texts g.length pieces), g ++ pieces.flatMap slots)) :
    ReadAsLevel m after segments :=
  ⟨.ok pieces, _, run, fun _ same => by cases same; exact ⟨level, rfl⟩⟩

theorem nil (m : Masked) (after : Bool) : ReadAsLevel m after [] := by
  cases after with
  | true => exact .of_error [] (e := .trailingConnector) fun g => by simp [readSegments_nil, outcome_throw]
  | false =>
    have level : IsLevelOf m false [] [] := ⟨by simp, fun _ => spacedLed_nil false, [], .nil, rfl, rfl⟩
    exact .of_isLevelOf level fun g => by simp [readSegments_nil, outcome_pure, texts]

theorem text (unmarked : Literal.sentinel ∉ t) (rest : ∀ next, ReadAsLevel m next segments) :
    ReadAsLevel m after (.text t :: segments) := by
  cases detached : detach m after t with
  | error e =>
    exact .of_error [] (e := e) fun g => by simp [readSegments_text, detached, outcome_bind, outcome_lift]
  | ok pair =>
    obtain ⟨front, next⟩ := pair
    obtain ⟨result, new, run, success⟩ := rest next
    have both (g : GroupTable) : outcome (readSegments m after (.text t :: segments)) g =
        ((result.map (texts g.length)).map (front ++ ·), g ++ new) := by
      simp only [readSegments_text, detached, outcome_bind, outcome_lift, run]
      cases result <;> rfl
    cases result with
    | error e => exact .of_error _ both
    | ok back =>
      obtain ⟨level, rfl⟩ := success back rfl
      refine .of_isLevelOf (level.text unmarked detached) fun g => ?_
      rw [both, Level.texts_ofText_append, List.flatMap_append, Level.flatMap_slots_ofText]
      rfl

theorem group (inner : LeavesNothing m t) (rest : ReadAsLevel m false segments) :
    ReadAsLevel m after (.group t :: segments) := by
  cases after with
  | false =>
    exact .of_error [] (e := .missingConnectorBeforeGroup) fun g => by simp [readSegments_group, outcome_throw]
  | true =>
    obtain ⟨read, before, first, success⟩ := inner
    cases read with
    | error e => exact .of_error before (e := e) fun g => by simp [readSegments_group, outcome_bind, first]
    | ok parts =>
      obtain ⟨stored, assembled, rfl⟩ := success parts rfl
      obtain ⟨result, new, run, success⟩ := rest
      have both (g : GroupTable) : outcome (readSegments m true (.group t :: segments)) g =
          ((result.map (texts (g.length + stored.length + 1))).map (GroupTable.mark (g.length + stored.length) :: ·),
            g ++ ((Symbol.group stored.length parts).slots ++ new)) := by
        have behind := run (g ++ (Symbol.group stored.length parts).slots)
        simp only [Symbol.slots, List.length_append, List.length_replicate, List.length_singleton, ← List.append_assoc]
          at behind
        simp only [readSegments_group, Bool.not_true, Bool.false_eq_true, if_false, outcome_bind, first,
          GroupTable.outcome_store, behind]
        cases result with
        | error e => simp [Except.map, Symbol.slots]
        | ok back => simp [Except.map, outcome_pure, Symbol.slots]
      cases result with
      | error e => exact .of_error _ both
      | ok back =>
        obtain ⟨level, rfl⟩ := success back rfl
        refine .of_isLevelOf (level.group assembled) fun g => ?_
        rw [both]
        simp [Except.map, texts, Level.text, slots, Symbol.slots, Nat.add_assoc]

end ReadAsLevel

theorem readAsLevel {segments : List Segment} (unmarked : ∀ s ∈ segments, Literal.sentinel ∉ s.content)
    (inner : ∀ t, .group t ∈ segments → LeavesNothing m t) (after : Bool) : ReadAsLevel m after segments := by
  induction segments generalizing after with
  | nil => exact .nil m after
  | cons s segments ih =>
    obtain ⟨here, there⟩ := List.forall_mem_cons.mp unmarked
    have rest := ih there fun t member => inner t (List.mem_cons_of_mem _ member)
    cases s with
    | text t => exact .text here rest
    | group t => exact .group (inner t List.mem_cons_self) (rest false)

theorem IsLevelOf.led_join {segments : List Segment} {pieces : List Level} (h : IsLevelOf m true segments pieces) :
    (Level.join pieces).Led where
  unmarked := by
    refine Level.not_mem_join (fun same => ?_) fun p member => (h.isPiece p member).unmarked
    exact absurd (Symbol.char.inj same) (by decide)
  apart := Level.apart_join h.isPiece
  led := by
    refine ⟨0, ?_⟩
    rw [Level.text_join]
    exact marksLed_of_spacedLed (h.led 0)

/-- By induction on how a text is divided: the groups inside it leave empty slots behind, and their level takes out the
    groups themselves. -/
theorem leavesNothing (m : Masked) {t : Text} (unmarked : Literal.sentinel ∉ t) : LeavesNothing m t := by
  induction t using readText_induction with
  | flat t bare =>
    obtain ⟨result, left, run, success⟩ := takes_flat m (Level.led_ofText unmarked)
    have read (g : GroupTable) : outcome (readText m t) g = (result, g ++ left) := by
      have same := run g []
      simp only [Level.text_ofText, Level.slots_ofText, List.append_nil] at same
      rw [readText_flat bare, same]
    refine ⟨result, left, read, fun parts same => ?_⟩
    obtain ⟨-, rfl⟩ := success parts same
    have empty := read []
    rw [readText_flat bare, same, Level.slots_ofText] at empty
    exact ⟨[], .flat bare empty, by rw [Level.slots_ofText]; rfl⟩
  | unpaired t e brackets failed =>
    refine ⟨.error e, [], fun g => ?_, nofun⟩
    rw [readText_unpaired brackets failed, outcome_throw, List.append_nil]
  | whole t inner brackets divided ih =>
    have clean : Literal.sentinel ∉ inner := fun marked =>
      unmarked (Segment.content_subset divided _ List.mem_cons_self marked)
    obtain ⟨result, new, run, success⟩ := ih clean
    refine ⟨result, new, fun g => by rw [readText_group brackets divided, run], fun parts ok => ?_⟩
    obtain ⟨stored, assembled, empty⟩ := success parts ok
    exact ⟨stored, .whole divided assembled, empty⟩
  | level t segments brackets divided several ih =>
    have same := readText_segments (m := m) brackets divided several
    have clean : ∀ s ∈ segments, Literal.sentinel ∉ s.content := fun s member marked =>
      unmarked (Segment.content_subset divided s member marked)
    obtain ⟨result, new, run, success⟩ := readAsLevel clean (fun inner member => ih inner member (clean _ member)) true
    cases result with
    | error e => exact ⟨.error e, new, fun g => by rw [same, outcome_bind, run]; rfl, nofun⟩
    | ok pieces =>
      obtain ⟨level, rfl⟩ := success pieces rfl
      obtain ⟨result, left, run', success'⟩ := takes_flat m level.led_join
      refine ⟨result, left, fun g => ?_, fun parts ok => ?_⟩
      · have flat := run' g []
        simp only [Level.text_join, Level.slots_join, List.append_nil] at flat
        rw [same, outcome_bind, run]
        exact flat
      · obtain ⟨⟨alternatives, standing, rfl, order⟩, rfl⟩ := success' parts ok
        obtain ⟨nested, inner, groups, size⟩ := level.nested
        have stands := standing [] []
        rw [List.nil_append, List.append_nil, Level.slots_join, Level.text_join] at stands
        refine ⟨_, .level divided inner (run []) stands ?_, ?_⟩
        · rw [order, Level.groups, Level.slots_join, groups]
        · rw [Level.slots_join, ← size, List.map_const']

/-- Texts that are read one after the other with one table are read as each of them is with a table of its own, whatever
    was read before. -/
theorem mapM_readText (m : Masked) {texts : List Text} (unmarked : ∀ t ∈ texts, Literal.sentinel ∉ t) (g : GroupTable) :
    ((texts.mapM fun t => (readText m t).run).run g).1 = texts.map fun t => ((readText m t).run []).1 := by
  induction texts generalizing g with
  | nil => rfl
  | cons t texts ih =>
    obtain ⟨first, others⟩ := List.forall_mem_cons.mp unmarked
    obtain ⟨result, new, run, -⟩ := leavesNothing m first
    have here : ((readText m t).run).run g = (result, g ++ new) := run g
    have alone : ((readText m t).run).run [] = (result, new) := run []
    rw [List.mapM_cons, List.map_cons, ← ih others (g ++ new), StateT.run_bind, here]
    change _ = ((readText m t).run.run []).1 :: _
    rw [alone]
    rfl

end

/-- Texts that are read one after the other with one table are read as each of them is with a table of its own, also
    behind texts that failed and left groups there. Each group that is stored for a text that is read has one place in
    its parts and is taken out. -/
theorem readText_apart (m : Masked) {texts : List Text} (unmarked : ∀ t ∈ texts, Literal.sentinel ∉ t) :
    ((texts.mapM fun t => (readText m t).run).run []).1 = texts.map (fun t => ((readText m t).run []).1) ∧
      ∀ t ∈ texts, ∀ g parts g', Yields (readText m t) g parts g' →
        ∃ stored, Assembled m t stored parts ∧ g' = g ++ List.replicate stored.length none := by
  refine ⟨mapM_readText m unmarked [], fun t member g parts g' read => ?_⟩
  obtain ⟨result, new, run, success⟩ := leavesNothing m (unmarked t member)
  obtain ⟨rfl, rfl⟩ := Prod.mk.inj ((run g).symm.trans read)
  obtain ⟨stored, assembled, rfl⟩ := success parts rfl
  exact ⟨stored, assembled, rfl⟩

/-- A text that fails behind a group. -/
def unfinished : Text := "(a eq 1) and".toList

/-- A text with groups inside a group. -/
def stackedGroups : Text := "((a eq 1 or b eq 2) and c eq 3) or (d eq 4)".toList

/-- The parts of the text with groups inside a group. -/
def stackedParts : List Part :=
  [.enter .or, .enter .and, .enter .or, .leaf ⟨['a'], .eq, .int 1⟩, .leaf ⟨['b'], .eq, .int 2⟩, .leave .or,
    .leaf ⟨['c'], .eq, .int 3⟩, .leave .and, .leaf ⟨['d'], .eq, .int 4⟩, .leave .or]

/-- The group of the text that fails stays in the table, in front of those of the text that is read. -/
theorem readText_apart_behind_unfinished :
    outcome (readText ⟨[], []⟩ unfinished) [] = (.error .trailingConnector, [some [.leaf ⟨['a'], .eq, .int 1⟩]]) ∧
      (([unfinished, stackedGroups].mapM fun t => (readText ⟨[], []⟩ t).run).run []).1 =
        [.error .trailingConnector, .ok stackedParts] ∧
      ∃ stored, Assembled ⟨[], []⟩ stackedGroups stored stackedParts := by
  have failed : outcome (readText ⟨[], []⟩ unfinished) [] =
      (.error .trailingConnector, [some [.leaf ⟨['a'], .eq, .int 1⟩]]) := by
    rw [readText_eq_readWithin (Nat.lt_succ_self _)]
    decide +kernel
  have read : outcome (readText ⟨[], []⟩ stackedGroups) [] = (.ok stackedParts, [none, none, none]) := by
    rw [readText_eq_readWithin (Nat.lt_succ_self _)]
    decide +kernel
  have unmarked : ∀ t ∈ [unfinished, stackedGroups], Literal.sentinel ∉ t := by decide
  obtain ⟨each, put⟩ := readText_apart ⟨[], []⟩ unmarked
  refine ⟨failed, each.trans ?_, ?_⟩
  · exact congrArg₂ (fun a b => [a, b]) (congrArg Prod.fst failed) (congrArg Prod.fst read)
  · obtain ⟨stored, assembled, -⟩ := put stackedGroups (by simp) [] stackedParts [none, none, none] read
    exact ⟨stored, assembled⟩

end Criteria.Filter
