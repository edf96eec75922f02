import Criteria.Dialects
import Criteria.Filter.Parser
import Criteria.Proofs.Filter.Segment

/-!
# Outcomes of readings

What a reading of masked text gives from a table of groups, and which table it leaves, for each way to
put readings together.

A masked text is flat, has brackets that do not pair up, is one group, or is one level of groups and the texts
between them. What holds of a text if it holds of its groups holds of every text. Groups are read by recursion on
the length of the text. A bound on their nesting takes the place of the length where a reading is computed.
-/

namespace Criteria.Filter

variable {A B : Type}

/-- What a reading gives from a table of groups, and the table after it. -/
def outcome (x : Reading A) (g : GroupTable) : Except SyntaxError A × GroupTable := x.run g

theorem outcome_pure (a : A) (g : GroupTable) : outcome (pure a) g = (.ok a, g) := rfl

theorem outcome_throw (e : SyntaxError) (g : GroupTable) :
    outcome (throw e : Reading A) g = (.error e, g) := rfl

theorem outcome_lift (x : Except SyntaxError A) (g : GroupTable) : outcome (liftM x) g = (x, g) := by
  cases x <;> rfl

theorem outcome_bind (x : Reading A) (f : A → Reading B) (g : GroupTable) :
    outcome (x >>= f) g =
      match outcome x g with
      | (.ok a, h) => outcome (f a) h
      | (.error e, h) => (.error e, h) := by
  simp only [outcome, bind, ExceptT.run, ExceptT.bind, ExceptT.mk, StateT.bind]
  rcases x g with ⟨r, h⟩
  cases r <;> rfl

/-- From the table `g`, a reading succeeds with `a` and leaves the table `g'`. -/
def Yields (x : Reading A) (g : GroupTable) (a : A) (g' : GroupTable) : Prop := outcome x g = (.ok a, g')

variable {g g' : GroupTable}

theorem Yields.unique {x : Reading A} {a b : A} {h h' : GroupTable} (one : Yields x g a h) (other : Yields x g b h') :
    a = b ∧ h = h' := by
  have same := Prod.mk.inj (one.symm.trans other)
  exact ⟨Except.ok.inj same.1, same.2⟩

@[simp] theorem yields_pure_iff {a b : A} : Yields (pure a) g b g' ↔ a = b ∧ g = g' := by
  simp [Yields, outcome_pure]

@[simp] theorem not_yields_throw {e : SyntaxError} {a : A} : ¬ Yields (throw e) g a g' := by
  simp [Yields, outcome_throw]

@[simp] theorem yields_lift_iff {x : Except SyntaxError A} {a : A} :
    Yields (liftM x) g a g' ↔ x = .ok a ∧ g = g' := by
  simp [Yields, outcome_lift]

theorem yields_bind_iff {x : Reading A} {f : A → Reading B} {b : B} :
    Yields (x >>= f) g b g' ↔ ∃ a h, Yields x g a h ∧ Yields (f a) h b g' := by
  unfold Yields
  rw [outcome_bind]
  rcases outcome x g with ⟨r, h⟩
  cases r with
  | error e => simp
  | ok a =>
    constructor
    · intro rest
      exact ⟨a, h, rfl, rest⟩
    · rintro ⟨a', h', same, rest⟩
      cases same
      exact rest

@[simp] theorem yields_mapM_nil_iff {f : A → Reading B} {bs : List B} :
    Yields ([].mapM f) g bs g' ↔ bs = [] ∧ g = g' := by
  rw [List.mapM_nil, yields_pure_iff, eq_comm]

theorem yields_mapM_cons_iff {f : A → Reading B} {a : A} {r : List A} {bs : List B} :
    Yields ((a :: r).mapM f) g bs g' ↔
      ∃ b h rest, bs = b :: rest ∧ Yields (f a) g b h ∧ Yields (r.mapM f) h rest g' := by
  rw [List.mapM_cons, yields_bind_iff]
  constructor
  · rintro ⟨b, h, first, rest⟩
    obtain ⟨bs', h', later, last⟩ := yields_bind_iff.mp rest
    obtain ⟨rfl, rfl⟩ := yields_pure_iff.mp last
    exact ⟨b, h, bs', rfl, first, later⟩
  · rintro ⟨b, h, rest, rfl, first, later⟩
    exact ⟨b, h, first, yields_bind_iff.mpr ⟨rest, g', later, yields_pure_iff.mpr ⟨rfl, rfl⟩⟩⟩

namespace GroupTable

theorem markNumber?_mark (n : Nat) : markNumber? (mark n) = some n := by
  simp [markNumber?, mark, Text.after?_append, Text.index?_ofNat]

/-- Only a token that begins with the sentinel is a mark. -/
theorem markNumber?_eq_none {token : Text} (h : token.head? ≠ some Literal.sentinel) :
    markNumber? token = none := by
  rw [markNumber?, Option.bind_eq_none_iff]
  intro rest found
  rw [Text.eq_append_of_after? found] at h
  exact absurd rfl h

theorem outcome_store (parts : List Part) (g : GroupTable) :
    outcome (store parts) g = (.ok (mark g.length), g ++ [some parts]) := rfl

/-- A mark gives its group once. -/
theorem outcome_take?_mark {n : Nat} {parts : List Part} (held : g[n]? = some (some parts)) :
    outcome (take? (mark n)) g = (.ok (some parts), g.set n none) := by
  have run : outcome (get : Reading GroupTable) g = (.ok g, g) := rfl
  rw [take?, outcome_bind, run]
  simp only [markNumber?_mark, held]
  rfl

theorem outcome_take?_of_not_mark {token : Text} (h : markNumber? token = none) (g : GroupTable) :
    outcome (take? token) g = (.ok none, g) := by
  have run : outcome (get : Reading GroupTable) g = (.ok g, g) := rfl
  rw [take?, outcome_bind, run]
  simp only [h]
  rfl

/-- A token gives a group exactly when it is the mark of a group that is stored. -/
theorem yields_take?_some_iff {token : Text} {parts : List Part} :
    Yields (take? token) g (some parts) g' ↔
      ∃ n, markNumber? token = some n ∧ g[n]? = some (some parts) ∧ g' = g.set n none := by
  have run : outcome (get : Reading GroupTable) g = (.ok g, g) := rfl
  rw [Yields, take?, outcome_bind, run]
  cases number : markNumber? token with
  | none => simp [outcome_pure]
  | some n =>
    cases held : g[n]? with
    | none => simp [outcome_pure, held]
    | some slot =>
      cases slot with
      | none => simp [outcome_pure, held]
      | some stored =>
        have taken : outcome (do set (g.set n none); return some stored : Reading (Option (List Part))) g =
            (.ok (some stored), g.set n none) := rfl
        simp only [held, taken]
        constructor
        · intro same
          cases same
          exact ⟨n, rfl, held, rfl⟩
        · rintro ⟨k, same, stored', rfl⟩
          cases same
          rw [held] at stored'
          cases stored'
          rfl

theorem yields_store_iff {parts : List Part} {mark : Text} :
    Yields (store parts) g mark g' ↔ mark = GroupTable.mark g.length ∧ g' = g ++ [some parts] := by
  rw [Yields, outcome_store, Prod.mk.injEq, Except.ok.injEq, eq_comm, @eq_comm _ g']

end GroupTable

variable {m : Literal.Masked} {t : Text}

theorem readText_flat (bare : ¬ ('(' ∈ t ∨ ')' ∈ t)) : readText m t = readFlat m t := by
  rw [readText, dif_neg bare]

/-- A text whose brackets do not pair up is rejected. -/
theorem readText_unpaired (brackets : '(' ∈ t ∨ ')' ∈ t) {e : SyntaxError} (failed : Segment.ofMasked t = .error e) :
    readText m t = throw e := by
  rw [readText, dif_pos brackets]
  split
  · rename_i e' failed'
    rw [failed] at failed'
    cases failed'
    rfl
  · rename_i inner divided
    rw [failed] at divided
    cases divided
  · rename_i others divided
    rw [failed] at divided
    cases divided

/-- A text that is one group is read as what stands in the group. -/
theorem readText_group (brackets : '(' ∈ t ∨ ')' ∈ t) {inner : Text}
    (divided : Segment.ofMasked t = .ok [.group inner]) : readText m t = readText m inner := by
  rw [readText, dif_pos brackets]
  split
  · rename_i e failed
    rw [divided] at failed
    cases failed
  · rename_i other same
    rw [divided] at same
    cases same
    rfl
  · rename_i segments others same
    rw [divided] at same
    cases same
    exact absurd rfl (others inner)

/-- Groups are read on their own and leave their marks in a flat text. -/
theorem readText_segments (brackets : '(' ∈ t ∨ ')' ∈ t) {segments : List Segment}
    (divided : Segment.ofMasked t = .ok segments) (several : ∀ inner, segments ≠ [.group inner]) :
    readText m t = (do
      let conditions ← readSegments m true segments
      readFlat m ([' '].intercalate conditions)) := by
  rw [readText, dif_pos brackets]
  split
  · rename_i e failed
    rw [divided] at failed
    cases failed
  · rename_i other same
    rw [divided] at same
    cases same
    exact absurd rfl (several other)
  · rename_i others same
    rw [divided] at same
    cases same
    rfl

/-- A text is read only if it is flat or its brackets pair up. -/
theorem exists_segments_of_yields {parts : List Part} (brackets : '(' ∈ t ∨ ')' ∈ t)
    (read : Yields (readText m t) g parts g') : ∃ segments, Segment.ofMasked t = .ok segments := by
  rw [readText, dif_pos brackets] at read
  split at read
  · exact absurd read not_yields_throw
  · exact ⟨_, ‹_›⟩
  · exact ⟨_, ‹_›⟩

theorem readSegments_nil (after : Bool) :
    readSegments m after [] = if after then throw .trailingConnector else return [] := by
  rw [readSegments]

theorem readSegments_text (after : Bool) (t : Text) (r : List Segment) :
    readSegments m after (.text t :: r) = (do
      let (pieces, after) ← liftM (detach m after t)
      return pieces ++ (← readSegments m after r)) := by
  rw [readSegments]

theorem readSegments_group (after : Bool) (inner : Text) (r : List Segment) :
    readSegments m after (.group inner :: r) = (do
      if !after then throw .missingConnectorBeforeGroup
      let mark ← GroupTable.store (← readText m inner)
      return mark :: (← readSegments m false r)) := by
  rw [readSegments]

theorem yields_readSegments_nil_iff {after : Bool} {pieces : List Text} :
    Yields (readSegments m after []) g pieces g' ↔ after = false ∧ pieces = [] ∧ g = g' := by
  rw [readSegments_nil]
  cases after <;> simp [eq_comm]

theorem yields_readSegments_text_iff {after : Bool} {r : List Segment} {pieces : List Text} :
    Yields (readSegments m after (.text t :: r)) g pieces g' ↔
      ∃ front next back, detach m after t = .ok (front, next) ∧
        Yields (readSegments m next r) g back g' ∧ pieces = front ++ back := by
  rw [readSegments_text, yields_bind_iff]
  constructor
  · rintro ⟨⟨front, next⟩, h, lifted, rest⟩
    obtain ⟨detached, rfl⟩ := yields_lift_iff.mp lifted
    obtain ⟨back, h, later, last⟩ := yields_bind_iff.mp rest
    obtain ⟨rfl, rfl⟩ := yields_pure_iff.mp last
    exact ⟨front, next, back, detached, later, rfl⟩
  · rintro ⟨front, next, back, detached, later, rfl⟩
    refine ⟨(front, next), g, yields_lift_iff.mpr ⟨detached, rfl⟩, ?_⟩
    exact yields_bind_iff.mpr ⟨back, g', later, yields_pure_iff.mpr ⟨rfl, rfl⟩⟩

theorem yields_readSegments_group_iff {after : Bool} {inner : Text} {r : List Segment} {pieces : List Text} :
    Yields (readSegments m after (.group inner :: r)) g pieces g' ↔
      after = true ∧ ∃ parts h back, Yields (readText m inner) g parts h ∧
        Yields (readSegments m false r) (h ++ [some parts]) back g' ∧
          pieces = GroupTable.mark h.length :: back := by
  rw [readSegments_group]
  cases after with
  | false => simp
  | true =>
    simp only [Bool.not_true, Bool.false_eq_true, if_false, yields_bind_iff, GroupTable.yields_store_iff,
      yields_pure_iff, true_and]
    constructor
    · rintro ⟨parts, h, read, _, _, ⟨rfl, rfl⟩, back, _, later, rfl, rfl⟩
      exact ⟨parts, h, back, read, later, rfl⟩
    · rintro ⟨parts, h, back, read, later, rfl⟩
      exact ⟨parts, h, read, _, _, ⟨rfl, rfl⟩, back, g', later, rfl, rfl⟩

/-- When a text is read as a filter, and as which. -/
theorem parse_eq_ok_iff {t : Text} {parts : List Part} :
    parse t = .ok parts ↔ Text.trim t = [] ∧ parts = [] ∨
      Text.trim t ≠ [] ∧ ∃ m g', Literal.mask (Text.trim t) = .ok m ∧ Yields (readText m m.text) [] parts g' := by
  by_cases blank : Text.trim t = []
  · simp [parse, blank, eq_comm]
  · have run {m : Literal.Masked} : ((readText m m.text).run []).1 = .ok parts ↔
        ∃ g', Yields (readText m m.text) [] parts g' := by
      unfold Yields outcome
      rcases (readText m m.text).run [] with ⟨result, g'⟩
      simp
    cases masked : Literal.mask (Text.trim t) with
    | error e => simp [parse, blank, masked, bind, Except.bind]
    | ok m => simp [parse, blank, masked, bind, Except.bind, run]

/-- A text is rejected if it cannot be cut at its brackets. -/
theorem parse_eq_error {t : Text} {m : Literal.Masked} {e : SyntaxError} (nonblank : Text.trim t ≠ [])
    (masked : Literal.mask (Text.trim t) = .ok m) (brackets : '(' ∈ m.text ∨ ')' ∈ m.text)
    (failed : Segment.ofMasked m.text = .error e) : parse t = .error e := by
  have thrown : readText m m.text = throw e := readText_unpaired brackets failed
  simp only [parse, nonblank, if_false, masked, bind, Except.bind, thrown]
  exact congrArg Prod.fst (outcome_throw e [])

/-- Every text is divided in one of four ways, and the groups of a text are shorter than it is. -/
theorem readText_induction {P : Text → Prop}
    (flat : ∀ t, ¬ ('(' ∈ t ∨ ')' ∈ t) → P t)
    (unpaired : ∀ t e, '(' ∈ t ∨ ')' ∈ t → Segment.ofMasked t = .error e → P t)
    (whole : ∀ t inner, '(' ∈ t ∨ ')' ∈ t → Segment.ofMasked t = .ok [.group inner] → P inner → P t)
    (level : ∀ t segments, '(' ∈ t ∨ ')' ∈ t → Segment.ofMasked t = .ok segments → (∀ inner, segments ≠ [.group inner]) →
      (∀ inner, .group inner ∈ segments → P inner) → P t) (t : Text) : P t := by
  induction size : t.length using Nat.strongRecOn generalizing t with
  | ind n ih =>
    have groups {segments : List Segment} (divided : Segment.ofMasked t = .ok segments) (inner : Text)
        (member : .group inner ∈ segments) : P inner :=
      ih inner.length (size ▸ Segment.length_lt_of_group divided member) inner rfl
    by_cases brackets : '(' ∈ t ∨ ')' ∈ t
    · cases divided : Segment.ofMasked t with
      | error e => exact unpaired t e brackets divided
      | ok segments =>
        by_cases single : ∃ inner, segments = [.group inner]
        · obtain ⟨inner, rfl⟩ := single
          exact whole t inner brackets divided (groups divided inner List.mem_cons_self)
        · have several : ∀ inner, segments ≠ [.group inner] := fun inner same => single ⟨inner, same⟩
          exact level t segments brackets divided several (groups divided)
    · exact flat t brackets

/-- The conditions and marks of a run of segments whose groups are read in a given way. -/
def readSegmentsBy (readGroup : Text → Reading (List Part)) (m : Literal.Masked) (afterConnector : Bool) :
    List Segment → Reading (List Text)
  | [] => if afterConnector then throw .trailingConnector else return []
  | .text t :: r => do
    let (pieces, afterConnector) ← liftM (detach m afterConnector t)
    return pieces ++ (← readSegmentsBy readGroup m afterConnector r)
  | .group inner :: r => do
    if !afterConnector then throw .missingConnectorBeforeGroup
    let mark ← GroupTable.store (← readGroup inner)
    return mark :: (← readSegmentsBy readGroup m false r)

/-- The parts of a text whose groups are nested less deep than a bound. -/
def readWithin (m : Literal.Masked) : Nat → Text → Reading (List Part)
  | 0, _ => throw .unclosedOpening
  | bound + 1, t =>
    if '(' ∈ t ∨ ')' ∈ t then
      match Segment.ofMasked t with
      | .error e => throw e
      | .ok [.group inner] => readWithin m bound inner
      | .ok segments => do
        let conditions ← readSegmentsBy (readWithin m bound) m true segments
        readFlat m ([' '].intercalate conditions)
    else readFlat m t

theorem readSegments_eq_readSegmentsBy {readGroup : Text → Reading (List Part)} {segments : List Segment}
    (groups : ∀ inner, .group inner ∈ segments → readText m inner = readGroup inner) (after : Bool) :
    readSegments m after segments = readSegmentsBy readGroup m after segments := by
  induction segments generalizing after with
  | nil => rw [readSegments_nil, readSegmentsBy]
  | cons s r ih =>
    have later := ih fun inner member => groups inner (List.mem_cons_of_mem _ member)
    cases s with
    | text t => simp only [readSegments_text, readSegmentsBy, later]
    | group inner => simp only [readSegments_group, readSegmentsBy, groups inner List.mem_cons_self, later]

/-- Groups are nested less deep than their text is long. -/
theorem readText_eq_readWithin {bound : Nat} (long : t.length < bound) : readText m t = readWithin m bound t := by
  induction bound generalizing t with
  | zero => exact absurd long (Nat.not_lt_zero _)
  | succ bound ih =>
    by_cases brackets : '(' ∈ t ∨ ')' ∈ t
    · rw [readWithin, if_pos brackets]
      cases divided : Segment.ofMasked t with
      | error e => exact readText_unpaired brackets divided
      | ok segments =>
        have groups (inner : Text) (member : .group inner ∈ segments) : readText m inner = readWithin m bound inner := by
          have shorter := Segment.length_lt_of_group divided member
          exact ih (by omega)
        by_cases single : ∃ inner, segments = [.group inner]
        · obtain ⟨inner, rfl⟩ := single
          exact (readText_group brackets divided).trans (groups inner List.mem_cons_self)
        · have several : ∀ inner, segments ≠ [.group inner] := fun inner same => single ⟨inner, same⟩
          rw [readText_segments brackets divided several, readSegments_eq_readSegmentsBy groups]
          split
          · contradiction
          · exact absurd (Except.ok.inj ‹_›) (several _)
          · cases ‹Except.ok _ = Except.ok _›
            rfl
    · rw [readText_flat brackets, readWithin, if_neg brackets]

/-- What `parse` computes, by structural recursion. -/
def parseWithin (t : Text) : Except SyntaxError (List Part) :=
  let t := Text.trim t
  if t = [] then .ok []
  else do
    let m ← Literal.mask t
    ((readWithin m (m.text.length + 1) m.text).run []).1

theorem parse_eq_parseWithin : parse = parseWithin := by
  funext t
  simp only [parse, parseWithin, readText_eq_readWithin (Nat.lt_succ_self _)]

/-- Filters as a query language, with a reader that computes. -/
theorem dialect_eq_parseWithin : dialect = fun mode => { dialect mode with parse := parseWithin } := by
  funext mode
  rw [← parse_eq_parseWithin]
  rfl

end Criteria.Filter
