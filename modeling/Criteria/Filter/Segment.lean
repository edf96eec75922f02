import Criteria.Error
import Criteria.Literal
import Criteria.Text.Basic

/-!
Cutting a masked text at its outermost brackets. Escaped brackets are plain characters. The text is
rejected when its brackets do not pair up.
-/

namespace Criteria.Filter

/-- A piece of a text: what stands between groups, or what stands inside one. Both are trimmed. -/
inductive Segment
  | text (t : Text)
  | group (inner : Text)
deriving DecidableEq, Repr

namespace Segment

/-- The segments of the text between two groups: none if it is blank. -/
def ofText (t : Text) : List Segment :=
  if Text.trim t = [] then [] else [.text (Text.trim t)]

/-- Reads a text inside `depth` brackets. Gives the text up to the next outermost bracket, which
    begins a group outside all brackets and ends one inside, and the segments after that. -/
def scan (depth : Nat) : Text → Except SyntaxError (Text × List Segment)
  | [] => if depth = 0 then .ok ([], []) else .error .unclosedOpening
  | c :: r =>
    if c = Literal.escape then
      match r with
      | [] => if depth = 0 then .ok ([c], []) else .error .unclosedOpening
      | d :: r => (scan depth r).map fun (t, segments) => (c :: d :: t, segments)
    else if c = '(' then
      if depth = 0 then
        (scan 1 r).map fun (inner, segments) => ([], .group (Text.trim inner) :: segments)
      else (scan (depth + 1) r).map fun (t, segments) => (c :: t, segments)
    else if c = ')' then
      match depth with
      | 0 => .error .unbalancedClosing
      | 1 => (scan 0 r).map fun (t, segments) => ([], ofText t ++ segments)
      | depth + 2 => (scan (depth + 1) r).map fun (t, segments) => (c :: t, segments)
    else (scan depth r).map fun (t, segments) => (c :: t, segments)

/-- The segments of a text, in order. -/
def ofMasked (t : Text) : Except SyntaxError (List Segment) :=
  (scan 0 t).map fun (t, segments) => ofText t ++ segments

/-- What a segment adds to the size of a run of segments: nested text counts, flat text does not. -/
def nesting : Segment → Nat
  | .text _ => 0
  | .group inner => inner.length + 1

/-- What the segments of a run add to its size together. -/
def totalNesting (segments : List Segment) : Nat := (segments.map nesting).sum

@[simp] theorem totalNesting_nil : totalNesting [] = 0 := rfl

@[simp] theorem totalNesting_cons (s : Segment) (r : List Segment) :
    totalNesting (s :: r) = s.nesting + totalNesting r := by
  simp [totalNesting]

@[simp] theorem totalNesting_ofText (t : Text) (r : List Segment) :
    totalNesting (ofText t ++ r) = totalNesting r := by
  unfold ofText
  split <;> simp [nesting]

/-- Every bracket that begins or ends a group is left out of the groups, so that their sizes add up
    to less than the text. -/
theorem totalNesting_scan {depth : Nat} {t x : Text} {segments : List Segment}
    (h : scan depth t = .ok (x, segments)) :
    x.length + totalNesting segments + (if depth = 0 ∧ totalNesting segments = 0 then 0 else 1)
      ≤ t.length := by
  have trimmed := Text.length_trim_le
  fun_induction scan depth t generalizing x segments with
  | case1 => cases h; simp
  | case2 => cases h
  | case3 => cases h; simp
  | case4 => cases h
  | case8 => cases h
  | case5 depth d r ih | case7 depth r _ _ ih | case10 r depth _ _ ih | case11 depth c r _ _ _ ih =>
    obtain ⟨⟨t, rest⟩, read, same⟩ := map_eq_ok_iff.mp h
    cases same
    have := ih read
    grind
  | case6 r _ ih =>
    obtain ⟨⟨inner, rest⟩, read, same⟩ := map_eq_ok_iff.mp h
    cases same
    have := ih read
    have := trimmed inner
    simp [nesting] at *
    omega
  | case9 r _ _ ih =>
    obtain ⟨⟨t, rest⟩, read, same⟩ := map_eq_ok_iff.mp h
    cases same
    have := ih read
    simp at *
    grind

/-- The groups of a text are smaller than the text together. -/
theorem totalNesting_lt {t : Text} {segments : List Segment} (nonempty : t ≠ [])
    (h : ofMasked t = .ok segments) : totalNesting segments < t.length := by
  obtain ⟨⟨x, rest⟩, read, same⟩ := map_eq_ok_iff.mp h
  subst same
  have bound := totalNesting_scan read
  have positive := List.length_pos_iff.mpr nonempty
  rw [totalNesting_ofText]
  grind

end Segment
end Criteria.Filter
