import Criteria.Filter.Part
import Criteria.Filter.Segment
import Criteria.Text.Basic
import Criteria.Value

/-!
Reading a filter text. Literals are masked first. Each group in brackets is read on its own and
stands as a mark in the text around it, so that every level is a flat text: alternatives joined by
`or`, each of them conditions joined by `and`. A condition is a field, an operator and a value, after
an optional `not`, or the mark of a group.
-/

namespace Criteria.Filter

open Literal (Masked)

/-- The groups that were read, by number. A group is taken out when it is put in place. -/
abbrev GroupTable := List (Option (List Part))

/-- A reading of masked text that may store groups and take them out. Groups that were stored before
    a failure stay stored. -/
abbrev Reading (Result : Type) := ExceptT SyntaxError (StateM GroupTable) Result

namespace GroupTable

/-- How the mark of every group begins. -/
def markStart : Text := [Literal.sentinel, 'g']

/-- The mark of the group with a number. -/
def mark (n : Nat) : Text := markStart ++ Text.ofNat n

/-- The number that a mark names. -/
def markNumber? (token : Text) : Option Nat := (Text.after? markStart token).bind Text.index?

/-- Stores a group and gives its mark. -/
def store (parts : List Part) : Reading Text := do
  let groups ← get
  set (groups ++ [some parts])
  return mark groups.length

/-- Takes out the group that a token is the mark of, if it is stored. -/
def take? (token : Text) : Reading (Option (List Part)) := do
  let groups ← get
  match markNumber? token with
  | none => return none
  | some n =>
    match groups[n]? with
    | some (some parts) =>
      set (groups.set n none)
      return some parts
    | _ => return none

end GroupTable

/-- The word that negates a condition. -/
def notWord : Text := ['n', 'o', 't']

/-- The connector that stands first or last among the words of a value. -/
def dangling? (words : List Text) : Option Connector :=
  words.head?.bind Connector.ofWord? <|> words.getLast?.bind Connector.ofWord?

/-- The operator of a keyword, negated if the condition is. -/
def readOperator (negated : Bool) (keyword : Text) : Except SyntaxError Operator :=
  match Operator.ofWord? keyword with
  | none => .error (.unknownOperator keyword)
  | some o => .ok (if negated then o.negate else o)

/-- The parts of a comparison. A list of values is a group of alternatives. -/
def compare (field : Text) (operator : Operator) : Value → List Part
  | .list values => group .or (values.map fun value => .leaf ⟨field, operator, value⟩)
  | value => [.leaf ⟨field, operator, value⟩]

/-- The parts of a comparison with its words: a field, a keyword and the words of a value. -/
def readComparison (m : Masked) (negated : Bool) (field keyword : Text) (words : List Text) :
    Except SyntaxError (List Part) := do
  if (Connector.ofWord? field).isSome then throw .adjacentConnectors
  if (Literal.quotedInner? field).isSome then throw (.literalAsField (m.restore field))
  if field.head? = some Literal.sentinel then throw .groupAsField
  if let some c := dangling? words then throw (.danglingConnector c)
  let operator ← readOperator negated keyword
  return compare (m.restore field) operator (Value.ofMasked m ([' '].intercalate words))

/-- The parts of a condition: a comparison, negated after the word `not`, or a group in its place. -/
def readCondition (m : Masked) (t : Text) : Reading (List Part) :=
  match Text.words t with
  | [] => throw .emptyCondition
  | [token] => do
    match ← GroupTable.take? token with
    | some parts => return parts
    | none => throw (.incompleteCondition (m.restore token))
  | first :: rest =>
    let negated := first = notWord
    match if negated then rest else first :: rest with
    | field :: keyword :: words => liftM (readComparison m negated field keyword words)
    | _ => throw (.incompleteCondition (m.restore (Text.trim t)))

/-- Several members form a group, one member stands alone. -/
def join (connector : Connector) : List (List Part) → List Part
  | [member] => member
  | members => group connector members.flatten

/-- A connector as it stands between two conditions. -/
def Connector.between (c : Connector) : Text := ' ' :: (c.word ++ [' '])

/-- The parts of a text without brackets. The word `and` binds tighter than the word `or`. -/
def readFlat (m : Masked) (t : Text) : Reading (List Part) := do
  let alternatives ← (Text.cut (Connector.between .or) t).mapM fun alternative => do
    let conditions ← (Text.cut (Connector.between .and) alternative).mapM (readCondition m)
    return join .and conditions
  return join .or alternatives

/-- The connector that a text begins with, and the text after it. -/
def leading? (t : Text) : Option (Connector × Text) :=
  [Connector.or, Connector.and].findSome? fun c =>
    (Text.after? (c.word ++ [' ']) t).map fun rest => (c, Text.trimStart rest)

/-- The connector that a text ends with, and the text before it. -/
def trailing? (t : Text) : Option (Connector × Text) :=
  [Connector.or, Connector.and].findSome? fun c =>
    (Text.before? (' ' :: c.word) t).map fun rest => (c, Text.trimEnd rest)

/-- The connectors and conditions of a text between groups, and whether a connector stands last.
    After a group the text has to begin with a connector. -/
def detach (m : Masked) (afterConnector : Bool) (t : Text) :
    Except SyntaxError (List Text × Bool) := do
  if let some c := Connector.ofWord? t then
    if afterConnector then throw (.unexpectedConnector c)
    return ([c.word], true)
  let (front, body) ←
    if afterConnector then pure ([], t)
    else
      match leading? t with
      | none => throw (.missingConnectorBefore (m.restore t))
      | some (c, rest) =>
        if (Connector.ofWord? rest).isSome then throw .adjacentConnectors
        else pure ([c.word], rest)
  match trailing? body with
  | some (c, rest) => return (front ++ [rest, c.word], true)
  | none => return (front ++ [body], false)

mutual

/-- The parts of a masked text, which may hold brackets. -/
def readText (m : Masked) (t : Text) : Reading (List Part) :=
  if _ : '(' ∈ t ∨ ')' ∈ t then
    match _ : Segment.ofMasked t with
    | .error e => throw e
    | .ok [.group inner] => readText m inner
    | .ok segments => do
      let conditions ← readSegments m true segments
      readFlat m ([' '].intercalate conditions)
  else readFlat m t
termination_by (t.length, 0)
decreasing_by
  all_goals
    have nonempty : t ≠ [] := by
      rintro rfl
      simp at *
    have smaller := Segment.totalNesting_lt nonempty ‹Segment.ofMasked t = _›
    simp [Segment.nesting, Prod.lex_def] at *
    omega

/-- The connectors, conditions and marks of groups of a run of segments. -/
def readSegments (m : Masked) (afterConnector : Bool) : List Segment → Reading (List Text)
  | [] => if afterConnector then throw .trailingConnector else return []
  | .text t :: r => do
    let (pieces, afterConnector) ← liftM (detach m afterConnector t)
    return pieces ++ (← readSegments m afterConnector r)
  | .group inner :: r => do
    if !afterConnector then throw .missingConnectorBeforeGroup
    let mark ← GroupTable.store (← readText m inner)
    return mark :: (← readSegments m false r)
termination_by segments => (Segment.totalNesting segments, segments.length + 1)
decreasing_by
  all_goals simp [Segment.nesting, Prod.lex_def]
  all_goals omega

end

/-- The flat filter of a text. A blank text demands nothing. -/
def parse (t : Text) : Except SyntaxError (List Part) :=
  let t := Text.trim t
  if t = [] then .ok []
  else do
    let m ← Literal.mask t
    ((readText m m.text).run []).1

end Criteria.Filter
