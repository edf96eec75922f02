import Criteria.Filter.Keyword
import Criteria.Value

/-!
Filters in flat form: the comparisons in order, with a mark where a group begins and one where it
ends. A builder of queries takes the parts one by one.

A flat filter is written with its groups in brackets and its members joined by the connector of their
group, with one space between two tokens. At the top the members are joined by `and`.
-/

namespace Criteria.Filter

/-- A field is compared with a value. -/
structure Comparison where
  field : Text
  operator : Operator
  value : Value
deriving DecidableEq, Repr

/-- A part of a flat filter. -/
inductive Part
  | enter (connector : Connector)
  | leave (connector : Connector)
  | leaf (comparison : Comparison)
deriving DecidableEq, Repr

/-- The comparison of a leaf. -/
def Part.comparison? : Part → Option Comparison
  | .leaf x => some x
  | _ => none

/-- The comparisons of a flat filter, in order. -/
def leaves (parts : List Part) : List Comparison := parts.filterMap Part.comparison?

/-- The parts with a group of one connector around them. -/
def group (connector : Connector) (parts : List Part) : List Part :=
  .enter connector :: (parts ++ [.leave connector])

/-- The first comparison of a field that stands in at most one group, if the parts begin inside
    `depth` groups. -/
def findFrom (depth : Nat) (field : Text) : List Part → Option Comparison
  | [] => none
  | .enter _ :: r => findFrom (depth + 1) field r
  | .leave _ :: r => findFrom (depth - 1) field r
  | .leaf x :: r => if depth ≤ 1 ∧ x.field = field then some x else findFrom depth field r

/-- The first comparison of a field at the top or in a group at the top. -/
def find? (field : Text) (parts : List Part) : Option Comparison := findFrom 0 field parts

/-- The value that the first comparison of a field demands, if it demands equality. -/
def pinned? (field : Text) (parts : List Part) : Option Value :=
  match find? field parts with
  | some ⟨_, .eq, value⟩ => some value
  | _ => none

/-- What a builder of queries does with each part. -/
structure Builder (Query : Type) where
  enter : Connector → Query → Query
  leave : Connector → Query → Query
  compare : Comparison → Query → Query

/-- What a builder does with a part. -/
def Builder.add {Query : Type} (b : Builder Query) (query : Query) : Part → Query
  | .enter c => b.enter c query
  | .leave c => b.leave c query
  | .leaf x => b.compare x query

/-- The query that a builder makes of the parts in order. -/
def Builder.build {Query : Type} (b : Builder Query) (parts : List Part) (query : Query) : Query :=
  parts.foldl b.add query

/-- A comparison as a condition of a filter text. -/
def Comparison.render (x : Comparison) : Text :=
  x.field ++ ' ' :: (x.operator.word ++ ' ' :: x.value.render)

/-- Where the next member is written: what joins it to the members before it, if there are any. -/
structure Place where
  connector : Connector
  begun : Bool

/-- The word before the next member. -/
def Place.joint (p : Place) : List Text := if p.begun then [p.connector.word] else []

/-- The place after a member. -/
def Place.next (p : Place) : Place := { p with begun := true }

/-- The tokens of parts that are written at a place, with the places of the groups around it. A mark
    that ends no group is written all the same. -/
def tokensFrom (here : Place) (around : List Place) : List Part → List Text
  | [] => []
  | .enter c :: r => here.joint ++ ['('] :: tokensFrom ⟨c, false⟩ (here.next :: around) r
  | .leave _ :: r =>
    [')'] ::
      match around with
      | [] => tokensFrom here [] r
      | outer :: around => tokensFrom outer around r
  | .leaf x :: r => here.joint ++ x.render :: tokensFrom here.next around r

/-- The written form of a flat filter. -/
def render (parts : List Part) : Text := [' '].intercalate (tokensFrom ⟨.and, false⟩ [] parts)

end Criteria.Filter
