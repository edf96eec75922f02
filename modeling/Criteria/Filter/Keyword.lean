import Criteria.Text.Basic

/-!
The keywords of a filter: the two ways to join conditions, and the six comparisons, each with the symbol
that a query builder receives.
-/

namespace Criteria.Filter

/-- How the members of a group are joined: all of them hold, or some of them holds. -/
inductive Connector
  | and
  | or
deriving DecidableEq, Repr, Inhabited

namespace Connector

/-- The word that stands between two members. -/
def word : Connector → Text
  | and => ['a', 'n', 'd']
  | or => ['o', 'r']

/-- The name of a connector in listings and documents. -/
def title : Connector → String
  | and => "And"
  | or => "Or"

/-- The connector that a word names. -/
def ofWord? (t : Text) : Option Connector :=
  [and, or].find? (·.word = t)

theorem ofWord?_word (c : Connector) : ofWord? c.word = some c := by
  cases c <;> rfl

theorem ofWord?_eq_some_iff {t : Text} {c : Connector} : ofWord? t = some c ↔ t = c.word := by
  constructor
  · intro found
    simpa [eq_comm] using List.find?_some found
  · rintro rfl
    exact ofWord?_word c

end Connector

/-- A comparison of a field with a value. -/
inductive Operator
  | eq
  | ne
  | gt
  | ge
  | lt
  | le
deriving DecidableEq, Repr, Inhabited

namespace Operator

/-- Every operator, once. -/
def all : List Operator := [eq, ne, gt, ge, lt, le]

/-- The keyword of an operator in a filter text. -/
def word : Operator → Text
  | eq => ['e', 'q']
  | ne => ['n', 'e']
  | gt => ['g', 't']
  | ge => ['g', 'e']
  | lt => ['l', 't']
  | le => ['l', 'e']

/-- The symbol of an operator for a query builder. -/
def symbol : Operator → Text
  | eq => ['=']
  | ne => ['!', '=']
  | gt => ['>']
  | ge => ['>', '=']
  | lt => ['<']
  | le => ['<', '=']

/-- The name of an operator in listings and documents. -/
def title : Operator → String
  | eq => "Eq"
  | ne => "Ne"
  | gt => "Gt"
  | ge => "Ge"
  | lt => "Lt"
  | le => "Le"

/-- The operator with a keyword. -/
def ofWord? (t : Text) : Option Operator := all.find? (·.word = t)

/-- The operator with a symbol. -/
def ofSymbol? (t : Text) : Option Operator := all.find? (·.symbol = t)

/-- The comparison that holds exactly where this one does not. -/
def negate : Operator → Operator
  | eq => ne
  | ne => eq
  | gt => le
  | ge => lt
  | lt => ge
  | le => gt

theorem ofWord?_word (o : Operator) : ofWord? o.word = some o := by cases o <;> rfl

theorem ofWord?_eq_some_iff {t : Text} {o : Operator} : ofWord? t = some o ↔ t = o.word := by
  constructor
  · intro found
    simpa [eq_comm] using List.find?_some found
  · rintro rfl
    exact ofWord?_word o

@[simp] theorem negate_negate (o : Operator) : o.negate.negate = o := by cases o <;> rfl

end Operator
end Criteria.Filter
