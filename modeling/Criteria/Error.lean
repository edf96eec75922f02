import Criteria.Filter.Keyword

/-!
Why a text is rejected. A rejection names its cause; the wording of each cause and the place that it
points to are functions of the cause.
-/

namespace Criteria

/-- A range of byte offsets in the text that was read. -/
structure Span where
  start : Nat
  stop : Nat
deriving DecidableEq, Repr

/-- The causes for which a text is rejected. Texts in a cause are shown with their literals. -/
inductive SyntaxError
  /-- A literal begins at a byte offset and is not closed before the end of the text. -/
  | unterminatedLiteral (start stop : Nat)
  /-- A NUL stands outside every literal. -/
  | controlCharacter (position : Nat)
  | unbalancedClosing
  | unclosedOpening
  | unexpectedConnector (connector : Filter.Connector)
  | missingConnectorBefore (condition : Text)
  | missingConnectorBeforeGroup
  | adjacentConnectors
  | trailingConnector
  | danglingConnector (connector : Filter.Connector)
  | emptyCondition
  | incompleteCondition (condition : Text)
  | literalAsField (field : Text)
  | groupAsField
  | unknownOperator (keyword : Text)
  | unknownDirection (keyword : Text)
  | overlongSortKey (entry : Text)
deriving DecidableEq, Repr

namespace SyntaxError

private def inQuotes (t : Text) : String := "'" ++ String.ofList t ++ "'"

/-- What is said about a cause. -/
def message : SyntaxError → String
  | unterminatedLiteral _ _ => "unterminated string literal"
  | controlCharacter _ => "unexpected control character"
  | unbalancedClosing => "unbalanced ')'"
  | unclosedOpening => "unclosed '('"
  | unexpectedConnector c => "unexpected connector " ++ inQuotes c.word
  | missingConnectorBefore t => "missing connector before " ++ inQuotes t
  | missingConnectorBeforeGroup => "missing connector before group"
  | adjacentConnectors => "two adjacent connectors"
  | trailingConnector => "expression ends with a connector"
  | danglingConnector c => "connector " ++ inQuotes c.word ++ " without a condition"
  | emptyCondition => "empty condition"
  | incompleteCondition t => "incomplete condition " ++ inQuotes t
  | literalAsField t => "field name cannot be a string literal: " ++ String.ofList t
  | groupAsField => "group used where a field name was expected"
  | unknownOperator t => "unknown operator " ++ inQuotes t
  | unknownDirection t => "invalid order by direction " ++ inQuotes t ++ ", expected asc or desc"
  | overlongSortKey t => "invalid order by entry " ++ inQuotes t

/-- The place that a cause points to. Only causes found character by character have one. -/
def span? : SyntaxError → Option Span
  | unterminatedLiteral start stop => some ⟨start, stop⟩
  | controlCharacter position => some ⟨position, position + 1⟩
  | _ => none

/-- The line that reports a cause to a reader. -/
def report (e : SyntaxError) : String := "invalid syntax: " ++ e.message

end SyntaxError

/-- A mapped reading succeeds exactly where the reading does. -/
theorem map_eq_ok_iff {Cause A B : Type} {f : A → B} {reading : Except Cause A} {b : B} :
    reading.map f = .ok b ↔ ∃ a, reading = .ok a ∧ f a = b := by
  cases reading <;> simp [Except.map]

/-- A mapped reading fails exactly as the reading does. -/
theorem map_eq_error_iff {Cause A B : Type} {f : A → B} {reading : Except Cause A} {e : Cause} :
    reading.map f = .error e ↔ reading = .error e := by
  cases reading <;> simp [Except.map]

end Criteria
