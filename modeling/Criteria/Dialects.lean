import Criteria.Filter.Parser
import Criteria.Filter.Part
import Criteria.Filter.Prune
import Criteria.Literal
import Criteria.Param

/-!
The three query languages.

Filters: two filters together demand both. Options: a list of tokens, which keeps its repetitions until
it is cleaned and then has each token once, where it stood first. Sort orders: a list of fields, each
with a direction; a field without a direction ascends.
-/

namespace Criteria.Filter

/-- Both texts in brackets, joined by `and`. -/
def mergeTexts (first second : Text) : Text :=
  ['('] ++ first ++ [')'] ++ Connector.between .and ++ ['('] ++ second ++ [')']

/-- Both filters as the members of one group; a filter that demands nothing is left out. -/
def mergeParts (first second : List Part) : List Part :=
  if first = [] then second
  else if second = [] then first
  else group .and (first ++ second)

/-- The language of filters, which are pruned in one of the two modes. -/
def dialect (mode : PruneMode) : Dialect Part Comparison where
  name := "filters"
  parse := parse
  mergeTexts := mergeTexts
  mergeParts := mergeParts
  render := render
  sift := fun check => prune mode check

end Criteria.Filter

namespace Criteria.Options

/-- The tokens without repetitions, each at its first place. -/
def distinct (tokens : List Text) : List Text := tokens.eraseDups

/-- The written form of tokens. -/
def render (tokens : List Text) : Text :=
  [Literal.comma].intercalate (tokens.map Literal.writeToken)

/-- The distinct tokens that a check accepts. The check is asked about repetitions too. -/
def sift {State : Type} (check : Check State Text) (tokens : List Text) (s : State) :
    List Text × State :=
  let (kept, s) := check.filter tokens s
  (distinct kept, s)

/-- The language of options. -/
def dialect : Dialect Text Text where
  name := "options"
  parse := Literal.split Literal.comma
  mergeTexts := fun first second => first ++ Literal.comma :: second
  mergeParts := fun first second => distinct (first ++ second)
  render := render
  sift := sift

end Criteria.Options

namespace Criteria.Sort

/-- The direction in which a field is sorted. -/
inductive Direction
  | asc
  | desc
deriving DecidableEq, Repr, Inhabited

namespace Direction

/-- The keyword of a direction. -/
def word : Direction → Text
  | asc => ['a', 's', 'c']
  | desc => ['d', 'e', 's', 'c']

/-- The symbol of a direction for a query builder. -/
def symbol : Direction → Char
  | asc => '>'
  | desc => '<'

/-- The direction with a keyword. -/
def ofWord? (t : Text) : Option Direction := [asc, desc].find? (·.word = t)

theorem ofWord?_word (d : Direction) : ofWord? d.word = some d := by cases d <;> rfl

end Direction

/-- A field to sort by. -/
structure Key where
  field : Text
  direction : Direction
deriving DecidableEq, Repr

open Literal (Masked)

/-- The direction of a keyword. -/
def readDirection (m : Masked) (keyword : Text) : Except SyntaxError Direction :=
  match Direction.ofWord? keyword with
  | some d => .ok d
  | none => .error (.unknownDirection (m.restore keyword))

/-- The key of a piece between commas; a blank piece has none. -/
def readKey (m : Masked) (piece : Text) : Except SyntaxError (Option Key) :=
  match Text.words piece with
  | [] => .ok none
  | [field] => .ok (some ⟨m.reveal field, .asc⟩)
  | [field, keyword] => (readDirection m keyword).map fun d => some ⟨m.reveal field, d⟩
  | _ => .error (.overlongSortKey (m.restore (Text.trim piece)))

/-- The sort keys of a text. -/
def parse (t : Text) : Except SyntaxError (List Key) := do
  let m ← Literal.mask t
  let keys ← (m.text.splitOn Literal.comma).mapM (readKey m)
  return keys.filterMap id

/-- The written form of a key. -/
def Key.render (k : Key) : Text := Literal.writeToken k.field ++ ' ' :: k.direction.word

/-- The written form of a sort order. -/
def render (keys : List Key) : Text := [Literal.comma].intercalate (keys.map Key.render)

/-- The first key with a field. -/
def find? (field : Text) (keys : List Key) : Option Key := keys.find? (·.field = field)

/-- The language of sort orders. -/
def dialect : Dialect Key Key where
  name := "order by"
  parse := parse
  mergeTexts := fun first second => first ++ Literal.comma :: second
  mergeParts := (· ++ ·)
  render := render
  sift := fun check => check.filter

end Criteria.Sort
