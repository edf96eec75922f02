import Criteria.Dialects
import Criteria.Param

/-!
The parameters of one request, taken from its pairs of keys and values by the names that the
parameters have there.
-/

namespace Criteria

/-- The kinds of parameters that a request may hold. -/
inductive ParamKind
  | filters
  | options
  | orderBy
  | queryMode
deriving DecidableEq, Repr, Inhabited

namespace ParamKind

/-- The name of a kind as it is written after other words. -/
def title : ParamKind → Text
  | filters => ['F', 'i', 'l', 't', 'e', 'r', 's']
  | options => ['O', 'p', 't', 'i', 'o', 'n', 's']
  | orderBy => ['O', 'r', 'd', 'e', 'r', 'B', 'y']
  | queryMode => ['Q', 'u', 'e', 'r', 'y', 'M', 'o', 'd', 'e']

/-- The name of a parameter in a request whose parameters belong to a group of some name: a dollar
    sign, that name and the title. Without a name of the group the title begins in lower case. -/
def key (group : Text) (kind : ParamKind) : Text :=
  '$' :: if group = [] then kind.title.modifyHead Char.toLower else group ++ kind.title

end ParamKind

/-- The texts of the parameters of a request. -/
structure Request where
  filters : Option Text
  options : Option Text
  orderBy : Option Text
  queryMode : Option Text
deriving DecidableEq, Repr

namespace Request

/-- The request without parameters. -/
def empty : Request := ⟨none, none, none, none⟩

/-- The request with one more pair. A later value replaces an earlier one; other keys do not matter. -/
def insert (group key value : Text) (r : Request) : Request :=
  if key = ParamKind.filters.key group then { r with filters := some value }
  else if key = ParamKind.options.key group then { r with options := some value }
  else if key = ParamKind.orderBy.key group then { r with orderBy := some value }
  else if key = ParamKind.queryMode.key group then { r with queryMode := some value }
  else r

/-- The request with the given pairs of keys and values. -/
def ofPairs (group : Text) (pairs : List (Text × Text)) : Request :=
  pairs.foldl (fun r (key, value) => r.insert group key value) empty

/-- Whether a request has no parameter. -/
def isEmpty (r : Request) : Bool := r = empty

/-- The parameter for filters, unread. -/
def filtersParam? (r : Request) : Option (Param Filter.Part) := r.filters.map Param.ofText

/-- The parameter for options, unread. -/
def optionsParam? (r : Request) : Option (Param Text) := r.options.map Param.ofText

/-- The parameter for the sort order, unread. -/
def orderByParam? (r : Request) : Option (Param Sort.Key) := r.orderBy.map Param.ofText

end Request
end Criteria
