import Criteria.Dialects
import Criteria.Filter.Prune
import Criteria.Json

/-!
Policies: which fields and options a service accepts, how the names of its parameters begin and how
its filters are pruned. A policy is written in JSON, as an object or as an array of its settings in
order; what it does not say keeps its default.
-/

namespace Criteria

/-- What a service accepts. An empty list of names restricts nothing. -/
structure Policy where
  /-- The name of the group that the parameters belong to. -/
  group : Text
  pruneMode : Filter.PruneMode
  filterFields : List Text
  options : List Text
  orderByFields : List Text
deriving DecidableEq, Repr

namespace Policy

/-- The policy that accepts everything. -/
def default : Policy := ⟨[], .emptyGroups, [], [], []⟩

/-- Whether a list of names allows a name. -/
def allows (names : List Text) (name : Text) : Bool := names = [] || names.contains name

/-- Whether a policy accepts a comparison. -/
def acceptsComparison (p : Policy) (x : Filter.Comparison) : Bool := allows p.filterFields x.field

/-- Whether a policy accepts an option. -/
def acceptsOption (p : Policy) (token : Text) : Bool := allows p.options token

/-- Whether a policy accepts a sort key. -/
def acceptsKey (p : Policy) (k : Sort.Key) : Bool := allows p.orderByFields k.field

/-- The settings of a policy, in the order in which an array lists them. -/
inductive Setting
  | group
  | pruneMode
  | filterFields
  | options
  | orderByFields
deriving DecidableEq, Repr

namespace Setting

/-- Every setting, in order. -/
def all : List Setting := [group, pruneMode, filterFields, options, orderByFields]

/-- The key of a setting in an object. -/
def key : Setting → String
  | group => "prefix"
  | pruneMode => "prune_mode"
  | filterFields => "filter_fields"
  | options => "options"
  | orderByFields => "order_by_fields"

/-- The setting with a key. -/
def ofKey? (key : Text) : Option Setting := all.find? (·.key.toList = key)

end Setting

/-- The text of a JSON string. -/
def text? : Json → Option Text
  | .string content => content
  | _ => none

/-- The texts of a JSON array of strings. -/
def texts? : Json → Option (List Text)
  | .array items => items.mapM text?
  | _ => none

/-- The name of a prune mode. -/
def modeName : Filter.PruneMode → String
  | .emptyGroups => "empty_groups"
  | .emptyOrSingletonGroups => "empty_or_singleton_groups"

/-- The prune mode with a name. -/
def modeOfName? (name : Text) : Option Filter.PruneMode :=
  [Filter.PruneMode.emptyGroups, .emptyOrSingletonGroups].find? fun mode =>
    (modeName mode).toList = name

/-- The prune mode that a document names: a string, or an object whose only member has the name for
    its key and no value. -/
def mode? : Json → Option Filter.PruneMode
  | .string (some name) => modeOfName? name
  | .object [(some name, .null)] => modeOfName? name
  | _ => none

/-- The policy with one setting replaced, if the document fits the setting. -/
def set? (p : Policy) (setting : Setting) (v : Json) : Option Policy :=
  match setting with
  | .group => (text? v).map fun t => { p with group := t }
  | .pruneMode => (mode? v).map fun m => { p with pruneMode := m }
  | .filterFields => (texts? v).map fun ts => { p with filterFields := ts }
  | .options => (texts? v).map fun ts => { p with options := ts }
  | .orderByFields => (texts? v).map fun ts => { p with orderByFields := ts }

/-- The policy with settings replaced by an array of documents, one for each setting in order. -/
def setItems? (p : Policy) : List Setting → List Json → Option Policy
  | _, [] => some p
  | [], _ :: _ => none
  | setting :: settings, v :: r => do (← p.set? setting v).setItems? settings r

/-- The policy with settings replaced by the members of an object, of which those in `given` have
    been. Unknown keys do not matter; no setting may be given twice. -/
def setMembers? (p : Policy) (given : List Setting) :
    List (Option Text × Json) → Option Policy
  | [] => some p
  | (none, _) :: _ => none
  | (some key, v) :: r =>
    match Setting.ofKey? key with
    | none => p.setMembers? given r
    | some setting =>
      if setting ∈ given then none
      else do (← p.set? setting v).setMembers? (setting :: given) r

/-- The policy that a document describes. -/
def ofJson? : Json → Option Policy
  | .array items => default.setItems? Setting.all items
  | .object members => default.setMembers? [] members
  | _ => none

/-- The policy that a JSON text describes. -/
def ofText? (t : Text) : Option Policy := do ofJson? (← Json.parse? t)

/-- What is found at a place where a policy is looked for. -/
inductive Source
  | missing
  /-- There is something that cannot be read as a text, for a reason. -/
  | unreadable (reason : String)
  | content (t : Text)
deriving DecidableEq, Repr

/-- Why a policy cannot be loaded. -/
inductive LoadError
  | notFound
  | unreadable (reason : String)
  | malformed
deriving DecidableEq, Repr

/-- The policy at a place. -/
def load : Source → Except LoadError Policy
  | .missing => .error .notFound
  | .unreadable reason => .error (.unreadable reason)
  | .content t =>
    match ofText? t with
    | none => .error .malformed
    | some p => .ok p

/-- What is said about a failure to load the policy at a path. -/
def LoadError.message (path : String) : LoadError → String
  | notFound => "config file not found: " ++ path
  | unreadable reason => "cannot read config file " ++ path ++ ": " ++ reason
  | malformed => "cannot parse config file " ++ path ++ ": not a policy"

end Policy
end Criteria
