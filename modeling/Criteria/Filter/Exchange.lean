import Criteria.Filter.Part
import Criteria.Json
import Criteria.Value

/-!
Flat filters as JSON documents: each part under its name. A number has its written form; one that no
number of JSON can spell is left out.
-/

namespace Criteria

/-- The document of a text. -/
def Json.ofText (t : Text) : Json := .string (some t)

/-- The document of a word. -/
def Json.ofWord (word : String) : Json := .ofText word.toList

/-- The document with one member. -/
def Json.single (key : String) (v : Json) : Json := .object [(some key.toList, v)]

/-- The document of a number that may be none. -/
def Number.Double.toJson : Number.Double → Json
  | .finite negative m => .number (Number.Double.render (.finite negative m))
  | _ => .null

namespace Value

mutual

/-- The document of a value. -/
def toJson : Value → Json
  | null => .ofWord "Null"
  | bool b => .single "Bool" (.bool b)
  | int n => .single "Int" (.number (renderInt n.toInt))
  | float x => .single "Float" x.toJson
  | text t => .single "Str" (.ofText t)
  | list vs => .single "List" (.array (listToJson vs))

/-- The documents of values. -/
def listToJson : List Value → List Json
  | [] => []
  | v :: r => v.toJson :: listToJson r

end

end Value

namespace Filter

/-- The document of a part. -/
def Part.toJson : Part → Json
  | .enter c => .single "OpenGroup" (.ofWord c.title)
  | .leave c => .single "CloseGroup" (.ofWord c.title)
  | .leaf x =>
    .single "Leaf" (.object
      [("field".toList, .ofText x.field), ("value".toList, x.value.toJson),
       ("operator".toList, .ofWord x.operator.title)])

/-- The document of a flat filter. -/
def toJson (parts : List Part) : Json := .array (parts.map Part.toJson)

end Filter
end Criteria
