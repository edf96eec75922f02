import Criteria.Dialects
import Criteria.Filter.Prune
import Criteria.Number
import Criteria.Text.Printable
import Criteria.Value

/-!
Outlines of structured values, for a reader: on one line, or with every item on a line of its own. A
session lists its results in this form.
-/

namespace Criteria

/-- What a value is made of: a word, items under a name, named fields, or a list. -/
inductive Outline
  | word (spelling : String)
  | tuple (name : String) (items : List Outline)
  | record (name : String) (fields : List (String × Outline))
  | list (items : List Outline)

namespace Outline

/-- The texts with a comma and a space between two of them. -/
def commaSeparated (texts : List String) : String := ", ".intercalate texts

mutual

/-- An outline on one line. -/
def inline : Outline → String
  | word spelling => spelling
  | tuple name items => name ++ "(" ++ commaSeparated (inlineItems items) ++ ")"
  | record name fields => name ++ " \x7b " ++ commaSeparated (inlineFields fields) ++ " \x7d"
  | list items => "[" ++ commaSeparated (inlineItems items) ++ "]"

/-- Every item on one line. -/
def inlineItems : List Outline → List String
  | [] => []
  | o :: r => o.inline :: inlineItems r

/-- Every field on one line, after its name. -/
def inlineFields : List (String × Outline) → List String
  | [] => []
  | (name, o) :: r => (name ++ ": " ++ o.inline) :: inlineFields r

end

/-- The lines of an item in a container: further in, a lead before the first and a comma after the
    last. -/
def nested (lead : String) : List String → List String
  | [] => []
  | [line] => ["    " ++ lead ++ line ++ ","]
  | line :: next :: r => ("    " ++ lead ++ line) :: nested "" (next :: r)

mutual

/-- An outline with every item on a line of its own. -/
def lines : Outline → List String
  | word spelling => [spelling]
  | tuple name items => (name ++ "(") :: (lineItems items ++ [")"])
  | record name fields => (name ++ " \x7b") :: (lineFields fields ++ ["\x7d"])
  | list [] => ["[]"]
  | list (o :: r) => "[" :: (lineItems (o :: r) ++ ["]"])

/-- The lines of the items of a container. -/
def lineItems : List Outline → List String
  | [] => []
  | o :: r => nested "" o.lines ++ lineItems r

/-- The lines of the fields of a container. -/
def lineFields : List (String × Outline) → List String
  | [] => []
  | (name, o) :: r => nested (name ++ ": ") o.lines ++ lineFields r

end

end Outline

namespace Listing

/-- The lower-case hexadecimal digits of a code point. -/
def hexDigits (c : Char) : String := String.ofList (Nat.toDigits 16 c.toNat)

/-- A character inside double quotes. One without a shape of its own is shown by its number. -/
def quotedChar (c : Char) : String :=
  match c with
  | '"' => "\\\""
  | '\\' => "\\\\"
  | '\t' => "\\t"
  | '\n' => "\\n"
  | '\r' => "\\r"
  | '\x00' => "\\0"
  | c => if Text.isPrintable c then c.toString else "\\u\x7b" ++ hexDigits c ++ "\x7d"

/-- A text in double quotes. -/
def quoted (t : Text) : Outline :=
  .word ("\"" ++ String.join (t.map quotedChar) ++ "\"")

/-- A number in its fewest digits. Those below 1e-4 and from 1e16 on are written with a power of
    ten. -/
def double : Number.Double → Text
  | .finite negative m =>
    let d := m.shortest
    let point := d.spelling.2
    Number.Double.signText negative ++
      if m.steps = 0 ∨ (-3 ≤ point ∧ point ≤ 16) then d.positional else d.scientific
  | .infinite negative => Number.Double.infinityText negative
  | .nan => Number.Double.nanText

/-- The name of a truth value. -/
def truth (b : Bool) : String := if b then "true" else "false"

mutual

/-- The outline of a value. -/
def value : Value → Outline
  | .null => .word "Null"
  | .bool b => .tuple "Bool" [.word (truth b)]
  | .int n => .tuple "Int" [.word (String.ofList (Value.renderInt n.toInt))]
  | .float x => .tuple "Float" [.word (String.ofList (double x))]
  | .text t => .tuple "Str" [quoted t]
  | .list vs => .tuple "List" [.list (values vs)]

/-- The outlines of values. -/
def values : List Value → List Outline
  | [] => []
  | v :: r => value v :: values r

end

/-- The outline of a part of a filter. -/
def part : Filter.Part → Outline
  | .enter c => .tuple "OpenGroup" [.word c.title]
  | .leave c => .tuple "CloseGroup" [.word c.title]
  | .leaf x =>
    .record "Leaf"
      [("field", quoted x.field), ("value", value x.value), ("operator", .word x.operator.title)]

/-- The name of a direction. -/
def direction : Sort.Direction → Outline
  | .asc => .word "Asc"
  | .desc => .word "Desc"

/-- The outline of a sort key. -/
def key (k : Sort.Key) : Outline :=
  .record "OrderByPart" [("field", quoted k.field), ("direction", direction k.direction)]

/-- The name of a prune mode. -/
def pruneMode : Filter.PruneMode → String
  | .emptyGroups => "EmptyGroups"
  | .emptyOrSingletonGroups => "EmptyOrSingletonGroups"

end Listing
end Criteria
