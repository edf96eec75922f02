import Criteria.Literal
import Criteria.Number
import Criteria.Text.Basic

/-!
The values that a filter compares a field with, how they are written and how they are read.

A text is written as a literal, a number so that it reads back as the same number of the same kind.
When the text of a value is read, the three reserved words come first, then a list at any unescaped
comma, then integers, decimals and literals; what is left is a text as it stands.
-/

namespace Criteria

open Number (Double)

/-- A typed value. A list stands for any one of its members. -/
inductive Value
  | null
  | bool (b : Bool)
  | int (n : Int64)
  | float (x : Double)
  | text (t : Text)
  | list (values : List Value)
deriving Repr, Inhabited

namespace Value

mutual

private def decideEq : (v w : Value) → Decidable (v = w)
  | null, null => isTrue rfl
  | bool a, bool b => decidable_of_iff (a = b) (by simp)
  | int a, int b => decidable_of_iff (a = b) (by simp)
  | float a, float b => decidable_of_iff (a = b) (by simp)
  | text a, text b => decidable_of_iff (a = b) (by simp)
  | list a, list b =>
    match decideAllEq a b with
    | isTrue h => isTrue (by rw [h])
    | isFalse h => isFalse (by simpa using h)
  | null, bool _ | null, int _ | null, float _ | null, text _ | null, list _
  | bool _, null | bool _, int _ | bool _, float _ | bool _, text _ | bool _, list _
  | int _, null | int _, bool _ | int _, float _ | int _, text _ | int _, list _
  | float _, null | float _, bool _ | float _, int _ | float _, text _ | float _, list _
  | text _, null | text _, bool _ | text _, int _ | text _, float _ | text _, list _
  | list _, null | list _, bool _ | list _, int _ | list _, float _ | list _, text _ =>
    isFalse (by simp)

private def decideAllEq : (vs ws : List Value) → Decidable (vs = ws)
  | [], [] => isTrue rfl
  | [], _ :: _ | _ :: _, [] => isFalse (by simp)
  | v :: vs, w :: ws =>
    match decideEq v w, decideAllEq vs ws with
    | isTrue h, isTrue hs => isTrue (by rw [h, hs])
    | isFalse h, _ => isFalse (by simp [h])
    | _, isFalse hs => isFalse (by simp [hs])

end

instance : DecidableEq Value := decideEq

/-- Whether a value is the null value. -/
def isNull : Value → Bool
  | null => true
  | _ => false

/-- The text of a text value. -/
def text? : Value → Option Text
  | text t => some t
  | _ => none

/-- The number of an integer value. -/
def int? : Value → Option Int64
  | int n => some n
  | _ => none

end Value

namespace Number.Double

/-- The minus sign of a negative number. -/
def signText (negative : Bool) : Text := if negative then ['-'] else []

/-- The name of an infinity. -/
def infinityText (negative : Bool) : Text := signText negative ++ ['i', 'n', 'f']

/-- The name of a result that is no number. -/
def nanText : Text := ['N', 'a', 'N']

/-- A finite number in its fewest digits, with a point; the others have no written form as a
    number and become literals. -/
def render : Double → Text
  | finite negative m => signText negative ++ m.shortest.positional
  | infinite negative => Literal.enquote (infinityText negative)
  | nan => Literal.enquote nanText

end Number.Double

namespace Value

/-- The digits of an integer after its sign. -/
def renderInt (n : Int) : Text := (if n < 0 then ['-'] else []) ++ Text.ofNat n.natAbs

mutual

/-- The written form of a value. The members of a list are separated by commas. -/
def render : Value → Text
  | null => ['n', 'u', 'l', 'l']
  | bool true => ['t', 'r', 'u', 'e']
  | bool false => ['f', 'a', 'l', 's', 'e']
  | int n => renderInt n.toInt
  | float x => x.render
  | text t => Literal.enquote t
  | list values => renderList values

/-- The written forms of values, separated by commas. -/
def renderList : List Value → Text
  | [] => []
  | [v] => v.render
  | v :: w :: r => v.render ++ ',' :: renderList (w :: r)

end

open Literal (Masked)

/-- The values with a word of their own. -/
def reserved : List (Text × Value) :=
  [(['n', 'u', 'l', 'l'], null), (['t', 'r', 'u', 'e'], bool true),
   (['f', 'a', 'l', 's', 'e'], bool false)]

/-- The value that a word is reserved for. -/
def ofReserved? (t : Text) : Option Value := reserved.lookup t

/-- The pieces of a text between the commas that no backslash escapes. -/
def listPieces : Text → List Text
  | [] => [[]]
  | c :: r =>
    if c = Literal.escape then
      match r with
      | [] => [[c]]
      | d :: r => (listPieces r).modifyHead (c :: d :: ·)
    else if c = ',' then [] :: listPieces r
    else (listPieces r).modifyHead (c :: ·)

/-- The value of a masked text that is no list. -/
def ofScalar (m : Masked) (t : Text) : Value :=
  (ofReserved? t <|> (Number.integer? t).map int <|> (Number.double? t).map float).getD
    (text (m.reveal t))

/-- The value of a masked text. The members of a list are trimmed. -/
def ofMasked (m : Masked) (t : Text) : Value :=
  match listPieces t with
  | [_] => ofScalar m t
  | pieces => list (pieces.map fun piece => ofScalar m (Text.trim piece))

end Value
end Criteria
