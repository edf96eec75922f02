import Criteria.Text.Basic

/-!
Documents in JSON and how they are read, by the strict grammar: no comments, no signs or zeros beyond
those of the number grammar, no control characters in strings, and blanks of four kinds only.

A string is kept with its escapes resolved; one whose escapes name half of a surrogate pair is no text.
A number is kept as it is spelled. Members keep their order and their repetitions. The arrays and
objects that are not yet closed stand on a stack, so that the depth of a document does not matter.
-/

namespace Criteria

/-- A JSON document. -/
inductive Json
  | null
  | bool (b : Bool)
  | number (spelling : Text)
  | string (content : Option Text)
  | array (items : List Json)
  | object (members : List (Option Text × Json))
deriving Repr, Inhabited

/-- The tokens of a JSON text. -/
inductive Json.Token
  | openArray
  | closeArray
  | openObject
  | closeObject
  | comma
  | colon
  | null
  | bool (b : Bool)
  | number (spelling : Text)
  | string (content : Option Text)
deriving DecidableEq, Repr

namespace Json

/-- The characters that may stand between tokens. -/
def isSpace (c : Char) : Bool := c = ' ' || c = '\t' || c = '\n' || c = '\r'

/-- What a backslash and a character in a string stand for, the escape with a number apart. -/
def escapes : List (Char × Char) :=
  [('"', '"'), ('\\', '\\'), ('/', '/'), ('b', '\x08'), ('f', '\x0c'), ('n', '\n'), ('r', '\r'),
   ('t', '\t')]

/-- The number of a hexadecimal digit. -/
def hexDigit? (c : Char) : Option Nat :=
  if c.isDigit then some (c.toNat - '0'.toNat)
  else if 'a' ≤ c ∧ c ≤ 'f' then some (c.toNat - 'a'.toNat + 10)
  else if 'A' ≤ c ∧ c ≤ 'F' then some (c.toNat - 'A'.toNat + 10)
  else none

/-- The 16-bit unit that four hexadecimal digits name. -/
def unit? (a b c d : Char) : Option Nat := do
  return ((← hexDigit? a) * 16 + (← hexDigit? b)) * 256 + (← hexDigit? c) * 16 + (← hexDigit? d)

/-- The units of a string: characters as they stand, and 16-bit units that were escaped. -/
abbrev StringUnit := Char ⊕ Nat

/-- Whether a 16-bit unit is the first of a surrogate pair. -/
def IsHigh (n : Nat) : Prop := 0xD800 ≤ n ∧ n < 0xDC00

/-- Whether a 16-bit unit is the second of a surrogate pair. -/
def IsLow (n : Nat) : Prop := 0xDC00 ≤ n ∧ n < 0xE000

instance (n : Nat) : Decidable (IsHigh n) := inferInstanceAs (Decidable (_ ∧ _))
instance (n : Nat) : Decidable (IsLow n) := inferInstanceAs (Decidable (_ ∧ _))

/-- The text of string units. Surrogates have to stand in pairs. -/
def textOfUnits? : List StringUnit → Option Text
  | [] => some []
  | .inl c :: r => (textOfUnits? r).map (c :: ·)
  | .inr n :: r =>
    if IsHigh n then
      match r with
      | .inr low :: r =>
        if IsLow low then
          (textOfUnits? r).map (Char.ofNat (0x10000 + (n - 0xD800) * 0x400 + (low - 0xDC00)) :: ·)
        else none
      | _ => none
    else if IsLow n then none
    else (textOfUnits? r).map (Char.ofNat n :: ·)

/-- The units of a string up to its closing quote, and the text after it. -/
def stringUnits? : Text → Option (List StringUnit × Text)
  | [] => none
  | '"' :: r => some ([], r)
  | '\\' :: 'u' :: a :: b :: c :: d :: r => do
    let n ← unit? a b c d
    let (units, rest) ← stringUnits? r
    return (.inr n :: units, rest)
  | '\\' :: e :: r => do
    let c ← escapes.lookup e
    let (units, rest) ← stringUnits? r
    return (.inl c :: units, rest)
  | c :: r =>
    if c.toNat < 0x20 ∨ c = '\\' then none
    else do
      let (units, rest) ← stringUnits? r
      return (.inl c :: units, rest)

/-- The digits at the start of a text, at least one, and the text after them. -/
def digits? (t : Text) : Option (Text × Text) :=
  let digits := t.takeWhile Char.isDigit
  if digits = [] then none else some (digits, t.dropWhile Char.isDigit)

/-- The whole part at the start of a text: one zero, or digits that begin with another digit. -/
def whole? : Text → Option (Text × Text)
  | '0' :: r => some (['0'], r)
  | t => digits? t

/-- The fraction at the start of a text, if a point stands there. -/
def fraction? : Text → Option (Text × Text)
  | '.' :: r => (digits? r).map fun (digits, rest) => ('.' :: digits, rest)
  | t => some ([], t)

/-- The power of ten at the start of a text, if its mark stands there. -/
def power? : Text → Option (Text × Text)
  | [] => some ([], [])
  | c :: r =>
    if c = 'e' ∨ c = 'E' then
      match r with
      | '-' :: s => (digits? s).map fun (digits, rest) => (c :: '-' :: digits, rest)
      | '+' :: s => (digits? s).map fun (digits, rest) => (c :: '+' :: digits, rest)
      | s => (digits? s).map fun (digits, rest) => (c :: digits, rest)
    else some ([], c :: r)

/-- The number at the start of a text, and the text after it. -/
def number? (t : Text) : Option (Text × Text) := do
  let (sign, t) : Text × Text := match t with
    | '-' :: r => (['-'], r)
    | t => ([], t)
  let (whole, t) ← whole? t
  let (fraction, t) ← fraction? t
  let (power, t) ← power? t
  return (sign ++ whole ++ fraction ++ power, t)

/-- The tokens that are one character or one word. -/
def fixedTokens : List (Text × Token) :=
  [(['['], .openArray), ([']'], .closeArray), (['\x7b'], .openObject), (['\x7d'], .closeObject),
   ([','], .comma), ([':'], .colon), (['n', 'u', 'l', 'l'], .null),
   (['t', 'r', 'u', 'e'], .bool true), (['f', 'a', 'l', 's', 'e'], .bool false)]

/-- The token at the start of a text, and the text after it. -/
def token? : Text → Option (Token × Text)
  | '"' :: r => do
    let (units, rest) ← stringUnits? r
    return (.string (textOfUnits? units), rest)
  | t =>
    (fixedTokens.findSome? fun (word, token) => (Text.after? word t).map fun rest => (token, rest))
      <|> (number? t).map fun (spelling, rest) => (.number spelling, rest)

/-- The tokens of a text, of which at most `limit` are read. -/
def tokensUpTo? : (limit : Nat) → Text → Option (List Token)
  | 0, _ => none
  | limit + 1, t =>
    match t.dropWhile isSpace with
    | [] => some []
    | c :: r => do
      let (token, rest) ← token? (c :: r)
      return token :: (← tokensUpTo? limit rest)

/-- The tokens of a text. Every token takes a character. -/
def tokens? (t : Text) : Option (List Token) := tokensUpTo? (t.length + 1) t

/-- An array or object that is not yet closed, its items so far, the latest first. -/
inductive Frame
  | array (items : List Json)
  | object (members : List (Option Text × Json))
  | member (members : List (Option Text × Json)) (key : Option Text)

/-- What may come next: a value, a value or the end of an empty array, a key, a key or the end of an
    empty object, a colon, or what stands after a complete value. -/
inductive Demand
  | value
  | firstItem
  | key
  | firstKey
  | colon
  | afterValue

/-- Where a reading stands: what may come next, the open arrays and objects, the innermost first, and
    the document once it is complete. -/
structure Reading where
  demand : Demand
  frames : List Frame
  document : Option Json

namespace Reading

/-- The reading of a text before its first token. -/
def start : Reading := ⟨.value, [], none⟩

/-- A value is complete. -/
def complete (v : Json) (frames : List Frame) : Reading :=
  match frames with
  | [] => ⟨.afterValue, [], some v⟩
  | .array items :: r => ⟨.afterValue, .array (v :: items) :: r, none⟩
  | .object members :: r => ⟨.afterValue, .object members :: r, none⟩
  | .member members key :: r => ⟨.afterValue, .object ((key, v) :: members) :: r, none⟩

/-- A value begins with a token. -/
def begin? (frames : List Frame) : Token → Option Reading
  | .null => some (complete .null frames)
  | .bool b => some (complete (.bool b) frames)
  | .number spelling => some (complete (.number spelling) frames)
  | .string content => some (complete (.string content) frames)
  | .openArray => some ⟨.firstItem, .array [] :: frames, none⟩
  | .openObject => some ⟨.firstKey, .object [] :: frames, none⟩
  | _ => none

/-- The reading after one more token, if the token may stand there. -/
def step? (r : Reading) (token : Token) : Option Reading :=
  match r.demand, token, r.frames with
  | .firstItem, .closeArray, .array items :: frames
  | .afterValue, .closeArray, .array items :: frames => some (complete (.array items.reverse) frames)
  | .firstKey, .closeObject, .object members :: frames
  | .afterValue, .closeObject, .object members :: frames =>
    some (complete (.object members.reverse) frames)
  | .value, token, frames | .firstItem, token, frames => begin? frames token
  | .key, .string key, .object members :: frames
  | .firstKey, .string key, .object members :: frames =>
    some ⟨.colon, .member members key :: frames, none⟩
  | .colon, .colon, frames => some ⟨.value, frames, none⟩
  | .afterValue, .comma, .array items :: frames => some ⟨.value, .array items :: frames, none⟩
  | .afterValue, .comma, .object members :: frames => some ⟨.key, .object members :: frames, none⟩
  | _, _, _ => none

end Reading

/-- The document of a JSON text, if it is one. -/
def parse? (t : Text) : Option Json := do
  let reading ← (← tokens? t).foldlM Reading.step? Reading.start
  reading.document

end Json
end Criteria
