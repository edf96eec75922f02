import Criteria.Error
import Criteria.Text.Basic

/-!
Text divided into plain characters, escaped characters and quoted literals. A quote opens a literal
that runs to the next unescaped quote; outside literals a backslash takes the next character with
it, so that an escaped quote opens nothing. Two texts are rejected: one whose last literal is not
closed, and one with a NUL outside every literal.

Masking replaces each literal of a text by its number in quotes and keeps the contents aside, so
that brackets, commas and words inside a literal are out of sight of every later rule. Whatever is
shown to a reader is restored first. Lists of tokens are cut at the occurrences of one separating
character that stand outside literals, and a token that could be misread is written as a literal.
-/

namespace Criteria.Literal

/-- The mark at both ends of a literal. -/
def quote : Char := '\''

/-- The mark that escapes the next character. -/
def escape : Char := '\\'

/-- The character that no text may hold outside its literals: it marks inserted group names. -/
def sentinel : Char := '\x00'

/-- One step through a text. -/
inductive Atom
  | plain (c : Char)
  /-- A backslash and the character after it. -/
  | escaped (c : Char)
  /-- A backslash that ends the text. -/
  | bareEscape
  /-- A quoted literal with its content, escapes resolved. -/
  | literal (content : Text)
deriving DecidableEq, Repr

/-- What an escape inside a literal stands for: a quote or a backslash loses its escape, before any
    other character the backslash stays. -/
def unescape (c : Char) : Text := if c = quote ∨ c = escape then [c] else [escape, c]

/-- The written form of a literal's content: its quotes and backslashes are escaped. -/
def escapeText (content : Text) : Text :=
  content.flatMap fun c => if c = quote ∨ c = escape then [escape, c] else [c]

/-- The written form of a text as a literal. -/
def enquote (content : Text) : Text := quote :: (escapeText content ++ [quote])

mutual

/-- The atoms of a text that begins outside literals, at a byte offset. -/
def Atom.scan (position : Nat) : Text → Except SyntaxError (List Atom)
  | [] => .ok []
  | c :: r =>
    if c = escape then
      match r with
      | [] => .ok [.bareEscape]
      | d :: r => (scan (position + c.utf8Size + d.utf8Size) r).map (.escaped d :: ·)
    else if c = quote then
      (scanLiteral position (position + c.utf8Size) r).map fun (content, atoms) =>
        .literal content :: atoms
    else if c = sentinel then .error (.controlCharacter position)
    else (scan (position + c.utf8Size) r).map (.plain c :: ·)
termination_by structural t => t

/-- The rest of a literal that began at the byte offset `start`, and the atoms after it. -/
def Atom.scanLiteral (start position : Nat) : Text → Except SyntaxError (Text × List Atom)
  | [] => .error (.unterminatedLiteral start position)
  | c :: r =>
    if c = quote then (scan (position + c.utf8Size) r).map ([], ·)
    else if c = escape then
      match r with
      | [] => .error (.unterminatedLiteral start (position + c.utf8Size))
      | d :: r =>
        (scanLiteral start (position + c.utf8Size + d.utf8Size) r).map fun (content, atoms) =>
          (unescape d ++ content, atoms)
    else
      (scanLiteral start (position + c.utf8Size) r).map fun (content, atoms) =>
        (c :: content, atoms)
termination_by structural t => t

end

/-- The content of an atom if it is a literal. -/
def Atom.content? : Atom → Option Text
  | .literal content => some content
  | _ => none

/-- A text whose literals are replaced by their numbers, with the contents of the literals. -/
structure Masked where
  text : Text
  literals : List Text
deriving DecidableEq, Repr

/-- The mark that stands for the literal with a number. -/
def placeholder (n : Nat) : Text := quote :: (Text.ofNat n ++ [quote])

/-- The masked form of a run of atoms whose first literal has the number `n`. -/
def maskFrom (n : Nat) : List Atom → Text
  | [] => []
  | .plain c :: r => c :: maskFrom n r
  | .escaped c :: r => escape :: c :: maskFrom n r
  | .bareEscape :: r => escape :: maskFrom n r
  | .literal _ :: r => placeholder n ++ maskFrom (n + 1) r

/-- The masked form of a run of atoms. -/
def Masked.ofAtoms (atoms : List Atom) : Masked :=
  ⟨maskFrom 0 atoms, atoms.filterMap Atom.content?⟩

/-- The masked form of a text. -/
def mask (t : Text) : Except SyntaxError Masked := (Atom.scan 0 t).map Masked.ofAtoms

/-- The text between the quotes of a token that begins and ends with different quotes. -/
def quotedInner? : Text → Option Text
  | [] => none
  | c :: r => if c = quote ∧ r.getLast? = some quote then some r.dropLast else none

namespace Masked

/-- The content of the literal with a written number. -/
def literal? (m : Masked) (number : Text) : Option Text := do
  let n ← Text.index? number
  m.literals[n]?

/-- The content of the literal that a token stands for, if the token is one placeholder. -/
def unquote? (m : Masked) (token : Text) : Option Text :=
  (quotedInner? token).bind m.literal?

/-- The written form of the literal with a number; a number that has no literal is its content. -/
def written (m : Masked) (number : Text) : Text :=
  enquote ((m.literal? number).getD number)

mutual

/-- A masked text with its literals written out again. -/
def restore (m : Masked) : Text → Text
  | [] => []
  | c :: r =>
    if c = escape then
      match r with
      | [] => [c]
      | d :: r => c :: d :: m.restore r
    else if c = quote then
      let (number, rest) := m.restoreLiteral r
      m.written number ++ rest
    else c :: m.restore r
termination_by structural t => t

/-- The number up to the next quote, and the restored text after that quote. -/
def restoreLiteral (m : Masked) : Text → Text × Text
  | [] => ([], [])
  | c :: r =>
    if c = quote then ([], m.restore r)
    else
      let (number, rest) := m.restoreLiteral r
      (c :: number, rest)
termination_by structural t => t

end

/-- What a token says: the content of the literal that it is, or its restored text. -/
def reveal (m : Masked) (token : Text) : Text := (m.unquote? token).getD (m.restore token)

end Masked

/-- The tokens of a text between the occurrences of `separator` outside literals. Blank tokens are
    left out; a token that is one literal loses its quotes. -/
def split (separator : Char) (t : Text) : Except SyntaxError (List Text) := do
  let m ← mask t
  let pieces := (m.text.splitOn separator).map Text.trim
  return (pieces.filter (· ≠ [])).map m.reveal

/-- The mark between the tokens of a list. -/
def comma : Char := ','

/-- A token that is empty, begins or ends with a blank, or holds a comma, a quote or an escape
    cannot be written as it is. -/
def NeedsQuotes (token : Text) : Prop :=
  token = [] ∨ Text.trim token ≠ token ∨ comma ∈ token ∨ quote ∈ token ∨ escape ∈ token

instance (token : Text) : Decidable (NeedsQuotes token) :=
  inferInstanceAs (Decidable (_ ∨ _ ∨ _ ∨ _ ∨ _))

/-- The written form of a token in a list. -/
def writeToken (token : Text) : Text := if NeedsQuotes token then enquote token else token

end Criteria.Literal
