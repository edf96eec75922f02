import Criteria.Error
import Criteria.Text.Basic

/-!
A parameter of a request, in any of the query languages.

Checks decide which entries of a result are kept. A check may remember what it was asked before, so
it is asked once per entry, in order. A dialect says how a text is read and written, how two texts and
two results are put together, and how a check sifts a result.

A parameter has a text, and remembers what is already known about it. The text is read when its
parts are first asked for. Cleaning replaces the parts by those that a check leaves; what was cleaned
away stays away when more is added. Every operation gives its answer and the parameter after it.
-/

namespace Criteria

/-- A decision about an entry by a state, and the state after it. -/
abbrev Check (State Entry : Type) := Entry → State → Bool × State

namespace Check

variable {State Entry : Type}

/-- The check that asks a predicate and remembers nothing. -/
def pure (accepts : Entry → Bool) : Check State Entry := fun entry s => (accepts entry, s)

/-- The entries that a check accepts, and the state that it ends in. -/
def filter (check : Check State Entry) : List Entry → State → List Entry × State
  | [], s => ([], s)
  | entry :: r, s =>
    let (accepted, s) := check entry s
    let (kept, s) := check.filter r s
    (if accepted then entry :: kept else kept, s)

/-- Without a memory a check is an ordinary filter. -/
theorem filter_pure (accepts : Entry → Bool) (entries : List Entry) (s : State) :
    (pure accepts).filter entries s = (entries.filter accepts, s) := by
  induction entries with
  | nil => rfl
  | cons entry r ih => cases h : accepts entry <;> simp [filter, ih, pure, h]

/-- A check keeps entries in their order. -/
theorem filter_sublist (check : Check State Entry) (entries : List Entry) (s : State) :
    (check.filter entries s).1.Sublist entries := by
  induction entries generalizing s with
  | nil => simp [filter]
  | cons entry r ih =>
    cases accepted : (check entry s).1 <;> simp [filter, accepted, ih, List.Sublist.cons]

end Check

/-- A query language whose texts are lists of parts, some of which hold an entry to be checked. -/
structure Dialect (Part Entry : Type) where
  /-- What the language is called. -/
  name : String
  /-- The parts of a text. -/
  parse : Text → Except SyntaxError (List Part)
  /-- One text that asks for what two nonempty texts ask for. -/
  mergeTexts : Text → Text → Text
  /-- One list of parts that asks for what two lists ask for. -/
  mergeParts : List Part → List Part → List Part
  /-- The written form of parts. -/
  render : List Part → Text
  /-- The parts that are left when a check has been asked about every entry in order. -/
  sift : {State : Type} → Check State Entry → List Part → State → List Part × State

/-- A parameter: its text, the parts of the text if it has been read, and the cleaned parts if it has
    been cleaned. -/
structure Param (Part : Type) where
  text : Text
  parsed : Option (List Part)
  cleaned : Option (List Part)
deriving DecidableEq, Repr

namespace Param

variable {Part Entry : Type}

/-- The parameter with a text, which is trimmed. Nothing else is known about it. -/
def ofText (t : Text) : Param Part := ⟨Text.trim t, none, none⟩

/-- Whether the parameter has been cleaned. -/
def isCleaned (p : Param Part) : Bool := p.cleaned.isSome

/-- The parts of the text, cleaned or not. They are kept for the next time. -/
def rawParts (d : Dialect Part Entry) (p : Param Part) :
    Except SyntaxError (List Part) × Param Part :=
  match p.parsed with
  | some parts => (.ok parts, p)
  | none =>
    match d.parse p.text with
    | .ok parts => (.ok parts, { p with parsed := some parts })
    | .error e => (.error e, p)

/-- The cleaned parts, or the parts of the text if the parameter has not been cleaned. -/
def parts (d : Dialect Part Entry) (p : Param Part) :
    Except SyntaxError (List Part) × Param Part :=
  match p.cleaned with
  | some parts => (.ok parts, p)
  | none => p.rawParts d

/-- What a function finds in the parts. -/
def query {Answer : Type} (d : Dialect Part Entry) (find : List Part → Answer) (p : Param Part) :
    Except SyntaxError Answer × Param Part :=
  let (result, p) := p.parts d
  (result.map find, p)

/-- The written form of the parts. -/
def canonical (d : Dialect Part Entry) (p : Param Part) : Except SyntaxError Text × Param Part :=
  p.query d d.render

/-- Adds a text to what the parameter asks for. Cleaned parts are kept and the parts of the added
    text are put to them; if these cannot be read, nothing changes. -/
def addText (d : Dialect Part Entry) (t : Text) (p : Param Part) :
    Except SyntaxError Unit × Param Part :=
  let t := Text.trim t
  if p.text = [] then (.ok (), ofText t)
  else if t = [] then (.ok (), p)
  else
    let merged := d.mergeTexts p.text t
    match p.cleaned with
    | none => (.ok (), ⟨merged, none, none⟩)
    | some cleaned =>
      match d.parse t with
      | .ok added => (.ok (), ⟨merged, none, some (d.mergeParts cleaned added)⟩)
      | .error e => (.error e, p)

/-- The text of two parameters together; an empty one adds nothing. -/
def mergedText (d : Dialect Part Entry) (first second : Text) : Text :=
  if first = [] then second else if second = [] then first else d.mergeTexts first second

/-- Adds another parameter to what the parameter asks for. If either has been cleaned, the parts of
    both are put together. -/
def addParam (d : Dialect Part Entry) (p other : Param Part) :
    Except SyntaxError Unit × Param Part :=
  if p.isCleaned || other.isCleaned then
    match p.parts d with
    | (.error e, p) => (.error e, p)
    | (.ok first, p) =>
      match (other.parts d).1 with
      | .error e => (.error e, p)
      | .ok second =>
        (.ok (), ⟨mergedText d p.text other.text, none, some (d.mergeParts first second)⟩)
  else (.ok (), ⟨mergedText d p.text other.text, none, none⟩)

/-- Replaces the cleaned parts by those that a check leaves of the parts. With `reset` the check
    begins again with all parts of the text. Without an answer the check has not been asked. -/
def clean {State : Type} (d : Dialect Part Entry) (reset : Bool) (check : Check State Entry)
    (s : State) (p : Param Part) : Except SyntaxError State × Param Part :=
  let p := if reset then { p with cleaned := none } else p
  match p.parts d with
  | (.error e, p) => (.error e, p)
  | (.ok parts, p) =>
    let (kept, s) := d.sift check parts s
    (.ok s, { p with cleaned := some kept })

end Param
end Criteria
