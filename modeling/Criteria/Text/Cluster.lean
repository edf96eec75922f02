import Criteria.Text.Basic
import Criteria.Text.ClusterClass

/-!
Clusters: what a reader takes for one character, be it one code point or several, by the extended
grapheme clusters of the Unicode standard. Whether a cluster goes on at a character depends on its
class and on what stands before it. The clusters of a text are a division of the text.
-/

namespace Criteria.Text

namespace ClusterClass

/-- A character that is a cluster of its own. -/
def isControl (c : ClusterClass) : Bool := c = carriageReturn || c = lineFeed || c = control

/-- A mark that attaches to whatever stands before it, controls apart. -/
def attaches (c : ClusterClass) : Bool :=
  c = extender || c = linker || c = joiner || c = nonJoiner

/-- Whether two neighbours are parts of one syllable. -/
def sameSyllable : ClusterClass → ClusterClass → Bool
  | leadingConsonant, leadingConsonant
  | leadingConsonant, syllableVowel
  | leadingConsonant, openSyllable
  | leadingConsonant, closedSyllable
  | openSyllable, syllableVowel
  | openSyllable, trailingConsonant
  | syllableVowel, syllableVowel
  | syllableVowel, trailingConsonant
  | closedSyllable, trailingConsonant
  | trailingConsonant, trailingConsonant => true
  | _, _ => false

end ClusterClass

/-- What a consonant and the marks after it ask of the next character. -/
inductive Conjunct
  | absent
  /-- A consonant stands there, and no mark that joins. -/
  | open
  /-- A mark joins the consonant with the next one. -/
  | linked
deriving DecidableEq, Repr

/-- What the characters before a place say about the next one. -/
structure ClusterContext where
  /-- The class of the last character. -/
  last : ClusterClass
  /-- Whether the last character is the first half of a flag. -/
  halfFlag : Bool
  /-- Whether a pictograph stands there with marks after it, the last of which may be a joiner. -/
  pictograph : Bool
  conjunct : Conjunct
deriving DecidableEq, Repr

namespace ClusterContext

/-- The context before a text. -/
def start : ClusterContext := ⟨.control, false, false, .absent⟩

/-- The context after one more character. -/
def next (s : ClusterContext) (c : ClusterClass) : ClusterContext where
  last := c
  halfFlag := c = .regionalIndicator && !s.halfFlag
  pictograph := c = .pictograph || (c.attaches && s.pictograph && s.last ≠ .joiner)
  conjunct :=
    match c, s.conjunct with
    | .consonant, _ => .open
    | .linker, .open => .linked
    | .linker, conjunct | .extender, conjunct | .joiner, conjunct => conjunct
    | _, _ => .absent

/-- Whether a character goes on with the cluster before it. -/
def joins (s : ClusterContext) (c : ClusterClass) : Bool :=
  if s.last.isControl || c.isControl then s.last = .carriageReturn && c = .lineFeed
  else
    c.attaches || c = .spacingMark || s.last = .prepended || s.last.sameSyllable c ||
      (c = .consonant && s.conjunct = .linked) ||
      (c = .pictograph && s.pictograph && s.last = .joiner) ||
      (c = .regionalIndicator && s.halfFlag)

end ClusterContext

/-- The rest of the cluster that a text goes on with, and the clusters after it. -/
def clustersFrom (s : ClusterContext) : Text → Text × List Text
  | [] => ([], [])
  | c :: r =>
    let (rest, clusters) := clustersFrom (s.next (clusterClass c)) r
    if s.joins (clusterClass c) then (c :: rest, clusters) else ([], (c :: rest) :: clusters)

/-- The clusters of a text, in order. Nothing stands before the text that it could go on with. -/
def clusters (t : Text) : List Text := (clustersFrom .start t).2

theorem clustersFrom_flatten (s : ClusterContext) (t : Text) :
    (clustersFrom s t).1 ++ (clustersFrom s t).2.flatten = t := by
  induction t generalizing s with
  | nil => rfl
  | cons c r ih =>
    have rest := ih (s.next (clusterClass c))
    cases joined : s.joins (clusterClass c) <;> simp [clustersFrom, joined, rest]

/-- At its start a text goes on with no cluster, since it begins as after a control. -/
theorem clustersFrom_start (t : Text) : (clustersFrom .start t).1 = [] := by
  cases t with
  | nil => rfl
  | cons c r => simp [clustersFrom, ClusterContext.joins, ClusterContext.start,
      ClusterClass.isControl]

/-- The clusters of a text together are the text. -/
theorem flatten_clusters (t : Text) : (clusters t).flatten = t := by
  have whole := clustersFrom_flatten .start t
  rwa [clustersFrom_start, List.nil_append] at whole

end Criteria.Text
