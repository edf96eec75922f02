import Criteria.Policy
import Criteria.Request
import Criteria.Session.Listing
import Criteria.Text.Cluster

/-!
A session at a prompt: each line is a command, and each command answers with lines. The session
remembers the policy that was loaded last.

Lines come as they were typed. An erase mark in a line takes back what was typed before it, one
cluster at a time, so that a line says what was left of it when it ended.
-/

namespace Criteria.Session

/-- The mark that takes back the cluster before it. -/
def eraseMark : Char := '\x08'

/-- A text without the carriage return that ends it, if one does. -/
def withoutReturn (t : Text) : Text := (Text.before? ['\r'] t).getD t

/-- The lines of an input. A line feed ends a line, together with a carriage return before it; what
    follows the last one is a line if there is anything. -/
def inputLines (t : Text) : List Text :=
  let pieces := t.splitOn '\n'
  pieces.dropLast.map withoutReturn ++ pieces.getLast?.toList.filter (· ≠ [])

/-- A line that is being typed: what it says so far, the latest character first, and the sizes of
    the clusters that can be taken back, the latest first. -/
structure Typing where
  said : Text
  sizes : List Nat
deriving DecidableEq, Repr

namespace Typing

/-- The line before anything was typed. -/
def start : Typing := ⟨[], []⟩

/-- The size that is kept of a cluster: its bytes in UTF-8, counted in one byte. -/
def size (cluster : Text) : Nat := Text.byteSize cluster % 2 ^ 8

/-- A text, in reverse, without its last bytes. No character can be cut in two. -/
def dropBytes? : Nat → Text → Option Text
  | 0, t => some t
  | _ + 1, [] => none
  | n + 1, c :: r => if c.utf8Size ≤ n + 1 then dropBytes? (n + 1 - c.utf8Size) r else none

/-- The line after one more cluster, which may be an erase mark. Where nothing is left to take back,
    a mark does nothing. -/
def type? (l : Typing) (cluster : Text) : Option Typing :=
  if cluster = [eraseMark] then
    match l.sizes with
    | [] => some l
    | n :: r => (dropBytes? n l.said).map (⟨·, r⟩)
  else some ⟨cluster.reverse ++ l.said, size cluster :: l.sizes⟩

end Typing

/-- What a line says, if its marks cut no character in two. -/
def typed? (line : Text) : Option Text :=
  ((Text.clusters line).foldlM Typing.type? Typing.start).map (·.said.reverse)

/-- Typing clusters without a mark adds them to the line. -/
theorem foldlM_type? {l : Typing} {pieces : List Text} (unmarked : [eraseMark] ∉ pieces) :
    ∃ sizes, pieces.foldlM Typing.type? l = some ⟨pieces.flatten.reverse ++ l.said, sizes⟩ := by
  induction pieces generalizing l with
  | nil => exact ⟨l.sizes, rfl⟩
  | cons piece r ih =>
    simp only [List.mem_cons, not_or] at unmarked
    have kept : l.type? piece = some ⟨piece.reverse ++ l.said, Typing.size piece :: l.sizes⟩ := by
      simp [Typing.type?, Ne.symm unmarked.1]
    obtain ⟨sizes, typed⟩ := ih (l := ⟨piece.reverse ++ l.said, Typing.size piece :: l.sizes⟩)
      unmarked.2
    exact ⟨sizes, by simp [List.foldlM_cons, kept, typed]⟩

/-- A line without marks says what it shows. -/
theorem typed?_of_unmarked {line : Text} (unmarked : eraseMark ∉ line) :
    typed? line = some line := by
  have apart : [eraseMark] ∉ Text.clusters line := fun member =>
    unmarked (Text.flatten_clusters line ▸ List.mem_flatten.mpr ⟨_, member, by simp⟩)
  obtain ⟨sizes, typed⟩ := foldlM_type? (l := Typing.start) apart
  rw [typed?, typed]
  simp [Text.flatten_clusters, Typing.start]

/-- The path of the policy that a session begins with. -/
def defaultPath : Text := "query_params.json".toList

/-- Where policies are found: what is at a path. -/
abbrev Files := Text → Policy.Source

/-- What can be asked for in a session. -/
inductive Command
  | filters (t : Text)
  | options (t : Text)
  | order (t : Text)
  | load (path : Text)
  | quit
  | help
deriving DecidableEq, Repr

/-- The command of a line; a blank line has none. The word before the first space names it. -/
def Command.ofLine? (line : Text) : Option Command :=
  let line := Text.trim line
  let word := String.ofList (line.takeWhile (· ≠ ' '))
  let rest := (line.dropWhile (· ≠ ' ')).drop 1
  if line = [] then none
  else if word = "filters" then some (.filters rest)
  else if word = "options" then some (.options rest)
  else if word = "order" then some (.order rest)
  else if word = ":config" then some (.load (Text.trim rest))
  else if word = ":quit" ∨ word = ":q" then some .quit
  else some .help

/-- The line that opens a session. -/
def banner : String := "--- Query Params: 查询参数解析器 ---"

/-- The lines that explain the commands. -/
def helpLines : List String :=
  ["命令:",
   "  filters <表达式>   例如 filters a eq 'b' and (c eq 'd' or e gt 3)",
   "  options <列表>     例如 options include-test,include-foo",
   "  order <列表>       例如 order name desc, id",
   "  :config <路径>     重新加载配置",
   "  :quit              退出"]

/-- Accepted names; no names restrict nothing. -/
def namesText (names : List Text) : String :=
  if names = [] then "(不限制)" else Outline.commaSeparated (names.map String.ofList)

/-- The lines that describe a policy. -/
def policyLines (p : Policy) : List String :=
  let keys := [ParamKind.filters, .options, .orderBy].map (·.key p.group)
  ["  参数名: " ++ namesText keys,
   "  分组清理: " ++ Listing.pruneMode p.pruneMode,
   "  过滤字段: " ++ namesText p.filterFields,
   "  选项: " ++ namesText p.options,
   "  排序字段: " ++ namesText p.orderByFields]

/-- The policy at a path, or the default one, and the lines that say so. -/
def load (files : Files) (path : Text) : Policy × List String :=
  let shown := String.ofList path
  match Policy.load (files path) with
  | .ok p => (p, ("✅ 成功加载配置文件: " ++ shown) :: policyLines p)
  | .error e =>
    (Policy.default, ["⚠️ 无法加载配置文件 (" ++ e.message shown ++ "), 使用默认配置"])

/-- The lines that list parts under a heading, one item on a line. -/
def listed (heading : String) (items : List Outline) : List String :=
  match (Outline.list items).lines with
  | [] => []
  | line :: r => (heading ++ line) :: r

/-- The heading of the parts of a text. -/
def parsedHeading : String := "[解析结果]: "

/-- The heading of the parts that a policy leaves. -/
def cleanedHeading : String := "[清理结果]: "

/-- The heading of the written form of the parts of a text. -/
def canonicalHeading : String := "[规范字符串]: "

/-- The heading of the written form of the parts that a policy leaves. -/
def cleanedTextHeading : String := "[清理后字符串]: "

/-- What is found for a text: its parts, their written form, the parts that are left when a check
    has been asked, and the written form of those. -/
structure Findings (Part : Type) where
  parts : List Part
  text : Text
  cleaned : List Part
  cleanedText : Text

/-- What is found for a text of a language with a predicate on entries. -/
def find {Part Entry : Type} (d : Dialect Part Entry) (accepts : Entry → Bool) (t : Text) :
    Except SyntaxError (Findings Part) := do
  let (parts, p) := Param.parts d (.ofText t)
  let (text, p) := p.canonical d
  let parts ← parts
  let text ← text
  let (done, p) := p.clean d false (Check.pure accepts) ()
  let _ ← done
  let (cleaned, p) := p.parts d
  let (cleanedText, _) := p.canonical d
  return ⟨parts, text, ← cleaned, ← cleanedText⟩

/-- The lines about a filter text. -/
def filterLines (policy : Policy) (t : Text) : Except SyntaxError (List String) := do
  let found ← find (Filter.dialect policy.pruneMode) policy.acceptsComparison t
  return listed parsedHeading (found.parts.map Listing.part) ++
    (canonicalHeading ++ String.ofList found.text) ::
    (listed cleanedHeading (found.cleaned.map Listing.part) ++
      [cleanedTextHeading ++ String.ofList found.cleanedText])

/-- The lines about an option text. -/
def optionLines (policy : Policy) (t : Text) : Except SyntaxError (List String) := do
  let found ← find Options.dialect policy.acceptsOption t
  return [parsedHeading ++ (Outline.list (found.parts.map Listing.quoted)).inline,
    cleanedTextHeading ++ String.ofList found.cleanedText]

/-- The lines about the text of a sort order. -/
def orderLines (policy : Policy) (t : Text) : Except SyntaxError (List String) := do
  let found ← find Sort.dialect policy.acceptsKey t
  return [parsedHeading ++ (Outline.list (found.parts.map Listing.key)).inline,
    cleanedTextHeading ++ String.ofList found.cleanedText]

/-- The lines of an answer, or those that report why a text is rejected and where. -/
def answerLines : Except SyntaxError (List String) → List String
  | .ok lines => lines
  | .error e =>
    ("✗ 解析失败: " ++ e.report) ::
      match e.span? with
      | none => []
      | some span => ["  位置 " ++ toString span.start ++ "-" ++ toString span.stop]

/-- What follows a command: the session ends, or it goes on with a policy and lines. -/
inductive Outcome
  | ended
  | next (policy : Policy) (lines : List String)

/-- What follows a line of input, by what it says. -/
def respond (files : Files) (policy : Policy) (line : Text) : Outcome :=
  match Command.ofLine? line with
  | none => .next policy []
  | some .quit => .ended
  | some .help => .next policy helpLines
  | some (.load path) => let (policy, lines) := load files path; .next policy lines
  | some (.filters t) => .next policy (answerLines (filterLines policy t))
  | some (.options t) => .next policy (answerLines (optionLines policy t))
  | some (.order t) => .next policy (answerLines (orderLines policy t))

/-- The policy that a session begins with, and its first lines. -/
def opening (files : Files) : Policy × List String :=
  let (policy, lines) := load files defaultPath
  (policy, banner :: (lines ++ helpLines))

/-- How a session ends: its input ends or asks for the end, or a line cannot be read. -/
inductive Ending
  | finished
  | failed
deriving DecidableEq, Repr

/-- The exit code of a session. -/
def Ending.code : Ending → Nat
  | finished => 0
  | failed => 101

/-- All that a session writes, and how it ends. -/
structure Transcript where
  lines : List String
  ending : Ending
deriving DecidableEq, Repr

/-- What a session goes on to write for lines of input as they were typed. -/
def replies (files : Files) (policy : Policy) : List Text → Transcript
  | [] => ⟨[], .finished⟩
  | line :: r =>
    match typed? line with
    | none => ⟨[], .failed⟩
    | some t =>
      match respond files policy t with
      | .ended => ⟨[], .finished⟩
      | .next policy lines =>
        let rest := replies files policy r
        { rest with lines := lines ++ rest.lines }

/-- The session with an input. -/
def transcript (files : Files) (input : Text) : Transcript :=
  let (policy, lines) := opening files
  let rest := replies files policy (inputLines input)
  { rest with lines := lines ++ rest.lines }

end Criteria.Session
