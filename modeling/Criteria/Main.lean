import Criteria.Session.Basic

/-!
The command line: a session on standard input and output, with policies in files.
-/

namespace Criteria

/-- The code of the system for reading a directory as a file. -/
def isDirectoryCode : UInt32 := 21

/-- What is in the file at a path. A path that can name no file leads nowhere. -/
def readSource (path : Text) : IO Policy.Source := do
  try
    return .content (← IO.FS.readFile (String.ofList path)).toList
  catch
    | .noFileOrDirectory _ _ _ => return .missing
    | .invalidArgument _ _ _ => return .missing
    | .inappropriateType file code details =>
      if code = isDirectoryCode then
        return .unreadable (toString (IO.Error.inappropriateType file code details))
      else return .missing
    | e => return .unreadable (toString e)

/-- Writes lines. -/
def writeLines (lines : List String) : IO Unit := lines.forM IO.println

/-- Answers the lines of input until the session ends. -/
partial def converse (input : IO.FS.Stream) (policy : Policy) : IO Session.Ending := do
  match Session.inputLines (← input.getLine).toList with
  | [] => return .finished
  | line :: _ =>
    match Session.typed? line with
    | none => return .failed
    | some text =>
      let source ←
        match Session.Command.ofLine? text with
        | some (.load path) => readSource path
        | _ => pure .missing
      match Session.respond (fun _ => source) policy text with
      | .ended => return .finished
      | .next policy lines =>
        writeLines lines
        converse input policy

end Criteria

/-- Runs a session. -/
def main : IO UInt32 := do
  let source ← Criteria.readSource Criteria.Session.defaultPath
  let (policy, lines) := Criteria.Session.opening fun _ => source
  Criteria.writeLines lines
  let ending ← Criteria.converse (← IO.getStdin) policy
  return UInt32.ofNat ending.code
