/-
The program itself: arguments in, text out. Everything is decided by
`CommandLine` and `Prompt`; here files are read, lines are taken one at a time
and answers are written as they come.
-/
import Scriptlet.CommandLine

namespace Scriptlet.Main

/-- Why a file could not be read. A path that leads through a file fails when
it is opened, and the report names it; a folder can be opened and fails when it
is read. -/
def cause : IO.Error → Unreadable
  | .noFileOrDirectory .. => .missing
  | .permissionDenied .. => .forbidden
  | .inappropriateType (some _) .. => .notFolder
  | .inappropriateType none .. => .isFolder
  | .invalidArgument .. => .nameTooLong
  | .userError _ => .notText
  | e => .other (toString e)

/-- Writes what a run has to say and returns its code. -/
def finish (e : Exit) : IO UInt32 := do
  IO.print e.out
  IO.eprint e.err
  return UInt32.ofNat e.code

/-- A line without what ends it. -/
def unended (line : String) : String :=
  match line.toList.getLast? with
  | some '\n' => String.ofList (Text.chopReturn line.toList.dropLast)
  | _ => line

/-- Answers lines until a farewell or the end of the input. On a terminal the
user is asked for each line. -/
partial def converse (input : IO.FS.Stream) (p : Prompt) : IO UInt32 := do
  if ← input.isTty then
    IO.print (if p.pending.isEmpty then ">> " else ".. ")
    (← IO.getStdout).flush
  let line ← input.getLine
  if line.isEmpty then return 0
  let line := unended line
  if p.isFarewell line then return 0
  match p.answer Interpreter.ample line with
  | none => return 1
  | some (reply, p) =>
      IO.print reply.out
      IO.eprint reply.err
      (← IO.getStdout).flush
      converse input p

/-- Carries out a request. -/
def execute (r : Request) : IO UInt32 := do
  match r.command with
  | .repl => converse (← IO.getStdin) { interpreter := r.interpreter }
  | .eval source => finish ((r.evaluate Interpreter.ample source).getD { code := 1 })
  | .run path =>
      let exit ← try
          let source ← IO.FS.readFile path
          pure (r.evaluate Interpreter.ample source)
        catch e => pure (some (Request.unreadable path (cause e)))
      finish (exit.getD { code := 1 })

end Scriptlet.Main

/-- Runs the interpreter on its arguments. -/
def main (args : List String) : IO UInt32 :=
  match Scriptlet.CommandLine.parse args with
  | .ok request => Scriptlet.Main.execute request
  | .error refusal => Scriptlet.Main.finish refusal.exit
