/-
Evaluating line by line. Lines are gathered until they make a complete program,
which is then evaluated; a text that ends too early is kept for the next line,
and any other failure is reported and dropped.
-/
import Scriptlet.Interpreter

namespace Scriptlet

/-- An interpreter and the lines that wait for more. -/
structure Prompt where
  interpreter : Interpreter
  pending : String := ""

/-- What becomes of a line. -/
inductive Submission where
  | incomplete
  | evaluated (value : Value)
  | failed (report : String)

/-- What an exchange wrote to the two outputs. -/
structure Reply where
  out : String := ""
  err : String := ""
  deriving DecidableEq, Repr

/-- One reply after another. -/
def Reply.append (first second : Reply) : Reply :=
  ⟨first.out ++ second.out, first.err ++ second.err⟩

namespace Prompt

/-- Adds a line and evaluates what is pending, if it is complete. Without enough
budget there is no answer. -/
def submit (p : Prompt) (budget : Nat) (line : String) : Option (Submission × Prompt) :=
  let source := p.pending ++ line ++ "\n"
  match p.interpreter.evalSource budget source with
  | .done v i => some (.evaluated v, { interpreter := i })
  | .failed failure i =>
      if failure.isIncomplete then some (.incomplete, { interpreter := i, pending := source })
      else some (.failed (failure.diagnostic.render source), { interpreter := i })
  | .exhausted => none

/-- Whether a line asks to leave: it does only where a new program would
begin. -/
def isFarewell (p : Prompt) (line : String) : Bool :=
  let word := String.ofList (Text.trim line.toList)
  p.pending.isEmpty && (word == ":quit" || word == ":exit")

/-- Whether a line is passed over: it is blank and nothing is pending. -/
def isIdle (p : Prompt) (line : String) : Bool :=
  p.pending.isEmpty && (Text.trim line.toList).isEmpty

/-- What is shown for a submission, behind what the script itself printed. Nil is
not shown. -/
def Submission.reply (printed : String) : Submission → Reply
  | .incomplete => { out := printed }
  | .evaluated v => { out := if v.isNil then printed else printed ++ v.quoted ++ "\n" }
  | .failed report => { out := printed, err := report ++ "\n" }

/-- Answers one line that is no farewell. -/
def answer (p : Prompt) (budget : Nat) (line : String) : Option (Reply × Prompt) :=
  if p.isIdle line then some ({}, p)
  else
    let p := { p with interpreter := p.interpreter.cleared }
    match p.submit budget line with
    | none => none
    | some (submission, p) =>
        some (Submission.reply p.interpreter.transcript.printed submission, p)

/-- Answers lines in order, up to a farewell. -/
def converse (p : Prompt) (budget : Nat) : List String → Reply → Option Reply
  | [], replies => some replies
  | line :: rest, replies =>
      if p.isFarewell line then some replies
      else
        match p.answer budget line with
        | none => none
        | some (reply, p) => converse p budget rest (replies.append reply)

end Prompt

end Scriptlet
