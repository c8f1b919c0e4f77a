/-
The command line. Two options stand for all commands and may be given before or
behind the command's name; `run` takes a script's path, `eval` takes a program's
text, and `repl`, which is also what happens without a command, reads lines. An
option given on both sides of the command's name counts as given behind it;
twice on one side it is refused. Behind `--` nothing is an option.
-/
import Scriptlet.Folder
import Scriptlet.Host.Prelude
import Scriptlet.Prompt

namespace Scriptlet

-- ========================================================= options

/-- What a command line asks for. -/
inductive Command where
  | run (path : String)
  | eval (source : String)
  | repl
  deriving DecidableEq, Repr

/-- A command with its options. -/
structure Request where
  command : Command
  maxDepth : Option Nat
  noPrelude : Bool
  deriving DecidableEq, Repr

/-- Why there is nothing to run: help or the version is asked for, or the
arguments are wrong. -/
inductive Refusal where
  | help | version | usage
  deriving DecidableEq, Repr

namespace CommandLine

/-- The commands by name. -/
inductive Verb where
  | run | eval | repl
  deriving DecidableEq, Repr

/-- The command that a word names. -/
def Verb.ofText? : String → Option Verb
  | "run" => some .run
  | "eval" => some .eval
  | "repl" => some .repl
  | _ => none

/-- The arguments read so far: the options of the part before the command's name
and of the part behind it, the command, its operand, and whether options are
still looked for. -/
structure State where
  outerDepth : Option Nat := none
  outerNoPrelude : Bool := false
  verb : Option Verb := none
  depth : Option Nat := none
  noPrelude : Bool := false
  operand : Option String := none
  literal : Bool := false

/-- The number that an option's text spells: digits, perhaps behind a plus sign,
of at most 64 bits. -/
def count? (text : String) : Option Nat :=
  let digits := match text.toList with
    | '+' :: rest => rest
    | chars => chars
  if digits.isEmpty || !digits.all Char.isDigit then none
  else
    let n := Number.digitsValue digits
    if n < 1 <<< 64 then some n else none

/-- Whether an argument looks like an option. -/
def isOption (arg : String) : Bool :=
  match arg.toList with
  | '-' :: _ :: _ => true
  | _ => false

/-- Takes an argument that is no option. -/
def takeWord (s : State) (word : String) : Except Refusal State :=
  match s.verb with
  | none =>
      if s.literal then .error .usage
      else
        match Verb.ofText? word with
        | some verb =>
            .ok { s with verb := some verb, outerDepth := s.depth, outerNoPrelude := s.noPrelude,
                         depth := none, noPrelude := false }
        | none => .error .usage
  | some .repl => .error .usage
  | some verb =>
      if s.operand.isSome || (verb = .run && word.isEmpty) then .error .usage
      else .ok { s with operand := some word }

/-- Takes the depth option with its value. -/
def takeDepth (s : State) (value : String) : Except Refusal State :=
  match count? value with
  | none => .error .usage
  | some n => if s.depth.isSome then .error .usage else .ok { s with depth := some n }

/-- Takes an option that stands alone. -/
def takeFlag (s : State) (arg : String) : Except Refusal State :=
  match arg.toList with
  | '-' :: 'h' :: _ => .error .help
  | '-' :: 'V' :: _ => .error (if s.verb.isNone then .version else .usage)
  | _ =>
      if arg = "--help" then .error .help
      else if arg = "--version" && s.verb.isNone then .error .version
      else if arg = "--no-prelude" && !s.noPrelude then .ok { s with noPrelude := true }
      else .error .usage

/-- The name of the depth option. -/
def depthOption : String := "--max-call-depth"

/-- The value that an argument gives to the depth option behind an equals
sign. -/
def depthValue? (arg : String) : Option String :=
  let front := (depthOption ++ "=").toList
  if front.isPrefixOf arg.toList then some (String.ofList (arg.toList.drop front.length)) else none

/-- What the word `help` asks for, given the words behind it: help, unless they
name no command. -/
def helpWith : List String → Refusal
  | [] => .help
  | [word] => if word = "help" || (Verb.ofText? word).isSome then .help else .usage
  | _ => .usage

/-- Takes all arguments in order. -/
def take (s : State) : List String → Except Refusal State
  | [] => .ok s
  | arg :: rest =>
      if arg = "help" && s.verb.isNone && !s.literal then .error (helpWith rest)
      else if s.literal || !isOption arg then do
        let s ← takeWord s arg
        take s rest
      else if arg = "--" then take { s with literal := true } rest
      else if arg = depthOption then
        match rest with
        | [] => .error .usage
        | value :: rest =>
            if isOption value then .error .usage
            else do
              let s ← takeDepth s value
              take s rest
      else
        match depthValue? arg with
        | some value => do
            let s ← takeDepth s value
            take s rest
        | none => do
            let s ← takeFlag s arg
            take s rest

/-- The command that the arguments make, once its operand is there. -/
def State.command (s : State) : Except Refusal Command :=
  match s.verb, s.operand with
  | none, _ | some .repl, _ => .ok .repl
  | some .run, some path => .ok (.run path)
  | some .eval, some source => .ok (.eval source)
  | some _, none => .error .usage

/-- Reads the arguments. -/
def parse (args : List String) : Except Refusal Request := do
  let s ← take {} args
  let command ← s.command
  return {
    command
    maxDepth := s.depth.or s.outerDepth
    noPrelude := s.noPrelude || s.outerNoPrelude }

end CommandLine

-- ======================================================= execution

/-- How the program ends and what it wrote. -/
structure Exit where
  code : Nat
  out : String := ""
  err : String := ""
  deriving DecidableEq, Repr

/-- The version line. -/
def versionText : String := "tombo 0.1.0\n"

/-- What the program can be asked for. -/
def helpText : String :=
  String.intercalate "\n"
    ["Tombo language interpreter",
      "",
      "Usage: tombo [OPTIONS] [COMMAND]",
      "",
      "Commands:",
      "  run   Run a Tombo script file",
      "  repl  Start an interactive REPL session",
      "  eval  Evaluate a snippet of Tombo code",
      "  help  Print this message or the help of the given subcommand(s)",
      "",
      "Options:",
      "      --max-call-depth <MAX_CALL_DEPTH>  Maximum depth of nested function calls",
      "      --no-prelude                       Start with an empty root scope instead of the core prelude",
      "  -h, --help                             Print help",
      "  -V, --version                          Print version",
      ""]

namespace Request

/-- The interpreter that a request asks for. -/
def interpreter (r : Request) : Interpreter :=
  .start (if r.noPrelude then [] else Prelude.host) (r.maxDepth.getD defaultMaxDepth) {}

/-- Evaluates a program's text; only a failure is shown. -/
def evaluate (r : Request) (budget : Nat) (source : String) : Option Exit :=
  match r.interpreter.evalSource budget source with
  | .done _ i => some { code := 0, out := i.transcript.printed }
  | .failed failure i =>
      some {
        code := 1
        out := i.transcript.printed
        err := failure.diagnostic.render source ++ "\n" }
  | .exhausted => none

/-- The report that a script cannot be read. -/
def unreadable (path : String) (cause : Unreadable) : Exit :=
  let d : Diagnostic := { kind := .io, message := cause.message, pos := none }
  { code := 1, err := (d.withNote ("while reading " ++ path)).heading ++ "\n" }

/-- Carries out a request, where `read` gives the text of a file or the reason
why there is none, and `input` is all that can be read from the terminal. -/
def execute (r : Request) (budget : Nat) (read : String → Except Unreadable String)
    (input : String) : Option Exit :=
  match r.command with
  | .eval source => r.evaluate budget source
  | .run path =>
      match read path with
      | .ok source => r.evaluate budget source
      | .error cause => some (unreadable path cause)
  | .repl =>
      let lines := (Text.lines input.toList).map String.ofList
      let prompt : Prompt := { interpreter := r.interpreter }
      (prompt.converse budget lines {}).map fun reply =>
        { code := 0, out := reply.out, err := reply.err }

end Request

/-- What is shown instead of running something. -/
def Refusal.exit : Refusal → Exit
  | help => { code := 0, out := helpText }
  | version => { code := 0, out := versionText }
  | usage => { code := 2, err := helpText }

/-- The whole program: reads its arguments and carries them out. -/
def commandLine (args : List String) (budget : Nat) (read : String → Except Unreadable String)
    (input : String) : Option Exit :=
  match CommandLine.parse args with
  | .ok request => request.execute budget read input
  | .error refusal => some refusal.exit

end Scriptlet
