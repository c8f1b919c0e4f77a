/-
The host: what stands outside a script and what it lends to it. A host is a
table of routines; a native function value names its row. Routines see their
arguments and the transcript, to which they may add, and give a value or a
message of failure. They cannot reach the script's scopes.
-/
import Scriptlet.Fault

namespace Scriptlet

/-- What has been written: text printed, and lines logged. -/
structure Transcript where
  printed : String := ""
  logged : List String := []
  deriving DecidableEq, Repr

/-- A routine of the host. -/
structure Routine where
  name : String
  arity : Arity
  run : List Value → Transcript → Except String Value × Transcript

/-- The routines a host lends, by row. -/
abbrev Host := List Routine

/-- A routine that leaves the transcript alone. -/
def Routine.quiet (name : String) (arity : Arity) (f : List Value → Except String Value) :
    Routine :=
  ⟨name, arity, fun args transcript => (f args, transcript)⟩

namespace Host

/-- The native function of each row under the routine's name, added to what is
bound already; `row` is the number of the first. Of two routines of one name the
later counts. -/
def bindings (row : Nat) (bound : Entries String Value) : Host → Entries String Value
  | [] => bound
  | routine :: rest =>
      let f : Native := ⟨row, routine.name, routine.arity⟩
      bindings (row + 1) (Entries.put routine.name (.native f) bound) rest

/-- Runs the routine of a row. -/
def run (host : Host) (row : Nat) (args : List Value) (transcript : Transcript) :
    Except String Value × Transcript :=
  match host[row]? with
  | some routine => routine.run args transcript
  | none => (.error "no such routine", transcript)

end Host

/-- Calls a native function: counts its arguments, then runs its routine. -/
def Native.call (host : Host) (f : Native) (args : List Value) (transcript : Transcript) :
    Except Cause Value × Transcript :=
  if f.arity.accepts args.length then
    match host.run f.id args transcript with
    | (.ok v, transcript) => (.ok v, transcript)
    | (.error message, transcript) => (.error (.host message), transcript)
  else (.error (.arity f.name f.arity args.length), transcript)

end Scriptlet
