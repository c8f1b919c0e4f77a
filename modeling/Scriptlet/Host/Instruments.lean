/-
Instruments: routines of a host that watches its scripts. They log what they
are given, fail on demand and count, so that the order and number of a script's
calls can be read off the log. They come in addition to the prelude.
-/
import Scriptlet.Host
import Scriptlet.Host.Prelude

namespace Scriptlet.Instruments

/-- Adds a line to the log. -/
def logging (line : String) (transcript : Transcript) : Transcript :=
  { transcript with logged := transcript.logged ++ [line] }

/-- Logs all its arguments on one line. -/
def emit (args : List Value) (transcript : Transcript) : Except String Value × Transcript :=
  (.ok .nil, logging (Prelude.line args) transcript)

/-- Logs its argument and tells how many lines there were before. -/
def tick (args : List Value) (transcript : Transcript) : Except String Value × Transcript :=
  (.ok (.number (Float.ofNat transcript.logged.length)),
    logging (Prelude.first args).display transcript)

/-- The product of two numbers. -/
def scale : List Value → Except String Value
  | [.number a, .number b] => .ok (.number (a * b))
  | _ => .error "scale expects numbers"

/-- The number of its arguments. -/
def count (args : List Value) : Except String Value := .ok (.number (Float.ofNat args.length))

/-- The routines of the instruments. -/
def host : Host :=
  [⟨"emit", .atLeast 0, emit⟩,
    ⟨"tick", .exact 1, tick⟩,
    .quiet "scale" (.exact 2) scale,
    .quiet "sensor" (.exact 0) fun _ => .error "sensor offline",
    .quiet "fail" (.exact 1) fun args => .error (Prelude.first args).display,
    .quiet "count" (.atLeast 2) count]

end Scriptlet.Instruments
