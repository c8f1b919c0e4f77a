/-
Positions carry no meaning. A source may be laid out anew, its lines broken and
indented elsewhere, as long as the tokens stay: the grammar reads the same program
from them, or refuses it with the same words, and programs that are the same without
their positions do the same.

# Both sides without their positions

Two runs are never compared step by step here. Each is compared with the run where all
positions are sent to the start: reading moved tokens gives the moved program
(`Parser.program_moved`), and running a moved program on a moved machine gives the moved
outcome (`Program.run_moved`). What two token lists or two programs have in common is
that these moved ones are equal.
-/
import Scriptlet.Proofs.Prompt.Batch
import Scriptlet.Proofs.Source.Layout

namespace Scriptlet

-- ======================================================== reading

/-- What a token is, wherever it stands. -/
def Token.spelling (t : Token) : Token.Kind × String := (t.kind, t.lexeme)

/-- The spelling is all there is to a token but its position. -/
theorem moved_forget_of_spelling {tokens tokens' : List Token}
    (h : tokens.map Token.spelling = tokens'.map Token.spelling) :
    tokens.map (Token.moved .forget) = tokens'.map (Token.moved .forget) := by
  have hmoved (ts : List Token) : ts.map (Token.moved .forget)
      = (ts.map Token.spelling).map fun s => ⟨s.1, s.2, .start⟩ := by
    rw [List.map_map]
    rfl
  rw [hmoved, hmoved, h]

/-- The program that tokens spell is, without its positions, the one that they spell
without theirs. -/
theorem Program.ofTokens_unplaced (tokens : List Token) :
    Parser.program .start
        (((unindented tokens).map (Token.moved .forget)).takeWhile fun t => t.kind ≠ .eof)
      = match Program.ofTokens tokens with
        | .ok program => .ok program.unplaced
        | .error e => .error (e.moved .forget) := by
  rw [List.takeWhile_map]
  exact Parser.program_moved .forget (endPosition (unindented tokens))
    ((unindented tokens).takeWhile fun t => t.kind ≠ .eof)

/-- Tokens with the same spelling, up to the marks of indentation, make programs that are
the same up to positions, or are refused with the same expectation and the same find. -/
theorem Program.ofTokens_respelled {tokens tokens' : List Token}
    (h : (unindented tokens).map Token.spelling = (unindented tokens').map Token.spelling) :
    match Program.ofTokens tokens, Program.ofTokens tokens' with
    | .ok program, .ok program' => program.unplaced = program'.unplaced
    | .error e, .error e' => e.expected = e'.expected ∧ e.found.text = e'.found.text
    | _, _ => False := by
  have hfirst := Program.ofTokens_unplaced tokens
  have hsecond := Program.ofTokens_unplaced tokens'
  rw [moved_forget_of_spelling h, hsecond] at hfirst
  have hfound (e : ParseError) : (e.moved .forget).found.text = e.found.text := by
    obtain ⟨expected, found, pos⟩ := e
    cases found <;> rfl
  cases hp : Program.ofTokens tokens with
  | ok program =>
    cases hp' : Program.ofTokens tokens' with
    | ok program' =>
      rw [hp, hp'] at hfirst
      exact (Except.ok.inj hfirst).symm
    | error e' =>
      rw [hp, hp'] at hfirst
      cases hfirst
  | error e =>
    cases hp' : Program.ofTokens tokens' with
    | ok program' =>
      rw [hp, hp'] at hfirst
      cases hfirst
    | error e' =>
      rw [hp, hp'] at hfirst
      have hmoved : e'.moved .forget = e.moved .forget := Except.error.inj hfirst
      have hexpected : (e'.moved .forget).expected = (e.moved .forget).expected :=
        congrArg ParseError.expected hmoved
      refine ⟨hexpected.symm, ?_⟩
      rw [← hfound e, ← hfound e', hmoved]

-- ======================================================== running

namespace Interpreter

/-- The interpreter without the positions in the functions that it holds. -/
def unplaced (i : Interpreter) : Interpreter :=
  { i with machine := i.machine.moved .forget }

/-- Two evaluations come to the same: to values that are equal up to the positions in
functions, or to faults of the same kind and wording, or both to no end within the
budget; and they leave states that are equal up to such positions, what has been written
included. -/
def SameOutcome : Outcome Interpreter Failure Value → Outcome Interpreter Failure Value → Prop
  | .done v j, .done v' j' => v.moved .forget = v'.moved .forget ∧ j.unplaced = j'.unplaced
  | .failed e j, .failed e' j' =>
      e.kind = e'.kind ∧ e.message = e'.message ∧ j.unplaced = j'.unplaced
  | .exhausted, .exhausted => True
  | _, _ => False

/-- Evaluations of programs that are equal up to positions, in states that are, come to
the same. -/
theorem evalProgram_sameOutcome {i i' : Interpreter} (hstate : i.unplaced = i'.unplaced)
    (hhost : i.setup.host.Blind .forget) {program program' : Program}
    (hprogram : program.unplaced = program'.unplaced) (budget : Nat) :
    SameOutcome (i.evalProgram budget program) (i'.evalProgram budget program') := by
  obtain ⟨setup, layout, m⟩ := i
  obtain ⟨setup', layout', m'⟩ := i'
  injection hstate with hsetup hlayout hmachine
  subst hsetup hlayout
  have hruns : (program.run setup budget m).moved .forget (Value.moved .forget)
      = (program'.run setup budget m').moved .forget (Value.moved .forget) := by
    rw [← Program.run_moved hhost, ← Program.run_moved hhost, hmachine]
    exact congrArg (fun p => Program.run setup budget p _) hprogram
  have hstates {n n' : Machine} (h : n.moved .forget = n'.moved .forget) :
      unplaced ⟨setup, layout, n⟩ = unplaced ⟨setup, layout, n'⟩ :=
    congrArg (Interpreter.mk setup layout) h
  have hsame := Outcome.resembles_of_moved_eq hruns
  unfold evalProgram
  generalize program.run setup budget m = outcome at hsame ⊢
  generalize program'.run setup budget m' = outcome' at hsame ⊢
  cases hsame with
  | done result state => exact ⟨result, hstates state⟩
  | @failed fault fault' _ _ same state =>
    have hcause := congrArg Fault.cause same
    have hkind : fault.cause.kind = fault'.cause.kind := congrArg Cause.kind hcause
    exact ⟨congrArg Diagnostic.Kind.runtime hkind, congrArg Cause.message hcause, hstates state⟩
  | exhausted => trivial

/-- Positions carry no meaning. Tokens that agree in kind and lexeme, up to the marks of
indentation, make programs that are equal up to positions, or are refused with the same
expectation and the same find. And programs that are equal up to positions come to the
same with every budget, in states that are equal up to the positions in functions, if the
host does not look at positions either. -/
theorem evalProgram_reformatted :
    (∀ tokens tokens' : List Token,
      (unindented tokens).map Token.spelling = (unindented tokens').map Token.spelling →
      match Program.ofTokens tokens, Program.ofTokens tokens' with
      | .ok program, .ok program' => program.unplaced = program'.unplaced
      | .error e, .error e' => e.expected = e'.expected ∧ e.found.text = e'.found.text
      | _, _ => False)
    ∧ ∀ (i i' : Interpreter) (program program' : Program), i.setup.host.Blind .forget →
      i.unplaced = i'.unplaced → program.unplaced = program'.unplaced →
      ∀ budget, SameOutcome (i.evalProgram budget program) (i'.evalProgram budget program') :=
  ⟨fun _ _ => Program.ofTokens_respelled,
    fun _ _ _ _ hhost hstate hprogram => evalProgram_sameOutcome hstate hhost hprogram⟩

/-- A source that is not refused has a program, and to evaluate it is to run that. -/
theorem exists_program (i : Interpreter) (source : String)
    (h : (parse i.layout source).toOption.isSome = true) :
    ∃ tokens program, tokenize i.layout source = .ok tokens
      ∧ Program.ofTokens tokens = .ok program
      ∧ ∀ budget, i.evalSource budget source = i.evalProgram budget program := by
  unfold evalSource
  unfold parse at h ⊢
  cases htokens : tokenize i.layout source with
  | error e =>
    rw [htokens] at h
    cases h
  | ok tokens =>
    cases hprogram : Program.ofTokens tokens with
    | error e =>
      rw [htokens] at h
      dsimp only at h
      rw [hprogram] at h
      cases h
    | ok program =>
      dsimp only
      exact ⟨tokens, program, rfl, hprogram, fun budget => by rw [hprogram]⟩

/-- A source that fails inside a function that it keeps. -/
def tidy : String := "def f() => x\nf()"

/-- The same source, laid out without care. -/
def untidy : String := "def f( )  =>  x\n  f()"

/-- The two layouts of the source fail with the same words at different places, and leave
the same state up to the positions in `f`. -/
theorem evalProgram_reformatted_untidy :
    ∃ tokens tokens' program program', tokenize {} tidy = .ok tokens
      ∧ tokenize {} untidy = .ok tokens'
      ∧ (unindented tokens).map Token.spelling = (unindented tokens').map Token.spelling
      ∧ Program.ofTokens tokens = .ok program ∧ Program.ofTokens tokens' = .ok program'
      ∧ ((start Prelude.host 200 {}).evalProgram 20 program).error?.map Failure.pos
        = some ⟨1, 12⟩
      ∧ ((start Prelude.host 200 {}).evalProgram 20 program').error?.map Failure.pos
        = some ⟨1, 15⟩
      ∧ SameOutcome ((start Prelude.host 200 {}).evalProgram 20 program)
        ((start Prelude.host 200 {}).evalProgram 20 program') := by
  have hspelling : (tokenize {} tidy).toOption.map (fun ts => (unindented ts).map Token.spelling)
      = (tokenize {} untidy).toOption.map fun ts => (unindented ts).map Token.spelling := by
    decide +kernel
  have hpos : ((start Prelude.host 200 {}).evalSource 20 tidy).error?.map Failure.pos
        = some ⟨1, 12⟩
      ∧ ((start Prelude.host 200 {}).evalSource 20 untidy).error?.map Failure.pos
        = some ⟨1, 15⟩ := by
    decide +kernel
  obtain ⟨tokens, program, htokens, hprogram, heval⟩ :=
    exists_program (start Prelude.host 200 {}) tidy (by decide +kernel)
  obtain ⟨tokens', program', htokens', hprogram', heval'⟩ :=
    exists_program (start Prelude.host 200 {}) untidy (by decide +kernel)
  rw [heval, heval'] at hpos
  have hagree : (unindented tokens).map Token.spelling
      = (unindented tokens').map Token.spelling := by
    rw [show tokenize {} tidy = _ from htokens, show tokenize {} untidy = _ from htokens']
      at hspelling
    exact Option.some.inj hspelling
  have hsame := evalProgram_reformatted.1 tokens tokens' hagree
  rw [hprogram, hprogram'] at hsame
  exact ⟨tokens, tokens', program, program', htokens, htokens', hagree, hprogram, hprogram',
    hpos.1, hpos.2,
    evalProgram_reformatted.2 _ _ program program' (Prelude.host_blind _) rfl hsame 20⟩

end Interpreter

end Scriptlet
