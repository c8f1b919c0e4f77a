/-
Sessions: lines submitted one at a time. When all lines together make a program,
then each of them either is kept for the next one or completes a program of its
own, and the programs completed this way are the parts of the whole, one behind
the other. No line is ever refused: the only failures are faults of a program
that runs (`Turn.Sound`).

# What a turn starts from

Between two turns there is the text that is pending and the text of the lines
still to come, and together they make a program. `submit_cases` is the one step:
it cuts that text behind the next line (`Interpreter.parse_append`).
-/
import Scriptlet.Prompt
import Scriptlet.Proofs.Source.Cut

namespace Scriptlet

-- ===================================================== definitions

/-- Lines as one text, each with its line feed. -/
def Text.joined (lines : List String) : String :=
  lines.foldr (fun line rest => line ++ "\n" ++ rest) ""

/-- One line of a session: where the prompt stood, the line, and what became of
both. -/
structure Turn where
  before : Prompt
  line : String
  submission : Submission
  after : Prompt

/-- The text that a turn evaluates: what was pending and the line. -/
def Turn.source (t : Turn) : String := t.before.pending ++ t.line ++ "\n"

/-- The program that a turn completes, if it completes one. -/
def Turn.program? (t : Turn) : Option Program :=
  (Interpreter.parse t.before.interpreter.layout t.source).toOption

/-- Whether a turn reports a failure. -/
def Turn.isFailed (t : Turn) : Bool :=
  match t.submission with
  | .failed _ => true
  | _ => false

/-- Submits lines in order, as long as they get an answer within the budget. -/
def Prompt.session (budget : Nat) : Prompt → List String → List Turn
  | _, [] => []
  | p, line :: rest =>
      match p.submit budget line with
      | none => []
      | some (submission, after) => ⟨p, line, submission, after⟩ :: after.session budget rest

/-- The prompt behind some turns. -/
def Prompt.behind (p : Prompt) : List Turn → Prompt
  | [] => p
  | t :: rest => t.after.behind rest

/-- The programs that turns complete, one behind the other, each as far down as
the texts before it reach; `lines` is where the first turn begins. -/
def Turn.programs (lines : Nat) : List Turn → Program
  | [] => []
  | t :: rest =>
      match t.program? with
      | none => Turn.programs lines rest
      | some program =>
          program.moved (Position.down lines)
            ++ Turn.programs (lines + t.source.toList.count '\n') rest

/-- What a turn may be. Either its text is not complete, and then nothing happens
but that the text is kept; or its text is a program, and then the prompt answers
with the value of the program, or reports the fault that stopped it, and keeps no
text. -/
def Turn.Sound (budget : Nat) (t : Turn) : Prop :=
  (t.program? = none ∧ t.submission = .incomplete
      ∧ t.after = { interpreter := t.before.interpreter, pending := t.source })
    ∨ ∃ program, t.program? = some program ∧ t.after.pending = ""
      ∧ match t.before.interpreter.evalProgram budget program with
        | .done v i => t.submission = .evaluated v ∧ t.after.interpreter = i
        | .failed failure i => (∃ fault, failure = .fault fault)
            ∧ t.submission = .failed (failure.diagnostic.render t.source) ∧ t.after.interpreter = i
        | .exhausted => False

-- ======================================================== one turn

/-- Evaluations leave the layout alone. -/
theorem Interpreter.evalProgram_layout {i j : Interpreter} {budget : Nat} {program : Program}
    {v : Value} (h : i.evalProgram budget program = .done v j) :
    j.setup = i.setup ∧ j.layout = i.layout := by
  unfold Interpreter.evalProgram at h
  split at h
  · cases h
    exact ⟨rfl, rfl⟩
  · cases h
  · cases h

/-- A program that stops is stopped by a fault. -/
theorem Interpreter.evalProgram_failed {i j : Interpreter} {budget : Nat} {program : Program}
    {failure : Failure} (h : i.evalProgram budget program = .failed failure j) :
    (∃ fault, failure = .fault fault) ∧ j.setup = i.setup ∧ j.layout = i.layout := by
  unfold Interpreter.evalProgram at h
  split at h
  · cases h
  · cases h
    exact ⟨⟨_, rfl⟩, rfl, rfl⟩
  · cases h

/-- What a complete text is answered with. -/
def Prompt.answered (source : String) :
    Outcome Interpreter Failure Value → Option (Submission × Prompt)
  | .done v i => some (.evaluated v, { interpreter := i })
  | .failed failure i => some (.failed (failure.diagnostic.render source), { interpreter := i })
  | .exhausted => none

/-- A buffer that is a program is evaluated, and the buffer is empty again. -/
private theorem Prompt.submit_of_parse_eq_ok {p : Prompt} {line : String} {program : Program}
    (budget : Nat)
    (h : Interpreter.parse p.interpreter.layout (p.pending ++ line ++ "\n") = .ok program) :
    p.submit budget line
      = Prompt.answered (p.pending ++ line ++ "\n") (p.interpreter.evalProgram budget program) := by
  unfold Prompt.submit Interpreter.evalSource
  dsimp only
  rw [h]
  dsimp only
  cases heval : p.interpreter.evalProgram budget program with
  | done v i => rfl
  | exhausted => rfl
  | failed failure i =>
    obtain ⟨⟨fault, rfl⟩, -⟩ := Interpreter.evalProgram_failed heval
    rfl

/-- A buffer that ends too early is kept. -/
private theorem Prompt.submit_of_isIncomplete {p : Prompt} {line : String} {failure : Failure}
    (budget : Nat)
    (h : Interpreter.parse p.interpreter.layout (p.pending ++ line ++ "\n") = .error failure)
    (hincomplete : failure.isIncomplete = true) :
    p.submit budget line
      = some (.incomplete,
          { interpreter := p.interpreter, pending := p.pending ++ line ++ "\n" }) := by
  unfold Prompt.submit Interpreter.evalSource
  dsimp only
  rw [h]
  dsimp only
  rw [if_pos hincomplete]

/-- The text of a turn ends with the line feed of its line. -/
theorem endsLine_line (pending line : String) : EndsLine (pending ++ line ++ "\n").toList := by
  simp [EndsLine]

/-- A line of a text that makes a program: the text up to it lacks its end, and
is kept, or both parts of the text are programs. -/
theorem Prompt.submit_cases {p : Prompt} {line : String} {rest : List String} {whole : Program}
    (budget : Nat)
    (h : Interpreter.parse p.interpreter.layout (p.pending ++ Text.joined (line :: rest))
      = .ok whole) :
    (∃ e, Interpreter.parse p.interpreter.layout (p.pending ++ line ++ "\n") = .error e
        ∧ p.submit budget line = some (.incomplete,
          { interpreter := p.interpreter, pending := p.pending ++ line ++ "\n" }))
      ∨ ∃ first second,
        Interpreter.parse p.interpreter.layout (p.pending ++ line ++ "\n") = .ok first
        ∧ Interpreter.parse p.interpreter.layout (Text.joined rest) = .ok second
        ∧ whole = first ++ Program.moved
            (Position.down ((p.pending ++ line ++ "\n").toList.count '\n')) second
        ∧ p.submit budget line
          = Prompt.answered (p.pending ++ line ++ "\n")
              (p.interpreter.evalProgram budget first) := by
  have hsource : p.pending ++ Text.joined (line :: rest)
      = (p.pending ++ line ++ "\n") ++ Text.joined rest := by
    simp [Text.joined, String.append_assoc]
  rw [hsource] at h
  rcases Interpreter.parse_append (.inr (endsLine_line p.pending line)) h with
    ⟨e, he, hincomplete⟩ | ⟨first, second, hfirst, hsecond, hwhole⟩
  · exact .inl ⟨e, he, Prompt.submit_of_isIncomplete budget he hincomplete⟩
  · exact .inr ⟨first, second, hfirst, hsecond, hwhole,
      Prompt.submit_of_parse_eq_ok budget hfirst⟩

-- ======================================================= all turns

/-- The empty text is the empty program. -/
theorem Interpreter.parse_empty (layout : Layout) : Interpreter.parse layout "" = .ok [] := by
  rw [Interpreter.parse_eq, Lexer.run_of_rest_eq_nil rfl]
  rfl

/-- Nothing is pending, or a text that is no program yet. -/
def Prompt.Waiting (p : Prompt) : Prop :=
  p.pending = "" ∨ ∃ e, Interpreter.parse p.interpreter.layout p.pending = .error e

/-- Once no line is left, nothing is pending. -/
theorem Prompt.Waiting.pending_eq {p : Prompt} (h : p.Waiting) {whole : Program}
    (hwhole : Interpreter.parse p.interpreter.layout (p.pending ++ Text.joined []) = .ok whole) :
    p.pending = "" ∧ whole = [] := by
  have hjoined : p.pending ++ Text.joined [] = p.pending := String.append_empty
  rw [hjoined] at hwhole
  rcases h with hempty | ⟨e, he⟩
  · rw [hempty, Interpreter.parse_empty] at hwhole
    cases hwhole
    exact ⟨hempty, rfl⟩
  · rw [he] at hwhole
    cases hwhole

/-- How a session goes on lines that make the program `whole` together with what
is pending: the prompt, the lines, the program and the turns. -/
inductive Session (budget : Nat) : Prompt → List String → Program → List Turn → Prop where
  | ended {p : Prompt} (empty : p.pending = "") : Session budget p [] [] []
  | incomplete {p : Prompt} {line : String} {rest : List String} {whole : Program}
      {turns : List Turn} {failure : Failure}
      (refused : Interpreter.parse p.interpreter.layout (p.pending ++ line ++ "\n")
        = .error failure)
      (next : Session budget
        { interpreter := p.interpreter, pending := p.pending ++ line ++ "\n" } rest whole turns) :
      Session budget p (line :: rest) whole
        (⟨p, line, .incomplete, p.interpreter, p.pending ++ line ++ "\n"⟩ :: turns)
  | evaluated {p : Prompt} {line : String} {rest : List String} {first second : Program}
      {turns : List Turn} {v : Value} {i : Interpreter}
      (parsed : Interpreter.parse p.interpreter.layout (p.pending ++ line ++ "\n") = .ok first)
      (ran : p.interpreter.evalProgram budget first = .done v i)
      (next : Session budget { interpreter := i } rest second turns) :
      Session budget p (line :: rest)
        (first ++ second.moved
          (Position.down ((p.pending ++ line ++ "\n").toList.count '\n')))
        (⟨p, line, .evaluated v, { interpreter := i }⟩ :: turns)
  | failed {p : Prompt} {line : String} {rest : List String} {first second : Program}
      {turns : List Turn} {fault : Fault} {i : Interpreter}
      (parsed : Interpreter.parse p.interpreter.layout (p.pending ++ line ++ "\n") = .ok first)
      (ran : p.interpreter.evalProgram budget first = .failed (.fault fault) i)
      (next : Session budget { interpreter := i } rest second turns) :
      Session budget p (line :: rest)
        (first ++ second.moved
          (Position.down ((p.pending ++ line ++ "\n").toList.count '\n')))
        (⟨p, line,
          .failed ((Failure.fault fault).diagnostic.render (p.pending ++ line ++ "\n")),
          { interpreter := i }⟩ :: turns)
  | exhausted {p : Prompt} {line : String} {rest : List String} {first second : Program}
      (parsed : Interpreter.parse p.interpreter.layout (p.pending ++ line ++ "\n") = .ok first)
      (ran : p.interpreter.evalProgram budget first = .exhausted) :
      Session budget p (line :: rest)
        (first ++ second.moved
          (Position.down ((p.pending ++ line ++ "\n").toList.count '\n'))) []

/-- Lines that make a program together are answered in one of these ways. -/
theorem Prompt.session_spec (budget : Nat) (lines : List String) {p : Prompt} {whole : Program}
    (hwaiting : p.Waiting)
    (h : Interpreter.parse p.interpreter.layout (p.pending ++ Text.joined lines) = .ok whole) :
    Session budget p lines whole (p.session budget lines) := by
  induction lines generalizing p whole with
  | nil =>
    obtain ⟨hempty, rfl⟩ := hwaiting.pending_eq h
    exact .ended hempty
  | cons line rest ih =>
    unfold Prompt.session
    rcases Prompt.submit_cases budget h with
      ⟨e, he, hsubmit⟩ | ⟨first, second, hfirst, hsecond, rfl, hsubmit⟩
    · have hrest : Interpreter.parse p.interpreter.layout
          (p.pending ++ line ++ "\n" ++ Text.joined rest) = .ok whole := by
        rw [← h]
        simp [Text.joined, String.append_assoc]
      rw [hsubmit]
      exact .incomplete he (ih (.inr ⟨e, he⟩) hrest)
    · rw [hsubmit]
      rw [← String.empty_append (s := Text.joined rest)] at hsecond
      cases heval : p.interpreter.evalProgram budget first with
      | exhausted => exact .exhausted hfirst heval
      | done v i =>
        rw [← (Interpreter.evalProgram_layout heval).2] at hsecond
        exact .evaluated hfirst heval (ih (.inl rfl) hsecond)
      | failed failure i =>
        obtain ⟨⟨fault, rfl⟩, -, hlayout⟩ := Interpreter.evalProgram_failed heval
        rw [← hlayout] at hsecond
        exact .failed hfirst heval (ih (.inl rfl) hsecond)

namespace Session

variable {budget : Nat} {p : Prompt} {lines : List String} {whole : Program} {turns : List Turn}

/-- By induction on the session: in each turn the prompt has what the earlier ones
left. -/
theorem sound (h : Session budget p lines whole turns) : ∀ t ∈ turns, t.Sound budget := by
  induction h with
  | ended empty => exact fun _ ht => nomatch ht
  | exhausted parsed ran => exact fun _ ht => nomatch ht
  | incomplete refused next ih =>
    refine List.forall_mem_cons.2 ⟨.inl ⟨?_, rfl, rfl⟩, ih⟩
    rw [Turn.program?, Turn.source, refused]
    rfl
  | @evaluated p line rest first second turns v i parsed ran next ih =>
    refine List.forall_mem_cons.2 ⟨.inr ⟨first, ?_, rfl, ?_⟩, ih⟩
    · rw [Turn.program?, Turn.source, parsed]
      rfl
    · rw [ran]
      exact ⟨rfl, rfl⟩
  | @failed p line rest first second turns fault i parsed ran next ih =>
    refine List.forall_mem_cons.2 ⟨.inr ⟨first, ?_, rfl, ?_⟩, ih⟩
    · rw [Turn.program?, Turn.source, parsed]
      rfl
    · rw [ran]
      exact ⟨⟨_, rfl⟩, rfl, rfl⟩

end Session

private theorem Position.down_comp (first second : Nat) :
    Position.down first ∘ Position.down second = Position.down (first + second) := by
  funext pos
  refine congrArg (Position.mk · pos.column) ?_
  show pos.line + second + first = pos.line + (first + second)
  rw [Nat.add_assoc, Nat.add_comm second]

namespace Session

variable {budget : Nat} {p : Prompt} {lines : List String} {whole : Program} {turns : List Turn}

/-- The programs that the turns complete are a beginning of the whole, and all of
it if every line got an answer. -/
theorem programs (h : Session budget p lines whole turns) (above : Nat) :
    Turn.programs above turns <+: whole.moved (Position.down above)
      ∧ (turns.length = lines.length →
        Turn.programs above turns = whole.moved (Position.down above)) := by
  have hmoved (first second : Program) (count above : Nat) :
      Program.moved (Position.down above) (first ++ second.moved (Position.down count))
        = first.moved (Position.down above) ++ second.moved (Position.down (above + count)) := by
    rw [← Position.down_comp, ← Program.moved_moved]
    simp only [Program.moved, Stmt.movedBody_eq_map, List.map_append]
  induction h generalizing above with
  | ended empty => exact ⟨List.prefix_rfl, fun _ => rfl⟩
  | exhausted parsed ran =>
    exact ⟨List.nil_prefix, fun hlength => nomatch hlength⟩
  | @incomplete p line rest whole turns failure refused next ih =>
    have hprograms : Turn.programs above
        (⟨p, line, .incomplete, p.interpreter, p.pending ++ line ++ "\n"⟩ :: turns)
          = Turn.programs above turns := by
      rw [Turn.programs, Turn.program?, Turn.source, refused]
      rfl
    rw [hprograms]
    exact ⟨(ih above).1, fun hlength => (ih above).2 (Nat.succ.inj hlength)⟩
  | @evaluated p line rest first second turns v i parsed ran next ih =>
    rw [Turn.programs, Turn.program?, Turn.source, parsed, hmoved]
    obtain ⟨hbeginning, heq⟩ := ih (above + (p.pending ++ line ++ "\n").toList.count '\n')
    refine ⟨(List.prefix_append_right_inj _).2 hbeginning, fun hlength => ?_⟩
    exact congrArg _ (heq (Nat.succ.inj hlength))
  | @failed p line rest first second turns fault i parsed ran next ih =>
    rw [Turn.programs, Turn.program?, Turn.source, parsed, hmoved]
    obtain ⟨hbeginning, heq⟩ := ih (above + (p.pending ++ line ++ "\n").toList.count '\n')
    refine ⟨(List.prefix_append_right_inj _).2 hbeginning, fun hlength => ?_⟩
    exact congrArg _ (heq (Nat.succ.inj hlength))

end Session

end Scriptlet
