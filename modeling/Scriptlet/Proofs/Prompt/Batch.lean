/-
A session and the evaluation of its lines as one text come to the same. The
machine that evaluated the whole text at once and the one that answered line by
line differ only in the positions inside their functions, because the programs
of the session start counting their lines anew (`Machine.Agrees`).

# Why the parts add up

Statements of a program run one after the other in the outermost frame, and a
statement that ends normally leaves the machine in that frame and outside all
calls (`Machine.level_kept`). So to begin a new program between two statements
changes nothing. The positions do not matter for what is computed
(`Program.results_moved`), so the parts of the whole text can stand for the
programs of the session.
-/
import Scriptlet.Proofs.Eval.Keeps
import Scriptlet.Proofs.Moved.Eval
import Scriptlet.Proofs.Prompt.Session

namespace Scriptlet

/-- The move that forgets where things stand. -/
abbrev Position.forget : Position → Position := fun _ => .start

/-- Two machines hold the same, up to the positions inside functions, and have
written the same. -/
structure Machine.Agrees (m m' : Machine) : Prop where
  heap : m.heap.moved .forget = m'.heap.moved .forget
  fresh : m.fresh = m'.fresh
  transcript : m.transcript = m'.transcript

-- ========================================================= effects

/-- An outcome without its result. -/
def Outcome.effect {σ ε α : Type} : Outcome σ ε α → Outcome σ ε Unit
  | .done _ s => .done () s
  | .failed e s => .failed e s
  | .exhausted => .exhausted

namespace Program

/-- The statements of a program run one after the other. -/
theorem results_append (exec : Stmt → Run Flow) (first second : Program) (last : Value) :
    results exec (first ++ second) last = results exec first last >>= results exec second := by
  induction first generalizing last with
  | nil => rfl
  | cons s rest ih =>
    funext m
    show Run.bind (exec s) _ m = Run.bind (Run.bind (exec s) _) _ m
    unfold Run.bind
    cases exec s m with
    | failed fault m' => rfl
    | exhausted => rfl
    | done flow m' =>
      cases flow with
      | normal v => exact congrFun (ih _) m'
      | return_ v => rfl
      | break_ => rfl
      | continue_ => rfl

/-- The result that a program starts with has no part in what it does. -/
theorem results_effect (exec : Stmt → Run Flow) (program : Program) (last last' : Value)
    (m : Machine) :
    (results exec program last m).effect = (results exec program last' m).effect := by
  induction program generalizing last last' m with
  | nil => rfl
  | cons s rest ih =>
    show (Run.bind (exec s) _ m).effect = (Run.bind (exec s) _ m).effect
    unfold Run.bind
    cases exec s m with
    | failed fault m' => rfl
    | exhausted => rfl
    | done flow m' =>
      cases flow with
      | normal v => exact ih _ _ m'
      | return_ v => rfl
      | break_ => rfl
      | continue_ => rfl

/-- Programs that differ only in positions do the same to machines that do. -/
theorem results_agree {setup : Setup} (hhost : setup.host.Blind .forget) (budget : Nat)
    {program program' : Program} (hprogram : program.unplaced = program'.unplaced)
    {m m' : Machine} (hm : m.moved .forget = m'.moved .forget) (last last' : Value) :
    (results (Stmt.exec setup budget) program last m).moved .forget (fun _ => ())
      = (results (Stmt.exec setup budget) program' last' m').moved .forget fun _ => () := by
  have heffect (outcome : Outcome Machine Fault Value) : outcome.moved .forget (fun _ => ())
      = (outcome.moved .forget (Value.moved .forget)).effect := by
    cases outcome <;> rfl
  rw [heffect, heffect, ← results_moved hhost, ← results_moved hhost, ← hm]
  show (results _ program.unplaced _ _).effect = (results _ program'.unplaced _ _).effect
  rw [← hprogram]
  exact results_effect _ _ _ _ _

end Program

-- ======================================================= agreement

/-- How the turns on some lines agree with a run of their program. If the run
succeeds, every line got an answer, none of them is a failure, nothing is left
pending, and the machines agree. If it is stopped by a fault, the first failure
among the answers reports the same cause, and the machines agree there. If it
has no end within the budget, neither has the session. -/
def Turn.AgreeWith (p : Prompt) (lines : List String) (turns : List Turn) :
    Outcome Machine Fault Value → Prop
  | .done _ m => turns.length = lines.length ∧ (∀ t ∈ turns, t.isFailed = false)
      ∧ (p.behind turns).pending = "" ∧ (p.behind turns).interpreter.machine.Agrees m
  | .failed fault m => ∃ before t after fault', turns = before ++ t :: after
      ∧ (∀ t ∈ before, t.isFailed = false)
      ∧ t.submission = .failed ((Failure.fault fault').diagnostic.render t.source)
      ∧ fault'.cause = fault.cause ∧ t.after.interpreter.machine.Agrees m
  | .exhausted => turns.length < lines.length ∧ ∀ t ∈ turns, t.isFailed = false

/-- A turn that is no failure before the others. -/
theorem Turn.AgreeWith.cons {p : Prompt} {line : String} {lines : List String} {t : Turn}
    {turns : List Turn} {outcome : Outcome Machine Fault Value} (ht : t.isFailed = false)
    (h : Turn.AgreeWith t.after lines turns outcome) :
    Turn.AgreeWith p (line :: lines) (t :: turns) outcome := by
  cases outcome with
  | done v m =>
    obtain ⟨hlength, hfailed, hpending, hm⟩ := h
    exact ⟨congrArg Nat.succ hlength, List.forall_mem_cons.2 ⟨ht, hfailed⟩, hpending, hm⟩
  | failed fault m =>
    obtain ⟨before, t', after, fault', rfl, hfailed, hreport, hcause, hm⟩ := h
    exact ⟨t :: before, t', after, fault', rfl, List.forall_mem_cons.2 ⟨ht, hfailed⟩, hreport,
      hcause, hm⟩
  | exhausted => exact ⟨Nat.succ_lt_succ h.1, List.forall_mem_cons.2 ⟨ht, h.2⟩⟩

/-- At the outermost frame and outside all calls, machines that agree are the
same without their positions. -/
theorem Machine.Agrees.moved_eq {m m' : Machine} (h : m.Agrees m')
    (hlevel : m'.scope = Machine.root ∧ m'.depth = 0) :
    Machine.moved .forget { m with scope := Machine.root, depth := 0 } = m'.moved .forget := by
  obtain ⟨heap, scope, depth, fresh, transcript⟩ := m'
  obtain ⟨rfl, rfl⟩ := hlevel
  simp only [Machine.moved, h.heap, h.fresh, h.transcript]

private theorem Machine.agrees_of_moved_eq {m m' : Machine}
    (h : m.moved .forget = m'.moved .forget) :
    m.Agrees m' := by
  obtain ⟨heap, scope, depth, fresh, transcript⟩ := m
  obtain ⟨heap', scope', depth', fresh', transcript'⟩ := m'
  injection h with hheap _ _ hfresh htranscript
  exact ⟨hheap, hfresh, htranscript⟩

/-- What comes of a program in its turn comes of the same program inside the whole, up to
positions. -/
theorem Interpreter.evalProgram_agrees {i : Interpreter} (budget : Nat) {first part : Program}
    (hhost : i.setup.host.Blind .forget) (hpart : part.unplaced = first.unplaced) {m : Machine}
    (hm : i.machine.Agrees m) (hlevel : m.scope = Machine.root ∧ m.depth = 0) (last : Value) :
    match i.evalProgram budget first with
    | .done _ j => ∃ v m', Program.results (Stmt.exec i.setup budget) part last m = .done v m'
        ∧ j.machine.Agrees m' ∧ m'.scope = Machine.root ∧ m'.depth = 0
    | .failed (.fault fault) j => ∃ fault' m',
        Program.results (Stmt.exec i.setup budget) part last m = .failed fault' m'
          ∧ fault.cause = fault'.cause ∧ j.machine.Agrees m'
    | .failed _ _ => False
    | .exhausted => Program.results (Stmt.exec i.setup budget) part last m = .exhausted := by
  have hsame := Outcome.resembles_of_moved_eq
    (Program.results_agree hhost budget hpart.symm (hm.moved_eq hlevel) .nil last)
  have hkeeps := Program.results_keeps Machine.level_kept i.setup budget part last m
  unfold evalProgram Program.run
  generalize Program.results (Stmt.exec i.setup budget) first .nil _ = turn at hsame ⊢
  generalize Program.results (Stmt.exec i.setup budget) part last m = inside at hsame hkeeps ⊢
  cases hsame with
  | done _ state =>
    exact ⟨_, _, rfl, Machine.agrees_of_moved_eq state, hkeeps.1.trans hlevel.1,
      hkeeps.2.trans hlevel.2⟩
  | failed same state =>
    have hcause := congrArg Fault.cause same
    exact ⟨_, _, rfl, hcause, Machine.agrees_of_moved_eq state⟩
  | exhausted => rfl

/-- A program that is the same without its positions as two put together can be
cut in two. -/
theorem Program.unplaced_eq_append {program first second : Program} {f : Position → Position}
    (h : program.unplaced = Program.unplaced (first ++ second.moved f)) :
    ∃ part rest, program = part ++ rest ∧ part.unplaced = first.unplaced
      ∧ rest.unplaced = second.unplaced := by
  rw [← Program.unplaced_moved f second]
  simp only [Program.unplaced, Program.moved, Stmt.movedBody_eq_map, List.map_append] at h ⊢
  exact List.map_eq_append_iff.1 h

/-- By induction on the session. In every turn the part of the program that the buffer
holds is run on a machine that agrees with the one the whole has come to. -/
private theorem Session.agrees {budget : Nat} {p : Prompt} {lines : List String} {whole : Program}
    {turns : List Turn} (h : Session budget p lines whole turns)
    (hhost : p.interpreter.setup.host.Blind .forget) {program : Program}
    (hprogram : program.unplaced = whole.unplaced) {m : Machine}
    (hm : p.interpreter.machine.Agrees m) (hlevel : m.scope = Machine.root ∧ m.depth = 0)
    (last : Value) :
    Turn.AgreeWith p lines turns
      (Program.results (Stmt.exec p.interpreter.setup budget) program last m) := by
  induction h generalizing program m last with
  | ended empty =>
    have hnil : program = [] := by
      simpa [Program.unplaced, Program.moved] using hprogram
    rw [hnil]
    exact ⟨rfl, (fun _ ht => nomatch ht), empty, hm⟩
  | incomplete refused next ih => exact .cons rfl (ih hhost hprogram hm hlevel last)
  | @evaluated p line rest first second turns v i parsed ran next ih =>
    -- the program so far starts with the statements of this submission
    obtain ⟨part, others, rfl, hpart, hothers⟩ := Program.unplaced_eq_append hprogram
    have hfirst := Interpreter.evalProgram_agrees budget hhost hpart hm hlevel last
    rw [ran] at hfirst
    obtain ⟨v', m', hrun, hagrees, hlevel'⟩ := hfirst
    have hsetup := (Interpreter.evalProgram_layout ran).1
    have hrest := ih (hsetup ▸ hhost) hothers hagrees hlevel' v'
    rw [show (Prompt.mk i "").interpreter.setup = p.interpreter.setup from hsetup] at hrest
    rw [Program.results_append, Run.bind_of_done hrun]
    exact .cons rfl hrest
  | @failed p line rest first second turns fault i parsed ran next ih =>
    obtain ⟨part, others, rfl, hpart, hothers⟩ := Program.unplaced_eq_append hprogram
    have hfirst := Interpreter.evalProgram_agrees budget hhost hpart hm hlevel last
    rw [ran] at hfirst
    obtain ⟨fault', m', hrun, hcause, hagrees⟩ := hfirst
    -- the whole program stops here too, and never sees the later statements
    rw [Program.results_append, Run.bind_of_failed hrun]
    exact ⟨[], _, turns, fault, rfl, (fun _ ht => nomatch ht), rfl, hcause, hagrees⟩
  | @exhausted p line rest first second parsed ran =>
    obtain ⟨part, others, rfl, hpart, hothers⟩ := Program.unplaced_eq_append hprogram
    have hfirst := Interpreter.evalProgram_agrees budget hhost hpart hm hlevel last
    rw [ran] at hfirst
    rw [Program.results_append, Run.bind_of_exhausted hfirst]
    exact ⟨Nat.succ_pos _, fun _ ht => nomatch ht⟩

/-- How the turns on some lines agree with the evaluation of their text. -/
def Turn.AgreeWithText (i : Interpreter) (lines : List String) (turns : List Turn) :
    Outcome Interpreter Failure Value → Prop
  | .done v j => Turn.AgreeWith { interpreter := i } lines turns (.done v j.machine)
  | .failed (.fault fault) j =>
      Turn.AgreeWith { interpreter := i } lines turns (.failed fault j.machine)
  | .failed _ _ => False
  | .exhausted => Turn.AgreeWith { interpreter := i } lines turns .exhausted

/-- Lines that make a program together can be submitted one at a time, to any
interpreter whose host does not look at positions and with any budget. No turn is
refused: each keeps its text and changes nothing else, or evaluates the program
its text is (`Turn.Sound`). These programs are the whole one behind the other.
And what the turns come to is what evaluating the whole text comes to. -/
theorem Prompt.session_agrees_with_text (i : Interpreter) (budget : Nat) (lines : List String)
    {whole : Program} (hhost : i.setup.host.Blind .forget)
    (hparse : Interpreter.parse i.layout (Text.joined lines) = .ok whole) :
    (∀ t ∈ Prompt.session budget { interpreter := i } lines, t.Sound budget)
      ∧ Turn.programs 0 (Prompt.session budget { interpreter := i } lines) <+: whole
      ∧ ((Prompt.session budget { interpreter := i } lines).length = lines.length →
        Turn.programs 0 (Prompt.session budget { interpreter := i } lines) = whole)
      ∧ Turn.AgreeWithText i lines (Prompt.session budget { interpreter := i } lines)
        (i.evalSource budget (Text.joined lines)) := by
  have hpending : Interpreter.parse i.layout ("" ++ Text.joined lines) = .ok whole := by
    rw [String.empty_append, hparse]
  have hsession := Prompt.session_spec budget lines (p := { interpreter := i }) (.inl rfl) hpending
  obtain ⟨hbeginning, hall⟩ := hsession.programs 0
  have hdown : whole.moved (Position.down 0) = whole := Program.moved_id whole
  rw [hdown] at hbeginning hall
  refine ⟨hsession.sound, hbeginning, hall, ?_⟩
  have hagrees := hsession.agrees hhost rfl
    (m := { i.machine with scope := Machine.root, depth := 0 }) ⟨rfl, rfl, rfl⟩ ⟨rfl, rfl⟩ .nil
  unfold Interpreter.evalSource
  rw [hparse]
  show Turn.AgreeWithText i lines _ (i.evalProgram budget whole)
  unfold Interpreter.evalProgram Program.run
  cases hrun : Program.results (Stmt.exec i.setup budget) whole .nil
      { i.machine with scope := Machine.root, depth := 0 } with
  | done v m =>
    rw [hrun] at hagrees
    exact hagrees
  | failed fault m =>
    rw [hrun] at hagrees
    exact hagrees
  | exhausted =>
    rw [hrun] at hagrees
    exact hagrees

/-- Lines that hold a function over three of them and a call of it. -/
def Text.greeting : List String :=
  ["let greet = function(name)", "  return \"hi \" + name", "end", "println(greet(\"you\"))"]

/-- The greeting on the interpreter with the prelude: all four lines get an
answer, and their programs are the whole. -/
theorem Prompt.session_agrees_with_text_greeting :
    ∃ whole, Interpreter.parse {} (Text.joined Text.greeting) = .ok whole
      ∧ (Prompt.session 20 { interpreter := .start Prelude.host 200 {} } Text.greeting).length = 4
      ∧ Turn.programs 0
          (Prompt.session 20 { interpreter := .start Prelude.host 200 {} } Text.greeting) = whole
      ∧ Turn.AgreeWithText (.start Prelude.host 200 {}) Text.greeting
        (Prompt.session 20 { interpreter := .start Prelude.host 200 {} } Text.greeting)
        (Interpreter.evalSource (.start Prelude.host 200 {}) 20 (Text.joined Text.greeting)) := by
  have hparsed : (Interpreter.parse {} (Text.joined Text.greeting)).toOption.isSome = true := by
    decide +kernel
  have hlength : (Prompt.session 20 { interpreter := .start Prelude.host 200 {} }
      Text.greeting).length = 4 := by
    decide +kernel
  cases hparse : Interpreter.parse {} (Text.joined Text.greeting) with
  | error e =>
    rw [hparse] at hparsed
    cases hparsed
  | ok whole =>
    obtain ⟨-, -, hall, hagrees⟩ := Prompt.session_agrees_with_text (.start Prelude.host 200 {}) 20
      Text.greeting (Prelude.host_blind _) hparse
    exact ⟨whole, rfl, hlength, hall hlength, hagrees⟩

end Scriptlet
