/-
Where the reports of a session point. A function keeps the positions of the text
that it was read from, and a session has many texts. So a fault can stand in the
text of an earlier turn than the one it is reported for, and the excerpt then shows
the wrong lines (`Prompt.session_misplaced`). It never stands anywhere else: every
fault points into the text of its turn or of one before it, and into its own as long
as no function is left from before (`Prompt.session_places`).

The invariant is `Interpreter.Standing`: all functions stand at places of the texts
so far. One turn adds its own text to them, whether it ends well or not.
-/
import Scriptlet.Proofs.Eval.Places
import Scriptlet.Proofs.Prompt.Session

namespace Scriptlet

namespace Prompt

variable {budget : Nat} {P : Position → Prop}

/-- A turn whose text has only places of some kind leaves functions that stand at such
places, if it finds no others. -/
theorem submit_standing {p after : Prompt} {line : String} {submission : Submission}
    (hp : p.interpreter.Standing P)
    (hsource : ∀ pos : Position, pos.Within (p.pending ++ line ++ "\n").toList → P pos)
    (h : p.submit budget line = some (submission, after)) : after.interpreter.Standing P := by
  have hstanding := Interpreter.evalSource_standing hp hsource budget
  unfold submit at h
  dsimp only at h
  cases heval : p.interpreter.evalSource budget (p.pending ++ line ++ "\n") with
  | exhausted =>
    rw [heval] at h
    cases h
  | done v i =>
    rw [heval] at h hstanding
    cases h
    exact hstanding
  | failed failure i =>
    rw [heval] at h hstanding
    dsimp only at h
    split at h <;>
    · cases h
      exact hstanding.1

/-- What a session is, from its first turn on. -/
theorem session_eq_cons {p : Prompt} {lines : List String} {t : Turn} {turns : List Turn}
    (h : p.session budget lines = t :: turns) :
    t.before = p ∧ p.submit budget t.line = some (t.submission, t.after)
      ∧ ∃ rest, turns = t.after.session budget rest := by
  cases lines with
  | nil => cases h
  | cons line rest =>
    unfold session at h
    split at h
    · cases h
    · rename_i submission after hsubmit
      cases h
      exact ⟨rfl, hsubmit, rest, rfl⟩

/-- What holds of the first prompt of a session, and of the prompt behind each turn if it
does of the one before, holds of the prompt of every turn; and there the line was
submitted. -/
theorem session_keeps {I : Prompt → Prop} {p : Prompt} {lines : List String}
    {before after : List Turn} {t : Turn} (hp : I p)
    (h : p.session budget lines = before ++ t :: after)
    (hkeeps : ∀ u ∈ before, I u.before →
      u.before.submit budget u.line = some (u.submission, u.after) → I u.after) :
    I t.before ∧ t.before.submit budget t.line = some (t.submission, t.after) := by
  induction before generalizing p lines with
  | nil =>
    obtain ⟨rfl, hsubmit, -⟩ := session_eq_cons h
    exact ⟨hp, hsubmit⟩
  | cons u before ih =>
    obtain ⟨rfl, hsubmit, rest, hrest⟩ := session_eq_cons h
    obtain ⟨hu, hkeeps⟩ := List.forall_mem_cons.1 hkeeps
    exact ih (hu hp hsubmit) hrest.symm hkeeps

/-- Wherever a turn of a session is stopped by a fault, the report is rendered against
the text of that turn, and the fault is at a place of that text or of one before it; of
that text itself, as long as there are no functions. -/
theorem session_places {maxDepth : Nat} {layout : Layout} {lines : List String}
    {before after : List Turn} {t : Turn} {fault : Fault} {i : Interpreter}
    (hsession : session budget { interpreter := .start Prelude.host maxDepth layout } lines
      = before ++ t :: after)
    (hfault : t.before.interpreter.evalSource budget t.source = .failed (.fault fault) i) :
    t.submission = .failed ((Failure.fault fault).diagnostic.render t.source)
      ∧ (∃ u ∈ before ++ [t], fault.pos.Within u.source.toList)
      ∧ ((∀ f, ¬ t.before.interpreter.machine.Stores f) → fault.pos.Within t.source.toList) := by
  have hstart := Interpreter.start_unscripted Prelude.host_lends maxDepth layout
  -- what the submitted texts say of their positions holds of the state at this turn
  have hturn {P : Position → Prop} (hP : ∀ u ∈ before, ∀ pos : Position,
      pos.Within u.source.toList → P pos) :=
    session_keeps (I := fun p => p.interpreter.Standing P) (hstart.standing P) hsession
      fun u hu hstanding hsubmit => submit_standing hstanding (hP u hu) hsubmit
  refine ⟨?report, ?texts, ?own⟩
  case report =>
    have hsubmit := (hturn (P := fun _ => True) fun _ _ _ _ => trivial).2
    unfold submit at hsubmit
    rw [show t.before.pending ++ t.line ++ "\n" = t.source from rfl] at hsubmit
    dsimp only at hsubmit
    rw [hfault] at hsubmit
    exact (congrArg Prod.fst (Option.some.inj hsubmit)).symm
  case texts =>
    -- the positions that stand in some text submitted so far
    let P (pos : Position) : Prop := ∃ u ∈ before ++ [t], pos.Within u.source.toList
    have hbefore : t.before.interpreter.Standing P :=
      (hturn fun u hu pos hpos => ⟨u, List.mem_append_left _ hu, hpos⟩).1
    have htext : ∀ pos : Position, pos.Within t.source.toList → P pos := fun pos hpos =>
      ⟨t, by simp, hpos⟩
    have hown := Interpreter.evalSource_standing hbefore htext budget
    rw [hfault] at hown
    exact hown.2
  case own =>
    intro hnone
    have hunscripted : t.before.interpreter.Unscripted :=
      ⟨hnone, (hturn (P := fun _ => True) fun _ _ _ _ => trivial).1.lent⟩
    obtain ⟨⟨offset, hle, hpos⟩, -⟩ := Interpreter.evalSource_within hunscripted hfault
    exact ⟨offset, hle, Option.some.inj hpos⟩

/-- A function whose body fails, on a longer line than the one that calls it. -/
def misplaced : List Turn :=
  session 20 { interpreter := .start Prelude.host 200 {} } ["function f() => nope", "f()"]

/-- The call fails where no character of its line is. -/
theorem misplaced_eq : ∃ u t fault i, misplaced = [u, t]
    ∧ t.before.interpreter.evalSource 20 t.source = .failed (.fault fault) i
    ∧ fault.pos = ⟨1, 17⟩ ∧ ¬ fault.pos.Within t.source.toList := by
  have hturns : misplaced.map
      (fun t => (t.source, (t.before.interpreter.evalSource 20 t.source).error?))
      = [("function f() => nope\n", none),
        ("f()\n", some (.fault ⟨.undefined "nope", ⟨1, 17⟩⟩))] := by
    decide +kernel
  obtain ⟨u, others, hmisplaced, -, hothers⟩ := List.map_eq_cons_iff.1 hturns
  obtain ⟨t, none, rfl, ht, hnone⟩ := List.map_eq_cons_iff.1 hothers
  obtain rfl := List.map_eq_nil_iff.1 hnone
  obtain ⟨hsource, herror⟩ := Prod.mk.inj ht
  obtain ⟨i, hfault⟩ := Outcome.eq_failed herror
  exact ⟨u, t, _, i, hmisplaced, hfault, rfl, by rw [hsource]; decide⟩

/-- A report that does not point into the text that it shows. -/
theorem session_misplaced :
    ¬ ∀ (lines : List String) (before after : List Turn) (t : Turn) (fault : Fault)
      (i : Interpreter),
      session 20 { interpreter := .start Prelude.host 200 {} } lines = before ++ t :: after →
      t.before.interpreter.evalSource 20 t.source = .failed (.fault fault) i →
        fault.pos.Within t.source.toList := by
  intro hwithin
  obtain ⟨u, t, fault, i, hturns, hfault, -, hpos⟩ := misplaced_eq
  exact hpos (hwithin _ [u] [] t fault i hturns hfault)

/-- The same report points into the text of the turn before. -/
theorem session_places_misplaced : ∃ u t fault i, misplaced = [u, t]
    ∧ t.before.interpreter.evalSource 20 t.source = .failed (.fault fault) i
    ∧ t.submission = .failed ((Failure.fault fault).diagnostic.render t.source)
    ∧ ¬ fault.pos.Within t.source.toList ∧ fault.pos.Within u.source.toList := by
  obtain ⟨u, t, fault, i, hturns, hfault, -, hpos⟩ := misplaced_eq
  have hsession : misplaced = [u] ++ t :: [] := hturns
  obtain ⟨hreport, ⟨origin, horigin, hwithin⟩, -⟩ := session_places hsession hfault
  refine ⟨u, t, fault, i, hturns, hfault, hreport, hpos, ?_⟩
  rcases List.mem_append.1 horigin with horigin | horigin
  · exact List.mem_singleton.1 horigin ▸ hwithin
  · exact absurd (List.mem_singleton.1 horigin ▸ hwithin) hpos

end Prompt

end Scriptlet
