/-
Programs that came from sources. Evaluation allows for trees that no source can spell: for
a target that is no place it has a fault, and of two parameters of one name the later wins.
Where all functions came from sources, neither is ever seen. The grammar lets only places
through as targets, and `place` goes wrong only on what is no place; and as parameters are
distinct, a call binds every argument to its own.

# Where functions come from

A function comes from a source if it stands somewhere in a program that tokens spell
(`Code.Parsed`). Such functions are told by a rule on nodes (`Code.parsed_iff`), so the
contracts of evaluation carry them along: all that evaluation makes of them, stores and
hands on are functions of that kind again.
-/
import Scriptlet.Proofs.Eval.Reach
import Scriptlet.Proofs.Grammar.Formed

namespace Scriptlet

-- ======================================================= functions

/-- A function that stands somewhere in a program that tokens spell. -/
def Code.Parsed (code : Code) : Prop :=
  ∃ tokens program, Program.ofTokens tokens = .ok program ∧ program.Contains code

/-- What holds of the nodes of such programs. -/
def Tree.Rule.parsed : Tree.Rule := Tree.Rule.formed.withCode Code.Parsed

private theorem Program.ofTokens_parsed {tokens : List Token} {program : Program}
    (h : Program.ofTokens tokens = .ok program) : program.Every .parsed := fun s hs =>
  (Tree.every_withCode .formed Code.Parsed).ofStmt s (Program.ofTokens_formed h s hs)
    fun _ hcode => ⟨tokens, program, h, s, hs, hcode⟩

/-- The functions that came from sources are those that the rule holds of throughout. -/
theorem Code.parsed_iff {code : Code} : code.Parsed ↔ code.Every .parsed := by
  refine ⟨fun h => ?_, fun h => h.here.2⟩
  obtain ⟨tokens, program, hprogram, s, hs, hcode⟩ := h
  exact Tree.every_of_contains.ofStmt s (Program.ofTokens_parsed hprogram s hs) code hcode

/-- The parameters of such a function are distinct. -/
theorem Code.Parsed.distinct {code : Code} (h : code.Parsed) :
    (code.params.map Param.name).Nodup :=
  (Code.parsed_iff.1 h).here.1

-- ======================================================= arguments

/-- Distinct parameters are bound one by one, each to its own argument. -/
theorem Eval.parameters_eq_zip {code : Code} (h : (code.params.map Param.name).Nodup)
    (args : List Value) :
    Eval.parameters code args = (code.params.map Param.name).zip args := by
  have hbound (params : List Param) (hdistinct : (params.map Param.name).Nodup)
      (args : List Value) (bound : Entries String Value)
      (hnew : ∀ p ∈ params, p.name ∉ bound.keys) :
      (params.zip args).foldl (fun bound pair => Entries.put pair.1.name pair.2 bound) bound
        = bound ++ (params.map Param.name).zip args := by
    induction params generalizing args bound with
    | nil => simp
    | cons p rest ih =>
      cases args with
      | nil => simp
      | cons arg others =>
        rw [List.map_cons, List.nodup_cons] at hdistinct
        obtain ⟨hfresh, hothers⟩ := List.forall_mem_cons.1 hnew
        have hput := Entries.put_of_not_mem arg hfresh
        have hnew' : ∀ q ∈ rest, q.name ∉ (Entries.put p.name arg bound).keys := by
          intro q hq hmem
          rw [hput, Entries.keys, List.map_append, List.mem_append] at hmem
          rcases hmem with hmem | hmem
          · exact hothers q hq hmem
          · exact hdistinct.1 (List.mem_map.2 ⟨q, hq, List.mem_singleton.1 hmem⟩)
        rw [List.zip_cons_cons, List.foldl_cons, ih hdistinct.2 _ _ hnew', hput]
        simp
  simpa [Eval.parameters] using hbound code.params h args [] (fun _ _ => List.not_mem_nil)

-- ======================================================== contract

/-- The contract that follows functions from sources: no fault is that of a target which is
no place. -/
def Contract.parsed : Contract where
  tree := .parsed
  within := Machine.Level
  across := Machine.Level
  fault fault := fault.cause ≠ .invalidTarget

namespace Contract

variable {setup : Setup} {m : Machine}

/-- The contract asks of a closure only that its code was parsed. -/
private theorem parsed_admits {frames : Nat} {f : Closure} :
    parsed.Admits frames f ↔ f.code.Parsed :=
  ⟨fun h => Code.parsed_iff.2 h.code, fun h => ⟨Code.parsed_iff.1 h, trivial⟩⟩

private theorem parsed_lawful (hlent : setup.host.Lends (·.code.Parsed)) : parsed.Lawful setup where
  refl := .refl
  trans := .trans
  widen := id
  trans' := .trans
  live_mono _ _ := trivial
  live_old _ _ _ := trivial
  live_new _ := trivial
  define _ _ _ := ⟨trivial, rfl, rfl⟩
  assign _ _ _ := ⟨trivial, rfl, rfl⟩
  enter _ _ _ := trivial
  leave _ hmoved _ := ⟨trivial, .leave hmoved⟩
  call _ _ := trivial
  return_ _ hmoved _ := ⟨trivial, .return_ hmoved⟩
  make _ := ⟨trivial, rfl, rfl⟩
  write _ _ := ⟨trivial, rfl, rfl⟩
  host frames := by
    have hadmits : parsed.Admits frames = (·.code.Parsed) :=
      funext fun f => propext parsed_admits
    rw [hadmits]
    exact hlent
  plain _ cause hplain heq := by
    rw [show cause = _ from heq] at hplain
    cases hplain
  compound _ cause hplain heq := by
    rw [show cause = _ from heq] at hplain
    cases hplain
  target hassign hplace _ := by
    -- the grammar lets only places through
    rw [hassign.1] at hplace
    cases hplace
  escape _ _ _ _ := nofun

private theorem parsed_good : parsed.Good m ↔ m.Binds (·.code.Parsed) := by
  refine ⟨fun h i frame hframe binding hbinding => ?_, fun h => ⟨trivial, trivial, ?_⟩⟩
  · exact ((h.frames i frame trivial hframe).bindings binding hbinding).mono fun _ =>
      parsed_admits.1
  · exact fun i frame _ hframe => ⟨fun _ _ => trivial, fun binding hbinding =>
      (h i frame hframe binding hbinding).mono fun _ => parsed_admits.2⟩

end Contract

-- ===================================================== evaluation

/-- Whether a text begins with a character of some kind. -/
def Text.begins (first : Char → Bool) (text : String) : Bool := text.toList.head?.any first

/-- Text put behind does not change how a text begins. -/
private theorem Text.begins_append {first : Char → Bool} {text : String}
    (h : begins first text = true)
    (rest : String) : begins first (text ++ rest) = true := by
  unfold begins at h ⊢
  rw [String.toList_append, List.head?_append]
  cases hhead : text.toList.head? with
  | none => simp [hhead] at h
  | some c => simpa [hhead] using h

/-- The fault of a target that is no place is told from all others by its kind and its
wording. -/
theorem Cause.eq_invalidTarget {cause : Cause} (hkind : cause.kind = .typeError)
    (hmessage : cause.message = "invalid assignment target") : cause = .invalidTarget := by
  have hi : Text.begins (· ≠ 'i') cause.message = false := by
    rw [hmessage]
    decide +kernel
  -- no other wording of this kind begins with the same letter
  refine Decidable.byContradiction fun hne => ?_
  refine Bool.false_ne_true (hi.symm.trans ?_)
  cases cause with
  | invalidTarget => exact absurd rfl hne
  | undefined | indexOutOfRange | keyNotFound | divisionByZero | moduloByZero | arity
  | recursionLimit | uncaught | host => cases hkind
  | nanKey => decide +kernel
  | cannotNegate | notIndexable | notAssignable | notIterable =>
    exact Text.begins_append (by decide +kernel) _
  | operands op left right | incomparable op left right =>
    iterate 5 refine Text.begins_append ?_ _
    decide +kernel
  | notBool demand found =>
    have hdemand : Text.begins (· ≠ 'i') demand.text = true := by
      rcases demand with _ | _ | _ | op | _
      · decide +kernel
      · decide +kernel
      · decide +kernel
      · exact Text.begins_append (by decide +kernel) _
      · decide +kernel
    exact Text.begins_append (Text.begins_append hdemand _) _
  | indexNotNumber what found | indexNotInteger what index =>
    have hwhat : Text.begins (· ≠ 'i') what.text = true := by cases what <;> decide +kernel
    exact Text.begins_append (Text.begins_append hwhat _) _
  | notKey found | notCallable found =>
    have hfound : Text.begins (· ≠ 'i') found.text = true := by cases found <;> decide +kernel
    exact Text.begins_append hfound _

/-- An interpreter where all functions came from sources. -/
structure Interpreter.Sourced (i : Interpreter) : Prop where
  bound : i.machine.Binds (·.code.Parsed)
  lent : i.setup.host.Lends (·.code.Parsed)

/-- However a computation ends, where all functions came from sources it leaves only such
functions and gives only such, and its fault is not that of a target which is no place. -/
def Run.KeepsSourced {α : Type} (value : α → Value) (x : Run α) : Prop :=
  ∀ m : Machine, m.Binds (·.code.Parsed) →
    match x m with
    | .done a m' => m'.Binds (·.code.Parsed) ∧ (value a).Every (·.code.Parsed)
    | .failed fault m' => m'.Binds (·.code.Parsed) ∧ fault.cause ≠ .invalidTarget
    | .exhausted => True

/-- What the contract comes to for a run: the functions in its value and in the machine it
leaves come from sources, and it has no fault at a target. -/
private theorem Run.Meets.sourced {α : Type} {R : Machine → Machine → Prop} {x : Run α}
    {Q : Nat → α → Prop} {value : α → Value} {m : Machine} (h : Meets Contract.parsed R m x Q)
    (hQ : ∀ n a, Q n a → Contract.parsed.Holds n (value a)) :
    match x m with
    | .done a m' => m'.Binds (·.code.Parsed) ∧ (value a).Every (·.code.Parsed)
    | .failed fault m' => m'.Binds (·.code.Parsed) ∧ fault.cause ≠ .invalidTarget
    | .exhausted => True := by
  cases hx : x m with
  | exhausted => trivial
  | failed fault m' =>
    obtain ⟨hstep, hfault⟩ := h.failed hx
    exact ⟨Contract.parsed_good.1 hstep.good, hfault⟩
  | done a m' =>
    obtain ⟨hstep, ha⟩ := h.done hx
    exact ⟨Contract.parsed_good.1 hstep.good,
      (hQ _ a ha).mono fun _ => Contract.parsed_admits.1⟩

section Parts

variable {setup : Setup} (hlent : setup.host.Lends (·.code.Parsed)) (budget : Nat)

include hlent

private theorem Expr.eval_sourced {e : Expr} (he : e.Every .parsed) :
    (Expr.eval setup budget e).KeepsSourced id := fun _ hm =>
  ((Eval.meets (Contract.parsed_lawful hlent) budget).expr he
    (Contract.parsed_good.2 hm)).sourced fun _ _ h => h

private theorem Stmt.exec_sourced {s : Stmt} (hs : s.Every .parsed) :
    (Stmt.exec setup budget s).KeepsSourced Flow.value := fun _ hm =>
  ((Eval.meets (Contract.parsed_lawful hlent) budget).stmt hs
    (Contract.parsed_good.2 hm)).sourced fun _ _ h => h.value

private theorem Program.results_sourced {program : Program} (hprogram : program.Every .parsed) :
    (Program.results (Stmt.exec setup budget) program .nil).KeepsSourced id := fun m hm => by
  have hC := Contract.parsed_lawful hlent
  have hlast : Contract.parsed.Holds m.heap.size .nil := Value.every_nil
  exact (Program.results_meets hC (Eval.meets hC budget).stmt hprogram (fun _ _ _ _ => nofun)
    (Contract.parsed_good.2 hm) hlast).sourced fun _ _ h => h

/-- Where all functions came from sources, a call of one of them runs its body in a frame
that binds each parameter to its own argument. -/
theorem Eval.call_binds {pos : Position} {callee : Expr} {args : List Expr}
    (hcall : (Expr.call pos callee args).Every .parsed) {f : Closure} {vs : List Value}
    {m m₁ m₂ : Machine} (hm : m.Binds (·.code.Parsed))
    (hcallee : Expr.eval setup budget callee m = .done (.function f) m₁)
    (hargs : Eval.list (Expr.eval setup budget) args m₁ = .done vs m₂)
    (harity : vs.length = f.code.arity) (hdepth : m₂.depth < setup.maxDepth) :
    (f.code.params.map Param.name).Nodup
      ∧ Expr.eval setup (budget + 1) (.call pos callee args) m
        = (Run.inCall (Run.inFrame f.frame ((f.code.params.map Param.name).zip vs)
            (Eval.sequence (Stmt.exec setup budget) f.code.body)) >>= Eval.callResult pos) m₂ := by
  have hfunction := Expr.eval_sourced hlent budget (hcall.parts callee List.mem_cons_self) m hm
  rw [hcallee] at hfunction
  have hparsed : f.code.Parsed := hfunction.2 f List.mem_cons_self
  refine ⟨hparsed.distinct, ?_⟩
  rw [Expr.eval]
  show (Expr.eval setup budget callee >>= fun f => _) m = _
  rw [Run.bind_of_done hcallee]
  show (Eval.list (Expr.eval setup budget) args >>= fun vs => _) m₁ = _
  rw [Run.bind_of_done hargs]
  show Eval.callClosure setup (Stmt.exec setup budget) f vs pos m₂ = _
  rw [Eval.callClosure, if_neg fun h => h harity, if_neg (Nat.not_le.2 hdepth),
    Eval.parameters_eq_zip hparsed.distinct]
  rfl

end Parts

namespace Interpreter

/-- A fresh interpreter has no functions of scripts at all. -/
theorem start_sourced {host : Host} (hhost : host.Lends (·.code.Parsed)) (maxDepth : Nat)
    (layout : Layout) : (start host maxDepth layout).Sourced := by
  refine ⟨fun i frame hframe binding hbinding => ?_, hhost⟩
  rw [start_bindings hframe] at hbinding
  obtain ⟨f, rfl, -⟩ := (Host.mem_bindings hbinding).resolve_right List.not_mem_nil
  exact Value.every_native f

private theorem evalProgram_sourced {i : Interpreter} (hi : i.Sourced) {program : Program}
    (hprogram : program.Every .parsed) (budget : Nat) :
    match i.evalProgram budget program with
    | .done v j => j.Sourced ∧ v.Every (·.code.Parsed)
    | .failed failure j => j.Sourced ∧ ¬ (failure.kind = .runtime .typeError
        ∧ failure.message = "invalid assignment target")
    | .exhausted => True := by
  have hkeeps := Program.results_sourced hi.lent budget hprogram i.atRest.machine hi.bound
  cases hrun : i.evalProgram budget program with
  | exhausted => trivial
  | done v j =>
    obtain ⟨m, hdone, rfl⟩ := evalProgram_eq_done.1 hrun
    rw [hdone] at hkeeps
    exact ⟨⟨hkeeps.1, hi.lent⟩, hkeeps.2⟩
  | failed failure j =>
    obtain ⟨fault, m, hfailed, rfl, rfl⟩ := evalProgram_eq_failed.1 hrun
    rw [hfailed] at hkeeps
    refine ⟨⟨hkeeps.1, hi.lent⟩, fun ⟨hkind, hmessage⟩ => ?_⟩
    exact hkeeps.2 (Cause.eq_invalidTarget (Diagnostic.Kind.runtime.inj hkind) hmessage)

/-- Programs that tokens spell are formed: they assign to places only, with the operators of
assignments; their functions have distinct parameters, and a name exactly if they are
declared; and they have no blocks on their own. So where all functions came from sources,
such programs never fail for a target that is no place, and leave only functions that came
from sources. The same holds of every expression and statement on the way, and each call
binds every argument to its own parameter. -/
theorem evalProgram_formed :
    (∀ tokens program, Program.ofTokens tokens = .ok program → program.Every .formed)
    ∧ (∀ i : Interpreter, i.Sourced → ∀ tokens program, Program.ofTokens tokens = .ok program →
      ∀ budget, match i.evalProgram budget program with
        | .done v j => j.Sourced ∧ v.Every (·.code.Parsed)
        | .failed failure j => j.Sourced ∧ ¬ (failure.kind = .runtime .typeError
            ∧ failure.message = "invalid assignment target")
        | .exhausted => True)
    ∧ ∀ setup : Setup, setup.host.Lends (·.code.Parsed) → ∀ budget,
      (∀ e : Expr, e.Every .parsed → (Expr.eval setup budget e).KeepsSourced id)
      ∧ (∀ s : Stmt, s.Every .parsed → (Stmt.exec setup budget s).KeepsSourced Flow.value)
      ∧ ∀ pos callee args, (Expr.call pos callee args).Every .parsed →
        ∀ (m m₁ m₂ : Machine) f vs, m.Binds (·.code.Parsed) →
        Expr.eval setup budget callee m = .done (.function f) m₁ →
        Eval.list (Expr.eval setup budget) args m₁ = .done vs m₂ →
        vs.length = f.code.arity → m₂.depth < setup.maxDepth →
        (f.code.params.map Param.name).Nodup
          ∧ Expr.eval setup (budget + 1) (.call pos callee args) m
            = (Run.inCall (Run.inFrame f.frame ((f.code.params.map Param.name).zip vs)
                (Eval.sequence (Stmt.exec setup budget) f.code.body)) >>= Eval.callResult pos) m₂ :=
  ⟨fun _ _ => Program.ofTokens_formed,
    fun _ hi _ _ hprogram => evalProgram_sourced hi (Program.ofTokens_parsed hprogram),
    fun _ hlent budget => ⟨fun _ => Expr.eval_sourced hlent budget,
      fun _ => Stmt.exec_sourced hlent budget,
      fun _ _ _ hcall _ _ _ _ _ => Eval.call_binds hlent budget hcall⟩⟩

/-- The tokens of a declaration with two parameters, `def second(a, b) => b`. -/
def secondTokens : List Token :=
  [⟨.keyword .def_, "def", .start⟩, ⟨.name, "second", .start⟩, ⟨.symbol .leftParen, "(", .start⟩,
    ⟨.name, "a", .start⟩, ⟨.symbol .comma, ",", .start⟩, ⟨.name, "b", .start⟩,
    ⟨.symbol .rightParen, ")", .start⟩, ⟨.symbol .fatArrow, "=>", .start⟩, ⟨.name, "b", .start⟩]

/-- The function that they declare. -/
def second : Code :=
  ⟨some "second", [⟨"a", .start⟩, ⟨"b", .start⟩],
    [.return_ .start (some (.name .start "b"))], .start⟩

/-- A call of it. -/
def secondOf : Expr :=
  .call .start (.name .start "second") [.literal .start (.bool true), .literal .start .nil]

/-- The tokens of a binding and two assignments with index steps, `let box = \x7b\x7d`,
`box["a"] = nil` and `box["a"]["b"] = nil`. -/
def boxTokens : List Token :=
  [⟨.keyword .let_, "let", .start⟩, ⟨.name, "box", .start⟩, ⟨.symbol .assign, "=", .start⟩,
    ⟨.symbol .leftBrace, "\x7b", .start⟩, ⟨.symbol .rightBrace, "\x7d", .start⟩,
    ⟨.newline, "\n", .start⟩, ⟨.name, "box", .start⟩, ⟨.symbol .leftBracket, "[", .start⟩,
    ⟨.string, "a", .start⟩, ⟨.symbol .rightBracket, "]", .start⟩, ⟨.symbol .assign, "=", .start⟩,
    ⟨.keyword .nil, "nil", .start⟩, ⟨.newline, "\n", .start⟩, ⟨.name, "box", .start⟩,
    ⟨.symbol .leftBracket, "[", .start⟩, ⟨.string, "a", .start⟩,
    ⟨.symbol .rightBracket, "]", .start⟩, ⟨.symbol .leftBracket, "[", .start⟩,
    ⟨.string, "b", .start⟩, ⟨.symbol .rightBracket, "]", .start⟩, ⟨.symbol .assign, "=", .start⟩,
    ⟨.keyword .nil, "nil", .start⟩]

/-- The slot that the first of them assigns to. -/
def boxSlot : Expr := .index .start (.name .start "box") (.literal .start (.string "a"))

/-- The program that they spell. -/
def boxed : Program :=
  [.let_ .start "box" (.map .start []), .assign .start boxSlot none (.literal .start .nil),
    .assign .start (.index .start boxSlot (.literal .start (.string "b"))) none
      (.literal .start .nil)]

/-- The declaration is evaluated on the prelude's interpreter, and the call binds each of the
two arguments to its own parameter. Of the assignments that come after it the first succeeds;
the second fails, with the kind of a target that is no place, but for what the target holds. -/
theorem evalProgram_formed_second :
    ∃ j, (start Prelude.host 200 {}).Sourced
      ∧ Program.ofTokens secondTokens = .ok [.function .start second]
      ∧ Program.Every .formed [.function .start second]
      ∧ (start Prelude.host 200 {}).evalProgram 10 [.function .start second] = .done .nil j
      ∧ j.Sourced
      ∧ Expr.eval j.setup 10 secondOf j.machine
        = (Run.inCall (Run.inFrame 0 [("a", .bool true), ("b", .nil)]
            (Eval.sequence (Stmt.exec j.setup 9) second.body)) >>= Eval.callResult .start)
          j.machine
      ∧ Program.ofTokens boxTokens = .ok boxed
      ∧ Program.Every .formed boxed
      ∧ ∃ failure k, j.evalProgram 10 boxed = .failed failure k
        ∧ failure.kind = .runtime .typeError
        ∧ failure.message = "cannot assign into Nil"
        ∧ k.get "box" = .ok (.map [(.string "a", .nil)])
        ∧ k.Sourced
        ∧ ¬ (failure.kind = .runtime .typeError
          ∧ failure.message = "invalid assignment target") := by
  have hstart := start_sourced (Prelude.host_lends (·.code.Parsed)) 200 {}
  have htokens : Program.ofTokens secondTokens = .ok [.function .start second] := rfl
  let m : Machine :=
    { heap := #[⟨none, Prelude.host.bindings 0 [] ++ [("second", .function ⟨0, second, 0⟩)]⟩]
      scope := 0
      depth := 0
      fresh := 1
      transcript := {} }
  have hrun : (start Prelude.host 200 {}).evalProgram 10 [.function .start second]
      = .done .nil { start Prelude.host 200 {} with machine := m } := rfl
  obtain ⟨hformed, hevaluated, hparts⟩ := evalProgram_formed
  have hdone := hevaluated _ hstart secondTokens _ htokens 10
  rw [hrun] at hdone
  have hnone {P : Code → Prop} : ∀ code ∈ (none : Option Code), P code :=
    fun _ h => absurd h (Option.not_mem_none _)
  have hcall : secondOf.Every .parsed := by
    refine .mk hnone (fun p hp => ?_) hnone
    simp only [secondOf, Expr.parts, List.mem_cons, List.not_mem_nil, or_false] at hp
    rcases hp with rfl | rfl | rfl <;> exact .mk hnone (List.forall_mem_nil _) hnone
  have hbinds := (hparts _ hstart.lent 9).2.2 _ _ _ hcall m m m ⟨0, second, 0⟩ [.bool true, .nil]
    hdone.1.bound (by cbv) (by cbv) rfl (by decide)
  let j : Interpreter := { start Prelude.host 200 {} with machine := m }
  let bindings := Prelude.host.bindings 0 [] ++
    [("second", .function ⟨0, second, 0⟩), ("box", .map [(.string "a", .nil)])]
  let k : Interpreter := { j with machine := { m with heap := #[⟨none, bindings⟩] } }
  have hboxed : Program.ofTokens boxTokens = .ok boxed := rfl
  have hfails : j.evalProgram 10 boxed
      = .failed (.fault ⟨.notAssignable .nil, .start⟩) k := by cbv
  have hfailed := hevaluated j hdone.1 boxTokens _ hboxed 10
  rw [hfails] at hfailed
  have hbox : k.get "box" = .ok (.map [(.string "a", .nil)]) := by
    rw [Interpreter.get, Heap.get, Heap.find?_eq]
    rfl
  exact ⟨_, hstart, htokens, hformed _ _ htokens, hrun, hdone.1, hbinds.2, hboxed,
    hformed _ _ hboxed, _, k, hfails, rfl, rfl, hbox, hfailed⟩

end Interpreter

end Scriptlet
