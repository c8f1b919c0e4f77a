/-
Reading undoes writing. Whatever way a tree is written (`Expr.Written`,
`Stmt.Block`), the parsers make the same tree of the tokens again, up to
positions, and leave the tokens behind them alone.

# What the statements fix

A parser has recovered a tree from tokens (`Recovers`) if it reads it whatever
follows, as long as what follows does not go on with the tree, and with every
budget from some point on. The budget that is really used is shown to be beyond
that point only at the very end, by `program_eq_of_depthFor_le`.

An operand is read from the left, one suffix after another, and the tree grows
outwards. Its lemma therefore says how far the loop over the suffixes has come
(`Chained`), and not what it ends with.
-/
import Scriptlet.Proofs.Grammar.Budget
import Scriptlet.Proofs.Grammar.Opening

namespace Scriptlet.Parser

variable {α β : Type} {stop : Position}

-- ========================================================= recovery

/-- From some budget on, the parser makes of `tokens` what `x` is but for what
`forget` forgets, and leaves everything behind them, if `after` allows it
there. -/
def Recovers (forget : α → β) (p : Nat → Nat → Parser α) (after : List Token → Prop) (x : α)
    (tokens : List Token) : Prop :=
  ∃ y, forget y = forget x ∧ ∃ n, ∀ depth rounds, n ≤ depth → n ≤ rounds → ∀ rest, after rest →
    p depth rounds (tokens ++ rest) = .ok (y, rest)

/-- A tree that is recovered in front of more is recovered in front of less. -/
theorem Recovers.imp {forget : α → β} {p : Nat → Nat → Parser α} {after after' : List Token → Prop}
    {x : α} {tokens : List Token} (h : Recovers forget p after x tokens)
    (hafter : ∀ rest, after' rest → after rest) : Recovers forget p after' x tokens := by
  obtain ⟨y, hy, n, hread⟩ := h
  exact ⟨y, hy, n, fun depth rounds hd hr rest hrest =>
    hread depth rounds hd hr rest (hafter rest hrest)⟩

theorem ok_bind {ε : Type} (a : α) (f : α → Except ε β) : (Except.ok a >>= f) = f a := rfl

/-- An expression is recovered where nothing is demanded of its operators. -/
abbrev RecoversExpr (stop : Position) : Expr → List Token → Prop :=
  Recovers Expr.unplaced (fun depth _ => expression stop depth 0) Stops

/-- The statements of a block are recovered up to a keyword of `stops`. -/
abbrev RecoversBlock (stop : Position) (stops : List Keyword) : List Stmt → List Token → Prop :=
  Recovers Program.unplaced (fun depth rounds => block stop (statement stop depth) stops rounds)
    (fun rest => atBlockEnd stops rest = true)

-- ============================================================ lists

/-- A list may end where an item would begin: it is empty, or there was a comma behind its
last item. -/
private theorem commaList_close {p : Parser α} {close : Symbol} {breaks : List Token}
    (hbreaks : Breaks breaks) {t : Token} (ht : t.kind = .symbol close) (rounds : Nat)
    (rest : List Token) :
    commaList stop p close (rounds + 1) (breaks ++ t :: rest) = .ok ([], rest) := by
  have hskip : skipNewlines (breaks ++ t :: rest) = t :: rest := by
    rw [skipNewlines_append hbreaks, skipNewlines_cons (by rw [ht]; exact nofun)]
  simp only [commaList, hskip, nextIs_cons ht, if_true, List.tail_cons]

/-- One round of the loop: the item is read, and what comes behind it decides. -/
theorem commaList_item {p : Parser α} {close : Symbol} (hclose : opens (.symbol close) = false)
    {before tokens : List Token} (hbefore : Breaks before) (hopening : Opening tokens)
    (rounds : Nat) {rest : List Token} {y : α} (hread : p (tokens ++ rest) = .ok (y, rest)) :
    commaList stop p close (rounds + 1) (before ++ (tokens ++ rest))
      = if nextIs (.symbol .comma) (skipNewlines rest) then do
          let (others, left) ← commaList stop p close rounds (skipNewlines rest).tail
          return (y :: others, left)
        else do
          let (_, left) ← expect stop (.symbol close) (.symbol close) (skipNewlines rest)
          return ([y], left) := by
  have hopening := hopening.append rest
  have hskip : skipNewlines (before ++ (tokens ++ rest)) = tokens ++ rest := by
    rw [skipNewlines_append hbefore, hopening.skipNewlines_eq]
  simp only [commaList, hskip, hopening.nextIs_eq_false hclose, hread]
  rfl

/-- The brackets that close something. -/
def closesBracket : Symbol → Bool
  | .rightParen | .rightBracket | .rightBrace => true
  | _ => false

/-- A closing bracket is no beginning, goes on with nothing and is no comma, so every loop
stops there. -/
private theorem of_closesBracket {close : Symbol} (h : closesBracket close = true) :
    opens (.symbol close) = false
      ∧ (isSuffix (.symbol close) = false ∧ Power.of? (.symbol close) = none)
      ∧ Token.Kind.symbol close ≠ .symbol .comma := by
  unfold closesBracket at h
  split at h
  case h_4 => cases h
  all_goals exact ⟨rfl, ⟨rfl, rfl⟩, nofun⟩

/-- A list and the bracket that closes it are recovered if its items are. -/
theorem commaList_recovers (stop : Position) {forget : α → β} {p : Nat → Parser α} {close : Symbol}
    (hbracket : closesBracket close = true) {t : Token} (ht : t.kind = .symbol close)
    {xs : List α} {tokens : List Token}
    (h : Listed (fun x tokens =>
      Recovers forget (fun depth _ => p depth) Stops x tokens ∧ Opening tokens) xs tokens) :
    Recovers (List.map forget) (fun depth rounds => commaList stop (p depth) close rounds)
      (fun _ => True) xs (tokens ++ [t]) := by
  obtain ⟨hclose, hstops, hcomma⟩ := of_closesBracket hbracket
  induction h with
  | none gap =>
    refine ⟨[], rfl, 1, fun depth rounds _ hr rest _ => ?_⟩
    obtain ⟨rounds, rfl⟩ := Nat.exists_eq_add_of_le' hr
    rw [List.append_assoc]
    exact commaList_close gap ht rounds rest
  | @last x before tokens behind gap item gap' =>
    obtain ⟨⟨y, hy, n, hread⟩, hopening⟩ := item
    -- one round reads the item and stops at the bracket, the breaks skipped
    refine ⟨[y], congrArg (fun z => [z]) hy, n + 1, fun depth rounds hd hr rest _ => ?_⟩
    obtain ⟨rounds, rfl⟩ := Nat.exists_eq_add_of_le' (Nat.le_trans (Nat.le_add_left 1 n) hr)
    have hnewline : t.kind ≠ .newline := by rw [ht]; exact nofun
    have hne : t.kind ≠ .symbol .comma := by rw [ht]; exact hcomma
    have hread := hread depth rounds (by omega) (by omega) (behind ++ t :: rest)
      (stops_breaks gap' (by rw [ht]; exact hstops))
    simp only [List.append_assoc, List.cons_append, List.nil_append]
    rw [commaList_item hclose gap hopening rounds hread, skipNewlines_append gap',
      skipNewlines_cons hnewline, nextIs_cons_ne hne, expect_cons ht]
    rfl
  | @more x xs before tokens behind others u gap item gap' comma _ ih =>
    obtain ⟨⟨y, hy, n, hread⟩, hopening⟩ := item
    obtain ⟨ys, hys, m, hrest⟩ := ih
    -- one round for this item and its comma, the others by the induction
    refine ⟨y :: ys, ?_, n + m + 1, fun depth rounds hd hr rest _ => ?_⟩
    · rw [List.map_cons, List.map_cons, hy, hys]
    obtain ⟨rounds, rfl⟩ := Nat.exists_eq_add_of_le' (Nat.le_trans (Nat.le_add_left 1 _) hr)
    have hnewline : u.kind ≠ .newline := by rw [comma]; decide
    have hread := hread depth rounds (by omega) (by omega) (behind ++ u :: (others ++ [t] ++ rest))
      (stops_breaks gap' (by rw [comma]; exact ⟨rfl, rfl⟩))
    have hrest : commaList stop (p depth) close rounds (others ++ [t] ++ rest) = .ok (ys, rest) :=
      hrest depth rounds (by omega) (by omega) rest trivial
    have htokens : before ++ (tokens ++ (behind ++ u :: others)) ++ [t] ++ rest
        = before ++ (tokens ++ (behind ++ u :: (others ++ [t] ++ rest))) := by
      simp only [List.append_assoc, List.cons_append]
    simp only [htokens]
    rw [commaList_item hclose gap hopening rounds hread, skipNewlines_append gap',
      skipNewlines_cons hnewline, nextIs_cons comma, List.tail_cons, if_pos rfl, hrest]
    rfl

/-- One round of the loop over parameters: a new name is read, and what comes
behind it decides. -/
theorem parameters_item {before : List Token} (hbefore : Breaks before) {name : Token}
    (hname : name.kind = .name) {seen : List String} (hnew : name.lexeme ∉ seen) (rounds : Nat)
    (rest : List Token) :
    parameters stop (rounds + 1) seen (before ++ name :: rest)
      = if nextIs (.symbol .comma) (skipNewlines rest) then do
          let (others, left) ←
            parameters stop rounds (name.lexeme :: seen) (skipNewlines rest).tail
          return (⟨name.lexeme, name.pos⟩ :: others, left)
        else do
          let (_, left) ← expect stop (.symbol .rightParen) .closeParameters (skipNewlines rest)
          return ([⟨name.lexeme, name.pos⟩], left) := by
  have hskip : skipNewlines (before ++ name :: rest) = name :: rest := by
    rw [skipNewlines_append hbefore, skipNewlines_cons (by rw [hname]; decide)]
  have hparen : name.kind ≠ .symbol .rightParen := by rw [hname]; decide
  have hnew : seen.contains name.lexeme = false := by simpa using hnew
  simp only [parameters, hskip, nextIs_cons_ne hparen, expect_cons hname, ok_bind, hnew,
    Bool.false_eq_true, if_false]

/-- The loop over parameters recovers them, if no name was seen before. -/
theorem parameters_recovers (stop : Position) {params : List Param} {tokens : List Token}
    {t : Token} (ht : t.kind = .symbol .rightParen) (h : Listed Param.Written params tokens) :
    ∀ seen : List String, (∀ p ∈ params, p.name ∉ seen) → (params.map Param.name).Nodup →
      Recovers (List.map (Param.moved fun _ => .start))
        (fun _ rounds => parameters stop rounds seen) (fun _ => True) params (tokens ++ [t]) := by
  have hnewline : t.kind ≠ .newline := by rw [ht]; decide
  induction h with
  | @none breaks gap =>
    intro seen _ _
    refine ⟨[], rfl, 1, fun _ rounds _ hr rest _ => ?_⟩
    obtain ⟨rounds, rfl⟩ := Nat.exists_eq_add_of_le' hr
    have hskip : skipNewlines (breaks ++ t :: rest) = t :: rest := by
      rw [skipNewlines_append gap, skipNewlines_cons hnewline]
    rw [List.append_assoc]
    simp only [parameters, List.cons_append, List.nil_append, hskip, nextIs_cons ht, if_true,
      List.tail_cons]
  | @last x before tokens behind gap item gap' =>
    intro seen hseen _
    cases item with
    | @mk pos name kind =>
    refine ⟨[⟨name.lexeme, name.pos⟩], rfl, 1, fun _ rounds _ hr rest _ => ?_⟩
    obtain ⟨rounds, rfl⟩ := Nat.exists_eq_add_of_le' hr
    have hname : name.lexeme ∉ seen := hseen _ (List.mem_singleton_self _)
    have hskip : skipNewlines (behind ++ t :: rest) = t :: rest := by
      rw [skipNewlines_append gap', skipNewlines_cons hnewline]
    have hcomma : t.kind ≠ .symbol .comma := by rw [ht]; decide
    simp only [List.append_assoc, List.cons_append, List.nil_append]
    rw [parameters_item gap kind hname, hskip, nextIs_cons_ne hcomma, expect_cons ht]
    rfl
  | @more x params before tokens behind others u gap item gap' comma _ ih =>
    intro seen hseen hdistinct
    cases item with
    | @mk pos name kind =>
    obtain ⟨hnotin, hdistinct⟩ := List.nodup_cons.1 hdistinct
    obtain ⟨hname, hseen⟩ := List.forall_mem_cons.1 hseen
    -- the names already read grow by this one, and the rest repeats none of them
    have hseen' : ∀ p ∈ params, p.name ∉ name.lexeme :: seen := by
      intro p hp hmem
      rcases List.mem_cons.1 hmem with heq | hmem
      · exact hnotin (List.mem_map.2 ⟨p, hp, heq⟩)
      · exact hseen p hp hmem
    obtain ⟨ys, hys, n, hrest⟩ := ih (name.lexeme :: seen) hseen' hdistinct
    refine ⟨⟨name.lexeme, name.pos⟩ :: ys, ?_, n + 1, fun depth rounds hd hr rest _ => ?_⟩
    · rw [List.map_cons, List.map_cons, hys]
      rfl
    obtain ⟨rounds, rfl⟩ := Nat.exists_eq_add_of_le' (Nat.le_trans (Nat.le_add_left 1 n) hr)
    have hskip : skipNewlines (behind ++ u :: (others ++ [t] ++ rest))
        = u :: (others ++ [t] ++ rest) := by
      rw [skipNewlines_append gap', skipNewlines_cons (by rw [comma]; decide)]
    have hrest : parameters stop rounds (name.lexeme :: seen) (others ++ [t] ++ rest)
        = .ok (ys, rest) := hrest depth rounds (by omega) (by omega) rest trivial
    have htokens : before ++ ([name] ++ (behind ++ u :: others)) ++ [t] ++ rest
        = before ++ name :: (behind ++ u :: (others ++ [t] ++ rest)) := by
      simp only [List.append_assoc, List.cons_append, List.nil_append]
    simp only [htokens]
    rw [parameters_item gap kind hname, hskip, nextIs_cons comma, if_pos rfl, List.tail_cons, hrest]
    rfl

/-- Parameters are distinct when the derivation says so, and then no name is refused as
seen. -/
theorem parameterList_recovers (stop : Position) {params : List Param} {t close : Token}
    {tokens : List Token} (h : Param.ListWritten params t tokens close) :
    Recovers (List.map (Param.moved fun _ => .start))
      (fun _ rounds => parameterList stop rounds) (fun _ => True) params
      (t :: (tokens ++ [close])) := by
  obtain ⟨ys, hys, n, hread⟩ :=
    parameters_recovers stop h.closes h.parts [] (fun _ _ => List.not_mem_nil) h.distinct
  refine ⟨ys, hys, n, fun depth rounds hd hr rest _ => ?_⟩
  have hread : parameters stop rounds [] (tokens ++ [close] ++ rest) = .ok (ys, rest) :=
    hread depth rounds hd hr rest trivial
  simp only [parameterList, List.cons_append, expect_cons h.opens]
  exact hread

-- ========================================================= operands

/-- What an entry forgets. -/
def forgetEntry (pair : Expr × Expr) : Expr × Expr := (pair.1.unplaced, pair.2.unplaced)

/-- An entry is read as key, colon and value, with line ends around the colon. -/
theorem entry_recovers {key value : Expr} {front before behind tokens : List Token} {t : Token}
    (hkey : RecoversExpr stop key front) (hbefore : Breaks before)
    (colon : t.kind = .symbol .colon) (hbehind : Breaks behind)
    (hvalue : RecoversExpr stop value tokens) (hopening : Opening tokens) :
    Recovers forgetEntry (fun depth _ => entry stop (expression stop depth 0)) Stops (key, value)
      (front ++ (before ++ t :: (behind ++ tokens))) := by
  obtain ⟨k, hk, n, hreadKey⟩ := hkey
  obtain ⟨v, hv, m, hreadValue⟩ := hvalue
  refine ⟨(k, v), Prod.ext hk hv, n + m, fun depth rounds hd hr rest hrest => ?_⟩
  have hcolon : t.kind ≠ .newline := by rw [colon]; decide
  have hreadKey : expression stop depth 0 (front ++ (before ++ t :: (behind ++ (tokens ++ rest))))
      = .ok (k, before ++ t :: (behind ++ (tokens ++ rest))) :=
    hreadKey depth rounds (by omega) (by omega) _
      (stops_breaks hbefore (by rw [colon]; exact ⟨rfl, rfl⟩))
  have hreadValue : expression stop depth 0 (tokens ++ rest) = .ok (v, rest) :=
    hreadValue depth rounds (by omega) (by omega) rest hrest
  simp only [entry, List.append_assoc, List.cons_append, hreadKey, ok_bind,
    skipNewlines_token hbefore hcolon, expect_cons colon, skipNewlines_opening hbehind hopening,
    hreadValue]
  rfl

/-- An expression between brackets, whose closing one is expected with any wording.
What is made of the expression behind it has no part in how it is read. -/
theorem enclosed_recovers {e : Expr} {before tokens behind : List Token} {close : Token}
    {symbol : Symbol} (hbefore : Breaks before) (hinner : RecoversExpr stop e tokens)
    (hopening : Opening tokens) (hbehind : Breaks behind) (hclose : close.kind = .symbol symbol)
    (hbracket : closesBracket symbol = true) (expected : Expected) :
    ∃ y, y.unplaced = e.unplaced ∧ ∃ n, ∀ depth, n ≤ depth → ∀ (wrap : Expr → Expr) rest,
      (do
        let (inner, tokens) ← expression stop depth 0
          (skipNewlines (before ++ (tokens ++ (behind ++ close :: rest))))
        let (_, tokens) ← expect stop (.symbol symbol) expected (skipNewlines tokens)
        return (wrap inner, tokens)) = .ok (wrap y, rest) := by
  obtain ⟨-, hstops, -⟩ := of_closesBracket hbracket
  obtain ⟨y, hy, n, hread⟩ := hinner
  refine ⟨y, hy, n, fun depth hd wrap rest => ?_⟩
  have hnewline : close.kind ≠ .newline := by rw [hclose]; exact nofun
  have hread : expression stop depth 0 (tokens ++ (behind ++ close :: rest))
      = .ok (y, behind ++ close :: rest) :=
    hread depth n hd (Nat.le_refl n) _ (stops_breaks hbehind (by rw [hclose]; exact hstops))
  rw [skipNewlines_opening hbefore hopening, hread, ok_bind]
  dsimp only
  rw [skipNewlines_token hbehind hnewline, expect_cons hclose]
  rfl

/-- Reading an operand comes, from some budget on, to where `y` is all that was
read, with nearly all rounds left for the suffixes that follow. -/
def Chained (stop : Position) (e : Expr) (tokens : List Token) : Prop :=
  ∃ y, y.unplaced = e.unplaced ∧ ∃ n, ∀ depth rounds, n ≤ depth → n ≤ rounds → ∀ rest,
    ∃ left, rounds ≤ left + n ∧
      (do
        let (first, others) ←
          primary stop (expression stop depth 0) (statement stop depth) rounds (tokens ++ rest)
        suffixes stop (expression stop depth 0) rounds first others)
        = suffixes stop (expression stop depth 0) left y rest

/-- An operand that is read at once, with nothing behind it. -/
theorem chained_primary {e : Expr} {tokens : List Token}
    (h : Recovers Expr.unplaced
      (fun depth rounds => primary stop (expression stop depth 0) (statement stop depth) rounds)
      (fun _ => True) e tokens) :
    Chained stop e tokens := by
  obtain ⟨y, hy, n, hread⟩ := h
  refine ⟨y, hy, n, fun depth rounds hd hr rest => ⟨rounds, Nat.le_add_right .., ?_⟩⟩
  have hread : primary stop (expression stop depth 0) (statement stop depth) rounds (tokens ++ rest)
      = .ok (y, rest) := hread depth rounds hd hr rest trivial
  rw [hread]
  rfl

/-- One more suffix behind what was read. It is read with one round less. -/
theorem chained_suffix {collection e : Expr} {front tokens : List Token}
    (hhead : Chained stop collection front)
    (hsuffix : ∀ c : Expr, c.unplaced = collection.unplaced → ∃ y, y.unplaced = e.unplaced
      ∧ ∃ n, ∀ depth rounds, n ≤ depth → n ≤ rounds → ∀ rest,
        suffix? stop (expression stop depth 0) rounds c (tokens ++ rest) = some (.ok (y, rest))) :
    Chained stop e (front ++ tokens) := by
  obtain ⟨c, hc, n, hread⟩ := hhead
  obtain ⟨y, hy, m, hreadSuffix⟩ := hsuffix c hc
  refine ⟨y, hy, n + m + 1, fun depth rounds hd hr rest => ?_⟩
  obtain ⟨left, hleft, hread⟩ := hread depth rounds (by omega) (by omega) (tokens ++ rest)
  obtain ⟨left, rfl⟩ : ∃ k, left = k + 1 := ⟨left - 1, by omega⟩
  refine ⟨left, by omega, ?_⟩
  rw [List.append_assoc, hread, suffixes,
    hreadSuffix depth left (by omega) (by omega) rest]

/-- The operands that are no chain, each read by its first token. -/
theorem chained_literal {pos : Position} {value : Literal} {t : Token} (h : value.Written t) :
    Chained stop (.literal pos value) [t] := by
  refine chained_primary ⟨.literal t.pos value, rfl, 0, fun depth rounds _ _ rest _ => ?_⟩
  cases h with
  | number kind reads => simp only [primary, List.cons_append, List.nil_append, kind, reads]
  | string kind => simp only [primary, List.cons_append, List.nil_append, kind]
  | true_ kind => simp only [primary, List.cons_append, List.nil_append, kind]
  | false_ kind => simp only [primary, List.cons_append, List.nil_append, kind]
  | nil kind => simp only [primary, List.cons_append, List.nil_append, kind]

theorem chained_name {pos : Position} {t : Token} (kind : t.kind = .name) :
    Chained stop (.name pos t.lexeme) [t] := by
  refine chained_primary ⟨.name t.pos t.lexeme, rfl, 0, fun depth rounds _ _ rest _ => ?_⟩
  simp only [primary, List.cons_append, List.nil_append, kind]

/-- Items that are recovered, and begin like expressions. -/
abbrev ItemsRecovered (stop : Position) : List Expr → List Token → Prop :=
  Listed fun e tokens => RecoversExpr stop e tokens ∧ Opening tokens

/-- Entries that are recovered, and begin like expressions. -/
abbrev EntriesRecovered (stop : Position) : List (Expr × Expr) → List Token → Prop :=
  Listed fun pair tokens =>
    Recovers forgetEntry (fun depth _ => entry stop (expression stop depth 0)) Stops pair tokens
      ∧ Opening tokens

theorem chained_list {pos : Position} {items : List Expr} {t close : Token} {tokens : List Token}
    (hopens : t.kind = .symbol .leftBracket) (hparts : ItemsRecovered stop items tokens)
    (hclose : close.kind = .symbol .rightBracket) :
    Chained stop (.list pos items) (t :: (tokens ++ [close])) := by
  obtain ⟨ys, hys, n, hread⟩ :=
    commaList_recovers stop (p := fun depth => expression stop depth 0) rfl hclose hparts
  refine chained_primary ⟨.list t.pos ys, ?_, n, fun depth rounds hd hr rest _ => ?_⟩
  · simp only [Expr.unplaced, Expr.moved, Expr.movedItems_eq_map, hys]
  have hread : commaList stop (expression stop depth 0) .rightBracket rounds
      (tokens ++ [close] ++ rest) = .ok (ys, rest) := hread depth rounds hd hr rest trivial
  simp only [primary, List.cons_append, hopens, hread]
  rfl

theorem chained_map {pos : Position} {entries : List (Expr × Expr)} {t close : Token}
    {tokens : List Token} (hopens : t.kind = .symbol .leftBrace)
    (hparts : EntriesRecovered stop entries tokens) (hclose : close.kind = .symbol .rightBrace) :
    Chained stop (.map pos entries) (t :: (tokens ++ [close])) := by
  obtain ⟨ys, hys, n, hread⟩ := commaList_recovers stop
    (p := fun depth => entry stop (expression stop depth 0)) rfl hclose hparts
  refine chained_primary ⟨.map t.pos ys, ?_, n, fun depth rounds hd hr rest _ => ?_⟩
  · simp only [Expr.unplaced, Expr.moved, Expr.movedEntries_eq_map]
    exact congrArg (Expr.map .start) hys
  have hread : commaList stop (entry stop (expression stop depth 0)) .rightBrace rounds
      (tokens ++ [close] ++ rest) = .ok (ys, rest) := hread depth rounds hd hr rest trivial
  simp only [primary, List.cons_append, hopens, hread]
  rfl

/-- Parentheses leave no trace in the tree. -/
theorem chained_parens {e : Expr} {t close : Token} {before tokens behind : List Token}
    (hopens : t.kind = .symbol .leftParen) (hbefore : Breaks before)
    (hinner : RecoversExpr stop e tokens) (hopening : Opening tokens) (hbehind : Breaks behind)
    (hclose : close.kind = .symbol .rightParen) :
    Chained stop e (t :: (before ++ (tokens ++ (behind ++ [close])))) := by
  obtain ⟨y, hy, n, hread⟩ := enclosed_recovers hbefore hinner hopening hbehind hclose rfl
    (.symbol .rightParen)
  refine chained_primary ⟨y, hy, n, fun depth rounds hd _ rest _ => ?_⟩
  simp only [primary, List.cons_append, List.append_assoc, List.nil_append, hopens]
  exact hread depth hd id rest

/-- The three suffixes. What they are attached to has been read already, so only what is
behind it matters. -/
theorem chained_call {pos : Position} {callee : Expr} {args : List Expr} {front tokens : List Token}
    {t close : Token} (hhead : Chained stop callee front) (hopens : t.kind = .symbol .leftParen)
    (hparts : ItemsRecovered stop args tokens) (hclose : close.kind = .symbol .rightParen) :
    Chained stop (.call pos callee args) (front ++ t :: (tokens ++ [close])) := by
  obtain ⟨ys, hys, n, hread⟩ :=
    commaList_recovers stop (p := fun depth => expression stop depth 0) rfl hclose hparts
  refine chained_suffix hhead fun c hc =>
    ⟨.call t.pos c ys, ?_, n, fun depth rounds hd hr rest => ?_⟩
  · simp only [Expr.unplaced] at hc
    simp only [Expr.unplaced, Expr.moved, Expr.movedItems_eq_map, hc, hys]
  have hread : commaList stop (expression stop depth 0) .rightParen rounds
      (tokens ++ [close] ++ rest) = .ok (ys, rest) := hread depth rounds hd hr rest trivial
  simp only [suffix?, List.cons_append, hopens, hread]
  rfl

theorem chained_index {pos : Position} {collection key : Expr} {t close : Token}
    {front before tokens behind : List Token} (hhead : Chained stop collection front)
    (hopens : t.kind = .symbol .leftBracket) (hbefore : Breaks before)
    (hinner : RecoversExpr stop key tokens) (hopening : Opening tokens) (hbehind : Breaks behind)
    (hclose : close.kind = .symbol .rightBracket) :
    Chained stop (.index pos collection key)
      (front ++ t :: (before ++ (tokens ++ (behind ++ [close])))) := by
  obtain ⟨k, hk, n, hread⟩ := enclosed_recovers hbefore hinner hopening hbehind hclose rfl
    .closeIndex
  refine chained_suffix hhead fun c hc =>
    ⟨.index t.pos c k, ?_, n, fun depth rounds hd _ rest => ?_⟩
  · simp only [Expr.unplaced] at hc hk
    simp only [Expr.unplaced, Expr.moved, hc, hk]
  simp only [suffix?, List.cons_append, List.append_assoc, List.nil_append, hopens]
  exact congrArg some (hread depth hd (.index t.pos c) rest)

theorem chained_member {pos keyPos : Position} {collection : Expr} {front : List Token}
    {t name : Token} (hhead : Chained stop collection front) (dot : t.kind = .symbol .dot)
    (kind : name.kind = .name) :
    Chained stop (.index pos collection (.literal keyPos (.string name.lexeme)))
      (front ++ [t, name]) := by
  refine chained_suffix hhead fun c hc =>
    ⟨.index t.pos c (.literal name.pos (.string name.lexeme)), ?_, 0,
      fun depth rounds _ _ rest => ?_⟩
  · simp only [Expr.unplaced] at hc
    simp only [Expr.unplaced, Expr.moved, hc]
  simp only [suffix?, List.cons_append, List.nil_append, dot, expect_cons kind]
  rfl

-- ====================================================== expressions

private theorem suffix?_eq_none {p : Parser Expr} {rest : List Token} (h : NoSuffix rest)
    (rounds : Nat) (e : Expr) : suffix? stop p rounds e rest = none := by
  cases rest with
  | nil => rfl
  | cons t others =>
    have ht := h t rfl
    simp only [suffix?]
    split
    case h_4 => rfl
    all_goals
      rename_i hkind
      rw [hkind] at ht
      cases ht

/-- An operand is recovered where no suffix follows. -/
theorem operand_recovers {e : Expr} {tokens : List Token} (h : Chained stop e tokens)
    (hopening : OperandOpening tokens) :
    Recovers Expr.unplaced
      (fun depth rounds => operand stop (expression stop depth) (statement stop depth) rounds)
      NoSuffix e tokens := by
  obtain ⟨y, hy, n, hread⟩ := h
  obtain ⟨t, others, rfl, hopens⟩ := hopening
  refine ⟨y, hy, n + 1, fun depth rounds hd hr rest hrest => ?_⟩
  obtain ⟨left, hleft, hread⟩ := hread depth rounds (by omega) (by omega) rest
  obtain ⟨left, rfl⟩ : ∃ k, left = k + 1 := ⟨left - 1, by omega⟩
  simp only [operand, List.cons_append, unaryOf?_of_opensOperand hopens]
  refine hread.trans ?_
  rw [suffixes, suffix?_eq_none hrest]

/-- Where no operator follows, climbing gives back what it was given. -/
private theorem climb_eq_self {p : Nat → Parser Expr} {rest : List Token} (h : Stops rest)
    (demand : Nat) {rounds : Nat} (hrounds : 0 < rounds) (e : Expr) :
    climb stop p demand rounds e rest = .ok (e, rest) := by
  obtain ⟨rounds, rfl⟩ := Nat.exists_eq_add_of_le' hrounds
  cases rest with
  | nil => rfl
  | cons t others => simp only [climb, (h t rfl).2]

/-- What was read by an operand's parser is the whole expression where nothing
goes on with it, whatever is demanded. -/
theorem expression_of_operand {e : Expr} {tokens : List Token}
    (h : Recovers Expr.unplaced
      (fun depth rounds => operand stop (expression stop depth) (statement stop depth) rounds)
      Stops e tokens) (demand : Nat) :
    Recovers Expr.unplaced (fun depth _ => expression stop depth demand) Stops e tokens := by
  obtain ⟨y, hy, n, hread⟩ := h
  refine ⟨y, hy, n + 2, fun depth rounds hd hr rest hrest => ?_⟩
  obtain ⟨depth, rfl⟩ : ∃ k, depth = k + 1 := ⟨depth - 1, by omega⟩
  have hread : operand stop (expression stop depth) (statement stop depth) depth (tokens ++ rest)
      = .ok (y, rest) := hread depth depth (by omega) (by omega) rest hrest
  simp only [expression, hread]
  exact climb_eq_self hrest demand (by omega) y

/-- An operand is recovered whatever is demanded of operators. -/
theorem expression_recovers_operand {e : Expr} {tokens : List Token} (h : Chained stop e tokens)
    (hopening : OperandOpening tokens) (demand : Nat) :
    Recovers Expr.unplaced (fun depth _ => expression stop depth demand) Stops e tokens :=
  expression_of_operand ((operand_recovers h hopening).imp fun _ hrest => hrest.noSuffix) demand

/-- The operand of a sign is read with the demand of signs. It is written without operators
of its own, so whatever the demand is, all of it is read. -/
theorem expression_recovers_unary {pos : Position} {op : UnaryOp} {e : Expr} {t : Token}
    {tokens : List Token} (hsign : unaryOf? t.kind = some op) (hinner : Chained stop e tokens)
    (hopening : OperandOpening tokens) :
    RecoversExpr stop (.unary pos op e) (t :: tokens) := by
  obtain ⟨y, hy, n, hread⟩ := expression_recovers_operand hinner hopening unaryPower
  refine expression_of_operand
    ⟨.unary t.pos op y, ?_, n, fun depth rounds hd hr rest hrest => ?_⟩ 0
  · simp only [Expr.unplaced] at hy
    simp only [Expr.unplaced, Expr.moved, hy]
  have hread : expression stop depth unaryPower (tokens ++ rest) = .ok (y, rest) :=
    hread depth rounds hd hr rest hrest
  simp only [operand, List.cons_append, hsign, hread]
  rfl

private theorem isSuffix_of_power {kind : Token.Kind} {power : Power}
    (h : Power.of? kind = some power) : isSuffix kind = false := by
  unfold Power.of? at h
  split at h <;> first | rfl | cases h

private theorem join_unplaced {joint : Joint} {pos pos' : Position} {left left' right right' : Expr}
    (hleft : left.unplaced = left'.unplaced) (hright : right.unplaced = right'.unplaced) :
    (joint.join pos left right).unplaced = (joint.join pos' left' right').unplaced := by
  simp only [Expr.unplaced] at hleft hright
  cases joint <;> simp only [Joint.join, Expr.unplaced, Expr.moved, hleft, hright]

/-- One operator is taken, and nothing behind its right side. -/
theorem climb_join {p : Nat → Parser Expr} {t : Token} {power : Power}
    (hsign : Power.of? t.kind = some power) {right : Expr} {tokens rest : List Token}
    (hread : p power.right tokens = .ok (right, rest)) (hrest : Stops rest) {rounds : Nat}
    (hrounds : 1 < rounds) (left : Expr) :
    climb stop p 0 rounds left (t :: tokens) = .ok (power.joint.join t.pos left right, rest) := by
  obtain ⟨rounds, rfl⟩ : ∃ k, rounds = k + 1 := ⟨rounds - 1, by omega⟩
  simp only [climb, hsign, Nat.not_lt_zero, if_false, hread]
  exact climb_eq_self hrest 0 (by omega) _

/-- Two operands with an operator between them. The right one is read with the
operator's own demand, and the climb ends behind it. -/
theorem expression_recovers_join {pos : Position} {left right : Expr} {front behind : List Token}
    {t : Token} {power : Power} {joint : Joint} (hhead : Chained stop left front)
    (hhead' : OperandOpening front) (hsign : Power.of? t.kind = some power)
    (hjoint : power.joint = joint) (htail : Chained stop right behind)
    (htail' : OperandOpening behind) :
    RecoversExpr stop (joint.join pos left right) (front ++ t :: behind) := by
  subst hjoint
  obtain ⟨l, hl, n, hreadLeft⟩ := operand_recovers hhead hhead'
  obtain ⟨r, hr, m, hreadRight⟩ := expression_recovers_operand htail htail' power.right
  refine ⟨power.joint.join t.pos l r, join_unplaced hl hr, n + m + 3,
    fun depth rounds hd _ rest hrest => ?_⟩
  obtain ⟨depth, rfl⟩ : ∃ k, depth = k + 1 := ⟨depth - 1, by omega⟩
  have hreadLeft : operand stop (expression stop depth) (statement stop depth) depth
      (front ++ t :: (behind ++ rest)) = .ok (l, t :: (behind ++ rest)) :=
    hreadLeft depth depth (by omega) (by omega) _ (noSuffix_cons (isSuffix_of_power hsign))
  have hreadRight : expression stop depth power.right (behind ++ rest) = .ok (r, rest) :=
    hreadRight depth depth (by omega) (by omega) rest hrest
  simp only [expression, List.append_assoc, List.cons_append, hreadLeft]
  exact climb_join hsign hreadRight hrest (by omega) l

-- ======================================================== functions

private theorem atBlockEnd_end {t : Token} (h : t.kind = .keyword .end_) (rest : List Token) :
    atBlockEnd [.end_] (t :: rest) = true := by
  simp only [atBlockEnd, h]
  rfl

/-- A block and the `end` behind it. -/
theorem closedBlock_recovers {body : List Stmt} {tokens : List Token} {t : Token}
    (hbody : RecoversBlock stop [.end_] body tokens) (hclose : t.kind = .keyword .end_) :
    Recovers Program.unplaced
      (fun depth rounds => closedBlock stop (statement stop depth) rounds) (fun _ => True) body
      (tokens ++ [t]) := by
  obtain ⟨y, hy, n, hread⟩ := hbody
  refine ⟨y, hy, n, fun depth rounds hd hr rest _ => ?_⟩
  have hread : block stop (statement stop depth) [.end_] rounds (tokens ++ t :: rest)
      = .ok (y, t :: rest) := hread depth rounds hd hr _ (atBlockEnd_end hclose rest)
  simp only [closedBlock, List.append_assoc, List.cons_append, List.nil_append, hread, ok_bind,
    expectKeyword, expect_cons hclose]
  rfl

/-- The body of a function is recovered where nothing goes on with an
expression, because its last part may be one. -/
abbrev RecoversBody (stop : Position) : List Stmt → List Token → Prop :=
  Recovers Program.unplaced
    (fun depth rounds =>
      functionBody stop (expression stop depth 0) (statement stop depth) rounds) Stops

/-- A body behind an arrow is one `return` in the tree. -/
theorem body_recovers_arrow {pos : Position} {value : Expr} {t : Token} {tokens : List Token}
    (hopens : t.kind = .symbol .fatArrow) (hinner : RecoversExpr stop value tokens) :
    RecoversBody stop [.return_ pos (some value)] (t :: tokens) := by
  obtain ⟨y, hy, n, hread⟩ := hinner
  refine ⟨[.return_ y.pos (some y)], ?_, n, fun depth rounds hd hr rest hrest => ?_⟩
  · simp only [Expr.unplaced] at hy
    simp only [Program.unplaced, Program.moved, Stmt.movedBody, Stmt.moved, hy]
  have hread : expression stop depth 0 (tokens ++ rest) = .ok (y, rest) :=
    hread depth rounds hd hr rest hrest
  simp only [functionBody, List.cons_append, nextIs_cons hopens, if_true, List.tail_cons, hread]
  rfl

/-- Any other body is a block, and it must not begin with an arrow. -/
theorem body_recovers_block {body : List Stmt} {tokens : List Token} {t : Token}
    (hinner : RecoversBlock stop [.end_] body tokens)
    (harrow : nextIs (.symbol .fatArrow) tokens = false) (hclose : t.kind = .keyword .end_) :
    RecoversBody stop body (tokens ++ [t]) := by
  obtain ⟨y, hy, n, hread⟩ := closedBlock_recovers hinner hclose
  refine ⟨y, hy, n, fun depth rounds hd hr rest _ => ?_⟩
  have harrow : nextIs (.symbol .fatArrow) ((tokens ++ [t]) ++ rest) = false := by
    cases tokens with
    | nil => exact nextIs_cons_ne (by rw [hclose]; decide) _
    | cons u others => exact harrow
  simp only [functionBody, harrow, Bool.false_eq_true, if_false]
  exact hread depth rounds hd hr rest trivial

theorem code_unplaced {name : Option String} {params params' : List Param}
    {body body' : List Stmt} {pos pos' : Position}
    (hparams : params.map (Param.moved fun _ => .start) = params'.map (Param.moved fun _ => .start))
    (hbody : Program.unplaced body = Program.unplaced body') :
    Code.unplaced ⟨name, params, body, pos⟩ = Code.unplaced ⟨name, params', body', pos'⟩ := by
  simp only [Program.unplaced, Program.moved] at hbody
  simp only [Code.unplaced, Code.moved, hparams, hbody]

/-- A literal function is read up to the end of its body; nothing that follows can be
joined to it. -/
theorem expression_recovers_function {pos codePos : Position} {params : List Param}
    {body : List Stmt} {t opening closing : Token} {names tokens : List Token}
    (hword : t.kind = .keyword .function ∨ t.kind = .keyword .def_)
    (hparts : Param.ListWritten params opening names closing)
    (hinner : RecoversBody stop body tokens) :
    RecoversExpr stop (.function pos ⟨none, params, body, codePos⟩)
      (t :: opening :: (names ++ closing :: tokens)) := by
  obtain ⟨ps, hps, n, hreadParams⟩ := parameterList_recovers stop hparts
  obtain ⟨b, hb, m, hreadBody⟩ := hinner
  refine expression_of_operand ⟨.function t.pos ⟨none, ps, b, t.pos⟩, ?_, n + m + 1,
    fun depth rounds hd hr rest hrest => ?_⟩ 0
  · exact congrArg (Expr.function .start) (code_unplaced hps hb)
  obtain ⟨rounds, rfl⟩ : ∃ k, rounds = k + 1 := ⟨rounds - 1, by omega⟩
  have hreadParams : parameterList stop (rounds + 1)
      (opening :: (names ++ [closing]) ++ (tokens ++ rest)) = .ok (ps, tokens ++ rest) :=
    hreadParams depth (rounds + 1) (by omega) (by omega) _ trivial
  have hreadBody : functionBody stop (expression stop depth 0) (statement stop depth) (rounds + 1)
      (tokens ++ rest) = .ok (b, rest) :=
    hreadBody depth (rounds + 1) (by omega) (by omega) rest hrest
  simp only [List.cons_append, List.append_assoc, List.nil_append] at hreadParams
  have hunary : unaryOf? t.kind = none := by rcases hword with h | h <;> rw [h] <;> rfl
  have hprimary : primary stop (expression stop depth 0) (statement stop depth) (rounds + 1)
      (t :: opening :: (names ++ closing :: (tokens ++ rest)))
        = .ok (.function t.pos ⟨none, ps, b, t.pos⟩, rest) := by
    rcases hword with h | h <;>
      simp only [primary, h, functionLiteral, hreadParams, ok_bind, hreadBody] <;> rfl
  simp only [operand, List.cons_append, List.append_assoc, hunary, hprimary]
  show suffixes stop (expression stop depth 0) (rounds + 1) _ rest = _
  rw [suffixes, suffix?_eq_none hrest.noSuffix]

end Scriptlet.Parser
