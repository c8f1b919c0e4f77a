/-
Tokens cut off behind a line end. When only the beginning of a list of tokens is read, up
to some line end, then one of three things happens. The beginning is refused because its
end was not expected; or it is refused for what the whole is refused for; or it makes a
program by itself, and then the whole makes a program if and only if the tokens behind the
cut do, which is the one followed by the other. So the beginning is never refused for
anything that the whole is not, it is never taken for complete when it is not, and nothing
that stands behind the cut is ever joined to it.

# Why the cut must be at a line end

No parser of an expression ends by passing over a line end: it passes over line
ends only where more has to follow. Up to the cut both readings therefore see
the same tokens, and where the shorter one sees none it is inside something that
is still open. Without a line end before the cut the shorter reading could stop
early, as that of `a` does in `a + b`.

# How the cases are kept apart

`Agrees` is what holds of the results of parsers: the shorter one is starved, or both are
the same but for the tokens behind the cut. Steps in turn agree if each does
(`Agrees.bind`), so the lemma of a parser follows its steps and looks at no result. A
statement takes the line end that follows it, so it may also use the tokens up (`Loose`).
A block inside something else may end at the end of the tokens, and whoever reads on from
there is starved at once (`Short`).
-/
import Scriptlet.Proofs.Grammar.Budget

namespace Scriptlet.Parser

variable {α β : Type} {stop stop' : Position} {E F : List Token → Prop} {tokens : List Token}

-- ========================================================= the cut

/-- Tokens the last of which is a line end. -/
def Ends (tokens : List Token) : Prop := ∃ t, tokens.getLast? = some t ∧ t.kind = .newline

/-- Tokens that are used up, or the last of which is a line end. -/
def Loose (tokens : List Token) : Prop := tokens = [] ∨ Ends tokens

/-- A reading that failed because the tokens came to an end. -/
def Starved (result : Except ParseError α) : Prop :=
  ∃ e, result = .error e ∧ e.found = .endOfInput

/-- How the reading of a beginning compares with that of the whole: it is starved, or both
are refused for the same reason, or both give the same and leave the same before the cut,
in the way `E` says. -/
def Agrees (E : List Token → Prop) (tail : List Token)
    (result whole : Except ParseError (α × List Token)) : Prop :=
  Starved result ∨ (∃ e, result = .error e ∧ whole = .error e)
    ∨ ∃ x rest, E rest ∧ result = .ok (x, rest) ∧ whole = .ok (x, rest ++ tail)

/-- Cut off behind a line end, `p` agrees with what `q` reads of the whole. -/
def Cuts (E : List Token → Prop) (p q : Parser α) : Prop :=
  ∀ ⦃tokens : List Token⦄, Ends tokens → ∀ tail, Agrees E tail (p tokens) (q (tokens ++ tail))

/-- A parser that cannot do without tokens. -/
def Hungry (p : Parser α) : Prop := Starved (p [])

/-- A cut behind a line end leaves at least that line end. -/
theorem Ends.ne_nil (h : Ends tokens) : tokens ≠ [] := by
  rintro rfl
  obtain ⟨t, ht, -⟩ := h
  cases ht

/-- Behind a token that is no line end there are more. -/
theorem Ends.tail {t : Token} {rest : List Token} (h : Ends (t :: rest)) (hk : t.kind ≠ .newline) :
    Ends rest := by
  obtain ⟨u, hu, huk⟩ := h
  cases rest with
  | nil =>
    cases hu
    exact absurd huk hk
  | cons v vs => exact ⟨u, by simpa using hu, huk⟩

private theorem Ends.loose_tail {t : Token} {rest : List Token} (h : Ends (t :: rest)) :
    Loose rest := by
  obtain ⟨u, hu, huk⟩ := h
  cases rest with
  | nil => exact .inl rfl
  | cons v vs => exact .inr ⟨u, by simpa using hu, huk⟩

/-- Whoever is starved is so in all that follows. -/
theorem Starved.bind {result : Except ParseError α} (h : Starved result)
    (k : α → Except ParseError β) : Starved (result >>= k) := by
  obtain ⟨e, rfl, he⟩ := h
  exact ⟨e, rfl, he⟩

/-- An error raised with no token left names the end of the input. -/
private theorem starved_unexpected (expected : Expected) :
    Starved (.error (unexpected stop expected []) : Except ParseError α) :=
  ⟨_, rfl, rfl⟩

/-- Both readings give the same, and the tail stays behind what is left. -/
theorem Agrees.ok {tail : List Token} (x : α) {rest : List Token} (h : E rest) :
    Agrees E tail (.ok (x, rest)) (.ok (x, rest ++ tail)) :=
  .inr (.inr ⟨x, rest, h, rfl, rfl⟩)

/-- Both readings are refused for the same reason. -/
theorem Agrees.refused {tail : List Token} (e : ParseError) :
    Agrees E tail (.error e : Except ParseError (α × List Token)) (.error e) :=
  .inr (.inl ⟨e, rfl, rfl⟩)

/-- What stands at the front before the cut stands at the front of the whole. -/
theorem Ends.unexpected {tail : List Token} (h : Ends tokens) (expected : Expected) :
    Agrees E tail (.error (unexpected stop expected tokens) : Except ParseError (α × List Token))
      (.error (Parser.unexpected stop' expected (tokens ++ tail))) := by
  obtain ⟨t, rest, rfl⟩ := List.exists_cons_of_ne_nil h.ne_nil
  exact .refused _

/-- Steps in turn: the second has to be looked at only where the first left tokens before
the cut. -/
theorem Agrees.bind {tail : List Token} {result whole : Except ParseError (α × List Token)}
    (h : Agrees E tail result whole) {k k' : α × List Token → Except ParseError (β × List Token)}
    (hk : ∀ x rest, E rest → Agrees F tail (k (x, rest)) (k' (x, rest ++ tail))) :
    Agrees F tail (result >>= k) (whole >>= k') := by
  rcases h with h | ⟨e, rfl, rfl⟩ | ⟨x, rest, hrest, rfl, rfl⟩
  · exact .inl (h.bind k)
  · exact .refused e
  · exact hk x rest hrest

-- ==================================================== single tokens

/-- No token is there to be the one asked for. -/
private theorem expect_hungry (kind : Token.Kind) (expected : Expected) :
    Hungry (expect stop kind expected) :=
  starved_unexpected expected

/-- A wanted token that is no line end cannot be the last before the cut, so a line end is
still left behind it. -/
private theorem expect_cuts {kind : Token.Kind} (expected : Expected) (hk : kind ≠ .newline) :
    Cuts Ends (expect stop kind expected) (expect stop' kind expected) := by
  intro tokens hends tail
  obtain ⟨t, rest, rfl⟩ := List.exists_cons_of_ne_nil hends.ne_nil
  simp only [expect, List.cons_append]
  split
  · exact .ok t (hends.tail (by rwa [‹t.kind = kind›]))
  · exact .refused _

/-- Tokens passed over before the cut: all of them, or those of the whole. -/
theorem dropWhile_cut (skip : Token → Bool) (h : Ends tokens) (tail : List Token) :
    tokens.dropWhile skip = []
      ∨ Ends (tokens.dropWhile skip)
        ∧ (tokens ++ tail).dropWhile skip = tokens.dropWhile skip ++ tail := by
  induction tokens with
  | nil => exact .inl rfl
  | cons t rest ih =>
    rw [List.dropWhile_cons, List.cons_append, List.dropWhile_cons]
    split
    · rcases h.loose_tail with rfl | hrest
      · exact .inl rfl
      · exact ih hrest
    · exact .inr ⟨h, rfl⟩

/-- Skipping either runs out of tokens or stops within the first part, where the second is
out of sight. -/
private theorem skipNewlines_cut (h : Ends tokens) (tail : List Token) :
    skipNewlines tokens = []
      ∨ Ends (skipNewlines tokens)
        ∧ skipNewlines (tokens ++ tail) = skipNewlines tokens ++ tail :=
  dropWhile_cut _ h tail

private theorem skipSeparators_cut (h : Ends tokens) (tail : List Token) :
    skipSeparators tokens = []
      ∨ Ends (skipSeparators tokens)
        ∧ skipSeparators (tokens ++ tail) = skipSeparators tokens ++ tail :=
  dropWhile_cut _ h tail

/-- A parser that is called behind line ends. -/
theorem Cuts.skip {p q : Parser α} (h : Cuts E p q) (hungry : Hungry p) (hends : Ends tokens)
    (tail : List Token) :
    Agrees E tail (p (skipNewlines tokens)) (q (skipNewlines (tokens ++ tail))) := by
  rcases skipNewlines_cut hends tail with hnil | ⟨hskip, heq⟩
  · rw [hnil]
    exact .inl hungry
  · rw [heq]
    exact h hskip tail

/-- One token of the first part decides. -/
private theorem nextIs_cut (h : Ends tokens) (kind : Token.Kind) (tail : List Token) :
    nextIs kind (tokens ++ tail) = nextIs kind tokens := by
  obtain ⟨t, rest, rfl⟩ := List.exists_cons_of_ne_nil h.ne_nil
  rfl

/-- Passing over a token that was looked at and is no line end. -/
theorem Ends.tail_of_nextIs (h : Ends tokens) {kind : Token.Kind} (hk : kind ≠ .newline)
    (hnext : nextIs kind tokens = true) (tail : List Token) :
    Ends tokens.tail ∧ (tokens ++ tail).tail = tokens.tail ++ tail := by
  obtain ⟨t, rest, rfl, rfl⟩ := nextIs_eq_true hnext
  exact ⟨h.tail hk, rfl⟩

-- ====================================================== item lists

/-- Between the brackets of a list line ends are skipped, so the cut may fall there; but
then a close is missing, and the shorter reading is starved. -/
private theorem commaList_cuts {p q : Parser α} (h : Cuts Ends p q) (hungry : Hungry p)
    (close : Symbol) (rounds : Nat) :
    Cuts Ends (commaList stop p close rounds) (commaList stop' q close rounds) := by
  induction rounds with
  | zero => exact fun _ hends _ => hends.unexpected _
  | succ rounds ih =>
    intro tokens hends tail
    simp only [commaList]
    rcases skipNewlines_cut hends tail with hnil | ⟨hskip, heq⟩
    · rw [hnil]
      exact .inl (hungry.bind _)
    rw [heq, nextIs_cut hskip]
    split
    · rename_i hclose
      obtain ⟨htail, htl⟩ := hskip.tail_of_nextIs (by simp) hclose tail
      rw [htl]
      exact .ok [] htail
    refine (h hskip tail).bind fun first rest hrest => ?_
    dsimp only
    rcases skipNewlines_cut hrest tail with hnil' | ⟨hskip', heq'⟩
    · rw [hnil']
      exact .inl (Starved.bind (starved_unexpected (.symbol close)) _)
    rw [heq', nextIs_cut hskip']
    split
    · rename_i hcomma
      obtain ⟨htail, htl⟩ := hskip'.tail_of_nextIs (by simp) hcomma tail
      rw [htl]
      exact (ih htail tail).bind fun others rest' hrest' => .ok (first :: others) hrest'
    · exact (expect_cuts _ (by simp) hskip' tail).bind fun _ rest' hrest' => .ok [first] hrest'

/-- By induction on the rounds; the names read so far are the same in both runs. -/
private theorem parameters_cuts (rounds : Nat) (seen : List String) :
    Cuts Ends (parameters stop rounds seen) (parameters stop' rounds seen) := by
  induction rounds generalizing seen with
  | zero => exact fun _ hends _ => hends.unexpected _
  | succ rounds ih =>
    intro tokens hends tail
    simp only [parameters]
    rcases skipNewlines_cut hends tail with hnil | ⟨hskip, heq⟩
    · rw [hnil]
      exact .inl (Starved.bind (starved_unexpected .parameterName) _)
    rw [heq, nextIs_cut hskip]
    split
    · rename_i hclose
      obtain ⟨htail, htl⟩ := hskip.tail_of_nextIs (by simp) hclose tail
      rw [htl]
      exact .ok [] htail
    refine (expect_cuts _ (by simp) hskip tail).bind fun name rest hrest => ?_
    dsimp only
    split
    · exact .refused _
    rcases skipNewlines_cut hrest tail with hnil' | ⟨hskip', heq'⟩
    · rw [hnil']
      exact .inl (Starved.bind (starved_unexpected .closeParameters) _)
    rw [heq', nextIs_cut hskip']
    split
    · rename_i hcomma
      obtain ⟨htail, htl⟩ := hskip'.tail_of_nextIs (by simp) hcomma tail
      rw [htl]
      exact (ih _ htail tail).bind fun others rest' hrest' => .ok (_ :: others) hrest'
    · exact (expect_cuts _ (by simp) hskip' tail).bind fun _ rest' hrest' => .ok [_] hrest'

private theorem parameterList_cuts (rounds : Nat) :
    Cuts Ends (parameterList stop rounds) (parameterList stop' rounds) := by
  intro tokens hends tail
  refine (expect_cuts _ (by simp) hends tail).bind fun _ rest hrest => ?_
  exact parameters_cuts rounds [] hrest tail

-- ========================================================== blocks

/-- The reading of a beginning agrees with that of the whole, or has used up the tokens
without noticing. -/
def Short (tail : List Token) (result whole : Except ParseError (α × List Token)) : Prop :=
  Agrees Ends tail result whole ∨ ∃ y, result = .ok (y, [])

/-- Whoever reads a token next notices. -/
theorem Short.bind {tail : List Token} {result whole : Except ParseError (α × List Token)}
    (h : Short tail result whole) {k k' : α × List Token → Except ParseError (β × List Token)}
    (hk : ∀ x rest, Ends rest → Agrees F tail (k (x, rest)) (k' (x, rest ++ tail)))
    (hungry : ∀ z, Starved (k (z, []))) : Agrees F tail (result >>= k) (whole >>= k') := by
  rcases h with h | ⟨z, rfl⟩
  · exact h.bind hk
  · exact .inl (hungry z)

/-- Steps in turn, where the second may use the tokens up without noticing. -/
theorem Agrees.short {tail : List Token} {result whole : Except ParseError (α × List Token)}
    (h : Agrees E tail result whole) {k k' : α × List Token → Except ParseError (β × List Token)}
    (hk : ∀ x rest, E rest → Short tail (k (x, rest)) (k' (x, rest ++ tail))) :
    Short tail (result >>= k) (whole >>= k') := by
  rcases h with h | ⟨e, rfl, rfl⟩ | ⟨x, rest, hrest, rfl, rfl⟩
  · exact .inl (.inl (h.bind k))
  · exact .inl (.refused e)
  · exact hk x rest hrest

/-- Steps in turn, where either may use the tokens up without noticing. -/
theorem Short.short {tail : List Token} {result whole : Except ParseError (α × List Token)}
    (h : Short tail result whole) {k k' : α × List Token → Except ParseError (β × List Token)}
    (hk : ∀ x rest, Ends rest → Short tail (k (x, rest)) (k' (x, rest ++ tail)))
    (hout : ∀ z, ∃ y, k (z, []) = .ok (y, [])) : Short tail (result >>= k) (whole >>= k') := by
  rcases h with h | ⟨z, rfl⟩
  · exact h.short hk
  · exact .inr (hout z)

/-- Whatever only returns what it was given passes the doubt on. -/
theorem Short.map {tail : List Token} {result whole : Except ParseError (α × List Token)}
    (h : Short tail result whole) (f : α → β) :
    Short tail (result >>= fun a => pure (f a.1, a.2)) (whole >>= fun a => pure (f a.1, a.2)) := by
  rcases h with h | ⟨z, rfl⟩
  · exact .inl (h.bind fun x rest hrest => .ok (f x) hrest)
  · exact .inr ⟨f z, rfl⟩

/-- Whether the block ends here is seen from the next token. -/
private theorem atBlockEnd_cut (h : Ends tokens) (stops : List Keyword) (tail : List Token) :
    atBlockEnd stops (tokens ++ tail) = atBlockEnd stops tokens := by
  obtain ⟨t, rest, rfl⟩ := List.exists_cons_of_ne_nil h.ne_nil
  rfl

/-- Where separators use up the beginning, those at the front of the tail are skipped as
well. -/
private theorem skipSeparators_append (h : skipSeparators tokens = []) (tail : List Token) :
    skipSeparators (tokens ++ tail) = skipSeparators tail := by
  unfold skipSeparators at h ⊢
  rw [List.dropWhile_append, h]
  rfl

/-- A block that goes on behind the cut: its beginning is a block too, and the whole is
that and the block that is left, if there is one. No more rounds were needed for the
beginning than it has tokens. -/
def Parted (stop : Position) (q : Parser Stmt) (stops : List Keyword) (tokens tail : List Token)
    (rounds : Nat) (result whole : Except ParseError (List Stmt × List Token)) : Prop :=
  ∃ first left, result = .ok (first, []) ∧ rounds ≤ left + tokens.length
    ∧ whole = (block stop q stops left tail).map fun a => (first ++ a.1, a.2)

/-- A block either agrees as any other parser does, or the beginning came to its end
between two statements. In that case the block of the whole goes on behind the cut with
the rounds that are left. -/
private theorem block_cut {p q : Parser Stmt} (h : Cuts Loose p q) (hp : Shrinks p)
    (stops : List Keyword) (rounds : Nat) (hloose : Loose tokens) (tail : List Token) :
    Agrees Ends tail (block stop p stops rounds tokens)
        (block stop' q stops rounds (tokens ++ tail))
      ∨ Parted stop' q stops tokens tail rounds (block stop p stops rounds tokens)
        (block stop' q stops rounds (tokens ++ tail)) := by
  induction rounds generalizing tokens with
  | zero =>
    rcases hloose with rfl | hends
    · exact .inl (.inl (starved_unexpected .expression))
    · exact .inl (hends.unexpected .expression)
  | succ rounds ih =>
    -- without tokens before the cut, the whole is what is left of it
    have hout (hnil : skipSeparators tokens = []) :
        Parted stop' q stops tokens tail (rounds + 1) (block stop p stops (rounds + 1) tokens)
          (block stop' q stops (rounds + 1) (tokens ++ tail)) := by
      refine ⟨[], rounds + 1, ?_, Nat.le_add_right _ _, ?_⟩
      · simp only [block, hnil]
        rfl
      · have heq : block stop' q stops (rounds + 1) (tokens ++ tail)
            = block stop' q stops (rounds + 1) tail := by
          simp only [block, skipSeparators_append hnil]
        rw [heq]
        cases block stop' q stops (rounds + 1) tail <;> rfl
    rcases hloose with rfl | hends
    · exact .inr (hout rfl)
    rcases skipSeparators_cut hends tail with hnil | ⟨hskip, heq⟩
    · exact .inr (hout hnil)
    simp only [block]
    rw [heq, atBlockEnd_cut hskip]
    split
    · exact .inl (.ok [] hskip)
    rcases h hskip tail with hstarved | ⟨e, he, he'⟩ | ⟨first, rest, hrest, hread, hread'⟩
    · exact .inl (.inl (hstarved.bind _))
    · rw [he, he']
      exact .inl (.refused e)
    rw [hread, hread']
    rcases ih hrest with hagrees | ⟨others, left, hothers, hleft, hwhole⟩
    · exact .inl (hagrees.bind fun others rest' hrest' => .ok (first :: others) hrest')
    · have hshorter := hp hread
      have hlength := skipSeparators_length_le tokens
      refine .inr ⟨first :: others, left, ?_, by omega, ?_⟩
      · show (block stop p stops rounds rest >>= fun a => pure (first :: a.1, a.2)) = _
        rw [hothers]
        rfl
      · show (block stop' q stops rounds (rest ++ tail) >>= fun a => pure (first :: a.1, a.2)) = _
        rw [hwhole]
        cases block stop' q stops left tail <;> rfl

/-- For a block inside something else the second case is a short one: the tokens are used
up and the close is missing. -/
private theorem block_short {p q : Parser Stmt} (h : Cuts Loose p q) (hp : Shrinks p)
    (stops : List Keyword) (rounds : Nat) (hends : Ends tokens) (tail : List Token) :
    Short tail (block stop p stops rounds tokens)
      (block stop' q stops rounds (tokens ++ tail)) := by
  rcases block_cut h hp stops rounds (.inr hends) tail with hagrees | ⟨first, _, hread, -⟩
  · exact .inl hagrees
  · exact .inr ⟨first, hread⟩

private theorem closedBlock_cuts {p q : Parser Stmt} (h : Cuts Loose p q) (hp : Shrinks p)
    (rounds : Nat) : Cuts Ends (closedBlock stop p rounds) (closedBlock stop' q rounds) := by
  intro tokens hends tail
  refine (block_short h hp _ rounds hends tail).bind (fun body rest hrest => ?_)
    fun _ => Starved.bind (starved_unexpected (.keyword .end_)) _
  exact (expect_cuts _ (by simp) hrest tail).bind fun _ rest' hrest' => .ok body hrest'

section Nested

variable {p q : Parser Expr} {ps qs : Parser Stmt}

/-- What the parsers of nested expressions and statements have to offer. -/
structure NestedCuts (p q : Parser Expr) (ps qs : Parser Stmt) : Prop where
  expr : Cuts Ends p q
  stmt : Cuts Loose ps qs
  hungry : Hungry p
  shrinks : Shrinks ps

private theorem functionBody_cuts (h : NestedCuts p q ps qs) (rounds : Nat) :
    Cuts Ends (functionBody stop p ps rounds) (functionBody stop' q qs rounds) := by
  intro tokens hends tail
  simp only [functionBody]
  rw [nextIs_cut hends]
  split
  · rename_i harrow
    obtain ⟨htail, htl⟩ := hends.tail_of_nextIs (by simp) harrow tail
    rw [htl]
    exact (h.expr htail tail).bind fun value rest hrest => .ok _ hrest
  · exact closedBlock_cuts h.stmt h.shrinks rounds hends tail

-- ===================================================== expressions

private theorem entry_cuts (h : NestedCuts p q ps qs) : Cuts Ends (entry stop p)
    (entry stop' q) := by
  intro tokens hends tail
  refine (h.expr hends tail).bind fun key rest₁ hrest₁ => ?_
  refine ((expect_cuts _ (by simp)).skip (expect_hungry _ _) hrest₁ tail).bind
    fun _ rest₂ hrest₂ => ?_
  exact (h.expr.skip h.hungry hrest₂ tail).bind fun value rest₃ hrest₃ => .ok (key, value) hrest₃

private theorem entry_hungry (h : NestedCuts p q ps qs) : Hungry (entry stop p) :=
  h.hungry.bind _

private theorem parenthesized_cuts (h : NestedCuts p q ps qs) :
    Cuts Ends (parenthesized stop p) (parenthesized stop' q) := by
  intro tokens hends tail
  refine (h.expr.skip h.hungry hends tail).bind fun inner rest₁ hrest₁ => ?_
  exact ((expect_cuts _ (by simp)).skip (expect_hungry _ _) hrest₁ tail).bind
    fun _ rest₂ hrest₂ => .ok inner hrest₂

private theorem functionLiteral_cuts (h : NestedCuts p q ps qs) (rounds : Nat) (pos : Position) :
    Cuts Ends (functionLiteral stop p ps rounds pos) (functionLiteral stop' q qs rounds pos) := by
  intro tokens hends tail
  refine (parameterList_cuts rounds hends tail).bind fun params rest₁ hrest₁ => ?_
  exact (functionBody_cuts h rounds hrest₁ tail).bind fun body rest₂ hrest₂ => .ok _ hrest₂

/-- The first token decides on both sides, since there is one before the cut. -/
private theorem primary_cuts (h : NestedCuts p q ps qs) (rounds : Nat) :
    Cuts Ends (primary stop p ps rounds) (primary stop' q qs rounds) := by
  intro tokens hends tail
  obtain ⟨t, rest, rfl⟩ := List.exists_cons_of_ne_nil hends.ne_nil
  have hrest (hk : t.kind ≠ .newline) : Ends rest := hends.tail hk
  simp only [primary, List.cons_append]
  split
  case h_1 hkind =>
    split
    · exact .ok _ (hrest (by simp [hkind]))
    · exact .refused _
  case h_2 hkind | h_3 hkind | h_4 hkind | h_5 hkind | h_6 hkind =>
    exact .ok _ (hrest (by simp [hkind]))
  case h_7 hkind => exact parenthesized_cuts h (hrest (by simp [hkind])) tail
  case h_8 hkind =>
    exact (commaList_cuts h.expr h.hungry _ rounds (hrest (by simp [hkind])) tail).bind
      fun items left hleft => .ok _ hleft
  case h_9 hkind =>
    exact (commaList_cuts (entry_cuts h) (entry_hungry h) _ rounds (hrest (by simp [hkind]))
      tail).bind fun entries left hleft => .ok _ hleft
  case h_10 hkind | h_11 hkind =>
    exact functionLiteral_cuts h rounds _ (hrest (by simp [hkind])) tail
  case h_12 => exact .refused _

/-- A suffix begins with a bracket or a dot, which no line end is: both sides see one or
neither does. -/
private theorem suffix?_cut (h : NestedCuts p q ps qs) (e : Expr) (rounds : Nat)
    (hends : Ends tokens) (tail : List Token) :
    (suffix? stop p rounds e tokens = none ∧ suffix? stop' q rounds e (tokens ++ tail) = none)
      ∨ ∃ result whole, suffix? stop p rounds e tokens = some result
        ∧ suffix? stop' q rounds e (tokens ++ tail) = some whole
        ∧ Agrees Ends tail result whole := by
  obtain ⟨t, rest, rfl⟩ := List.exists_cons_of_ne_nil hends.ne_nil
  have hrest (hk : t.kind ≠ .newline) : Ends rest := hends.tail hk
  simp only [suffix?, List.cons_append]
  split
  case h_1 hkind =>
    refine .inr ⟨_, _, rfl, rfl, ?_⟩
    exact (commaList_cuts h.expr h.hungry _ rounds (hrest (by simp [hkind])) tail).bind
      fun args left hleft => .ok _ hleft
  case h_2 hkind =>
    refine .inr ⟨_, _, rfl, rfl, ?_⟩
    refine (h.expr.skip h.hungry (hrest (by simp [hkind])) tail).bind fun key rest₁ hrest₁ => ?_
    exact ((expect_cuts _ (by simp)).skip (expect_hungry _ _) hrest₁ tail).bind
      fun _ rest₂ hrest₂ => .ok _ hrest₂
  case h_3 hkind =>
    refine .inr ⟨_, _, rfl, rfl, ?_⟩
    exact (expect_cuts _ (by simp) (hrest (by simp [hkind])) tail).bind
      fun member left hleft => .ok _ hleft
  case h_4 => exact .inl ⟨rfl, rfl⟩

private theorem suffixes_cuts (h : NestedCuts p q ps qs) (rounds : Nat) (e : Expr) :
    Cuts Ends (suffixes stop p rounds e) (suffixes stop' q rounds e) := by
  induction rounds generalizing e with
  | zero => exact fun _ hends _ => hends.unexpected _
  | succ rounds ih =>
    intro tokens hends tail
    simp only [suffixes]
    rcases suffix?_cut h e rounds hends tail with
      ⟨hnone, hnone'⟩ | ⟨result, whole, hsome, hsome', hagrees⟩
    · rw [hnone, hnone']
      exact .ok e hends
    · rw [hsome, hsome']
      rcases hagrees with ⟨error, rfl, herror⟩ | ⟨error, rfl, rfl⟩ | ⟨e', rest, hrest, rfl, rfl⟩
      · exact .inl ⟨error, rfl, herror⟩
      · exact .refused error
      · exact ih e' hrest tail

section Operands

variable {pe qe : Nat → Parser Expr}

private theorem operand_cuts (h : ∀ demand, NestedCuts (pe demand) (qe demand) ps qs)
    (rounds : Nat) : Cuts Ends (operand stop pe ps rounds) (operand stop' qe qs rounds) := by
  intro tokens hends tail
  obtain ⟨t, rest, rfl⟩ := List.exists_cons_of_ne_nil hends.ne_nil
  simp only [operand, List.cons_append]
  split
  case h_1 op hop =>
    have hk : t.kind ≠ .newline := by
      intro hk
      rw [hk] at hop
      cases hop
    exact ((h _).expr (hends.tail hk) tail).bind fun e left hleft => .ok _ hleft
  case h_2 =>
    refine (primary_cuts (h 0) rounds hends tail).bind fun e left hleft => ?_
    exact suffixes_cuts (h 0) rounds e hleft tail

/-- Every operand takes a token. -/
private theorem operand_hungry (rounds : Nat) : Hungry (operand stop pe ps rounds) :=
  starved_unexpected .expression

/-- An operator before the cut has its operand before the cut or starves. -/
private theorem climb_cuts (h : ∀ demand, NestedCuts (pe demand) (qe demand) ps qs)
    (demand rounds : Nat)
    (e : Expr) : Cuts Ends (climb stop pe demand rounds e) (climb stop' qe demand rounds e) := by
  induction rounds generalizing e with
  | zero => exact fun _ hends _ => hends.unexpected _
  | succ rounds ih =>
    intro tokens hends tail
    obtain ⟨t, rest, rfl⟩ := List.exists_cons_of_ne_nil hends.ne_nil
    simp only [climb, List.cons_append]
    split
    case h_1 => exact .ok e hends
    case h_2 power hpower =>
      have hk : t.kind ≠ .newline := by
        intro hk
        rw [hk] at hpower
        cases hpower
      split
      · exact .ok e hends
      · refine ((h _).expr (hends.tail hk) tail).bind fun right left hleft => ?_
        exact ih _ hleft tail

end Operands

-- ====================================================== statements

private theorem letStatement_cuts (h : NestedCuts p q ps qs) (pos : Position) :
    Cuts Ends (letStatement stop p pos) (letStatement stop' q pos) := by
  intro tokens hends tail
  refine (expect_cuts _ (by simp) hends tail).bind fun name rest₁ hrest₁ => ?_
  refine (expect_cuts _ (by simp) hrest₁ tail).bind fun _ rest₂ hrest₂ => ?_
  exact (h.expr hrest₂ tail).bind fun value rest₃ hrest₃ => .ok _ hrest₃

/-- The check of an assignment's target looks at no tokens. -/
theorem Agrees.check {tail : List Token} (e : Expr)
    {result whole : Except ParseError (Stmt × List Token)} (h : Agrees E tail result whole) :
    Agrees E tail (checkTarget e >>= fun _ => result) (checkTarget e >>= fun _ => whole) := by
  cases checkTarget e with
  | error error => exact .refused error
  | ok _ => exact h

private theorem changeStatement_cuts (h : NestedCuts p q ps qs) (pos : Position) :
    Cuts Ends (changeStatement stop p pos) (changeStatement stop' q pos) := by
  intro tokens hends tail
  refine (h.expr hends tail).bind fun target rest₁ hrest₁ => .check target ?_
  refine (expect_cuts _ (by simp) hrest₁ tail).bind fun _ rest₂ hrest₂ => ?_
  exact (h.expr hrest₂ tail).bind fun value rest₃ hrest₃ => .ok _ hrest₃

private theorem whileStatement_cuts (h : NestedCuts p q ps qs) (rounds : Nat) (pos : Position) :
    Cuts Ends (whileStatement stop p ps rounds pos) (whileStatement stop' q qs rounds pos) := by
  intro tokens hends tail
  refine (h.expr hends tail).bind fun condition rest₁ hrest₁ => ?_
  exact (closedBlock_cuts h.stmt h.shrinks rounds hrest₁ tail).bind
    fun body rest₂ hrest₂ => .ok _ hrest₂

private theorem forStatement_cuts (h : NestedCuts p q ps qs) (rounds : Nat) (pos : Position) :
    Cuts Ends (forStatement stop p ps rounds pos) (forStatement stop' q qs rounds pos) := by
  intro tokens hends tail
  refine (expect_cuts _ (by simp) hends tail).bind fun name rest₁ hrest₁ => ?_
  refine (expect_cuts _ (by simp) hrest₁ tail).bind fun _ rest₂ hrest₂ => ?_
  refine (h.expr hrest₂ tail).bind fun iterable rest₃ hrest₃ => ?_
  exact (closedBlock_cuts h.stmt h.shrinks rounds hrest₃ tail).bind
    fun body rest₄ hrest₄ => .ok _ hrest₄

private theorem functionStatement_cuts (h : NestedCuts p q ps qs) (rounds : Nat) (keyword : Keyword)
    (pos : Position) : Cuts Ends (functionStatement stop p ps rounds keyword pos)
      (functionStatement stop' q qs rounds keyword pos) := by
  intro tokens hends tail
  refine (expect_cuts _ (by simp) hends tail).bind fun name rest₁ hrest₁ => ?_
  refine (parameterList_cuts rounds hrest₁ tail).bind fun params rest₂ hrest₂ => ?_
  dsimp only
  rw [nextIs_cut hrest₂]
  split
  · exact hrest₂.unexpected _
  · exact (functionBody_cuts h rounds hrest₂ tail).bind fun body rest₃ hrest₃ => .ok _ hrest₃

private theorem atStatementEnd_cut (h : Ends tokens) (tail : List Token) :
    atStatementEnd (tokens ++ tail) = atStatementEnd tokens := by
  obtain ⟨t, rest, rfl⟩ := List.exists_cons_of_ne_nil h.ne_nil
  rfl

private theorem returnStatement_cuts (h : NestedCuts p q ps qs) (pos : Position) :
    Cuts Ends (returnStatement p pos) (returnStatement q pos) := by
  intro tokens hends tail
  simp only [returnStatement]
  rw [atStatementEnd_cut hends]
  split
  · exact .ok _ hends
  · exact (h.expr hends tail).bind fun value rest hrest => .ok _ hrest

private theorem expressionStatement_cuts (h : NestedCuts p q ps qs) :
    Cuts Ends (expressionStatement p) (expressionStatement q) := by
  intro tokens hends tail
  refine (h.expr hends tail).bind fun e rest hrest => ?_
  obtain ⟨t, others, rfl⟩ := List.exists_cons_of_ne_nil hrest.ne_nil
  simp only [List.cons_append]
  split
  · exact .ok _ hrest
  · rename_i op hop
    have hk : t.kind ≠ .newline := by
      intro hk
      rw [hk] at hop
      cases hop
    refine .check e ?_
    exact (h.expr (hrest.tail hk) tail).bind fun value rest₂ hrest₂ => .ok _ hrest₂

/-- The word `then` is looked for behind a condition, where the first part has not run
out. -/
private theorem optional_then_cut (h : Ends tokens) (tail : List Token) :
    Ends (if nextIs (.keyword .then_) tokens then tokens.tail else tokens)
      ∧ (if nextIs (.keyword .then_) (tokens ++ tail) then (tokens ++ tail).tail
          else tokens ++ tail)
        = (if nextIs (.keyword .then_) tokens then tokens.tail else tokens) ++ tail := by
  rw [nextIs_cut h]
  by_cases hthen : nextIs (.keyword .then_) tokens = true
  · rw [if_pos hthen, if_pos hthen]
    exact h.tail_of_nextIs (by simp) hthen tail
  · rw [if_neg hthen, if_neg hthen]
    exact ⟨h, rfl⟩

/-- Arms are only known to be over when the `end` behind them is seen. -/
theorem ifArm_short (h : NestedCuts p q ps qs) (rounds : Nat) (pos : Position)
    (hends : Ends tokens) (tail : List Token) :
    Short tail (ifArm stop p ps rounds pos tokens)
      (ifArm stop' q qs rounds pos (tokens ++ tail)) := by
  induction rounds generalizing pos tokens with
  | zero => exact .inl (hends.unexpected _)
  | succ rounds ih =>
    simp only [ifArm]
    refine (h.expr hends tail).short fun condition rest₁ hrest₁ => ?_
    obtain ⟨hthen, heq⟩ := optional_then_cut hrest₁ tail
    dsimp only
    rw [heq]
    refine (block_short h.stmt h.shrinks _ rounds hthen tail).short (fun yes rest₂ hrest₂ => ?_)
      fun yes => ⟨_, rfl⟩
    -- what may stand behind the block: another arm, an `else` block, or nothing
    have harm {next : Position} {ts : List Token} (hts : Ends ts) :
        Short tail
          (ifArm stop p ps rounds next ts >>= fun a =>
            pure (Stmt.if_ pos condition yes (some [a.1]), a.2))
          (ifArm stop' q qs rounds next (ts ++ tail) >>= fun a =>
            pure (Stmt.if_ pos condition yes (some [a.1]), a.2)) :=
      (ih next hts).map fun arm => Stmt.if_ pos condition yes (some [arm])
    have helse {ts : List Token} (hts : Ends ts) :
        Short tail
          (block stop ps [.end_] rounds ts >>= fun a =>
            pure (Stmt.if_ pos condition yes (some a.1), a.2))
          (block stop' qs [.end_] rounds (ts ++ tail) >>= fun a =>
            pure (Stmt.if_ pos condition yes (some a.1), a.2)) :=
      (block_short h.stmt h.shrinks _ rounds hts tail).map
        fun no => Stmt.if_ pos condition yes (some no)
    have hlast : Short tail (.ok (Stmt.if_ pos condition yes none, rest₂))
        (.ok (Stmt.if_ pos condition yes none, rest₂ ++ tail)) :=
      .inl (.ok _ hrest₂)
    obtain ⟨⟨kind, lexeme, next⟩, ts, rfl⟩ := List.exists_cons_of_ne_nil hrest₂.ne_nil
    cases kind with
    | keyword k =>
      cases k with
      | elif => exact harm (hrest₂.tail (by simp))
      | else_ =>
        have hts : Ends ts := hrest₂.tail (by simp)
        obtain ⟨⟨kind', lexeme', next'⟩, ts', rfl⟩ := List.exists_cons_of_ne_nil hts.ne_nil
        cases kind' with
        | keyword k' =>
          cases k' with
          -- `else if` is one more arm
          | if_ => exact harm (hts.tail (by simp))
          | _ => exact helse hts
        | _ => exact helse hts
      | _ => exact hlast
    | _ => exact hlast

private theorem ifStatement_cuts (h : NestedCuts p q ps qs) (rounds : Nat) (pos : Position) :
    Cuts Ends (ifStatement stop p ps rounds pos) (ifStatement stop' q qs rounds pos) := by
  intro tokens hends tail
  refine (ifArm_short h rounds pos hends tail).bind (fun arms rest hrest => ?_)
    fun _ => Starved.bind (starved_unexpected (.keyword .end_)) _
  exact (expect_cuts _ (by simp) hrest tail).bind fun _ rest' hrest' => .ok arms hrest'

/-- The form is decided by tokens of the first part, so both runs choose the same one. -/
private theorem openStatement_cuts (h : NestedCuts p q ps qs) (rounds : Nat) :
    Cuts Ends (openStatement stop p ps rounds) (openStatement stop' q qs rounds) := by
  intro tokens hends tail
  obtain ⟨t, rest, rfl⟩ := List.exists_cons_of_ne_nil hends.ne_nil
  have hrest (hk : t.kind ≠ .newline) : Ends rest := hends.tail hk
  simp only [openStatement, List.cons_append]
  split
  case h_1 hkind => exact letStatement_cuts h _ (hrest (by simp [hkind])) tail
  case h_2 hkind => exact changeStatement_cuts h _ (hrest (by simp [hkind])) tail
  case h_3 hkind => exact ifStatement_cuts h rounds _ (hrest (by simp [hkind])) tail
  case h_4 hkind => exact whileStatement_cuts h rounds _ (hrest (by simp [hkind])) tail
  case h_5 hkind => exact forStatement_cuts h rounds _ (hrest (by simp [hkind])) tail
  case h_6 hkind => exact returnStatement_cuts h _ (hrest (by simp [hkind])) tail
  case h_7 hkind | h_8 hkind => exact .ok _ (hrest (by simp [hkind]))
  case h_9 k _ _ _ _ _ _ _ _ hkind =>
    have hends' : Ends rest := hrest (by simp [hkind])
    rw [nextIs_cut hends']
    split
    · exact functionStatement_cuts h rounds k _ hends' tail
    · exact expressionStatement_cuts h hends tail
  case h_10 => exact expressionStatement_cuts h hends tail

/-- The line end before the cut may be the one that ends the statement. Then the beginning
is used up, and the whole goes on with the tail. -/
private theorem statementEnd_cut (hends : Ends tokens) (tail : List Token) (s : Stmt) :
    Agrees Loose tail (statementEnd stop tokens >>= fun rest => pure (s, rest))
      (statementEnd stop' (tokens ++ tail) >>= fun rest => pure (s, rest)) := by
  simp only [statementEnd, nextIs_cut hends, atStatementEnd_cut hends]
  split
  · obtain ⟨t, others, rfl⟩ := List.exists_cons_of_ne_nil hends.ne_nil
    exact .ok s hends.loose_tail
  split
  · exact .ok s (.inr hends)
  · exact hends.unexpected _

private theorem endedStatement_cuts (h : NestedCuts p q ps qs) (rounds : Nat) :
    Cuts Loose (endedStatement stop p ps rounds) (endedStatement stop' q qs rounds) := by
  intro tokens hends tail
  exact (openStatement_cuts h rounds hends tail).bind
    fun s rest hrest => statementEnd_cut hrest tail s

end Nested

-- ======================================================== the knot

private theorem expression_hungry (stop : Position) (depth demand : Nat) :
    Hungry (expression stop depth demand) := by
  cases depth with
  | zero => exact starved_unexpected .expression
  | succ depth =>
    show Starved (expression stop (depth + 1) demand [])
    rw [expression]
    exact (operand_hungry depth).bind _

/-- The knot: expressions and statements of every depth. -/
theorem cuts (stop stop' : Position) (depth : Nat) :
    (∀ demand, Cuts Ends (expression stop depth demand) (expression stop' depth demand))
      ∧ Cuts Loose (statement stop depth) (statement stop' depth) := by
  induction depth with
  | zero =>
    refine ⟨fun demand tokens hends tail => ?_, fun tokens hends tail => ?_⟩
    · rw [expression, expression]
      exact hends.unexpected _
    · rw [statement, statement]
      exact hends.unexpected _
  | succ depth ih =>
    have h (demand : Nat) : NestedCuts (expression stop depth demand)
        (expression stop' depth demand) (statement stop depth) (statement stop' depth) :=
      ⟨ih.1 demand, ih.2, expression_hungry stop depth demand, (reads stop depth).2.shrinks⟩
    refine ⟨fun demand tokens hends tail => ?_, fun tokens hends tail => ?_⟩
    · rw [expression, expression]
      refine (operand_cuts h depth hends tail).bind fun e rest hrest => ?_
      exact climb_cuts h demand depth e hrest tail
    · rw [statement, statement]
      exact endedStatement_cuts (h 0) depth hends tail

-- ======================================================== programs

/-- A program cut off behind a line end: its beginning is starved, or it is refused for
what the whole is refused for, or the whole is the beginning and then what the tokens
behind the cut give. -/
theorem program_append (stop stop' : Position) (hloose : Loose tokens)
    (heof : ∀ t ∈ tokens, t.kind ≠ .eof) (tail : List Token) :
    Starved (program stop tokens)
      ∨ (∃ e, program stop tokens = .error e ∧ program stop' (tokens ++ tail) = .error e)
      ∨ ∃ first, program stop tokens = .ok first
        ∧ program stop' (tokens ++ tail) = (program stop' tail).map (first ++ ·) := by
  have hd : depthFor tokens ≤ depthFor (tokens ++ tail) := by
    simp only [depthFor, List.length_append]
    omega
  have hd' : depthFor tail ≤ depthFor (tokens ++ tail) := by
    simp only [depthFor, List.length_append]
    omega
  rw [program_eq_of_depthFor_le stop tokens hd hd,
    program_eq_of_depthFor_le stop' (tokens ++ tail) (Nat.le_refl _) (Nat.le_refl _)]
  rcases block_cut (cuts stop stop' (depthFor (tokens ++ tail))).2 (reads stop _).2.shrinks []
    (depthFor (tokens ++ tail)) hloose tail with
    (hstarved | ⟨e, he, he'⟩ | ⟨statements, rest, hrest, hread, -⟩)
      | ⟨first, left, hfirst, hleft, hwhole⟩
  · exact .inl (hstarved.bind _)
  · rw [he, he']
    exact .inr (.inl ⟨e, rfl, rfl⟩)
  · exact absurd (block_rest_eq_nil _ heof hread) hrest.ne_nil
  · refine .inr (.inr ⟨first, ?_, ?_⟩)
    · rw [hfirst]
      rfl
    · have hrounds : depthFor tail ≤ left := by
        simp only [depthFor, List.length_append] at hleft ⊢
        omega
      rw [hwhole, program_eq_of_depthFor_le stop' tail hd' hrounds]
      cases block stop' (statement stop' (depthFor (tokens ++ tail))) [] left tail <;> rfl

/-- A program cut off behind a line end: its beginning is starved, or both parts
are programs and the whole is one behind the other. -/
theorem program_cut (stop stop' : Position) {tokens tail : List Token} (hloose : Loose tokens)
    (heof : ∀ t ∈ tokens, t.kind ≠ .eof) {whole : Program}
    (h : program stop' (tokens ++ tail) = .ok whole) :
    Starved (program stop tokens)
      ∨ ∃ first second, program stop tokens = .ok first ∧ program stop' tail = .ok second
        ∧ whole = first ++ second := by
  rcases program_append stop stop' hloose heof tail with
    hstarved | ⟨e, -, he⟩ | ⟨first, hfirst, hwhole⟩
  · exact .inl hstarved
  · rw [h] at he
    cases he
  · rw [h] at hwhole
    cases hsecond : program stop' tail with
    | error e =>
      rw [hsecond] at hwhole
      cases hwhole
    | ok second =>
      rw [hsecond] at hwhole
      exact .inr ⟨first, second, hfirst, rfl, Except.ok.inj hwhole⟩

end Scriptlet.Parser
