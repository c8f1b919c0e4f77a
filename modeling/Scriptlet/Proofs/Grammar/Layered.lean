/-
Climbing is the layered grammar. `Parser.expression` knows precedence as pairs
of numbers and joins operands in one loop; the textbook reading has a parser
for each layer of operators, from `||` down to `**`, each calling that of the
next layer. The two are one parser: same tree, same tokens left, same error
(`Parser.expression_eq_layered`).

# From one loop to a parser per layer

Write `E d` for reading with the demand `d` and `C d` for the loop behind the
first operand.

- Demands split: `C d` is `C d'` and then `C d`, for every `d ≤ d'`, since the
  stronger demand only stops earlier (`climbed_split`). So `E d` is `E d'` and
  then `C d`.
- Behind `E d'` stands no operator that holds `d'` or more (`climbed_held`). If
  the operators from `d` up to `d'` are those of one layer, and read their right
  sides with `d'`, then `C d` behind `E d'` takes these and no others: it is the
  loop of the layer (`Climbs.layer_eq`).
- Above the products only `**` is left. It is stronger than a sign before it
  and reads its right side with less than its own power, so that behind it or
  behind a sign the loop has nothing more to take: it goes round once at most,
  and that is the `unary` of the grammar (`Climbs.unary_eq`).

The layers are compared for given parsers of what is nested in an operand. That
the nested expressions may be read by layers too is an induction on the number
of tokens, with the lemmas on parsers that agree up to a length (`Nested`, with
no move of positions).
-/
import Scriptlet.Proofs.Grammar.Budget
import Scriptlet.Token.Lexeme

namespace Scriptlet.Parser

variable {stop : Position}

-- ============================================== operators by layer

/-- The operators of a disjunction. -/
def orJoint? : Token.Kind → Option Joint
  | .symbol .pipes | .keyword .or_ => some (.logical .or)
  | _ => none

/-- The operators of a conjunction. -/
def andJoint? : Token.Kind → Option Joint
  | .symbol .ampersands | .keyword .and_ => some (.logical .and)
  | _ => none

/-- The operators of an equation. -/
def equalityJoint? : Token.Kind → Option Joint
  | .symbol .equalEqual => some (.binary .equal)
  | .symbol .bangEqual => some (.binary .notEqual)
  | _ => none

/-- The operators of a comparison. -/
def orderJoint? : Token.Kind → Option Joint
  | .symbol .less => some (.binary .less)
  | .symbol .lessEqual => some (.binary .lessEqual)
  | .symbol .greater => some (.binary .greater)
  | .symbol .greaterEqual => some (.binary .greaterEqual)
  | _ => none

/-- The operators of a sum. -/
def sumJoint? : Token.Kind → Option Joint
  | .symbol .plus => some (.binary .add)
  | .symbol .minus => some (.binary .sub)
  | _ => none

/-- The operators of a product. -/
def productJoint? : Token.Kind → Option Joint
  | .symbol .star => some (.binary .mul)
  | .symbol .slash => some (.binary .div)
  | .symbol .percent => some (.binary .mod)
  | _ => none

-- ============================================= the layered grammar

/-- Joins `left` with what follows, grouped to the left: as long as an operator
of the layer stands next, with what `next` reads behind it. -/
def chain (stop : Position) (joint? : Token.Kind → Option Joint) (next : Parser Expr) :
    Nat → Expr → Parser Expr
  | 0, _, tokens => .error (unexpected stop .expression tokens)
  | _ + 1, left, [] => .ok (left, [])
  | rounds + 1, left, t :: rest =>
      match joint? t.kind with
      | none => .ok (left, t :: rest)
      | some joint => do
          let (right, rest) ← next rest
          chain stop joint? next rounds (joint.join t.pos left right) rest

/-- `layer := next (operator next)*`. -/
def layer (stop : Position) (joint? : Token.Kind → Option Joint) (next : Parser Expr) :
    Parser Expr := fun tokens => do
  let (left, rest) ← next tokens
  chain stop joint? next (rest.length + 1) left rest

/-- An operand with the calls, index steps and members behind it. -/
def suffixed (stop : Position) (expression : Parser Expr) (statement : Parser Stmt)
    (rounds : Nat) : Parser Expr := fun tokens => do
  let (e, rest) ← primary stop expression statement rounds tokens
  suffixes stop expression rounds e rest

/-- `prefixed := (- | ! | not) unary | bare`. -/
def prefixed (unary bare : Parser Expr) : Parser Expr
  | [] => bare []
  | t :: rest =>
      match unaryOf? t.kind with
      | some op => do
          let (e, rest) ← unary rest
          return (.unary t.pos op e, rest)
      | none => bare (t :: rest)

/-- `power := base [** unary]`. -/
def power (base unary : Parser Expr) : Parser Expr := fun tokens => do
  let (left, rest) ← base tokens
  match rest with
  | [] => return (left, [])
  | t :: behind =>
      if t.kind = .symbol .starStar then do
        let (right, rest) ← unary behind
        return (.binary t.pos .pow left right, rest)
      else return (left, t :: behind)

/-- `unary := (- | ! | not) unary | power`. -/
def unary (stop : Position) (base : Parser Expr) : Nat → Parser Expr
  | 0, tokens => .error (unexpected stop .expression tokens)
  | rounds + 1, tokens =>
      prefixed (unary stop base rounds) (power base (unary stop base rounds)) tokens

/-- `product := unary ((* | / | %) unary)*`. -/
def product (stop : Position) (base : Parser Expr) : Parser Expr :=
  layer stop productJoint? fun tokens => unary stop base (tokens.length + 1) tokens

/-- `sum := product ((+ | -) product)*`. -/
def sum (stop : Position) (base : Parser Expr) : Parser Expr :=
  layer stop sumJoint? (product stop base)

/-- `comparison := sum ((< | <= | > | >=) sum)*`. -/
def comparison (stop : Position) (base : Parser Expr) : Parser Expr :=
  layer stop orderJoint? (sum stop base)

/-- `equation := comparison ((== | !=) comparison)*`. -/
def equation (stop : Position) (base : Parser Expr) : Parser Expr :=
  layer stop equalityJoint? (comparison stop base)

/-- `conjunction := equation (&& equation)*`. -/
def conjunction (stop : Position) (base : Parser Expr) : Parser Expr :=
  layer stop andJoint? (equation stop base)

/-- `disjunction := conjunction (|| conjunction)*`. -/
def disjunction (stop : Position) (base : Parser Expr) : Parser Expr :=
  layer stop orJoint? (conjunction stop base)

mutual

/-- Reads an expression by layers, and all that is nested in it. -/
def layered (stop : Position) : Nat → Parser Expr
  | 0, tokens => .error (unexpected stop .expression tokens)
  | depth + 1, tokens =>
      disjunction stop (suffixed stop (layered stop depth) (layeredStatement stop depth) depth)
        tokens

/-- Reads a statement with what ends it, its expressions by layers. -/
def layeredStatement (stop : Position) : Nat → Parser Stmt
  | 0, tokens => .error (unexpected stop .expression tokens)
  | depth + 1, tokens =>
      endedStatement stop (layered stop depth) (layeredStatement stop depth) depth tokens

end

-- ======================================================== the loop

/-- What follows agrees if it does wherever the first step ends. -/
theorem bind_congr_ok {ε α β : Type} {x : Except ε α} {f g : α → Except ε β}
    (h : ∀ a, x = .ok a → f a = g a) : (x >>= f) = (x >>= g) := by
  cases x with
  | error e => rfl
  | ok a => exact h a rfl

/-- No operator at the front of the tokens holds its left side with `demand` or
more. -/
def Held (demand : Nat) : List Token → Prop
  | [] => True
  | t :: _ => ∀ power, Power.of? t.kind = some power → power.left < demand

/-- A demand that no operator tells from a stronger one asks for as much. -/
theorem Held.lower {low high : Nat}
    (hnone : ∀ kind, ∀ power ∈ Power.of? kind, low ≤ power.left → high ≤ power.left)
    {tokens : List Token} (h : Held high tokens) : Held low tokens := by
  cases tokens with
  | nil => trivial
  | cons t rest =>
    intro power hpower
    have hweak : power.left < high := h power hpower
    exact Nat.not_le.1 fun hle => Nat.not_le.2 hweak (hnone t.kind power hpower hle)

section Loop

variable {E : Nat → Parser Expr} {demand demand' : Nat}

/-- The loop of climbing, with rounds enough for the tokens. -/
def climbed (stop : Position) (E : Nat → Parser Expr) (demand : Nat) (a : Expr × List Token) :
    Except ParseError (Expr × List Token) :=
  climb stop E demand (a.2.length + 1) a.1 a.2

/-- The loop looks at its parser on the tokens it is given, and never uses up
rounds enough for these. -/
theorem climb_eq_climbed (hE : ∀ demand, Shrinks (E demand)) {F : Nat → Parser Expr} {rounds : Nat}
    (left : Expr) (tokens : List Token)
    (hF : ∀ demand (behind : List Token), behind.length ≤ tokens.length →
      F demand behind = E demand behind)
    (hr : tokens.length < rounds) :
    climb stop F demand rounds left tokens = climbed stop E demand (left, tokens) := by
  suffices h : ∀ rounds', tokens.length < rounds' →
      climb stop F demand rounds left tokens = climb stop E demand rounds' left tokens from
    h _ (Nat.lt_succ_self _)
  intro rounds' hr'
  induction rounds generalizing rounds' left tokens with
  | zero => omega
  | succ rounds ih =>
    obtain ⟨rounds', rfl⟩ : ∃ k, rounds' = k + 1 := ⟨rounds' - 1, by omega⟩
    cases tokens with
    | nil => rfl
    | cons t rest =>
      simp only [List.length_cons] at hF hr hr'
      simp only [climb]
      split
      · rfl
      · split
        · rfl
        · rw [hF _ rest (by omega)]
          refine bind_congr_ok fun a ha => ?_
          have hlen := hE _ ha
          exact ih _ a.2 (fun demand behind hbehind => hF demand behind (by omega)) (by omega) _
            (by omega)

/-- Where no operator may be taken, climbing is over. -/
private theorem climbed_of_held {tokens : List Token} (h : Held demand tokens) (left : Expr) :
    climbed stop E demand (left, tokens) = .ok (left, tokens) := by
  cases tokens with
  | nil => rfl
  | cons t rest =>
    simp only [climbed, climb]
    split
    · rfl
    · next power hpower => rw [if_pos (h power hpower)]

/-- Where one may be taken, it is, with an operand to its right that is read with the
demand of its own right side. -/
private theorem climbed_of_le (hE : ∀ demand, Shrinks (E demand)) {t : Token} {power : Power}
    (hpower : Power.of? t.kind = some power) (h : demand ≤ power.left) (left : Expr)
    (rest : List Token) :
    climbed stop E demand (left, t :: rest)
      = E power.right rest >>= fun a =>
          climbed stop E demand (power.joint.join t.pos left a.1, a.2) := by
  simp only [climbed, climb, hpower]
  rw [if_neg (Nat.not_lt.2 h)]
  refine bind_congr_ok fun a ha => ?_
  have hlen := hE _ ha
  exact climb_eq_climbed hE _ a.2 (fun _ _ _ => rfl) (by simp only [List.length_cons]; omega)

/-- Induction along the rounds of the loop: an operator that holds `demand`
stands next, or none does. -/
theorem climbed_induct (hE : ∀ demand, Shrinks (E demand)) (demand : Nat)
    {motive : Expr → List Token → Prop}
    (held : ∀ left tokens, Held demand tokens → motive left tokens)
    (takes : ∀ left t rest power, Power.of? t.kind = some power → demand ≤ power.left →
      (∀ right behind, E power.right rest = .ok (right, behind) →
        motive (power.joint.join t.pos left right) behind) → motive left (t :: rest))
    (left : Expr) (tokens : List Token) : motive left tokens := by
  induction hlen : tokens.length using Nat.strongRecOn generalizing left tokens with
  | _ n ih =>
    cases tokens with
    | nil => exact held left [] trivial
    | cons t rest =>
      by_cases hheld : Held demand (t :: rest)
      · exact held left _ hheld
      · simp only [Held, Classical.not_forall, Nat.not_lt] at hheld
        obtain ⟨power, hpower, hle⟩ := hheld
        refine takes left t rest power hpower hle fun right behind hright => ?_
        have hbehind := hE _ hright
        exact ih behind.length (by simp only [List.length_cons] at hlen; omega) _ behind rfl

/-- Where the loop ends, no operator holds its demand. -/
theorem climbed_held (hE : ∀ demand, Shrinks (E demand)) (left : Expr) (tokens : List Token)
    {e : Expr} {rest : List Token} (h : climbed stop E demand (left, tokens) = .ok (e, rest)) :
    Held demand rest := by
  induction left, tokens using climbed_induct hE demand with
  | held left tokens hheld =>
    rw [climbed_of_held hheld] at h
    cases h
    exact hheld
  | takes left t behind power hpower hle ih =>
    rw [climbed_of_le hE hpower hle] at h
    obtain ⟨a, ha, h⟩ := Except.ok_of_bind h
    exact ih a.1 a.2 ha h

/-- A stronger demand stops the loop earlier, and a weaker one goes on from
there. -/
theorem climbed_split (hE : ∀ demand, Shrinks (E demand)) (h : demand ≤ demand') (left : Expr)
    (tokens : List Token) :
    climbed stop E demand (left, tokens)
      = climbed stop E demand' (left, tokens) >>= climbed stop E demand := by
  induction left, tokens using climbed_induct hE demand' with
  | held left tokens hheld =>
    rw [climbed_of_held hheld]
    rfl
  | takes left t rest power hpower hle ih =>
    rw [climbed_of_le hE hpower hle, climbed_of_le hE hpower (Nat.le_trans h hle), bind_assoc]
    exact bind_congr_ok fun a ha => ih a.1 a.2 ha

end Loop

-- =========================================== the table by its layers

/-- Every kind of token. -/
def kinds : List Token.Kind :=
  [.name, .number, .string, .newline, .indent, .dedent, .eof] ++ Keyword.all.map .keyword
    ++ Lexeme.symbols.map fun entry => .symbol entry.2

private theorem mem_kinds (kind : Token.Kind) : kind ∈ kinds := by
  cases kind with
  | keyword k => simp [kinds, Keyword.mem_all k]
  | symbol s => cases s <;> decide
  | _ => decide

private theorem forall_kind {p : Token.Kind → Prop} (h : ∀ kind ∈ kinds, p kind)
    (kind : Token.Kind) :
    p kind :=
  h kind (mem_kinds kind)

/-- The operators that hold their left side with `low` or more, but less than
`high`, are those of one layer and group to the left. -/
structure Tier (low high : Nat) (joint? : Token.Kind → Option Joint) : Prop where
  le : low ≤ high
  takes : ∀ kind, ∀ power ∈ Power.of? kind, low ≤ power.left → power.left < high →
    joint? kind = some power.joint ∧ power.right = high
  only : ∀ kind, ∀ joint ∈ joint? kind, ∃ power ∈ Power.of? kind, low ≤ power.left

/-- The powers of the operators, layer by layer. Each is a table of finitely many
kinds. -/
private theorem tier_or : Tier 0 2 orJoint? :=
  ⟨by decide, forall_kind (by decide), forall_kind (by decide)⟩

private theorem tier_and : Tier 2 4 andJoint? :=
  ⟨by decide, forall_kind (by decide), forall_kind (by decide)⟩

private theorem tier_equality : Tier 4 6 equalityJoint? :=
  ⟨by decide, forall_kind (by decide), forall_kind (by decide)⟩

private theorem tier_order : Tier 6 8 orderJoint? :=
  ⟨by decide, forall_kind (by decide), forall_kind (by decide)⟩

private theorem tier_sum : Tier 8 10 sumJoint? :=
  ⟨by decide, forall_kind (by decide), forall_kind (by decide)⟩

private theorem tier_product : Tier 10 12 productJoint? :=
  ⟨by decide, forall_kind (by decide), forall_kind (by decide)⟩

/-- Behind the products only `**` is left. -/
theorem eq_pow_of_le : ∀ kind, ∀ power ∈ Power.of? kind, 12 ≤ power.left →
    kind = .symbol .starStar ∧ power = ⟨15, 14, .binary .pow⟩ :=
  forall_kind (by decide)

/-- No operator tells the demands from that of a product's side up to that of
`**` from each other. -/
theorem above_products {low high : Nat} (hlow : 12 ≤ low) (hhigh : high ≤ 15)
    (kind : Token.Kind) (power : Power) (hpower : power ∈ Power.of? kind)
    (hle : low ≤ power.left) : high ≤ power.left := by
  obtain ⟨-, rfl⟩ := eq_pow_of_le kind power hpower (Nat.le_trans hlow hle)
  exact hhigh

-- ========================================== climbing over operands

/-- What climbing does on up to `n` tokens, given the parser of operands with
what stands behind them. -/
structure Climbs (stop : Position) (n : Nat) (E : Nat → Parser Expr) (base : Parser Expr) :
    Prop where
  shrinks : ∀ demand, Shrinks (E demand)
  base_shrinks : ∀ ⦃tokens e rest⦄, tokens.length ≤ n → base tokens = .ok (e, rest) →
    rest.length < tokens.length
  reads : ∀ demand tokens, tokens.length ≤ n →
    E demand tokens = prefixed (E unaryPower) base tokens >>= climbed stop E demand

namespace Climbs

variable {n : Nat} {E : Nat → Parser Expr} {base : Parser Expr}

/-- Reading with a demand is reading with a stronger one and then going on. -/
theorem split (h : Climbs stop n E base) {demand demand' : Nat} (hle : demand ≤ demand')
    {tokens : List Token} (hlen : tokens.length ≤ n) :
    E demand tokens = E demand' tokens >>= climbed stop E demand := by
  rw [h.reads demand tokens hlen, h.reads demand' tokens hlen, bind_assoc]
  exact bind_congr_ok fun a _ => climbed_split h.shrinks hle a.1 a.2

/-- What is left behind a reading begins with no operator that it would have taken. -/
theorem held (h : Climbs stop n E base) {demand : Nat} {tokens rest : List Token} {e : Expr}
    (hlen : tokens.length ≤ n) (he : E demand tokens = .ok (e, rest)) : Held demand rest := by
  rw [h.reads demand tokens hlen] at he
  obtain ⟨a, -, ha⟩ := Except.ok_of_bind he
  exact climbed_held h.shrinks a.1 a.2 ha

/-- A demand may be raised up to the next operator. -/
theorem demand_eq (h : Climbs stop n E base) {low high : Nat} (hle : low ≤ high)
    (hnone : ∀ kind, ∀ power ∈ Power.of? kind, low ≤ power.left → high ≤ power.left)
    {tokens : List Token} (hlen : tokens.length ≤ n) : E low tokens = E high tokens := by
  rw [h.split hle hlen]
  cases hread : E high tokens with
  | error e => rfl
  | ok a => exact climbed_of_held ((h.held hlen hread).lower hnone) a.1

-- ------------------------------------------------ a layer of operators

/-- The loop of a layer is that of climbing, where nothing stronger stands
next. -/
theorem chain_eq (h : Climbs stop n E base) {low high : Nat} {joint? : Token.Kind → Option Joint}
    (tier : Tier low high joint?) {next : Parser Expr}
    (hnext : ∀ tokens : List Token, tokens.length ≤ n → next tokens = E high tokens)
    {rounds : Nat} (left : Expr) (tokens : List Token) (hlen : tokens.length ≤ n)
    (hr : tokens.length < rounds) (hheld : Held high tokens) :
    chain stop joint? next rounds left tokens = climbed stop E low (left, tokens) := by
  induction left, tokens using climbed_induct h.shrinks low generalizing rounds with
  | held left tokens hlow =>
    obtain ⟨rounds, rfl⟩ : ∃ k, rounds = k + 1 := ⟨rounds - 1, by omega⟩
    rw [climbed_of_held hlow]
    cases tokens with
    | nil => rfl
    | cons t rest =>
      cases hjoint : joint? t.kind with
      | none => simp only [chain, hjoint]
      | some joint =>
        obtain ⟨power, hpower, hle⟩ := tier.only t.kind joint hjoint
        exact absurd (hlow power hpower) (Nat.not_lt.2 hle)
  | takes left t rest power hpower hle ih =>
    obtain ⟨rounds, rfl⟩ : ∃ k, rounds = k + 1 := ⟨rounds - 1, by omega⟩
    simp only [List.length_cons] at hlen hr
    obtain ⟨hjoint, hright⟩ := tier.takes t.kind power hpower hle (hheld power hpower)
    rw [climbed_of_le h.shrinks hpower hle, hright]
    simp only [chain, hjoint, hnext rest (by omega)]
    -- the right side, read with `high`, leaves nothing stronger for the next round
    refine bind_congr_ok fun a ha => ?_
    have hbehind := h.shrinks high ha
    exact ih a.1 a.2 (hright ▸ ha) (by omega) (by omega) (h.held (by omega) ha)

/-- Reading with the weakest power of a layer is the layer over reading with a
stronger one. -/
theorem layer_eq (h : Climbs stop n E base) {low high : Nat} {joint? : Token.Kind → Option Joint}
    (tier : Tier low high joint?) {next : Parser Expr}
    (hnext : ∀ tokens : List Token, tokens.length ≤ n → next tokens = E high tokens)
    (tokens : List Token) (hlen : tokens.length ≤ n) :
    layer stop joint? next tokens = E low tokens := by
  rw [h.split tier.le hlen]
  simp only [layer, hnext tokens hlen]
  refine bind_congr_ok fun a ha => ?_
  have hrest := h.shrinks high ha
  exact h.chain_eq tier hnext a.1 a.2 (by omega) (by omega) (h.held hlen ha)

-- ---------------------------------------------- signs and powers

/-- Behind a base the loop takes one power at most, if it is to hold like an
operand of a sign. -/
theorem power_eq (h : Climbs stop n E base) {unary : Parser Expr} {tokens : List Token}
    (hlen : tokens.length ≤ n)
    (hunary : ∀ behind : List Token, behind.length < tokens.length →
      unary behind = E unaryPower behind) :
    power base unary tokens = base tokens >>= climbed stop E unaryPower := by
  refine bind_congr_ok fun a ha => ?_
  obtain ⟨left, rest⟩ := a
  have hrest := h.base_shrinks hlen ha
  cases rest with
  | nil => rfl
  | cons t behind =>
    simp only [List.length_cons] at hrest
    by_cases hpow : t.kind = .symbol .starStar
    · have hpower : Power.of? t.kind = some ⟨15, 14, .binary .pow⟩ := by rw [hpow]; rfl
      have hright : E unaryPower behind = E 14 behind :=
        h.demand_eq (by decide) (above_products (by decide) (by decide)) (by omega)
      rw [climbed_of_le h.shrinks hpower (by decide)]
      simp only [if_pos hpow, hunary behind (by omega), hright]
      -- the right side leaves nothing that holds like an operand of a sign
      refine bind_congr_ok fun b hb => ?_
      rw [← hright] at hb
      exact (climbed_of_held (h.held (by omega) hb) _).symm
    · have hheld : Held unaryPower (t :: behind) := fun power hpower =>
        Nat.not_le.1 fun hle =>
          hpow (eq_pow_of_le t.kind power hpower (Nat.le_trans (by decide) hle)).1
      simp only [if_neg hpow]
      exact (climbed_of_held hheld left).symm

/-- A sign reads its operand with the demand of signs, which is stronger than that of all
layers but the power's. -/
private theorem unary_eq (h : Climbs stop n E base) {rounds : Nat} (tokens : List Token)
    (hlen : tokens.length ≤ n) (hr : tokens.length < rounds) :
    unary stop base rounds tokens = E unaryPower tokens := by
  induction rounds generalizing tokens with
  | zero => omega
  | succ rounds ih =>
    have hpower : power base (unary stop base rounds) tokens
        = base tokens >>= climbed stop E unaryPower :=
      h.power_eq hlen fun behind hbehind => ih behind (by omega) (by omega)
    rw [h.reads unaryPower tokens hlen]
    cases tokens with
    | nil => exact hpower
    | cons t rest =>
      simp only [List.length_cons] at hlen hr
      simp only [unary, prefixed]
      split
      · next op hop =>
        -- the operand of a sign was read with what the sign holds: the loop ends
        rw [ih rest (by omega) (by omega), bind_assoc]
        refine bind_congr_ok fun a ha => ?_
        exact (climbed_of_held (h.held (by omega) ha) _).symm
      · exact hpower

-- ---------------------------------------------------- all layers

/-- The layers one inside the other, from the weakest operators to the strongest. -/
private theorem disjunction_eq (h : Climbs stop n E base) (tokens : List Token)
    (hlen : tokens.length ≤ n) :
    disjunction stop base tokens = E 0 tokens := by
  have hunary (tokens : List Token) (hlen : tokens.length ≤ n) :
      unary stop base (tokens.length + 1) tokens = E 12 tokens := by
    rw [h.unary_eq tokens hlen (Nat.lt_succ_self _)]
    exact (h.demand_eq (by decide) (above_products (by decide) (by decide)) hlen).symm
  have hproduct := h.layer_eq tier_product hunary
  have hsum := h.layer_eq tier_sum hproduct
  have hcomparison := h.layer_eq tier_order hsum
  have hequation := h.layer_eq tier_equality hcomparison
  have hconjunction := h.layer_eq tier_and hequation
  exact h.layer_eq tier_or hconjunction tokens hlen

end Climbs

-- ==================================================== what is nested

private theorem suffixed_shrinks {expression : Parser Expr} {statement : Parser Stmt}
    (hexpr : Reads Expr.pieces expression) (hstmt : Reads Stmt.pieces statement) (rounds : Nat) :
    Shrinks (suffixed stop expression statement rounds) := by
  intro tokens e rest h
  obtain ⟨a, ha, h⟩ := Except.ok_of_bind h
  obtain ⟨_, -, htook⟩ := suffixes_took hexpr rounds h
  have hhead := (primary_reads hexpr hstmt rounds ha).length
  have hrest := htook.length
  omega

/-- The operand of climbing is the grammar's, with the sign's power for what
stands behind a sign. -/
theorem operand_eq (expression : Nat → Parser Expr) (statement : Parser Stmt) (rounds : Nat)
    (tokens : List Token) :
    operand stop expression statement rounds tokens
      = prefixed (expression unaryPower) (suffixed stop (expression 0) statement rounds)
          tokens := by
  cases tokens <;> rfl

/-- Bases follow when what is nested in them does, for one token more. -/
theorem suffixed_follows {f : Position → Position} {n r r' : Nat} {p q : Parser Expr}
    {ps qs : Parser Stmt} (h : Nested f n p q ps qs) (hr : n + 1 ≤ r) (hr' : n + 1 ≤ r') :
    Follows f (Expr.moved f) (n + 1) (suffixed stop p ps r) (suffixed (f stop) q qs r') := by
  intro tokens hlen
  refine movedResult_bind (primary_follows h hlen (by omega) (by omega)) fun e behind he => ?_
  have hbehind := (primary_reads h.exprReads h.stmtReads r he).length
  exact suffixes_follow h e (by omega) (by omega) (by omega)

/-- Reading with depth enough climbs, whatever reads the bases as it does. -/
theorem expression_climbs {n depth : Nat} (hdepth : 2 * n + 1 ≤ depth) {base : Parser Expr}
    (hbase : ∀ tokens : List Token, tokens.length ≤ n + 1 →
      base tokens = suffixed stop (expression stop depth 0) (statement stop depth) depth tokens) :
    Climbs stop (n + 1) (expression stop (depth + 1)) base where
  shrinks demand := ((reads stop _).1 demand).shrinks
  base_shrinks tokens e rest hlen h := by
    rw [hbase tokens hlen] at h
    exact suffixed_shrinks ((reads stop depth).1 0) (reads stop depth).2 depth h
  reads demand tokens hlen := by
    have hdeeper (demand : Nat) (behind : List Token) (hbehind : behind.length ≤ n) :
        expression stop depth demand behind = expression stop (depth + 1) demand behind :=
      (follows_id Tree.moved_id.ofExpr).1
        ((follows id stop n).1 (depth + 1) depth (by omega) hdepth demand) behind hbehind
    have hoperand : operand stop (expression stop depth) (statement stop depth) depth tokens
        = prefixed (expression stop (depth + 1) unaryPower) base tokens := by
      rw [operand_eq]
      cases tokens with
      | nil => exact (hbase [] hlen).symm
      | cons t rest =>
        simp only [prefixed]
        split
        · rw [hdeeper _ rest (Nat.le_of_succ_le_succ hlen)]
        · exact (hbase _ hlen).symm
    rw [← hoperand]
    refine bind_congr_ok fun a ha => ?_
    have hbehind := (operand_reads (reads stop depth).1 (reads stop depth).2 depth ha).length
    exact climb_eq_climbed (fun demand => ((reads stop _).1 demand).shrinks) a.1 a.2
      (fun demand behind hlen => hdeeper demand behind (by omega)) (by omega)

/-- By layers is read what climbing reads, with the depths that this needs.
What is nested stands behind a token of its operand or statement, so that the
induction has it for fewer tokens. -/
theorem layered_agrees (stop : Position) (n : Nat) :
    (∀ depth depth', 2 * n + 1 ≤ depth → 2 * n + 1 ≤ depth' → ∀ tokens : List Token,
      tokens.length ≤ n → layered stop depth' tokens = expression stop depth 0 tokens)
    ∧ (∀ depth depth', 2 * n + 2 ≤ depth → 2 * n + 2 ≤ depth' → ∀ tokens : List Token,
      tokens.length ≤ n → layeredStatement stop depth' tokens = statement stop depth tokens) := by
  induction n with
  | zero =>
    -- no token is left, and both parsers fail at the same place
    refine ⟨fun depth depth' hd hd' tokens hlen => ?_,
      fun depth depth' hd hd' tokens hlen => ?_⟩
    · obtain ⟨depth, rfl⟩ : ∃ k, depth = k + 1 := ⟨depth - 1, by omega⟩
      obtain ⟨depth', rfl⟩ : ∃ k, depth' = k + 1 := ⟨depth' - 1, by omega⟩
      obtain rfl := List.length_eq_zero_iff.1 (Nat.le_zero.1 hlen)
      rfl
    · obtain ⟨depth, rfl⟩ : ∃ k, depth = k + 2 := ⟨depth - 2, by omega⟩
      obtain ⟨depth', rfl⟩ : ∃ k, depth' = k + 2 := ⟨depth' - 2, by omega⟩
      obtain rfl := List.length_eq_zero_iff.1 (Nat.le_zero.1 hlen)
      rfl
  | succ n ih =>
    -- whatever stands in brackets is shorter by the bracket, so the induction gives it
    have hnested {depth depth' : Nat} (hd : 2 * n + 2 ≤ depth) (hd' : 2 * n + 2 ≤ depth') :
        Nested id n (expression stop depth 0) (layered stop depth') (statement stop depth)
          (layeredStatement stop depth') :=
      ⟨(follows_id Tree.moved_id.ofExpr).2 (ih.1 depth depth' (by omega) (by omega)),
        (follows_id Tree.moved_id.ofStmt).2 (ih.2 depth depth' hd hd'),
        (reads stop depth).1 0, (reads stop depth).2⟩
    have hexpr (depth depth' : Nat) (hd : 2 * (n + 1) + 1 ≤ depth)
        (hd' : 2 * (n + 1) + 1 ≤ depth') (tokens : List Token) (hlen : tokens.length ≤ n + 1) :
        layered stop depth' tokens = expression stop depth 0 tokens := by
      obtain ⟨depth, rfl⟩ : ∃ k, depth = k + 1 := ⟨depth - 1, by omega⟩
      obtain ⟨depth', rfl⟩ : ∃ k, depth' = k + 1 := ⟨depth' - 1, by omega⟩
      have hbase : Follows id (Expr.moved id) (n + 1)
          (suffixed stop (expression stop depth 0) (statement stop depth) depth)
          (suffixed stop (layered stop depth') (layeredStatement stop depth') depth') :=
        suffixed_follows (hnested (by omega) (by omega)) (by omega) (by omega)
      have hclimbs := expression_climbs (by omega) ((follows_id Tree.moved_id.ofExpr).1 hbase)
      simp only [layered]
      exact hclimbs.disjunction_eq tokens hlen
    refine ⟨hexpr, fun depth depth' hd hd' =>
      (follows_id Tree.moved_id.ofStmt).1 fun tokens hlen => ?_⟩
    obtain ⟨depth, rfl⟩ : ∃ k, depth = k + 1 := ⟨depth - 1, by omega⟩
    obtain ⟨depth', rfl⟩ : ∃ k, depth' = k + 1 := ⟨depth' - 1, by omega⟩
    have hwhole := (follows_id Tree.moved_id.ofExpr).2 (hexpr depth depth' (by omega) (by omega))
    simp only [statement, layeredStatement]
    exact endedStatement_follows (hnested (by omega) (by omega)) hwhole hlen (by omega) (by omega)

-- ==================================================== the equality

/-- Climbing and the layers read every row of tokens alike, wherever in an
input it stands: the same tree with the same positions and the same tokens
behind it, or the same error. -/
theorem expression_eq_layered (stop : Position) (tokens : List Token) {depth depth' : Nat}
    (hd : 2 * tokens.length < depth) (hd' : 2 * tokens.length < depth') :
    expression stop depth 0 tokens = layered stop depth' tokens :=
  ((layered_agrees stop tokens.length).1 depth depth' hd hd' tokens (Nat.le_refl _)).symm

/-- `w ** -x ** y * z)`, read up to the parenthesis, and `a + * b`, refused at
its second operator. -/
theorem expression_eq_layered_mixed :
    let at_ (column : Nat) : Position := ⟨1, column⟩
    let mixed : List Token :=
      [⟨.name, "w", at_ 1⟩, ⟨.symbol .starStar, "**", at_ 3⟩, ⟨.symbol .minus, "-", at_ 6⟩,
        ⟨.name, "x", at_ 7⟩, ⟨.symbol .starStar, "**", at_ 9⟩, ⟨.name, "y", at_ 12⟩,
        ⟨.symbol .star, "*", at_ 14⟩, ⟨.name, "z", at_ 16⟩, ⟨.symbol .rightParen, ")", at_ 17⟩]
    let broken : List Token :=
      [⟨.name, "a", at_ 1⟩, ⟨.symbol .plus, "+", at_ 3⟩, ⟨.symbol .star, "*", at_ 5⟩,
        ⟨.name, "b", at_ 7⟩]
    expression (at_ 18) 19 0 mixed = layered (at_ 18) 20 mixed
      ∧ layered (at_ 18) 20 mixed
          = .ok (.binary (at_ 14) .mul
              (.binary (at_ 3) .pow (.name (at_ 1) "w")
                (.unary (at_ 6) .negate
                  (.binary (at_ 9) .pow (.name (at_ 7) "x") (.name (at_ 12) "y"))))
              (.name (at_ 16) "z"), [⟨.symbol .rightParen, ")", at_ 17⟩])
      ∧ expression (at_ 8) 9 0 broken = layered (at_ 8) 9 broken
      ∧ layered (at_ 8) 9 broken
          = .error ⟨.expression, .token ⟨.symbol .star, "*", at_ 5⟩, at_ 5⟩ :=
  ⟨expression_eq_layered _ _ (by decide) (by decide), rfl,
    expression_eq_layered _ _ (by decide) (by decide), rfl⟩

end Scriptlet.Parser
