/-
Printed data reads back. The text that shows a value made of nil, truth values,
numbers, strings, lists and maps is also a program, and running it gives that
value again.

# The way round

A value's text is cut into tokens piece by piece (`Lexes`). The tokens write an
expression (`Expr.Written`), reading gives that expression back up to positions
(`Parser.program_of_written`), and the expression denotes the value (`Denotes`).
A negative number comes back as a negation, everything else as a literal.

# What is assumed

Numbers are not looked into. Of a finite number it is assumed that the text of
its size reads as its size, and that it is equal to itself
(`Number.ReadsBack`). That this text is digits and perhaps a point and digits is
proved. Characters have to be such that a quoted text shows them as they are or
by a short escape: there is no escape by number in a source.
-/
import Scriptlet.Value.Text
import Scriptlet.Proofs.Eval.Rest
import Scriptlet.Proofs.Grammar.Reread
import Scriptlet.Proofs.ReadBack.Constant
import Scriptlet.Proofs.Value.Equality
import Scriptlet.Proofs.ReadBack.Lexed

namespace Scriptlet

-- ============================================================ data

/-- A finite number whose size reads back from its text. -/
inductive Number.ReadsBack : Float → Prop where
  | mk {n size : Float} {negative : Bool} {mantissa : Nat} {power : Int}
      (finite : Number.parts n = .finite negative mantissa power)
      (reads : Number.ofText? (String.ofList (Number.magnitude mantissa power)) = some size)
      (signed : (if negative then -size else size) = n) (equal : (n == n) = true) :
      Number.ReadsBack n

/-- A key of data. A number is a key only in the form that making a key of it
gives. -/
inductive MapKey.Data : MapKey → Prop where
  | nil : MapKey.Data .nil
  | bool (b : Bool) : MapKey.Data (.bool b)
  | number {bits : UInt64} (reads : Number.ReadsBack (Float.ofBits bits))
      (made : MapKey.ofValue (.number (Float.ofBits bits)) = .ok (.number bits)) :
      MapKey.Data (.number bits)
  | string {s : String} (readable : ∀ c ∈ s.toList, Text.IsReadable c) : MapKey.Data (.string s)

/-- Values that are data all the way down. No key of a map comes twice. -/
inductive Value.Data : Value → Prop where
  | nil : Value.Data .nil
  | bool (b : Bool) : Value.Data (.bool b)
  | number {n : Float} (reads : Number.ReadsBack n) : Value.Data (.number n)
  | string {s : String} (readable : ∀ c ∈ s.toList, Text.IsReadable c) : Value.Data (.string s)
  | list {items : List Value} (parts : ∀ v ∈ items, Value.Data v) : Value.Data (.list items)
  | map {entries : List (MapKey × Value)} (keys : ∀ e ∈ entries, e.1.Data)
      (values : ∀ e ∈ entries, Value.Data e.2) (distinct : (Entries.keys entries).Nodup) :
      Value.Data (.map entries)

-- ========================================================= numbers

/-- A decimal in full is digits, and perhaps a point and digits. -/
theorem Number.Decimal.text_plainly (d : Number.Decimal) : Lexeme.Plainly d.text := by
  have hdigit : ∀ c ∈ Nat.toDigits 10 d.digits, c.isDigit = true := fun c hc =>
    Nat.isDigit_of_mem_toDigits (by decide) (by decide) hc
  have hsome : Nat.toDigits 10 d.digits ≠ [] := Nat.toDigits_ne_nil
  have hzero (n : Nat) : ∀ c ∈ List.replicate n '0', c.isDigit = true := fun c hc => by
    rw [List.eq_of_mem_replicate hc]
    rfl
  unfold Number.Decimal.text
  dsimp only
  split
  · refine .whole (fun h => hsome (List.append_eq_nil_iff.1 h).1) fun c hc => ?_
    exact (List.mem_append.1 hc).elim (hdigit c) (hzero _ c)
  · next hpower =>
    split
    · next hplaces =>
      refine .point ?_ (fun c hc => hdigit c (List.mem_of_mem_take hc)) ?_
        fun c hc => hdigit c (List.mem_of_mem_drop hc)
      · intro h
        rcases List.take_eq_nil_iff.1 h with h | h
        · omega
        · exact hsome h
      · intro h
        have hlength := List.drop_eq_nil_iff.1 h
        omega
    · exact .point (List.cons_ne_nil '0' []) (hzero 1)
        (fun h => hsome (List.append_eq_nil_iff.1 h).2)
        fun c hc => (List.mem_append.1 hc).elim (hzero _ c) (hdigit c)

/-- The text of a number is digits with at most one point among them. -/
private theorem Number.magnitude_plainly (mantissa : Nat) (power : Int) :
    Lexeme.Plainly (Number.magnitude mantissa power) := by
  unfold Number.magnitude
  split
  · exact .whole nofun fun c hc => by rw [List.mem_singleton.1 hc]; rfl
  · exact Number.Decimal.text_plainly _

-- ========================================================== leaves

/-- The tokens write an expression that denotes the value. -/
def Spells (v : Value) (tokens : List Token) : Prop := ∃ e : Expr, e.Written tokens ∧ Denotes e v

private theorem spells_literal {value : Literal} {t : Token} (h : value.Written t) :
    Spells value.value [t] :=
  ⟨.literal .start value, .operand (.literal h), denotes_literal .start value⟩

open Lexer (Lexes)

/-- The text of a value becomes tokens that spell it, where a delimiter
follows. -/
def Printed (v : Value) (text : String) : Prop :=
  ∀ tail, Delimits tail → Lexes (text.toList ++ tail) tail (Spells v)

/-- Each kind of data is printed as a text that spells it. The atoms are one token
each. -/
private theorem printed_nil : Printed .nil "nil" := by
  intro tail htail
  refine (Lexer.lexes_word rfl htail).imp ?_
  rintro tokens ⟨pos, rfl⟩
  exact spells_literal (.nil rfl)

private theorem printed_bool (b : Bool) : Printed (.bool b) (if b then "true" else "false") := by
  intro tail htail
  cases b with
  | true =>
    refine (Lexer.lexes_word rfl htail).imp ?_
    rintro tokens ⟨pos, rfl⟩
    exact spells_literal (.true_ rfl)
  | false =>
    refine (Lexer.lexes_word rfl htail).imp ?_
    rintro tokens ⟨pos, rfl⟩
    exact spells_literal (.false_ rfl)

/-- A number below zero is printed with a sign, which is read as a unary minus on the
rest. -/
private theorem printed_number {n : Float} (h : Number.ReadsBack n) :
    Printed (.number n) (Number.text n) := by
  intro tail htail
  obtain ⟨finite, reads, signed, -⟩ := h
  rename_i size negative mantissa power
  have hplainly := Number.magnitude_plainly mantissa power
  have hsize := Lexer.lexes_number hplainly htail
  have htext : (Number.text n).toList
      = if negative then '-' :: Number.magnitude mantissa power
        else Number.magnitude mantissa power := by
    simp only [Number.text, finite, String.toList_ofList]
  cases negative with
  | false =>
    obtain rfl : size = n := signed
    rw [htext]
    refine hsize.imp ?_
    rintro tokens ⟨pos, rfl⟩
    have hwritten : (Literal.number size).Written
        ⟨.number, String.ofList (Number.magnitude mantissa power), pos⟩ := .number rfl reads
    exact spells_literal hwritten
  | true =>
    obtain rfl : -size = n := signed
    obtain ⟨d, rest, hdigits, hd⟩ := hplainly.numeric.head
    rw [htext, if_pos rfl]
    rw [hdigits] at hsize ⊢
    refine ((Lexer.lexes_minus hd (rest ++ tail)).trans hsize).imp ?_
    rintro tokens ⟨front, behind, rfl, ⟨pos, rfl⟩, pos', rfl⟩
    rw [hdigits] at reads
    have hwritten : (Literal.number size).Written ⟨.number, String.ofList (d :: rest), pos'⟩ :=
      .number rfl reads
    exact ⟨.unary .start .negate (.literal .start (.number size)),
      .unary rfl (.literal hwritten), denotes_negated .start .start size⟩

private theorem printed_string {s : String} (h : ∀ c ∈ s.toList, Text.IsReadable c) :
    Printed (.string s) (Text.quoted s) := by
  intro tail _
  have htext : (Text.quoted s).toList ++ tail
      = '"' :: (s.toList.flatMap Text.quotedChar ++ '"' :: tail) := by
    simp only [Text.quoted, String.toList_ofList, List.cons_append, List.append_assoc,
      List.nil_append]
  rw [htext]
  refine (Lexer.lexes_string h tail).imp ?_
  rintro tokens ⟨pos, rfl⟩
  rw [String.ofList_toList]
  exact spells_literal (.string (t := ⟨.string, s, pos⟩) rfl)

/-- A key is printed as the value it stands for. -/
private theorem printed_key {key : MapKey} (h : key.Data) : Printed key.value key.quoted := by
  cases h with
  | nil => exact printed_nil
  | bool b => exact printed_bool b
  | number reads _ => exact printed_number reads
  | string readable => exact printed_string readable

/-- A key of data is the key of its own value. -/
theorem MapKey.Data.ofValue_value {key : MapKey} (h : key.Data) :
    MapKey.ofValue key.value = .ok key := by
  cases h with
  | nil => rfl
  | bool b => rfl
  | number _ made => exact made
  | string _ => rfl

-- =========================================================== lists

/-- Texts with commas between them become listed tokens, if each text becomes
tokens of its own. -/
theorem lexes_listed {α : Type} {R : α → List Token → Prop} {text : α → String} {xs : List α}
    (h : ∀ x ∈ xs, ∀ tail, Delimits tail → Lexes ((text x).toList ++ tail) tail (R x))
    {tail : List Char} (htail : Delimits tail) :
    Lexes ((String.intercalate ", " (xs.map text)).toList ++ tail) tail (Listed R xs) := by
  induction xs with
  | nil =>
    intro s hs
    refine ⟨[], s.pos, .none breaks_nil, ?_⟩
    subst hs
    rfl
  | cons x rest ih =>
    obtain ⟨hx, hrest⟩ := List.forall_mem_cons.1 h
    cases rest with
    | nil =>
      rw [List.map_singleton, String.intercalate_singleton]
      refine (hx tail htail).imp fun tokens htokens => ?_
      simpa using Listed.last breaks_nil htokens breaks_nil
    | cons y others =>
      have htext : (String.intercalate ", " ((x :: y :: others).map text)).toList ++ tail
          = (text x).toList ++ ',' :: ' ' ::
            ((String.intercalate ", " ((y :: others).map text)).toList ++ tail) := by
        simp [String.intercalate_cons_cons]
      rw [htext]
      have hfirst := hx _ (delimits_cons (.inl rfl) (' ' ::
        ((String.intercalate ", " ((y :: others).map text)).toList ++ tail)))
      have hcomma := Lexer.lexes_punctuation (c := ',') rfl (' ' ::
        ((String.intercalate ", " ((y :: others).map text)).toList ++ tail))
      refine (hfirst.trans (hcomma.trans ((Lexer.lexes_space _).trans (ih hrest)))).imp ?_
      rintro tokens ⟨front, _, rfl, hfront, _, _, rfl, ⟨pos, rfl⟩, _, behind, rfl, rfl, hbehind⟩
      exact .more breaks_nil hfront breaks_nil rfl hbehind

private theorem Value.quotedItems_eq_map (items : List Value) :
    Value.quotedItems items = items.map Value.quoted := by
  induction items with
  | nil => rfl
  | cons v rest ih => rw [Value.quotedItems, ih, List.map_cons]

/-- Items that spell values are the items of a list that denotes them. -/
theorem items_denote {vs : List Value} {tokens : List Token} (h : Listed Spells vs tokens) :
    ∃ es, Listed Expr.Written es tokens ∧ ListDenotes es vs := by
  induction h with
  | none gap => exact ⟨[], .none gap, listDenotes_nil⟩
  | last gap item gap' =>
    obtain ⟨e, hwritten, hdenotes⟩ := item
    exact ⟨[e], .last gap hwritten gap', listDenotes_cons hdenotes listDenotes_nil⟩
  | more gap item gap' comma _ ih =>
    obtain ⟨e, hwritten, hdenotes⟩ := item
    obtain ⟨es, hlisted, hrest⟩ := ih
    exact ⟨e :: es, .more gap hwritten gap' comma hlisted, listDenotes_cons hdenotes hrest⟩

/-- Items are separated by a comma and a blank, and neither goes on with what stands
before it. -/
private theorem printed_list {items : List Value} (h : ∀ v ∈ items, Printed v v.quoted) :
    Printed (.list items) (Value.list items).quoted := by
  intro tail _
  have htext : (Value.list items).quoted.toList ++ tail
      = '[' :: ((String.intercalate ", " (items.map Value.quoted)).toList ++ ']' :: tail) := by
    simp [Value.quoted, Value.quotedItems_eq_map]
  rw [htext]
  have hitems := lexes_listed h (delimits_cons (.inr (.inr (.inl rfl))) tail)
  refine ((Lexer.lexes_punctuation rfl _).trans
    (hitems.trans (Lexer.lexes_punctuation rfl tail))).imp ?_
  rintro tokens ⟨_, _, rfl, ⟨pos, rfl⟩, middle, _, rfl, hmiddle, pos', rfl⟩
  obtain ⟨es, hlisted, hdenote⟩ := items_denote hmiddle
  exact ⟨.list .start es, .operand (.list rfl hlisted rfl), denotes_list hdenote⟩

-- ============================================================ maps

private theorem Value.quotedEntries_eq_map (entries : List (MapKey × Value)) :
    Value.quotedEntries entries = entries.map fun e => e.1.quoted ++ ": " ++ e.2.quoted := by
  induction entries with
  | nil => rfl
  | cons e rest ih => rw [Value.quotedEntries, ih, List.map_cons]

/-- The tokens write an entry whose key and value denote these. -/
def SpellsEntry (entry : MapKey × Value) (tokens : List Token) : Prop :=
  ∃ ke ve : Expr, Expr.Field (ke, ve) tokens ∧ Denotes ke entry.1.value
    ∧ MapKey.ofValue entry.1.value = .ok entry.1 ∧ Denotes ve entry.2

private theorem lexes_entry {key : MapKey} {v : Value} (hkey : key.Data) (hv : Printed v v.quoted)
    {tail : List Char} (htail : Delimits tail) :
    Lexes ((key.quoted ++ ": " ++ v.quoted).toList ++ tail) tail (SpellsEntry (key, v)) := by
  have htext : (key.quoted ++ ": " ++ v.quoted).toList ++ tail
      = key.quoted.toList ++ ':' :: ' ' :: (v.quoted.toList ++ tail) := by
    simp
  rw [htext]
  have hfront := printed_key hkey _
    (delimits_cons (.inr (.inl rfl)) (' ' :: (v.quoted.toList ++ tail)))
  refine (hfront.trans ((Lexer.lexes_punctuation rfl _).trans
    ((Lexer.lexes_space _).trans (hv tail htail)))).imp ?_
  rintro tokens ⟨front, _, rfl, ⟨ke, hke, hkey'⟩, _, _, rfl, ⟨pos, rfl⟩, _, behind, rfl, rfl,
    ve, hve, hv'⟩
  exact ⟨ke, ve, .mk hke breaks_nil rfl breaks_nil hve, hkey', hkey.ofValue_value, hv'⟩

/-- Entries that spell keys and values are the entries of a map that denotes
them, if no key comes twice. -/
theorem entries_denote {entries : List (MapKey × Value)} {tokens : List Token}
    (h : Listed SpellsEntry entries tokens) (hdistinct : (Entries.keys entries).Nodup) :
    ∃ es, Listed Expr.Field es tokens ∧ EntriesDenote es entries := by
  induction h with
  | none gap => exact ⟨[], .none gap, entriesDenote_nil⟩
  | last gap item gap' =>
    obtain ⟨ke, ve, hfield, hkey, hof, hvalue⟩ := item
    exact ⟨[(ke, ve)], .last gap hfield gap',
      entriesDenote_cons hkey hof hvalue entriesDenote_nil List.not_mem_nil⟩
  | more gap item gap' comma _ ih =>
    obtain ⟨hnew, hrest⟩ := List.nodup_cons.1 hdistinct
    obtain ⟨ke, ve, hfield, hkey, hof, hvalue⟩ := item
    obtain ⟨es, hlisted, hothers⟩ := ih hrest
    exact ⟨(ke, ve) :: es, .more gap hfield gap' comma hlisted,
      entriesDenote_cons hkey hof hvalue hothers hnew⟩

/-- The keys of a map differ, so evaluating its entries in order puts each of them
once. -/
private theorem printed_map {entries : List (MapKey × Value)} (hkeys : ∀ e ∈ entries, e.1.Data)
    (hvalues : ∀ e ∈ entries, Printed e.2 e.2.quoted) (hdistinct : (Entries.keys entries).Nodup) :
    Printed (.map entries) (Value.map entries).quoted := by
  intro tail _
  have htext : (Value.map entries).quoted.toList ++ tail
      = '\x7b' :: ((String.intercalate ", "
          (entries.map fun e => e.1.quoted ++ ": " ++ e.2.quoted)).toList ++ '\x7d' :: tail) := by
    simp [Value.quoted, Value.quotedEntries_eq_map]
  rw [htext]
  have hentries : Lexes ((String.intercalate ", "
      (entries.map fun e => e.1.quoted ++ ": " ++ e.2.quoted)).toList ++ '\x7d' :: tail)
      ('\x7d' :: tail) (Listed SpellsEntry entries) :=
    lexes_listed (fun e he tail htail => lexes_entry (hkeys e he) (hvalues e he) htail)
      (delimits_cons (.inr (.inr (.inr rfl))) tail)
  refine ((Lexer.lexes_punctuation rfl _).trans
    (hentries.trans (Lexer.lexes_punctuation rfl tail))).imp ?_
  rintro tokens ⟨_, _, rfl, ⟨pos, rfl⟩, middle, _, rfl, hmiddle, pos', rfl⟩
  obtain ⟨es, hlisted, hdenote⟩ := entries_denote hmiddle hdistinct
  exact ⟨.map .start es, .operand (.map rfl hlisted rfl), denotes_map hdenote⟩

/-- The text of data spells it. -/
theorem Value.Data.printed {v : Value} : v.Data → Printed v v.quoted
  | .nil => printed_nil
  | .bool b => printed_bool b
  | .number reads => printed_number reads
  | .string readable => printed_string readable
  | .list parts => printed_list fun v hv => (parts v hv).printed
  | .map keys values distinct => printed_map keys (fun e he => (values e he).printed) distinct

-- ======================================================== equality

/-- Data is equal to itself. -/
theorem Value.Data.eq_self {v : Value} : v.Data → v.eq v = true
  | .nil => rfl
  | .bool b => beq_self_eq_true b
  | .number (.mk _ _ _ equal) => equal
  | .string (s := s) _ => beq_self_eq_true s
  | .list parts =>
    (Value.eq_list_iff _ _).2 ⟨rfl, fun _ h _ => (parts _ (List.getElem_mem h)).eq_self⟩
  | .map _ values distinct =>
    Value.eq_map_of_perm (.refl _) distinct fun e he => (values e he).eq_self

-- ====================================================== evaluation

/-- Ending the last line adds at most a line end. -/
theorem Lexer.marks_cases (s : Lexer) :
    s.marks = s.tokens.reverse ∨ ∃ pos, s.marks = s.tokens.reverse ++ [⟨.newline, "\n", pos⟩] := by
  unfold Lexer.marks Lexer.endLine
  split
  · exact .inl rfl
  · split
    · exact .inl rfl
    · exact .inr ⟨s.pos, List.reverse_cons⟩

/-- An expression by itself, with or without a line end, is a program. -/
theorem Program.written_expr {e : Expr} {tokens : List Token} (h : e.Written tokens)
    {marks : List Token}
    (hmarks : marks = tokens ∨ ∃ pos, marks = tokens ++ [⟨.newline, "\n", pos⟩]) :
    Program.Written [.expr .start e] marks := by
  rcases hmarks with rfl | ⟨pos, rfl⟩
  · exact .last gap_nil (.expr h)
  · exact .more gap_nil (.expr h) (.inl rfl) (.none gap_nil)

/-- The text of data is a program that is only a constant, in every layout. -/
theorem Interpreter.parse_quoted {v : Value} (h : v.Data) :
    ∃ e again, Denotes e v ∧ Program.unplaced again = Program.unplaced [.expr .start e]
      ∧ ∀ layout, Interpreter.parse layout v.quoted = .ok again := by
  obtain ⟨tokens, pos, ⟨e, hwritten, hdenotes⟩, hrun⟩ :=
    h.printed [] delimits_nil (Lexer.ahead v.quoted.toList) (List.append_nil _).symm
  let s : Lexer := { Lexer.ahead v.quoted.toList with
    rest := [], pos := pos, tokens := tokens.reverse ++ [] }
  have hrun : (Lexer.ahead v.quoted.toList).run .flat = .ok s :=
    hrun.trans (Lexer.run_of_rest_eq_nil rfl)
  have hmarks := Lexer.marks_cases s
  rw [show s.tokens.reverse = tokens by simp [s]] at hmarks
  obtain ⟨again, hprogram, hagain⟩ :=
    Parser.program_of_written s.pos (Program.written_expr hwritten hmarks)
  refine ⟨e, again, hdenotes, hagain, fun layout => ?_⟩
  rw [Interpreter.parse_eq, hrun]
  simp only [hprogram]

/-- Printed data reads back: whatever the state of the interpreter, evaluating the
text of data succeeds within every budget from some point on and gives that same
value, which is equal to itself. Nothing is written or changed; only the machine
is put to rest, as it is already in every state that an interpreter comes to. -/
theorem Interpreter.evalSource_quoted {v : Value} (h : v.Data) :
    v.eq v = true ∧ ∃ enough, ∀ (i : Interpreter) (budget : Nat), enough ≤ budget →
      i.evalSource budget v.quoted = .done v i.atRest ∧ (i.Reached → i.atRest = i) := by
  refine ⟨h.eq_self, ?_⟩
  obtain ⟨e, again, hdenotes, hagain, hparse⟩ := Interpreter.parse_quoted h
  obtain ⟨enough, hrun⟩ := Program.run_constant hdenotes
  refine ⟨enough, fun i budget hbudget => ⟨?_, Interpreter.Reached.atRest_eq⟩⟩
  have hrun := hrun again hagain i.setup budget hbudget i.machine
  simp only [Interpreter.evalSource, hparse, Interpreter.evalProgram, hrun]
  rfl

/-- Minus two and a half. -/
def minusFiveHalves : Float := Float.ofBits 0xC004000000000000

/-- Its text is a minus and the digits of its size, which reads as five halves. -/
theorem minusFiveHalves_readsBack : Number.ReadsBack minusFiveHalves := by
  have hfinite : Number.parts minusFiveHalves = .finite true 5629499534213120 (-51) := by
    decide +kernel
  have hreads : Number.ofText? (String.ofList (Number.magnitude 5629499534213120 (-51)))
      = some (Float.ofBits 0x4004000000000000) := by decide +kernel
  exact .mk hfinite hreads (by decide +kernel) (by decide +kernel)

/-- The key that is made of it is its own bits. -/
theorem minusFiveHalves_ofValue :
    MapKey.ofValue (.number minusFiveHalves) = .ok (.number 0xC004000000000000) := rfl

/-- A map with a list, an empty map, a negative number and a string with escapes in it,
under a string, a truth value, the same number and nil. -/
def sampleData : Value :=
  .map [(.string "a\n", .list [.nil, .bool true, .number minusFiveHalves, .string "say \"\\\""]),
    (.bool false, .map []), (.number 0xC004000000000000, .list []), (.nil, .list [])]

private theorem readable_of_all {text : List Char} (h : text.all (Text.IsReadable ·) = true) :
    ∀ c ∈ text, Text.IsReadable c := by
  intro c hc
  exact of_decide_eq_true (List.all_eq_true.1 h c hc)

private theorem sampleData_data : sampleData.Data := by
  have key := readable_of_all (show "a\n".toList.all (Text.IsReadable ·) = true by decide)
  have text := readable_of_all
    (show "say \"\\\"".toList.all (Text.IsReadable ·) = true by decide)
  have numberKey := MapKey.Data.number minusFiveHalves_readsBack minusFiveHalves_ofValue
  have items : (Value.list [.nil, .bool true, .number minusFiveHalves,
      .string "say \"\\\""]).Data := by
    refine .list fun v hv => ?_
    simp only [List.mem_cons, List.not_mem_nil, or_false] at hv
    rcases hv with rfl | rfl | rfl | rfl
    exacts [.nil, .bool true, .number minusFiveHalves_readsBack, .string text]
  refine .map ?_ ?_ (by decide)
  · simp only [List.forall_mem_cons]
    exact ⟨.string key, .bool false, numberKey, .nil, fun _ he => nomatch he⟩
  · simp only [List.forall_mem_cons]
    exact ⟨items, .map nofun nofun .nil, .list nofun, .list nofun, fun _ he => nomatch he⟩

/-- The theorem at a map with a number below zero, as a key and inside a list. -/
theorem Interpreter.evalSource_quoted_sample :
    sampleData.Data ∧ sampleData.eq sampleData = true ∧ ∃ enough, ∀ (i : Interpreter)
      (budget : Nat), enough ≤ budget →
        i.evalSource budget sampleData.quoted = .done sampleData i.atRest
          ∧ (i.Reached → i.atRest = i) :=
  ⟨sampleData_data, Interpreter.evalSource_quoted sampleData_data⟩

end Scriptlet
