/-
Where the caret of a report stands. A report quotes the lines around a place, one row for
each, and puts a caret under the row of the place (`Diagnostic.render_excerpt`). The caret
stands as far behind the numbers as the column says; and where the place is that of a
character, the caret stands under this character (`Text.lines_at`).

# Two ways to count lines

The walk over a source counts a line feed as the last character of its line, and a carriage
return as a character like any other. A report cuts the source into lines, of which neither
the line feed nor a carriage return before it is a part. So the two agree on every character
that is left in its line, and on no other.

# The column of numbers

All rows have their numbers in a column as wide as the last number. Where the numbers get
longer on the way, the shorter ones are pushed to the right, so that every row begins its
quotation at the same place, and so does the row of the caret.
-/
import Mathlib.Data.List.Basic
import Mathlib.Data.List.TakeWhile
import Scriptlet.Diagnostic

namespace Scriptlet

-- =========================================================== lines

namespace Text

private theorem lines_cons {front : List Char} (hfront : '\n' ∉ front) (rest : List Char) :
    lines (front ++ '\n' :: rest) = chopReturn front :: lines rest := by
  have hall : ∀ c ∈ front, decide (c ≠ '\n') = true := by
    intro c hc
    exact decide_eq_true fun heq => hfront (heq ▸ hc)
  have hdrop : (front ++ '\n' :: rest).dropWhile (· ≠ '\n') = '\n' :: rest := by
    rw [List.dropWhile_append_of_pos hall]
    rfl
  have htake : (front ++ '\n' :: rest).takeWhile (· ≠ '\n') = front := by
    rw [List.takeWhile_append_of_pos hall]
    exact List.append_nil front
  rw [lines, if_neg (by simp)]
  split
  · rename_i heq
    rw [hdrop] at heq
    cases heq
  · rename_i heq
    rw [hdrop] at heq
    cases heq
    rw [htake]

private theorem lines_last {text : List Char} (htext : '\n' ∉ text) (hne : text ≠ []) :
    lines text = [text] := by
  have hdrop : text.dropWhile (· ≠ '\n') = [] := by
    rw [List.dropWhile_eq_nil_iff]
    intro c hc
    exact decide_eq_true fun heq => htext (heq ▸ hc)
  rw [lines, if_neg (by simpa using hne)]
  split
  · rfl
  · rename_i heq
    rw [hdrop] at heq
    cases heq

/-- What is left of a line without its carriage return. -/
theorem chopReturn_cases (line : List Char) :
    chopReturn line = line ∨ line = chopReturn line ++ ['\r'] := by
  unfold chopReturn
  split
  · rename_i hlast
    exact .inr (List.dropLast_append_getLast? '\r' hlast).symm
  · exact .inl rfl

/-- No line has a line feed in it. -/
theorem newline_notMem_lines (text : List Char) : ∀ line ∈ lines text, '\n' ∉ line := by
  fun_induction lines text with
  | case1 => exact fun _ h => nomatch h
  | case2 text _ hdrop =>
    intro line hline
    rw [List.mem_singleton.1 hline]
    intro hmem
    exact absurd rfl (of_decide_eq_true (List.dropWhile_eq_nil_iff.1 hdrop '\n' hmem))
  | case3 text _ c rest hdrop _ ih =>
    have hfront : '\n' ∉ text.takeWhile (· ≠ '\n') := fun hmem =>
      absurd rfl (of_decide_eq_true (List.all_eq_true.1 List.all_takeWhile '\n' hmem))
    intro line hline
    rcases List.mem_cons.1 hline with rfl | hline
    · intro hmem
      rcases chopReturn_cases (text.takeWhile (· ≠ '\n')) with heq | heq
      · rw [heq] at hmem
        exact hfront hmem
      · rw [heq] at hfront
        exact hfront (List.mem_append_left _ hmem)
    · exact ih line hline

/-- A character that is left in its line is found there by its column. -/
theorem getElem?_chopReturn {front behind : List Char} {c : Char}
    (hreturn : ¬ (c = '\r' ∧ behind = [])) :
    (chopReturn (front ++ c :: behind))[front.length]? = some c := by
  have hfound : (front ++ c :: behind)[front.length]? = some c := by simp
  rcases chopReturn_cases (front ++ c :: behind) with heq | heq
  · rw [heq]
    exact hfound
  · by_cases hlast : front.length < (chopReturn (front ++ c :: behind)).length
    · rw [heq, List.getElem?_append_left hlast] at hfound
      exact hfound
    · have hlength := congrArg List.length heq
      simp only [List.length_append, List.length_cons, List.length_nil] at hlength
      have hnil : behind = [] := List.length_eq_zero_iff.1 (by omega)
      subst hnil
      have hc : c = '\r' := by
        have hends := congrArg List.getLast? heq
        simpa using hends
      exact absurd ⟨hc, rfl⟩ hreturn

end Text

namespace Position

/-- Without a line feed the column counts characters. -/
theorem after_eq_of_notMem {text : List Char} (htext : '\n' ∉ text) (pos : Position) :
    pos.after text = ⟨pos.line, pos.column + text.length⟩ := by
  induction text generalizing pos with
  | nil => rfl
  | cons c rest ih =>
    obtain ⟨hc, hrest⟩ := not_or.1 (mt List.mem_cons.2 htext)
    have hstep : pos.step c = ⟨pos.line, pos.column + 1⟩ := if_neg fun heq => hc heq.symm
    rw [after_cons, hstep, ih hrest, List.length_cons, Nat.add_right_comm, Nat.add_assoc]

private theorem line_le_after (pos : Position) (text : List Char) : pos.line ≤
    (pos.after text).line := by
  induction text generalizing pos with
  | nil => exact Nat.le_refl _
  | cons c rest ih =>
    refine Nat.le_trans ?_ (ih (pos.step c))
    unfold step
    split
    · exact Nat.le_succ _
    · exact Nat.le_refl _

end Position

/-- Behind `before` stands `c`: the line that the walk is in there has `c` in the column
that the walk is at, unless `c` is part of what ends the line. -/
theorem Text.lines_at {before behind : List Char} {c : Char} (hc : c ≠ '\n')
    (hreturn : ¬ (c = '\r' ∧ behind.head? = some '\n')) (n : Nat) :
    ∃ row, (Text.lines (before ++ c :: behind))[((⟨n, 1⟩ : Position).after before).line - n]?
        = some row
      ∧ row[((⟨n, 1⟩ : Position).after before).column - 1]? = some c := by
  induction hlength : before.length using Nat.strongRecOn generalizing before n with
  | ind _ ih =>
    -- on the length of what stands before: cut off its first line, or it is one line with `c`
    by_cases hbefore : '\n' ∈ before
    · obtain ⟨front, rest, rfl, hfront⟩ := List.eq_append_cons_of_mem hbefore
      obtain ⟨line, hline, hat⟩ := ih rest.length (by rw [← hlength]; simp; omega) (n + 1) rfl
      have hpos : (⟨n, 1⟩ : Position).after (front ++ '\n' :: rest)
          = (⟨n + 1, 1⟩ : Position).after rest := by
        rw [Position.after_append, Position.after_eq_of_notMem hfront, Position.after_cons]
        rfl
      have hle : n + 1 ≤ ((⟨n + 1, 1⟩ : Position).after rest).line :=
        Position.line_le_after ⟨n + 1, 1⟩ rest
      refine ⟨line, ?_, by rw [hpos]; exact hat⟩
      rw [hpos, List.append_assoc, List.cons_append, Text.lines_cons hfront,
        show ((⟨n + 1, 1⟩ : Position).after rest).line - n
          = ((⟨n + 1, 1⟩ : Position).after rest).line - (n + 1) + 1 by omega,
        List.getElem?_cons_succ]
      exact hline
    · rw [Position.after_eq_of_notMem hbefore]
      simp only [Nat.sub_self, Nat.add_sub_cancel_left]
      by_cases hbehind : '\n' ∈ behind
      · obtain ⟨front, rest, rfl, hfront⟩ := List.eq_append_cons_of_mem hbehind
        have hline : '\n' ∉ before ++ c :: front := by
          simp [hbefore, hfront, hc.symm]
        refine ⟨Text.chopReturn (before ++ c :: front), ?_, Text.getElem?_chopReturn ?_⟩
        · rw [← List.cons_append, ← List.append_assoc, Text.lines_cons hline]
          rfl
        · rintro ⟨rfl, rfl⟩
          exact hreturn ⟨rfl, rfl⟩
      · have hline : '\n' ∉ before ++ c :: behind := by
          simp [hbefore, hbehind, hc.symm]
        refine ⟨before ++ c :: behind, ?_, by simp⟩
        rw [Text.lines_last hline (by simp)]
        rfl

-- ============================================================ rows

namespace Diagnostic

/-- A row of a report: a marker, the column of numbers, and the quoted line. -/
structure Row where
  marker : Char
  column : List Char
  line : List Char

namespace Row

/-- What stands before the quotation. -/
def gutter (r : Row) : List Char := r.marker :: ' ' :: (r.column ++ [' ', '|', ' '])

def text (r : Row) : List Char := r.gutter ++ r.line

end Row

/-- A label at the right end of a column. -/
def RightAligned (width : Nat) (label column : List Char) : Prop :=
  column.length = width ∧ ∃ blanks, (∀ c ∈ blanks, c = ' ') ∧ column = blanks ++ label

/-- A row quotes line `number` of a source, and is marked if that is line `marked`. -/
structure Row.Quotes (source : List Char) (width marked number : Nat) (r : Row) : Prop where
  marker : r.marker = if number = marked then '>' else ' '
  column : RightAligned width (toString number).toList r.column
  line : (Text.lines source)[number - 1]? = some r.line
  oneLine : '\n' ∉ r.line

/-- A text has its one caret at an offset, and ends there. -/
def HasCaretAt (offset : Nat) (caret : List Char) : Prop :=
  ∃ front, caret = front ++ ['^'] ∧ '^' ∉ front ∧ front.length = offset

/-- The first line that a report quotes. -/
def firstShown (pos : Position) : Nat := max 1 (pos.line - 2)

/-- The last line that a report quotes, in a source of `n` lines. -/
def lastShown (pos : Position) (n : Nat) : Nat := min (pos.line + 1) n

/-- The line in question is always among those that are shown, and those are lines of the
source. -/
private theorem shown_bounds {pos : Position} {n : Nat} (hline : 1 ≤ pos.line)
    (hlines : pos.line ≤ n) :
    1 ≤ firstShown pos ∧ firstShown pos ≤ pos.line ∧ pos.line ≤ lastShown pos n
      ∧ lastShown pos n ≤ n := by
  unfold firstShown lastShown
  omega

/-- The rows of a report with their line ends, and the caret behind the marked one. -/
def rows (marked : Nat) (row : Nat → Row) (caret : List Char) (first count : Nat) : List Char :=
  (List.range' first count).flatMap fun number =>
    (row number).text ++ '\n' :: if number = marked then caret ++ ['\n'] else []

private theorem toList_alignRight (width : Nat) (text : String) :
    (Text.alignRight width text).toList
      = List.replicate (width - text.length) ' ' ++ text.toList := by
  simp [Text.alignRight]

/-- The row that a report makes of a line. -/
def rowOf (width : Nat) (marked : Bool) (number : Nat) (line : List Char) : Row :=
  ⟨if marked then '>' else ' ', (Text.alignRight width (toString number)).toList, line⟩

/-- The texts that rendering makes of lines are rows with a line end. -/
private theorem toList_quotedLine (width number : Nat) (marked : Bool) (line : List Char) :
    (quotedLine width number marked line).toList
      = (rowOf width marked number line).text ++ ['\n'] := by
  cases marked <;> simp [quotedLine, rowOf, Row.text, Row.gutter]

/-- The caret without its line end. -/
def caretOf (width column : Nat) : List Char :=
  ' ' :: ' ' :: (List.replicate width ' ' ++ ' ' :: '|' :: ' '
    :: (List.replicate (column - 1) ' ' ++ ['^']))

private theorem toList_caretLine (width column : Nat) :
    (caretLine width column).toList = caretOf width column ++ ['\n'] := by
  simp [caretLine, caretOf, toList_alignRight]

/-- A caret line is as long as the gutter and the columns before the caret, and blank up
to there. -/
private theorem caretOf_hasCaretAt (width column : Nat) :
    HasCaretAt (width + 5 + (column - 1)) (caretOf width column) := by
  refine ⟨' ' :: ' ' :: (List.replicate width ' ' ++ ' ' :: '|' :: ' '
    :: List.replicate (column - 1) ' '), ?_, ?_, ?_⟩
  · simp [caretOf]
  · simp
  · simp
    omega

/-- The excerpt is the rows, if they are known line by line. -/
theorem toList_excerpt (width : Nat) (pos : Position) (row : Nat → Row) (number : Nat)
    (shown : List (List Char))
    (hrow : ∀ (i : Nat) (hi : i < shown.length),
      row (number + i) = rowOf width (decide (number + i = pos.line)) (number + i) shown[i]) :
    (String.join (excerpt width pos number shown)).toList
      = rows pos.line row (caretOf width pos.column) number shown.length := by
  rw [String.toList_join]
  induction shown generalizing number with
  | nil => rfl
  | cons line shown ih =>
    have hrest := ih (number + 1) fun i hi => by
      have hnext := hrow (i + 1) (Nat.succ_lt_succ hi)
      rwa [List.getElem_cons_succ, Nat.add_comm i 1, ← Nat.add_assoc] at hnext
    have hfirst : row number = rowOf width (decide (number = pos.line)) number line :=
      hrow 0 (Nat.succ_pos _)
    rw [rows, List.length_cons, List.range'_succ, List.flatMap_cons, ← rows, ← hrest, hfirst]
    simp only [excerpt, decide_eq_true_eq]
    rw [List.flatMap_cons, toList_quotedLine, List.append_assoc, List.append_assoc]
    split
    · rw [List.flatMap_cons, toList_caretLine]
      simp
    · simp

/-- Numbers get no longer to the front. -/
theorem length_toString_le {k n : Nat} (h : k ≤ n) : (toString k).length ≤ (toString n).length := by
  have hpos : 0 < (Nat.toDigits 10 n).length := List.length_pos_iff.2 (Nat.toDigits_ne_nil)
  have hn : n < 10 ^ (Nat.toDigits 10 n).length :=
    (Nat.length_toDigits_le_iff (by decide) hpos).1 (Nat.le_refl _)
  have hk : (Nat.toDigits 10 k).length ≤ (Nat.toDigits 10 n).length :=
    (Nat.length_toDigits_le_iff (by decide) hpos).2 (Nat.lt_of_le_of_lt h hn)
  simpa [← String.length_toList] using hk

private theorem alignRight_rightAligned {width : Nat} {label : String} (h : label.length ≤ width) :
    RightAligned width label.toList (Text.alignRight width label).toList := by
  rw [toList_alignRight]
  refine ⟨?_, _, fun c hc => List.eq_of_mem_replicate hc, rfl⟩
  rw [List.length_append, List.length_replicate, String.length_toList]
  omega

/-- Trimming takes blanks from the end and nothing else. -/
private theorem trimRight_append (s : List Char) :
    Text.trimRight s ++ (s.reverse.takeWhile Text.isBlank).reverse = s := by
  rw [Text.trimRight, ← List.reverse_append, List.takeWhile_append_dropWhile, List.reverse_reverse]

-- ========================================================== report

/-- The row of a line of the source, by its number. -/
def rowAt (source : List Char) (width marked number : Nat) : Row :=
  rowOf width (decide (number = marked)) number ((Text.lines source)[number - 1]?.getD [])

private theorem rowAt_quotes {source : List Char} {width marked number : Nat} (hfirst : 1 ≤ number)
    (hlast : number ≤ (Text.lines source).length) (hwidth : (toString number).length ≤ width) :
    (rowAt source width marked number).Quotes source width marked number := by
  have hline : (Text.lines source)[number - 1]? = some (Text.lines source)[number - 1] :=
    List.getElem?_eq_getElem (by omega)
  have hrow : rowAt source width marked number
      = rowOf width (decide (number = marked)) number (Text.lines source)[number - 1] := by
    rw [rowAt, hline, Option.getD_some]
  rw [hrow]
  refine ⟨?_, ?_, hline, Text.newline_notMem_lines source _ (List.getElem_mem _)⟩
  · simp [rowOf]
  · dsimp only [rowOf]
    exact alignRight_rightAligned hwidth

/-- The report of a place in a source: the heading, the rows, and the caret behind the row of
the place, up to the white space at the end. -/
theorem render_rows (d : Diagnostic) {source : String} {pos : Position} (hpos : d.pos = some pos)
    (hline : 1 ≤ pos.line) (hlines : pos.line ≤ (Text.lines source.toList).length)
    {last width : Nat}
    (hlast : last = lastShown pos (Text.lines source.toList).length)
    (hwidth : width = (toString last).length) :
    ∃ missing, (∀ c ∈ missing, Text.isBlank c = true)
      ∧ (d.render source).toList ++ missing
        = d.heading.toList ++ '\n' :: rows pos.line (rowAt source.toList width pos.line)
          (caretOf width pos.column) (firstShown pos) (last + 1 - firstShown pos) := by
  have hinside : ¬ (decide (pos.line = 0)
      || decide ((Text.lines source.toList).length < pos.line)) = true := by
    simp
    omega
  have hfirst : max (pos.line - 2) 1 = firstShown pos := Nat.max_comm _ _
  have hbounds := shown_bounds hline hlines
  rw [← hlast] at hbounds
  obtain ⟨shown, hshown⟩ : ∃ shown, shown = ((Text.lines source.toList).drop
      (firstShown pos - 1)).take (last + 1 - firstShown pos) := ⟨_, rfl⟩
  have hcount : shown.length = last + 1 - firstShown pos := by
    rw [hshown, List.length_take, List.length_drop]
    omega
  -- the rows the statement counts from line one are the lines cut out of the source
  have hrow : ∀ (i : Nat) (hi : i < shown.length),
      rowAt source.toList width pos.line (firstShown pos + i)
        = rowOf width (decide (firstShown pos + i = pos.line)) (firstShown pos + i) shown[i] := by
    intro i hi
    have hindex : firstShown pos + i - 1 = firstShown pos - 1 + i := by omega
    have hline : (Text.lines source.toList)[firstShown pos - 1 + i]? = some shown[i] := by
      subst hshown
      rw [List.getElem_take, List.getElem_drop]
      exact List.getElem?_eq_getElem _
    rw [rowAt, hindex, hline, Option.getD_some]
  have hrows := toList_excerpt width pos _ _ shown hrow
  rw [hcount] at hrows
  -- what the final trim takes off is all blank
  refine ⟨((d.heading ++ "\n" ++ String.join (excerpt width pos (firstShown pos)
    shown)).toList.reverse.takeWhile Text.isBlank).reverse, ?_, ?_⟩
  · intro c hc
    exact List.all_eq_true.1 List.all_takeWhile c (List.mem_reverse.1 hc)
  · simp only [render, hpos, if_neg hinside, hfirst]
    rw [← lastShown, ← hlast, ← hwidth, ← hshown, String.toList_ofList, trimRight_append,
      String.toList_append, String.toList_append, hrows, List.append_assoc]
    rfl

/-- The caret of a report stands under the character that is reported. For every place on a
line that the source has, the report is the heading and then, from two lines before the place
to one behind it as far as there are such, one row for each line: a marker, the number of
the line in a column of one width for all, and the line. Directly behind the row of the place
stands the caret, as far behind the gutter of that row as the column says. Only white space
at the very end is missing. If the place is where the walk over the source comes to a
character that does not end its line, this character stands above the caret. -/
theorem render_points (d : Diagnostic) (source : String) {pos : Position}
    (hpos : d.pos = some pos) (hline : 1 ≤ pos.line)
    (hlines : pos.line ≤ (Text.lines source.toList).length) :
    ∃ (width : Nat) (row : Nat → Row) (caret missing : List Char),
      (∀ k, firstShown pos ≤ k → k ≤ lastShown pos (Text.lines source.toList).length →
          (row k).Quotes source.toList width pos.line k)
        ∧ HasCaretAt ((row pos.line).gutter.length + (pos.column - 1)) caret
        ∧ (∀ c ∈ missing, Text.isBlank c = true)
        ∧ (d.render source).toList ++ missing
          = d.heading.toList ++ '\n' :: rows pos.line row caret (firstShown pos)
            (lastShown pos (Text.lines source.toList).length + 1 - firstShown pos)
        ∧ ∀ before c behind, source.toList = before ++ c :: behind →
          Position.start.after before = pos → c ≠ '\n' →
          ¬ (c = '\r' ∧ behind.head? = some '\n') →
            (row pos.line).text[(row pos.line).gutter.length + (pos.column - 1)]? = some c := by
  -- names for the last line and the width: the goal repeats both terms many times
  obtain ⟨last, hlast⟩ : ∃ last, last = lastShown pos (Text.lines source.toList).length :=
    ⟨_, rfl⟩
  obtain ⟨width, hwidth⟩ : ∃ width, width = (toString last).length := ⟨_, rfl⟩
  have hbounds := shown_bounds hline hlines
  rw [← hlast] at hbounds
  have hquotes : ∀ k, firstShown pos ≤ k → k ≤ last →
      (rowAt source.toList width pos.line k).Quotes source.toList width pos.line k := by
    intro k hk hk'
    exact rowAt_quotes (by omega) (by omega) (hwidth ▸ length_toString_le hk')
  have hplace := hquotes pos.line hbounds.2.1 hbounds.2.2.1
  have hgutter : (rowAt source.toList width pos.line pos.line).gutter.length = width + 5 := by
    rw [Row.gutter, List.length_cons, List.length_cons, List.length_append, hplace.column.1]
    rfl
  obtain ⟨missing, hmissing, hrender⟩ := render_rows d hpos hline hlines hlast hwidth
  rw [← hlast]
  refine ⟨width, rowAt source.toList width pos.line, caretOf width pos.column, missing, hquotes,
    ?_, hmissing, hrender, ?_⟩
  · rw [hgutter]
    exact caretOf_hasCaretAt width pos.column
  · intro before c behind hsource hbefore hc hreturn
    -- the text before `c` fixes both the line quoted and the column in it
    obtain ⟨line, hfound, hat⟩ := Text.lines_at hc hreturn 1
    rw [← hsource] at hfound
    obtain rfl : line = (rowAt source.toList width pos.line pos.line).line := by
      have hquoted := hplace.line
      rw [← hbefore] at hquoted
      exact Option.some.inj (hfound.symm.trans (hbefore ▸ hquoted))
    rw [Row.text, List.getElem?_append_right (Nat.le_add_right _ _), Nat.add_sub_cancel_left,
      ← hbefore]
    exact hbefore ▸ hat

/-- Nine lines and a tenth of blanks; the ninth ends in a carriage return and a line
feed. -/
def padded : String := "\n\n\n\n\n\n\n\nlet x = y\r\n  "

/-- A report of the last character of the ninth line. -/
def unknown : Diagnostic := { kind := .parse, message := "y", pos := some ⟨9, 9⟩ }

/-- The numbers get longer within the report, and the blanks of the last line are gone. -/
theorem render_points_padded :
    unknown.pos = some ⟨9, 9⟩ ∧ 9 ≤ (Text.lines padded.toList).length
      ∧ unknown.render padded
        = "ParseError: y (line 9, column 9)\n   7 | \n   8 | \n>  9 | let x = y\n"
          ++ "     |         ^\n  10 |"
      ∧ ∃ (width : Nat) (row : Nat → Row) (caret missing : List Char),
        (∀ k, 7 ≤ k → k ≤ 10 → (row k).Quotes padded.toList width 9 k)
          ∧ HasCaretAt ((row 9).gutter.length + 8) caret
          ∧ (∀ c ∈ missing, Text.isBlank c = true)
          ∧ (unknown.render padded).toList ++ missing
            = unknown.heading.toList ++ '\n' :: rows 9 row caret 7 4
          ∧ (row 9).text[(row 9).gutter.length + 8]? = some 'y' := by
  have hlength : (Text.lines padded.toList).length = 10 := by decide +kernel
  obtain ⟨width, row, caret, missing, hquotes, hcaret, hmissing, hrender, hat⟩ :=
    render_points unknown padded rfl (by decide) (by rw [hlength]; decide)
  have hlast : lastShown ⟨9, 9⟩ (Text.lines padded.toList).length = 10 := by
    rw [hlength]
    rfl
  rw [hlast] at hquotes hrender
  refine ⟨rfl, by rw [hlength]; decide, by decide +kernel, width, row, caret, missing, hquotes,
    hcaret, hmissing, hrender, ?_⟩
  exact hat "\n\n\n\n\n\n\n\nlet x = ".toList 'y' "\r\n  ".toList (by decide +kernel)
    (by decide +kernel) (by decide) (by decide)

end Diagnostic

end Scriptlet
