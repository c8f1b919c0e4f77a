/-
How numbers are spelled, and that they are numbers. A number has digits, perhaps a
fraction and perhaps an exponent (`Lexeme.Numeric`); whatever is spelled so is taken by the
reading of decimal numbers (`Number.ofText?_numeric`). The reading takes more than that:
signs, a missing digit on one side of the point, and names. So what is shown here goes one
way only.
-/
import Scriptlet.Number.Text

namespace Scriptlet

/-- A run of characters ends where the first one stands that does not belong to it. -/
theorem takeWhile_front {p : Char → Bool} {front tail : List Char}
    (hfront : ∀ c ∈ front, p c = true) (htail : ∀ c ∈ tail.head?, p c = false) :
    (front ++ tail).takeWhile p = front ∧ (front ++ tail).dropWhile p = tail := by
  rw [List.takeWhile_append_of_pos hfront, List.dropWhile_append_of_pos hfront]
  cases tail with
  | nil => exact ⟨List.append_nil front, rfl⟩
  | cons c rest =>
    have hc := htail c rfl
    rw [List.takeWhile_cons_of_neg (by rw [hc]; exact Bool.false_ne_true),
      List.dropWhile_cons_of_neg (by rw [hc]; exact Bool.false_ne_true)]
    exact ⟨List.append_nil front, rfl⟩

namespace Lexeme

/-- Decimal digits, at least one. -/
structure Digits (text : List Char) : Prop where
  some : text ≠ []
  all : ∀ c ∈ text, c.isDigit = true

/-- The fraction of a number: nothing, or a point and digits. -/
inductive IsFraction : List Char → Prop where
  | none : IsFraction []
  | point {places : List Char} (digits : Digits places) : IsFraction ('.' :: places)

/-- The exponent of a number: nothing, or a mark, perhaps a sign, and digits. -/
inductive IsExponent : List Char → Prop where
  | none : IsExponent []
  | power {mark : Char} {sign power : List Char} (marked : mark = 'e' ∨ mark = 'E')
      (signed : sign = [] ∨ sign = ['+'] ∨ sign = ['-']) (digits : Digits power) :
      IsExponent (mark :: (sign ++ power))

/-- How numbers are spelled. -/
inductive Numeric : List Char → Prop where
  | mk {whole fraction exponent : List Char} (digits : Digits whole)
      (isFraction : IsFraction fraction) (isExponent : IsExponent exponent) :
      Numeric (whole ++ (fraction ++ exponent))

/-- A numeral begins with a digit. -/
theorem Numeric.head {digits : List Char} (h : Numeric digits) :
    ∃ c tail, digits = c :: tail ∧ c.isDigit = true := by
  obtain ⟨hwhole, -, -⟩ := h
  obtain ⟨c, tail, rfl⟩ := List.exists_cons_of_ne_nil hwhole.some
  exact ⟨c, _, rfl, hwhole.all c (List.mem_cons_self ..)⟩

end Lexeme

namespace Number

open Lexeme (Digits IsFraction IsExponent Numeric)

/-- No digit is any of the other characters that numerals are made of. -/
theorem ne_of_isDigit {c d : Char} (hd : d.isDigit = true) (hc : c.isDigit = false) : d ≠ c := by
  rintro rfl
  rw [hd] at hc
  cases hc

private theorem toLower_of_isDigit {d : Char} (hd : d.isDigit = true) : d.toLower = d := by
  unfold Char.toLower
  split
  · simp [Char.isDigit] at hd
    grind
  · rfl

/-- The exponent at the end of a number is taken. -/
theorem exponent?_isExponent {text : List Char} (h : IsExponent text) :
    (exponent? text).isSome = true := by
  cases h with
  | none => rfl
  | @power mark sign power hmark hsign hpower =>
    have hmark : (mark = 'e' || mark = 'E') = true := by simpa using hmark
    have htaken : (power.isEmpty || !power.all Char.isDigit) = false := by
      simpa [hpower.some] using hpower.all
    rcases hsign with rfl | rfl | rfl
    · obtain ⟨d, ds, rfl⟩ := List.exists_cons_of_ne_nil hpower.some
      have hd : d.isDigit = true := hpower.all d (List.mem_cons_self ..)
      have hminus : d ≠ '-' := ne_of_isDigit hd rfl
      have hplus : d ≠ '+' := ne_of_isDigit hd rfl
      simpa [exponent?, hmark, hminus, hplus] using hpower.all
    · simp [exponent?, hmark, htaken]
    · simp [exponent?, hmark, htaken]

/-- The digits of a number end where its exponent begins. -/
theorem head?_of_isExponent {exponent : List Char} (h : IsExponent exponent) :
    ∀ c ∈ exponent.head?, c.isDigit = false := by
  cases h with
  | none => exact fun c hc => nomatch hc
  | power marked =>
    intro c hc
    cases hc
    rcases marked with rfl | rfl <;> rfl

/-- Part by part, as the form of a numeral has them: the digits in front, those behind the
point, and the exponent with its sign. -/
private theorem unsigned?_numeric {text : List Char} (h : Numeric text) :
    (unsigned? text).isSome = true := by
  obtain ⟨hwhole, hfraction, hexponent⟩ := h
  rename_i whole fraction exponent
  obtain ⟨d, ds, rfl⟩ := List.exists_cons_of_ne_nil hwhole.some
  have hd : d.isDigit = true := hwhole.all d (List.mem_cons_self ..)
  have hi : d ≠ 'i' := ne_of_isDigit hd rfl
  have hn : d ≠ 'n' := ne_of_isDigit hd rfl
  have hpower := exponent?_isExponent hexponent
  have hmark := head?_of_isExponent hexponent
  unfold unsigned?
  cases hfraction with
  | none =>
    obtain ⟨htake, hdrop⟩ := takeWhile_front hwhole.all hmark
    have hpoint : ∀ rest, exponent ≠ '.' :: rest := by
      rintro rest rfl
      cases hexponent with
      | power marked => rcases marked with h | h <;> cases h
    rw [List.nil_append, htake, hdrop]
    simp [toLower_of_isDigit hd, hi, hn, hpower]
  | @point places hplaces =>
    have hpoint : ∀ c ∈ ('.' :: places ++ exponent).head?, c.isDigit = false := by
      intro c hc
      cases hc
      rfl
    obtain ⟨htake, hdrop⟩ := takeWhile_front hwhole.all hpoint
    obtain ⟨htake', hdrop'⟩ := takeWhile_front hplaces.all hmark
    rw [htake, hdrop]
    simp [toLower_of_isDigit hd, hi, hn, hpower, htake', hdrop']

/-- Whatever is spelled like a number is taken for one. -/
theorem ofText?_numeric {text : List Char} (h : Numeric text) :
    (ofText? (String.ofList text)).isSome = true := by
  have hunsigned := unsigned?_numeric h
  obtain ⟨d, ds, rfl, hd⟩ := h.head
  have hminus : d ≠ '-' := ne_of_isDigit hd rfl
  have hplus : d ≠ '+' := ne_of_isDigit hd rfl
  simp [ofText?, hminus, hplus, hunsigned]

end Number

end Scriptlet
