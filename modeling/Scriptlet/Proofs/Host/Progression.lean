/-
The arithmetic progression of `range`. A counter starts at one bound and moves by the step
as long as it is before the other bound; what it passes is the list that is returned. The
length of the list, its items, and where it ends are known from the two bounds and the
step alone.

# One rule for both directions

The guard of the loop asks for the sign of the step first. For a step that is not zero both
cases come to one: the counter is before the bound if and only if the quotient of the way
left and the step is positive (`isBefore_iff`). A step lowers this quotient by one, whichever
way it goes (`quotient_step`). So the number of terms is the quotient rounded up, and none
if it is not positive.

# Words

The loop counts on words of 64 bits, whose sum wraps. As long as every value that the
counter takes is a word, counting on words gives the words of what counting on numbers gives
(`Terms.counts`). The value at which the loop ends counts too, although it is no term: it is
what wraps first.
-/
import Mathlib.Data.Rat.Floor
import Scriptlet.Host.Prelude

namespace Scriptlet.Prelude

-- =========================================================== words

/-- A number that a word of 64 bits holds. -/
def IsWord (i : Int) : Prop := -0x8000000000000000 ≤ i ∧ i ≤ 0x7fffffffffffffff

instance (i : Int) : Decidable (IsWord i) := inferInstanceAs (Decidable (_ ∧ _))

private theorem toInt_word {i : Int} (h : IsWord i) : (Int64.ofInt i).toInt = i := by
  obtain ⟨hlow, hhigh⟩ := h
  exact Int64.toInt_ofInt_of_le (by omega) (by omega)

/-- A bound is made from a number by a conversion that stays within the words. -/
private theorem bound_isWord {v : Value} {i : Int} (h : bound v = .ok i) : IsWord i := by
  unfold bound at h
  split at h
  · split at h
    · cases h
      constructor <;> omega
    · cases h
  · cases h

/-- The arguments of `range`: the bound before which it ends; or the two bounds; or the two
bounds and the step. The first bound is zero if it is left out, and the step is one. -/
inductive Bounds : List Value → Int → Int → Int → Prop where
  | stop {v : Value} {stop : Int} (stops : bound v = .ok stop) : Bounds [v] 0 stop 1
  | between {v w : Value} {start stop : Int} (starts : bound v = .ok start)
      (stops : bound w = .ok stop) : Bounds [v, w] start stop 1
  | stepping {v w u : Value} {start stop step : Int} (starts : bound v = .ok start)
      (stops : bound w = .ok stop) (steps : bound u = .ok step) :
      Bounds [v, w, u] start stop step

namespace Bounds

variable {args : List Value} {start stop step : Int}

private theorem isWord (h : Bounds args start stop step) : IsWord stop ∧ IsWord step := by
  cases h with
  | stop stops => exact ⟨bound_isWord stops, by decide⟩
  | between _ stops => exact ⟨bound_isWord stops, by decide⟩
  | stepping _ stops steps => exact ⟨bound_isWord stops, bound_isWord steps⟩

/-- With its three bounds read and a step that moves, `range` is the progression in
numbers. -/
private theorem range_eq (h : Bounds args start stop step) (hstep : step ≠ 0) :
    range args
      = .ok (.list ((progression start stop step).map fun i => .number (Float.ofInt i))) := by
  cases h with
  | stop stops =>
    simp only [range, stops]
    rfl
  | between starts stops =>
    simp only [range, starts, stops]
    rfl
  | stepping starts stops steps =>
    simp only [range, starts, stops, steps]
    show (if step = 0 then _ else _) = _
    rw [if_neg hstep]
    rfl

end Bounds

-- =========================================================== terms

/-- What a counter at some value passes before it ends, on numbers. -/
inductive Terms (stop step : Int) : Int → List Int → Prop where
  | ends {current : Int} (out : isBefore stop step current = false) : Terms stop step current []
  | goesOn {current : Int} {terms : List Int} (before : isBefore stop step current = true)
      (rest : Terms stop step (current + step) terms) :
      Terms stop step current (current :: terms)

/-- What a counter at some value passes before it ends, on words. -/
inductive Counts (stop step : Int64) : Int64 → List Int64 → Prop where
  | ends {current : Int64}
      (out : ¬ ((0 < step ∧ current < stop) ∨ (step < 0 ∧ stop < current))) :
      Counts stop step current []
  | goesOn {current : Int64} {terms : List Int64}
      (before : (0 < step ∧ current < stop) ∨ (step < 0 ∧ stop < current))
      (rest : Counts stop step (current + step) terms) :
      Counts stop step current (current :: terms)

/-- A counter has no choice. -/
theorem Counts.unique {stop step current : Int64} {terms others : List Int64}
    (h : Counts stop step current terms) (h' : Counts stop step current others) :
    others = terms := by
  induction h generalizing others with
  | ends hout =>
    cases h' with
    | ends => rfl
    | goesOn hbefore => exact absurd hbefore hout
  | goesOn hbefore _ ih =>
    cases h' with
    | ends hout => exact absurd hbefore hout
    | goesOn _ hrest => rw [ih hrest]

/-- The values that a counter takes, with the one at which it ends. -/
inductive Visits (start stop step : Int) : Int → Prop where
  | start : Visits start stop step start
  | next {current : Int} (visits : Visits start stop step current)
      (before : isBefore stop step current = true) : Visits start stop step (current + step)

/-- The loop returns what was counted before it and then the terms. -/
theorem count_terms (stop step current : Int) (before : List Int) :
    ∃ terms, Terms stop step current terms
      ∧ count stop step current before = before.reverse ++ terms := by
  fun_induction count stop step current before with
  | case1 current before hbefore _ ih =>
    obtain ⟨terms, hterms, hcount⟩ := ih
    refine ⟨current :: terms, .goesOn hbefore hterms, ?_⟩
    rw [hcount, List.reverse_cons, List.append_assoc]
    rfl
  | case2 current before hout =>
    exact ⟨[], .ends (Bool.eq_false_iff.2 hout), (List.append_nil _).symm⟩

private theorem progression_terms (start stop step : Int) :
    Terms stop step start (progression start stop step) := by
  obtain ⟨terms, hterms, hcount⟩ := count_terms stop step start []
  rw [progression, hcount]
  exact hterms

-- ======================================================== quotients

/-- The steps from a counter to where it must stop, as a fraction. -/
def quotient (stop step current : Int) : ℚ := ((stop - current : Int) : ℚ) / step

variable {start stop step current : Int} {terms : List Int}

/-- The guard of the loop, for both directions. -/
theorem isBefore_iff :
    isBefore stop step current = true ↔ 0 < quotient stop step current := by
  rw [quotient, div_pos_iff]
  simp only [isBefore, Bool.or_eq_true, Bool.and_eq_true, decide_eq_true_eq, Int.cast_pos,
    Int.cast_lt_zero]
  constructor
  · rintro (⟨hpos, hlt⟩ | ⟨hneg, hlt⟩)
    · exact .inl ⟨by omega, hpos⟩
    · exact .inr ⟨by omega, hneg⟩
  · rintro (⟨hlt, hpos⟩ | ⟨hlt, hneg⟩)
    · exact .inl ⟨hpos, by omega⟩
    · exact .inr ⟨hneg, by omega⟩

/-- One step further there is one step less to go. -/
private theorem quotient_step (hstep : step ≠ 0) :
    quotient stop step (current + step) = quotient stop step current - 1 := by
  have hstep' : (step : ℚ) ≠ 0 := Int.cast_ne_zero.2 hstep
  rw [quotient, quotient, ← sub_sub, Int.cast_sub, sub_div, div_self hstep']

namespace Terms

/-- There are as many terms as steps fit between the bounds, rounded up; none, if the step
leads away. -/
theorem length_eq (h : Terms stop step current terms) (hstep : step ≠ 0) :
    (terms.length : Int) = max 0 ⌈quotient stop step current⌉ := by
  induction h with
  | @ends current hout =>
    have hquotient : ¬ 0 < quotient stop step current := by
      rw [← isBefore_iff, hout]
      exact Bool.false_ne_true
    exact (max_eq_left (Int.ceil_nonpos.2 (not_lt.1 hquotient))).symm
  | @goesOn current terms hbefore _ ih =>
    have hquotient := isBefore_iff.1 hbefore
    have hnext : (0 : Int) ≤ ⌈quotient stop step (current + step)⌉ := by
      rw [quotient_step hstep]
      exact Int.ceil_nonneg_of_neg_one_lt (by linarith)
    rw [max_eq_right hnext, quotient_step hstep, Int.ceil_sub_one] at ih
    rw [max_eq_right (Int.ceil_nonneg hquotient.le), List.length_cons]
    omega

private theorem getElem_eq (h : Terms stop step current terms) (i : Nat) (hi : i < terms.length) :
    terms[i] = current + i * step := by
  induction h generalizing i with
  | ends => cases hi
  | goesOn _ _ ih =>
    cases i with
    | zero => simp
    | succ i =>
      rw [List.getElem_cons_succ, ih i (Nat.lt_of_succ_lt_succ hi)]
      push_cast
      ring

/-- Every term is passed while the counter is before the bound. -/
theorem isBefore_of_mem (h : Terms stop step current terms) {t : Int} (ht : t ∈ terms) :
    isBefore stop step t = true := by
  induction h with
  | ends => cases ht
  | goesOn hbefore _ ih =>
    rcases List.mem_cons.1 ht with rfl | ht
    · exact hbefore
    · exact ih ht

/-- The counter ends at what would be the next term. -/
theorem isBefore_next (h : Terms stop step current terms) :
    isBefore stop step (current + terms.length * step) = false := by
  induction h with
  | ends hout => simpa using hout
  | @goesOn current terms _ _ ih =>
    have hnext : current + ((current :: terms).length : Int) * step
        = current + step + terms.length * step := by
      rw [List.length_cons]
      push_cast
      ring
    rw [hnext]
    exact ih

/-- A counter that takes only words counts on words what it counts on numbers. -/
theorem counts (h : Terms stop step current terms) (hstop : IsWord stop) (hstep : IsWord step)
    (hcurrent : Visits start stop step current)
    (hvisits : ∀ i, Visits start stop step i → IsWord i) :
    Counts (.ofInt stop) (.ofInt step) (.ofInt current) (terms.map .ofInt) := by
  have hguard {i : Int} (hi : Visits start stop step i) :
      (0 < Int64.ofInt step ∧ Int64.ofInt i < Int64.ofInt stop
          ∨ Int64.ofInt step < 0 ∧ Int64.ofInt stop < Int64.ofInt i)
        ↔ isBefore stop step i = true := by
    have hzero : (0 : Int64).toInt = 0 := rfl
    simp only [Int64.lt_iff_toInt_lt, toInt_word hstop, toInt_word hstep,
      toInt_word (hvisits i hi), hzero]
    simp [isBefore]
  induction h with
  | ends hout =>
    refine .ends fun hbefore => ?_
    rw [hguard hcurrent, hout] at hbefore
    cases hbefore
  | @goesOn current terms hbefore _ ih =>
    have hrest := ih (hcurrent.next hbefore)
    rw [Int64.ofInt_add] at hrest
    exact .goesOn ((hguard hcurrent).2 hbefore) hrest

private theorem visits_of_mem (h : Terms stop step current terms)
    (hcurrent : Visits start stop step current) {t : Int} (ht : t ∈ terms) :
    Visits start stop step t := by
  induction h with
  | ends => cases ht
  | goesOn hbefore _ ih =>
    rcases List.mem_cons.1 ht with rfl | ht
    · exact hcurrent
    · exact ih (hcurrent.next hbefore) ht

end Terms

-- =========================================================== range

/-- Two numbers are on the same side of a third. -/
def SameSide (stop a b : Int) : Prop := (a < stop ∧ b < stop) ∨ (stop < a ∧ stop < b)

private theorem sameSide_of_isBefore {a b : Int} (ha : isBefore stop step a = true)
    (hb : isBefore stop step b = true) : SameSide stop a b := by
  simp only [isBefore, Bool.or_eq_true, Bool.and_eq_true, decide_eq_true_eq] at ha hb
  unfold SameSide
  omega

private theorem not_sameSide_of_isBefore {a b : Int} (ha : isBefore stop step a = true)
    (hb : isBefore stop step b = false) : ¬ SameSide stop a b := by
  simp only [isBefore, Bool.or_eq_true, Bool.and_eq_true, decide_eq_true_eq, Bool.or_eq_false_iff,
    Bool.and_eq_false_iff, decide_eq_false_iff_not] at ha hb
  unfold SameSide
  omega

/-- The arithmetic progression from `start` before `stop`: as many terms as there are steps
between the two, rounded up, all of them on the side of `stop` that `start` is on. What would
be the next term is not before `stop`, nor, if there are any terms, on that side. -/
structure IsProgression (start stop step : Int) (terms : List Int) : Prop where
  length : (terms.length : Int) = max 0 ⌈((stop - start : Int) : ℚ) / step⌉
  item : ∀ (i : Nat) (hi : i < terms.length), terms[i] = start + i * step
  side : ∀ t ∈ terms, SameSide stop start t
  stop_notMem : stop ∉ terms
  next_out : isBefore stop step (start + terms.length * step) = false
  next_side : terms ≠ [] → ¬ SameSide stop start (start + terms.length * step)

private theorem Terms.isProgression (h : Terms stop step start terms) (hstep : step ≠ 0) :
    IsProgression start stop step terms := by
  have hstart (hne : terms ≠ []) : isBefore stop step start = true := by
    cases h with
    | ends => exact absurd rfl hne
    | goesOn hbefore _ => exact hbefore
  have hside : ∀ t ∈ terms, SameSide stop start t := by
    intro t ht
    exact sameSide_of_isBefore (hstart (List.ne_nil_of_mem ht)) (h.isBefore_of_mem ht)
  refine ⟨h.length_eq hstep, h.getElem_eq, hside, ?_, h.isBefore_next, ?_⟩
  · intro hmem
    rcases hside stop hmem with ⟨-, hlt⟩ | ⟨-, hlt⟩ <;> exact absurd hlt (lt_irrefl stop)
  · intro hne
    exact not_sameSide_of_isBefore (hstart hne) h.isBefore_next

/-- `range` returns the arithmetic progression from one bound to the other, if no value of its
counter is out of the words of 64 bits: its loop on words comes to an end, and with these
terms only. -/
theorem range_progression {args : List Value} {start stop step : Int}
    (hargs : Bounds args start stop step) (hstep : step ≠ 0)
    (hvisits : ∀ i, Visits start stop step i → IsWord i) :
    ∃ terms : List Int,
      range args = .ok (.list (terms.map fun i => .number (Float.ofInt i)))
        ∧ (∀ t ∈ terms, IsWord t)
        ∧ (∀ words, Counts (.ofInt stop) (.ofInt step) (.ofInt start) words
          ↔ words = terms.map .ofInt)
        ∧ IsProgression start stop step terms := by
  have hterms := progression_terms start stop step
  obtain ⟨hstopWord, hstepWord⟩ := hargs.isWord
  have hcounts := hterms.counts hstopWord hstepWord .start hvisits
  refine ⟨progression start stop step, hargs.range_eq hstep, ?_, ?_, hterms.isProgression hstep⟩
  · intro t ht
    exact hvisits t (hterms.visits_of_mem .start ht)
  · intro words
    constructor
    · intro hwords
      exact hcounts.unique hwords
    · rintro rfl
      exact hcounts

/-- Down from five by twos: the step does not divide the way, and zero is not reached. -/
theorem range_progression_falling :
    Bounds [.number 5, .number 0, .number (-2)] 5 0 (-2) ∧ (-2 : Int) ≠ 0
      ∧ (∀ i, Visits 5 0 (-2) i → IsWord i)
      ∧ ∃ terms : List Int, terms = [5, 3, 1]
        ∧ range [.number 5, .number 0, .number (-2)]
          = .ok (.list (terms.map fun i => .number (Float.ofInt i)))
        ∧ (∀ t ∈ terms, IsWord t)
        ∧ (∀ words, Counts (.ofInt 0) (.ofInt (-2)) (.ofInt 5) words
          ↔ words = terms.map .ofInt)
        ∧ IsProgression 5 0 (-2) terms := by
  have hargs : Bounds [.number 5, .number 0, .number (-2)] 5 0 (-2) :=
    .stepping (by decide +kernel) (by decide +kernel) (by decide +kernel)
  have hvisits : ∀ i, Visits 5 0 (-2) i → IsWord i := by
    have hrange : ∀ i, Visits 5 0 (-2) i → -1 ≤ i ∧ i ≤ 5 := by
      intro i hi
      induction hi with
      | start => decide
      | next _ hbefore ih =>
        simp [isBefore] at hbefore
        omega
    intro i hi
    have hbounds := hrange i hi
    unfold IsWord
    omega
  obtain ⟨terms, hrange, hwords, hcounts, hprogression⟩ :=
    range_progression hargs (by decide) hvisits
  have hlength : terms.length = 3 := by
    have hceil : ⌈((0 - 5 : Int) : ℚ) / ((-2 : Int) : ℚ)⌉ = 3 := by
      rw [Int.ceil_eq_iff]
      norm_num
    have hlength := hprogression.length
    rw [hceil] at hlength
    omega
  have hterms : terms = [5, 3, 1] := by
    refine List.ext_getElem hlength fun i hi hi' => ?_
    rw [hprogression.item i hi]
    rcases i with _ | _ | _ | i
    · rfl
    · rfl
    · rfl
    · exact absurd hi' (by simp)
  exact ⟨hargs, by decide, hvisits, terms, hterms, hrange, hwords, hcounts, hprogression⟩

end Scriptlet.Prelude
