/-
Whole numbers. Up to two to the fifty-third every natural number is a number exactly, and
is the whole number that it is: nothing is lost on the way to a number and back
(`toInt?_ofNat`), and no other number is equal to it (`toInt?_eq_some_iff`). So positions
and lengths may be taken for what they count.
-/
import Mathlib
import Scriptlet.Proofs.Value.Equality

namespace Scriptlet.Number

open Float.Model Float.Model.UnpackedFloat

-- ========================================================= rounding

section Rounding

variable {mantissa : Nat} {power : Int} (hm : mantissa.log2 = 52) (hp : -1074 ≤ power)

include hm

private theorem mantissa_pos : 0 < mantissa := by
  rcases Nat.eq_zero_or_pos mantissa with rfl | hpos
  · simp at hm
  · exact hpos

private theorem two_pow_le_mantissa : 2 ^ 52 ≤ mantissa ∧ mantissa < 2 ^ 53 :=
  (Nat.log2_eq_iff (mantissa_pos hm).ne').1 hm

include hp

/-- A mantissa of full length stays where it is. -/
theorem shiftToTargetExponent_full :
    shiftToTargetExponent Format.binary64 mantissa power .exact
      = (⟨mantissa, false, false⟩, power) := by
  have htarget : Format.binary64.targetExponent (totalExponent mantissa power) = power := by
    simp only [Format.targetExponent, totalExponent, Format.mantissaBits, Format.minExponent, hm]
    omega
  simp [shiftToTargetExponent, shiftToExponent, htarget, HShiftRight.hShiftRight, Nat.repeat,
    ExtendedMantissa.ofMantissaAndAccuracy]

/-- What fills the format exactly is not rounded. -/
private theorem roundWithAccuracy_full (sign : Sign) :
    roundWithAccuracy Format.binary64 sign mantissa power .exact
      = .finite sign mantissa power (mantissa_pos hm) := by
  have hfull := shiftToTargetExponent_full hm hp
  unfold roundWithAccuracy
  rw [hfull]
  dsimp only [ExtendedMantissa.roundedMantissa, ExtendedMantissa.accuracy,
    Accuracy.roundToNearestEven]
  rw [hfull, dif_neg (mantissa_pos hm).ne']

omit hm hp in
/-- Places that are all zero are shifted out without a trace, so nothing counts as
lost. -/
private theorem shiftRight_zeros (mantissa places : Nat) :
    ExtendedMantissa.mk (mantissa * 2 ^ places) false false >>> places
      = ⟨mantissa, false, false⟩ := by
  induction places generalizing mantissa with
  | zero => simp [HShiftRight.hShiftRight, Nat.repeat]
  | succ places ih =>
    have hstep := ih (mantissa * 2)
    rw [Nat.mul_assoc, ← Nat.pow_succ'] at hstep
    show (ExtendedMantissa.mk _ false false >>> places).shiftRightOne = _
    rw [hstep]
    simp [ExtendedMantissa.shiftRightOne]

/-- Zeros behind a mantissa of full length are cut off. -/
theorem roundWithAccuracy_zeros (sign : Sign) :
    roundWithAccuracy Format.binary64 sign (mantissa * 2 ^ 52) (power - 52) .exact
      = .finite sign mantissa power (mantissa_pos hm) := by
  have hlog : (mantissa * 2 ^ 52).log2 = 104 := by
    obtain ⟨hle, hlt⟩ := two_pow_le_mantissa hm
    rw [Nat.log2_eq_iff (by have := mantissa_pos hm; omega)]
    omega
  have htarget : Format.binary64.targetExponent (totalExponent (mantissa * 2 ^ 52) (power - 52))
      = power := by
    simp only [Format.targetExponent, totalExponent, Format.mantissaBits, Format.minExponent, hlog]
    omega
  have hshift : shiftToTargetExponent Format.binary64 (mantissa * 2 ^ 52) (power - 52) .exact
      = (⟨mantissa, false, false⟩, power) := by
    have hplaces : (power - (power - 52)).toNat = 52 := by omega
    simp only [shiftToTargetExponent, shiftToExponent, htarget, hplaces,
      ExtendedMantissa.ofMantissaAndAccuracy, shiftRight_zeros]
    congr 1
    omega
  unfold roundWithAccuracy
  rw [hshift]
  dsimp only [ExtendedMantissa.roundedMantissa, ExtendedMantissa.accuracy,
    Accuracy.roundToNearestEven]
  rw [shiftToTargetExponent_full hm hp, dif_neg (mantissa_pos hm).ne']

end Rounding

-- ========================================================== packing

section Packing

variable {mantissa : Nat} {power : Int} (hm : mantissa.log2 = 52) (hp : -1074 ≤ power)
  (hp' : power ≤ 971)

include hm hp hp'

/-- The fields of a number with a mantissa of full length. -/
theorem pack_full (sign : Sign) :
    UnpackedFloat.pack Format.binary64 (.finite sign mantissa power (mantissa_pos hm))
      = packComponents Format.binary64 sign (BitVec.ofNat 11 (power + 1075).toNat)
        (BitVec.ofNat 52 mantissa) := by
  have hexponent : (power + Format.binary64.exponentBias
      + Format.binary64.mantissaBitsWithoutImplicit).toNat = (power + 1075).toNat := by
    simp only [Format.exponentBias]
    omega
  have hfits : ¬2 ^ Format.binary64.exponentBits ≤ (power + 1075).toNat + 1 := by
    show ¬2 ^ 11 ≤ _
    omega
  rw [UnpackedFloat.pack, hexponent, if_neg hfits, hm]
  exact if_pos rfl

/-- A full mantissa in range comes back from its bits: the leading one is left out there
and put in again. -/
private theorem unpack_pack_full (sign : Sign) :
    (Float.Model.pack (.finite sign mantissa power (mantissa_pos hm))).unpack
      = .finite sign mantissa power (mantissa_pos hm) := by
  obtain ⟨hle, hlt⟩ := two_pow_le_mantissa hm
  have hexponent : (BitVec.ofNat 11 (power + 1075).toNat).toNat = (power + 1075).toNat := by
    rw [BitVec.toNat_ofNat, Nat.mod_eq_of_lt (by omega)]
  have hinfinite : BitVec.ofNat 11 (power + 1075).toNat ≠ -1#_ := fun heq => by
    have htop : (power + 1075).toNat = 2047 := hexponent.symm.trans (congrArg BitVec.toNat heq)
    omega
  have hsmall : BitVec.ofNat 11 (power + 1075).toNat ≠ 0#_ := fun heq => by
    have hbottom : (power + 1075).toNat = 0 := hexponent.symm.trans (congrArg BitVec.toNat heq)
    omega
  have hmantissa : (1#1 ++ BitVec.ofNat 52 mantissa).toNat = mantissa := by
    rw [BitVec.toNat_append, BitVec.toNat_ofNat, ← Nat.shiftLeft_add_eq_or_of_lt (by omega)]
    simp [Nat.shiftLeft_eq]
    omega
  unfold Float.Model.unpack Float.Model.pack
  rw [UInt64.toBitVec_ofBitVec, pack_full hm hp hp', UnpackedFloat.unpack]
  simp only [unpackExponent_packComponents, unpackMantissa_packComponents,
    unpackSign_packComponents, Sign.ofBitVec_toBitVec, if_neg hinfinite, if_neg hsmall, hexponent,
    hmantissa]
  congr 1
  simp [Format.exponentBias]
  omega

end Packing

-- =========================================================== parts

/-- Whether a sign is negative. -/
def isNegative : Sign → Bool
  | .positive => false
  | .negative => true

/-- The parts of a number that was unpacked. -/
def unpackedParts : UnpackedFloat → Parts
  | .notANumber => .nan
  | .infinity sign => .infinite (isNegative sign)
  | .zero sign => .finite (isNegative sign) 0 leastPower
  | .finite sign mantissa power _ => .finite (isNegative sign) mantissa power

section Fields

variable (b : BitVec Format.binary64.numBits)

/-- The three fields of a word, as the quotients and remainders that `parts` takes
of it. -/
private theorem toNat_unpackMantissa : (unpackMantissa b).toNat = b.toNat % (1 <<< 52) := by
  rw [unpackMantissa_def, BitVec.extractLsb'_toNat, Nat.shiftRight_zero]
  rfl

private theorem toNat_unpackExponent : (unpackExponent b).toNat = b.toNat / (1 <<< 52) %
    (1 <<< 11) := by
  rw [unpackExponent_def, BitVec.extractLsb'_toNat, Nat.shiftRight_eq_div_pow]
  rfl

private theorem unpackMantissa_eq_zero_iff : unpackMantissa b = 0#_ ↔ b.toNat % (1 <<< 52) = 0 := by
  rw [← toNat_unpackMantissa, ← BitVec.toNat_inj]
  rfl

private theorem unpackExponent_eq_zero_iff :
    unpackExponent b = 0#_ ↔ b.toNat / (1 <<< 52) % (1 <<< 11) = 0 := by
  rw [← toNat_unpackExponent, ← BitVec.toNat_inj]
  rfl

private theorem unpackExponent_eq_ones_iff :
    unpackExponent b = -1#_ ↔ b.toNat / (1 <<< 52) % (1 <<< 11) = (1 <<< 11) - 1 := by
  rw [← toNat_unpackExponent, ← BitVec.toNat_inj]
  rfl

/-- The mantissa of a number that is not too small, with the bit that is left out. -/
theorem toNat_implicit : (1#1 ++ unpackMantissa b).toNat = (1 <<< 52) + b.toNat % (1 <<< 52) := by
  rw [BitVec.toNat_append, ← Nat.shiftLeft_add_eq_or_of_lt (BitVec.isLt _), toNat_unpackMantissa]
  rfl

private theorem isNegative_unpackSign :
    isNegative (Sign.ofBitVec (unpackSign b)) = decide (1 <<< 63 ≤ b.toNat) := by
  have hlt : b.toNat < 2 ^ 64 := b.isLt
  have htop : (unpackSign b).toNat = b.toNat / 2 ^ 63 := by
    rw [unpackSign_def, BitVec.extractLsb'_toNat, Nat.shiftRight_eq_div_pow]
    show b.toNat / 2 ^ 63 % 2 ^ 1 = _
    omega
  unfold Sign.ofBitVec
  by_cases hbit : unpackSign b = 0#1
  · rw [if_pos hbit]
    rw [hbit] at htop
    exact (decide_eq_false (by simp at htop ⊢; omega)).symm
  · rw [if_neg hbit]
    have hone : (unpackSign b).toNat ≠ 0 := fun hzero => hbit (BitVec.eq_of_toNat_eq hzero)
    exact (decide_eq_true (by simp at htop ⊢; omega)).symm

end Fields

/-- The parts of a number are those that it unpacks to. -/
theorem parts_eq (x : Float) : parts x = unpackedParts x.toModel.unpack := by
  have hbits : x.toBits.toNat = x.toModel.toBits.toBitVec.toNat := rfl
  unfold parts Float.Model.unpack UnpackedFloat.unpack
  rw [hbits]
  obtain ⟨b, hb⟩ : ∃ b : BitVec Format.binary64.numBits, x.toModel.toBits.toBitVec = b := ⟨_, rfl⟩
  have hones := unpackExponent_eq_ones_iff b
  have hnone := unpackExponent_eq_zero_iff b
  have hempty := unpackMantissa_eq_zero_iff b
  rw [hb]
  dsimp only
  rw [← isNegative_unpackSign]
  -- the top exponent is for infinity and NaN, the bottom one for zero and the subnormals
  by_cases htop : b.toNat / (1 <<< 52) % (1 <<< 11) = (1 <<< 11) - 1
  · rw [if_pos htop, if_pos (hones.2 htop)]
    by_cases hfield : b.toNat % (1 <<< 52) = 0
    · rw [if_pos hfield, if_pos (hempty.2 hfield)]
      rfl
    · rw [if_neg hfield, if_neg (mt hempty.1 hfield)]
      rfl
  rw [if_neg htop, if_neg (mt hones.1 htop)]
  by_cases hexponent : b.toNat / (1 <<< 52) % (1 <<< 11) = 0
  · rw [if_pos hexponent, if_pos (hnone.2 hexponent)]
    by_cases hfield : b.toNat % (1 <<< 52) = 0
    · rw [dif_pos (hempty.2 hfield), hfield]
      rfl
    · rw [dif_neg (mt hempty.1 hfield), unpackedParts, toNat_unpackMantissa, toNat_unpackExponent,
        hexponent]
      rfl
  · rw [if_neg hexponent, if_neg (mt hnone.1 hexponent), unpackedParts, toNat_implicit,
      toNat_unpackExponent]
    congr 1
    show -1074 + ((_ - 1 : Nat) : Int) = _ - ((1023 + 52 : Nat) : Int)
    omega

/-- A finite number has a mantissa of full length, or the smallest power there is. -/
theorem canonical_of_parts {x : Float} {negative : Bool} {mantissa : Nat} {power : Int}
    (h : parts x = .finite negative mantissa power) :
    mantissa < 2 ^ 53 ∧ (2 ^ 52 ≤ mantissa ∨ power = leastPower) ∧ leastPower ≤ power := by
  have hfield : x.toBits.toNat % (1 <<< 52) < 2 ^ 52 := Nat.mod_lt _ (by decide)
  unfold parts at h
  dsimp only at h
  split at h
  · split at h <;> cases h
  split at h
  · cases h
    exact ⟨by omega, .inr rfl, Int.le_refl _⟩
  · cases h
    have himplicit : 1 <<< 52 = 2 ^ 52 := rfl
    exact ⟨by omega, .inl (by omega), by omega⟩

/-- What a number with such parts is. -/
def amount (negative : Bool) (mantissa : Nat) (power : Int) : ℚ :=
  if negative then -(mantissa * 2 ^ power) else mantissa * 2 ^ power

/-- A mantissa and a power of two that are a natural number together. -/
theorem whole_eq_some_iff {mantissa : Nat} {power : Int} {n : Nat} :
    (if 0 ≤ power then some (mantissa <<< power.toNat)
      else if mantissa >>> (-power).toNat <<< (-power).toNat = mantissa then
        some (mantissa >>> (-power).toNat)
      else none) = some n ↔ (mantissa * 2 ^ power : ℚ) = n := by
  by_cases hpower : 0 ≤ power
  · obtain ⟨places, rfl⟩ := Int.eq_ofNat_of_zero_le hpower
    rw [if_pos hpower, Option.some.injEq, Nat.shiftLeft_eq, Int.toNat_natCast, zpow_natCast]
    norm_cast
  · obtain ⟨places, rfl⟩ : ∃ places : Nat, power = -(places : Int) :=
      ⟨(-power).toNat, by omega⟩
    have hvalue : (mantissa * 2 ^ (-(places : Int)) : ℚ) = n ↔ mantissa = n * 2 ^ places := by
      rw [zpow_neg, zpow_natCast, mul_inv_eq_iff_eq_mul₀ (by positivity)]
      norm_cast
    rw [if_neg hpower, neg_neg, Int.toNat_natCast, hvalue, Nat.shiftLeft_eq,
      Nat.shiftRight_eq_div_pow]
    constructor
    · intro h
      split at h
      · rename_i hwhole
        cases h
        exact hwhole.symm
      · cases h
    · rintro rfl
      rw [Nat.mul_div_cancel _ (Nat.two_pow_pos places), if_pos rfl]

/-- A number is a whole number if that is what its parts are together. -/
theorem toInt?_eq_some_iff_amount {x : Float} {i : Int} :
    toInt? x = some i ↔ ∃ negative mantissa power, parts x = .finite negative mantissa power
      ∧ amount negative mantissa power = i := by
  unfold toInt?
  cases hparts : parts x with
  | nan => simp
  | infinite negative => simp
  | finite negative mantissa power =>
    dsimp only
    rw [Option.map_eq_some_iff]
    constructor
    · rintro ⟨j, hj, rfl⟩
      obtain ⟨n, hn, hcast⟩ := Option.bind_eq_some_iff.1 hj
      cases hcast
      have hvalue := whole_eq_some_iff.1 hn
      refine ⟨negative, mantissa, power, rfl, ?_⟩
      cases negative <;> simp [amount, hvalue]
    · rintro ⟨_, _, _, heq, hamount⟩
      cases heq
      have hpositive : (0 : ℚ) ≤ mantissa * 2 ^ power := by positivity
      have hwhole {j : Int} (hj : (mantissa * 2 ^ power : ℚ) = j) :
          ∃ n : Nat, j = n ∧ (mantissa * 2 ^ power : ℚ) = n := by
        rw [hj] at hpositive
        obtain ⟨n, rfl⟩ := Int.eq_ofNat_of_zero_le (by exact_mod_cast hpositive : 0 ≤ j)
        exact ⟨n, rfl, hj⟩
      cases negative with
      | false =>
        obtain ⟨n, rfl, hn⟩ := hwhole hamount
        exact ⟨n, Option.bind_eq_some_iff.2 ⟨n, whole_eq_some_iff.2 hn, rfl⟩, rfl⟩
      | true =>
        obtain ⟨n, hi, hn⟩ := hwhole (j := -i) (by rw [Int.cast_neg, ← hamount]; simp [amount])
        refine ⟨n, Option.bind_eq_some_iff.2 ⟨n, whole_eq_some_iff.2 hn, rfl⟩, ?_⟩
        rw [if_pos rfl, ← hi, neg_neg]

/-- A mantissa in its place is what it is together with its power. -/
theorem canonical_unique {mantissa mantissa' : Nat} {power power' : Int} (hm : mantissa < 2 ^ 53)
    (hfull : 2 ^ 52 ≤ mantissa' ∨ power' = leastPower) (hp : leastPower ≤ power)
    (hle : power ≤ power') (h : (mantissa * 2 ^ power : ℚ) = mantissa' * 2 ^ power') :
    mantissa = mantissa' ∧ (mantissa = 0 ∨ power = power') := by
  obtain ⟨places, rfl⟩ := Int.le.dest hle
  have hscaled : mantissa = mantissa' * 2 ^ places := by
    have htwo : (2 : ℚ) ^ power ≠ 0 := by positivity
    rw [zpow_add₀ two_ne_zero, zpow_natCast, mul_comm (2 ^ power), ← mul_assoc] at h
    exact_mod_cast mul_right_cancel₀ htwo h
  cases places with
  | zero => exact ⟨by simpa using hscaled, .inr (by simp)⟩
  | succ places =>
    have hlong : 2 ^ 52 ≤ mantissa' := hfull.resolve_right (by omega)
    have htwice : 2 ^ 52 * 2 ^ 1 ≤ mantissa' * 2 ^ (places + 1) :=
      Nat.mul_le_mul hlong (Nat.pow_le_pow_right two_pos (Nat.le_add_left 1 places))
    omega

/-- Numbers with the same parts are equal, and all that are zero. -/
theorem beq_of_parts {x y : Float} {negative negative' : Bool} {mantissa : Nat} {power power' : Int}
    (hx : parts x = .finite negative mantissa power)
    (hy : parts y = .finite negative' mantissa power')
    (h : mantissa = 0 ∨ negative = negative' ∧ power = power') : (x == y) = true := by
  rw [parts_eq] at hx hy
  rw [beq_iff]
  unfold comparand
  generalize x.toModel.unpack = a at hx
  generalize y.toModel.unpack = b at hy
  cases a with
  | notANumber => cases hx
  | infinity sign => cases hx
  -- a zero has two signs and one amount: the signs need not agree
  | zero sign =>
    cases hx
    cases b with
    | zero sign' => exact ⟨rfl, UnpackedFloat.noConfusion⟩
    | finite sign' mantissa power pos =>
      cases hy
      exact absurd pos (Nat.lt_irrefl 0)
    | notANumber => cases hy
    | infinity sign' => cases hy
  | finite sign mantissa power pos =>
    cases hx
    obtain ⟨hsign, rfl⟩ := h.resolve_left pos.ne'
    cases b with
    | zero sign' =>
      cases hy
      exact absurd pos (Nat.lt_irrefl 0)
    | finite sign' mantissa' power' pos' =>
      simp only [unpackedParts, Parts.finite.injEq] at hy
      obtain ⟨hsign', rfl, rfl⟩ := hy
      have hsame : sign = sign' := by
        rw [← hsign'] at hsign
        cases sign <;> cases sign' <;> first | rfl | cases hsign
      subst hsame
      exact ⟨rfl, UnpackedFloat.noConfusion⟩
    | notANumber => cases hy
    | infinity sign' => cases hy

/-- Numbers with parts that are the same together are equal. -/
theorem beq_of_amount_eq {x y : Float} {negative negative' : Bool} {mantissa mantissa' : Nat}
    {power power' : Int} (hx : parts x = .finite negative mantissa power)
    (hy : parts y = .finite negative' mantissa' power')
    (h : amount negative mantissa power = amount negative' mantissa' power') : (x == y) = true := by
  obtain ⟨hm, hfull, hp⟩ := canonical_of_parts hx
  obtain ⟨hm', hfull', hp'⟩ := canonical_of_parts hy
  have hpositive : (0 : ℚ) ≤ mantissa * 2 ^ power := by positivity
  have hpositive' : (0 : ℚ) ≤ mantissa' * 2 ^ power' := by positivity
  -- with opposite signs, both are zero
  obtain ⟨hvalue, hsign⟩ : (mantissa * 2 ^ power : ℚ) = mantissa' * 2 ^ power'
      ∧ (negative = negative' ∨ (mantissa * 2 ^ power : ℚ) = 0) := by
    unfold amount at h
    cases negative <;> cases negative' <;> simp only [if_true, Bool.false_eq_true, if_false] at h
    · exact ⟨h, .inl rfl⟩
    · exact ⟨by linarith, .inr (by linarith)⟩
    · exact ⟨by linarith, .inr (by linarith)⟩
    · exact ⟨by linarith, .inl rfl⟩
  have hzero (hnone : (mantissa * 2 ^ power : ℚ) = 0) : mantissa = 0 := by
    have htwo : (2 : ℚ) ^ power ≠ 0 := by positivity
    exact_mod_cast (mul_eq_zero.1 hnone).resolve_right htwo
  obtain ⟨rfl, hpower⟩ : mantissa = mantissa' ∧ (mantissa = 0 ∨ power = power') := by
    rcases le_total power power' with hle | hle
    · exact canonical_unique hm hfull' hp hle hvalue
    · obtain ⟨rfl, hpower⟩ := canonical_unique hm' hfull hp' hle hvalue.symm
      exact ⟨rfl, hpower.imp_right Eq.symm⟩
  refine beq_of_parts hx hy ?_
  rcases hsign with hsign | hnone
  · exact hpower.imp_right fun hpower => ⟨hsign, hpower⟩
  · exact .inl (hzero hnone)

/-- Numbers that are the same whole number are equal. -/
theorem beq_of_toInt? {x y : Float} {i : Int} (hx : toInt? x = some i) (hy : toInt? y = some i) :
    (x == y) = true := by
  obtain ⟨_, _, _, hx, hvalue⟩ := toInt?_eq_some_iff_amount.1 hx
  obtain ⟨_, _, _, hy, hvalue'⟩ := toInt?_eq_some_iff_amount.1 hy
  exact beq_of_amount_eq hx hy (hvalue.trans hvalue'.symm)

/-- Equal numbers are the same whole number, if they are one. -/
theorem toInt?_congr {x y : Float} (h : (x == y) = true) : toInt? x = toInt? y := by
  obtain ⟨-, -, rfl | ⟨rfl, rfl⟩ | ⟨rfl, rfl⟩⟩ := Float.beq_iff_ne_nan_and_eq.1 h
  · rfl
  · decide +kernel
  · decide +kernel

-- ================================================= natural numbers

section Natural

variable {n : Nat} (hpos : 0 < n) (hn : n < 2 ^ 53)

include hpos hn

private theorem log2_le : n.log2 ≤ 52 := Nat.le_of_lt_succ ((Nat.log2_lt hpos.ne').2 hn)

/-- A natural number fills a mantissa when it is moved up. -/
theorem log2_moved : (n <<< (52 - n.log2)).log2 = 52 := by
  obtain ⟨places, hplaces⟩ := Nat.exists_eq_add_of_le (log2_le hpos hn)
  have hbelow : 2 ^ n.log2 ≤ n := Nat.log2_self_le hpos.ne'
  have habove : n < 2 ^ (n.log2 + 1) := Nat.lt_log2_self
  have hfront : 2 ^ 52 = 2 ^ n.log2 * 2 ^ places := by rw [← Nat.pow_add, ← hplaces]
  have hbehind : 2 ^ 53 = 2 ^ (n.log2 + 1) * 2 ^ places := by
    rw [← Nat.pow_add, Nat.add_right_comm, ← hplaces]
  have hmoved : n <<< (52 - n.log2) = n * 2 ^ places := by
    rw [Nat.shiftLeft_eq, hplaces, Nat.add_sub_cancel_left]
  rw [hmoved, Nat.log2_eq_iff (by positivity), hfront, hbehind]
  exact ⟨Nat.mul_le_mul_right _ hbelow, Nat.mul_lt_mul_of_pos_right habove (by positivity)⟩

/-- A positive number below two to the 53rd is moved up until it fills the mantissa, and
the power counts how far. -/
private theorem unpacked_ofNat : UnpackedFloat.ofNat Format.binary64 n
    = .finite .positive (n <<< (52 - n.log2)) (n.log2 - 52)
      (mantissa_pos (log2_moved hpos hn)) := by
  have hle := log2_le hpos hn
  have htarget : Format.binary64.targetExponent (totalExponent n 0) = n.log2 - 52 := by
    simp only [Format.targetExponent, totalExponent, Format.mantissaBits, Format.minExponent]
    omega
  have hplaces : (0 - ((n.log2 : Int) - 52)).toNat = 52 - n.log2 := by omega
  have hcompare : compare (n : Int) 0 = .gt := by
    rw [compare_gt_iff_gt]
    exact_mod_cast hpos
  have hmoved : decreaseExponent n 0 (n.log2 - 52)
      = (n <<< (52 - n.log2), (n.log2 : Int) - 52) := by
    rw [decreaseExponent, hplaces]
    congr 1
    omega
  show normalize Format.binary64 (n : Int) 0 .positive = _
  unfold UnpackedFloat.normalize
  rw [hcompare]
  dsimp only
  unfold UnpackedFloat.round
  rw [Int.toNat_natCast, htarget]
  dsimp only
  rw [hmoved]
  exact roundWithAccuracy_full (log2_moved hpos hn) (by omega) .positive

private theorem unpack_ofNat : (Float.ofNat n).toModel.unpack
    = .finite .positive (n <<< (52 - n.log2)) (n.log2 - 52)
      (mantissa_pos (log2_moved hpos hn)) := by
  have hle := log2_le hpos hn
  have hm := log2_moved hpos hn
  have hone : (Float.ofBits 0x3FF0000000000000).toModel
      = Float.Model.pack (.finite .positive (2 ^ 52) (-52) (by decide)) := by
    decide +kernel
  have hfast : Float.ofNat n = n.toUInt64.toFloat * Float.ofBits 0x3FF0000000000000 := by
    show Float.ofScientific n false 0 = _
    rw [Float.ofScientific, dif_pos ⟨hn, Nat.zero_le 22⟩]
    rfl
  have hword : n.toUInt64.toNat = n := Nat.mod_eq_of_lt (by omega)
  have hfloat : n.toUInt64.toFloat.toModel = Float.Model.pack (.finite .positive
      (n <<< (52 - n.log2)) (n.log2 - 52) (mantissa_pos hm)) := by
    show Float.Model.pack (UnpackedFloat.ofNat Format.binary64 n.toUInt64.toNat) = _
    rw [hword, unpacked_ofNat hpos hn]
  rw [hfast]
  show (Float.Model.pack (UnpackedFloat.mul _ _ _)).unpack = _
  rw [hfloat, hone, unpack_pack_full hm (by omega) (by omega),
    unpack_pack_full Nat.log2_two_pow (by decide) (by decide)]
  show (Float.Model.pack (roundWithAccuracy _ .positive _ _ _)).unpack = _
  rw [show (n.log2 : Int) - 52 + -52 = (n.log2 : Int) - 52 - 52 from rfl,
    roundWithAccuracy_zeros hm (by omega), unpack_pack_full hm (by omega) (by omega)]

end Natural

/-- A natural number is the whole number that it is, up to two to the fifty-third. -/
theorem toInt?_ofNat {n : Nat} (hn : n ≤ 2 ^ 53) : toInt? (Float.ofNat n) = some (n : Int) := by
  rcases Nat.eq_zero_or_pos n with rfl | hpos
  · decide +kernel
  rcases Nat.lt_or_eq_of_le hn with hn | rfl
  · rw [toInt?_eq_some_iff_amount, parts_eq, unpack_ofNat hpos hn]
    refine ⟨_, _, _, rfl, ?_⟩
    obtain ⟨places, hplaces⟩ := Nat.exists_eq_add_of_le (log2_le hpos hn)
    have hpower : (n.log2 : Int) - 52 = -(places : Int) := by omega
    have hmoved : 52 - n.log2 = places := by omega
    rw [hmoved, hpower, Nat.shiftLeft_eq, amount, isNegative,
      if_neg Bool.false_ne_true, zpow_neg, zpow_natCast]
    push_cast
    exact mul_inv_cancel_right₀ (by positivity) _
  · decide +kernel

/-- A number is a natural number if it is equal to that number. -/
theorem toInt?_eq_some_iff {x : Float} {n : Nat} (hn : n ≤ 2 ^ 53) :
    toInt? x = some (n : Int) ↔ (x == Float.ofNat n) = true :=
  ⟨fun h => beq_of_toInt? h (toInt?_ofNat hn), fun h => (toInt?_congr h).trans (toInt?_ofNat hn)⟩

end Scriptlet.Number
