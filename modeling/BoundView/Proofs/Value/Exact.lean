import BoundView.Proofs.Value.Order

/-!
# Exact numbers

A number that is an integer is the number nearest to that integer, so that it may be written as the
integer and read back as it was.  Main statement: a finite number and the document it is written as
stand for the same number.
-/

namespace BoundView

namespace Binary64

open Float.Model
open Zeros (Same)

variable {x : Float} {negative : Bool} {num den m : Nat} {q : Int}

/-! ## Numbers and their bits -/

/-- A finite number is made of what it is read as. -/
theorem toNat_of_read (h : read x = .finite negative m q) :
    x.toBits.toNat = (if negative then 2 ^ 63 else 0) + ((q - minExponent).toNat * 2 ^ 52 + m)
      ∧ minExponent ≤ q ∧ q ≤ 971 ∧ m < 2 ^ 53 ∧ (q = minExponent ∨ 2 ^ 52 ≤ m) := by
  obtain ⟨sign, exponent, fraction, hsign, hexponent, hfraction, hbits, hread⟩ := exists_fields x
  rw [hread] at h
  have hnegative : sign * 2 ^ 63 = if (sign == 1) = true then 2 ^ 63 else 0 := by
    obtain rfl | rfl : sign = 0 ∨ sign = 1 := by omega
    · rfl
    · rfl
  by_cases hspecial : exponent = 2047
  · rw [if_pos hspecial] at h
    by_cases hfraction : fraction = 0
    · rw [if_pos hfraction] at h
      exact nomatch h
    · rw [if_neg hfraction] at h
      exact nomatch h
  rw [if_neg hspecial] at h
  by_cases hzero : exponent = 0
  · rw [if_pos hzero] at h
    obtain ⟨rfl, rfl, rfl⟩ := Reading.finite.inj h
    rw [hbits, hnegative, minExponent]
    omega
  · rw [if_neg hzero] at h
    obtain ⟨rfl, rfl, rfl⟩ := Reading.finite.inj h
    rw [hbits, hnegative, minExponent]
    omega

theorem ofScaled_of_read (h : read x = .finite negative m q) : ofScaled negative m q = x := by
  obtain ⟨hbits, hmin, hmax, hm, -⟩ := toNat_of_read h
  have hmagnitude : ¬2047 * twoTo 52 ≤ (q - minExponent).toNat * twoTo 52 + m := by
    rw [show twoTo 52 = 2 ^ 52 from rfl]
    rw [minExponent] at hmin ⊢
    omega
  unfold ofScaled
  dsimp only
  have heq : (if negative then twoTo 63 + ((q - minExponent).toNat * twoTo 52 + m)
      else (q - minExponent).toNat * twoTo 52 + m) = x.toBits.toNat := by
    rw [hbits]
    cases negative <;> simp [twoTo]
  rw [if_neg hmagnitude, heq, UInt64.ofNat_toNat, Float.ofBits_toBits]

/-- Bits stand for themselves, unless they stand for no number or for an infinite one. -/
theorem toBits_ofBits {bits : UInt64} (h : bits.toNat / 2 ^ 52 % 2 ^ 11 ≠ 2047) :
    (Float.ofBits bits).toBits = bits := by
  obtain ⟨b, hb⟩ : ∃ b : BitVec Format.binary64.numBits, bits.toBitVec = b := ⟨_, rfl⟩
  have hvalid : Format.binary64.Valid b := by
    refine ⟨fun hexponent => absurd ?_ h⟩
    have hfields := Zeros.toNat_eq_fields b
    have hmantissa : (UnpackedFloat.unpackMantissa b).toNat < 2 ^ 52 :=
      (UnpackedFloat.unpackMantissa b).isLt
    have hones : (UnpackedFloat.unpackExponent b).toNat = 2047 := by
      rw [hexponent]
      rfl
    rw [show bits.toNat = b.toNat from congrArg BitVec.toNat hb]
    omega
  apply UInt64.eq_of_toBitVec_eq
  show UnpackedFloat.pack Format.binary64 (UnpackedFloat.unpack Format.binary64 bits.toBitVec) = _
  rw [hb]
  exact UnpackedFloat.pack_unpack_of_valid hvalid

theorem isFinite_of_exponent (h : x.toBits.toNat / 2 ^ 52 % 2 ^ 11 ≠ 2047) : isFinite x = true := by
  obtain ⟨sign, exponent, fraction, hsign, hexponent, hfraction, hbits, hread⟩ := exists_fields x
  rw [if_neg (by omega)] at hread
  rw [isFinite, hread]
  by_cases hzero : exponent = 0
  · rw [if_pos hzero]
  · rw [if_neg hzero]

theorem isFinite_ofScaled (h : (q - minExponent).toNat * 2 ^ 52 + m < 2047 * 2 ^ 52) :
    isFinite (ofScaled negative m q) = true := by
  apply isFinite_of_exponent
  unfold ofScaled
  dsimp only
  rw [show twoTo 52 = 2 ^ 52 from rfl, show twoTo 63 = 2 ^ 63 from rfl,
    if_neg (Nat.not_le_of_lt h)]
  generalize (q - minExponent).toNat * 2 ^ 52 + m = magnitude at h ⊢
  have hbits : (UInt64.ofNat (if negative then 2 ^ 63 + magnitude else magnitude)).toNat
      / 2 ^ 52 % 2 ^ 11 = magnitude / 2 ^ 52 := by
    rw [UInt64.toNat_ofNat']
    cases negative <;> simp only [if_true, if_false, Bool.false_eq_true] <;> omega
  have hlt : magnitude / 2 ^ 52 < 2047 := by omega
  rw [toBits_ofBits] <;> omega

/-- What is scaled or rounded is a number, though it may be an infinite one. -/
theorem isNaN_ofScaled (negative : Bool) (m : Nat) (q : Int) :
    isNaN (ofScaled negative m q) = false := by
  by_cases h : (q - minExponent).toNat * 2 ^ 52 + m < 2047 * 2 ^ 52
  · exact isNaN_of_isFinite (isFinite_ofScaled h)
  · unfold ofScaled
    dsimp only
    rw [show twoTo 52 = 2 ^ 52 from rfl, show twoTo 63 = 2 ^ 63 from rfl,
      if_pos (Nat.le_of_not_lt h)]
    cases negative <;> decide +kernel

theorem isNaN_nearest (negative : Bool) (num den : Nat) :
    isNaN (nearest negative num den) = false := by
  unfold nearest
  split
  · exact isNaN_ofScaled _ _ _
  · exact isNaN_ofScaled _ _ _

/-! ## Integers -/

theorem roundDiv_mul_self (hden : 0 < den) : roundDiv (m * den) den = m := by
  unfold roundDiv
  dsimp only
  rw [Nat.mul_mod_left, if_pos (by omega), Nat.mul_div_cancel m hden]

theorem roundDiv_le (num den : Nat) : roundDiv num den ≤ num / den + 1 := by
  unfold roundDiv
  dsimp only
  split
  · omega
  · split
    · omega
    · omega

theorem floorLog2_one (hnum : num ≠ 0) : floorLog2 num 1 = num.log2 := by
  have hguess : (num.log2 : Int) - (1 : Nat).log2 = num.log2 := Int.sub_zero _
  unfold floorLog2
  dsimp only
  rw [hguess, if_pos]
  rw [if_pos (Int.natCast_nonneg _), Int.toNat_natCast, Nat.one_mul]
  exact Nat.log2_self_le hnum

theorem log2_mul_two_pow (hnum : num ≠ 0) (k : Nat) : (num * 2 ^ k).log2 = num.log2 + k := by
  induction k with
  | zero => rw [Nat.pow_zero, Nat.mul_one, Nat.add_zero]
  | succ k ih =>
    have hpos : num * 2 ^ k ≠ 0 := Nat.mul_ne_zero hnum (Nat.two_pow_pos k).ne'
    rw [Nat.pow_succ', Nat.mul_left_comm, Nat.log2_two_mul hpos, ih]
    rfl

/-- What has exactly as many bits as a mantissa is not rounded. -/
theorem nearest_eq_ofScaled (hnum : num * 2 ^ (-q).toNat = m * 2 ^ q.toNat) (hm : 2 ^ 52 ≤ m)
    (hm' : m < 2 ^ 53) (hq : minExponent ≤ q) : nearest negative num 1 = ofScaled negative m q := by
  have hpos : num ≠ 0 := by
    rintro rfl
    rw [Nat.zero_mul] at hnum
    have hprod : 0 < m * 2 ^ q.toNat := Nat.mul_pos (by omega) (Nat.two_pow_pos _)
    omega
  have hlog : (num.log2 : Int) = 52 + q := by
    have hbits : m.log2 = 52 := (Nat.log2_eq_iff (by omega)).2 ⟨hm, hm'⟩
    have hsame := congrArg Nat.log2 hnum
    rw [log2_mul_two_pow hpos, log2_mul_two_pow (by omega), hbits] at hsame
    omega
  unfold nearest
  dsimp only
  rw [if_neg hpos, floorLog2_one hpos, hlog, show 52 + q - 52 = q by omega, max_eq_right hq]
  by_cases hsign : 0 ≤ q
  · have hzero : (-q).toNat = 0 := by omega
    rw [hzero, Nat.pow_zero, Nat.mul_one] at hnum
    rw [if_pos hsign, Nat.one_mul, hnum, show twoTo q.toNat = 2 ^ q.toNat from rfl,
      roundDiv_mul_self (Nat.two_pow_pos _)]
  · have hzero : q.toNat = 0 := by omega
    rw [hzero, Nat.pow_zero] at hnum
    rw [if_neg hsign, show twoTo (-q).toNat = 2 ^ (-q).toNat from rfl, hnum,
      roundDiv_mul_self Nat.one_pos]

/-- The magnitude of a number that is an integer. -/
theorem exists_of_integer? {n : Int} (h : integer? x = some n) : ∃ negative m q,
    read x = .finite negative m q ∧ n.natAbs * 2 ^ (-q).toNat = m * 2 ^ q.toNat
      ∧ n = if negative then -(n.natAbs : Int) else n.natAbs := by
  unfold integer? at h
  split at h
  · rename_i negative m q hread
    have habs : ∀ k : Nat, (if negative then -(k : Int) else k) = n → n.natAbs = k := by
      rintro k rfl
      cases negative
      · exact Int.natAbs_natCast k
      · exact (Int.natAbs_neg _).trans (Int.natAbs_natCast k)
    refine ⟨negative, m, q, hread, ?_⟩
    by_cases hq : 0 ≤ q
    · simp only [if_pos hq] at h
      have hn := Option.some.inj h
      rw [habs _ hn, show (-q).toNat = 0 by omega, Nat.pow_zero, Nat.mul_one]
      exact ⟨rfl, hn.symm⟩
    · simp only [if_neg hq] at h
      by_cases hmod : m % twoTo (-q).toNat = 0
      · simp only [if_pos hmod] at h
        have hn := Option.some.inj h
        rw [habs _ hn, show q.toNat = 0 by omega, Nat.pow_zero, Nat.mul_one]
        exact ⟨Nat.div_mul_cancel (Nat.dvd_of_mod_eq_zero hmod), hn.symm⟩
      · simp only [if_neg hmod] at h
        exact nomatch h
  · exact nomatch h

/-- A number that is an integer is the one nearest to it. -/
theorem same_ofInt {n : Int} (h : integer? x = some n) : Same (ofInt n) x := by
  obtain ⟨negative, m, q, hread, hmagnitude, hsign⟩ := exists_of_integer? h
  obtain ⟨-, hmin, -, hm', hm⟩ := toNat_of_read hread
  rw [← ofScaled_of_read hread]
  by_cases hzero : n = 0
  · -- Both are zeros.
    subst hzero
    have hm0 : m = 0 := by
      rw [Int.natAbs_zero, Nat.zero_mul] at hmagnitude
      exact (Nat.mul_eq_zero.1 hmagnitude.symm).resolve_right (Nat.two_pow_pos _).ne'
    obtain rfl : q = minExponent := hm.resolve_right (by omega)
    subst hm0
    rw [ofInt, Int.natAbs_zero, Zeros.nearest_zero, Zeros.ofScaled_zero]
    exact .zeros _ _
  · have hm : 2 ^ 52 ≤ m := by
      refine hm.resolve_left fun hq => ?_
      -- The least numbers are no integers.
      subst hq
      have hle : 2 ^ 53 ≤ n.natAbs * 2 ^ (-minExponent).toNat :=
        (Nat.pow_le_pow_right Nat.two_pos (by decide)).trans
          (Nat.le_mul_of_pos_left _ (Int.natAbs_pos.2 hzero))
      rw [hmagnitude, show minExponent.toNat = 0 from rfl, Nat.pow_zero, Nat.mul_one] at hle
      omega
    have hnegative : decide (n < 0) = negative := by
      rw [hsign]
      cases negative <;> simp [hzero]
    rw [ofInt, hnegative, nearest_eq_ofScaled hmagnitude hm hm' hmin]
    exact .refl _

/-- The integers of the 64-bit ranges are far from the infinite numbers. -/
theorem isFinite_ofInt {n : Int} (h : n.natAbs < 2 ^ 64) : isFinite (ofInt n) = true := by
  unfold ofInt nearest
  dsimp only
  by_cases hzero : n.natAbs = 0
  · rw [if_pos hzero]
    exact isFinite_ofScaled (by decide)
  rw [if_neg hzero, floorLog2_one hzero]
  generalize n.natAbs = num at h hzero ⊢
  have hlog : num.log2 < 64 := (Nat.log2_lt hzero).2 h
  have hlt : num < 2 ^ (num.log2 + 1) := Nat.lt_log2_self
  generalize num.log2 = k at hlog hlt ⊢
  rw [max_eq_right (by rw [minExponent]; omega)]
  apply isFinite_ofScaled
  -- Rounding up may give one bit more than a mantissa has.
  have hmantissa : (if 0 ≤ (k : Int) - 52 then roundDiv num (1 * twoTo ((k : Int) - 52).toNat)
      else roundDiv (num * twoTo (-((k : Int) - 52)).toNat) 1) ≤ 2 ^ 53 := by
    by_cases hsign : 0 ≤ (k : Int) - 52
    · obtain ⟨j, rfl⟩ := Nat.exists_eq_add_of_le (show 52 ≤ k by omega)
      rw [if_pos hsign, show ((52 + j : Nat) - 52 : Int).toNat = j by omega, Nat.one_mul]
      have hquotient : num / 2 ^ j < 2 ^ 53 := by
        rw [Nat.div_lt_iff_lt_mul (Nat.two_pow_pos j), ← Nat.pow_add]
        exact hlt.trans_eq (congrArg _ (by omega))
      exact (roundDiv_le num _).trans hquotient
    · rw [if_neg hsign, show (-((k : Int) - 52)).toNat = 52 - k by omega,
        ← Nat.mul_one (num * twoTo (52 - k)), roundDiv_mul_self Nat.one_pos]
      have hscaled : num * 2 ^ (52 - k) < 2 ^ (k + 1) * 2 ^ (52 - k) :=
        Nat.mul_lt_mul_of_pos_right hlt (Nat.two_pow_pos _)
      rw [← Nat.pow_add, show k + 1 + (52 - k) = 53 by omega] at hscaled
      exact hscaled.le
  rw [minExponent]
  omega

end Binary64

/-! ## Numbers of documents -/

namespace Json

open Zeros (Same)

/-- Whether a number is one that a document holds: an integer of the 64-bit ranges, or a finite
number. -/
def Number.Proper : Number → Prop
  | .int n => -2 ^ 63 ≤ n ∧ n < 2 ^ 64
  | .float x => Binary64.isFinite x = true

theorem Number.Proper.isFinite {n : Number} (h : n.Proper) :
    Binary64.isFinite n.toFloat = true := by
  cases n with
  | int n =>
    obtain ⟨hlow, hhigh⟩ := h
    exact Binary64.isFinite_ofInt (by omega)
  | float x => exact h

variable {j value : Json} {seg : Seg}

/-- Whether all numbers are such as documents hold. -/
def Proper (j : Json) : Prop :=
  ∀ path n, j.get? path = some (.number n) → n.Proper

theorem Proper.step? (h : j.Proper) (hvalue : j.step? seg = some value) : value.Proper := by
  intro path n hn
  refine h (seg :: path) n ?_
  rw [get?, hvalue]
  exact hn

theorem proper_of_step? (htop : ∀ n, j = .number n → n.Proper)
    (hstep : ∀ seg value, j.step? seg = some value → value.Proper) : j.Proper := by
  intro path n hn
  cases path with
  | nil => exact htop n (Option.some.inj hn)
  | cons seg path =>
    obtain ⟨value, hvalue, hn⟩ := Option.bind_eq_some_iff.1 hn
    exact hstep seg value hvalue path n hn

/-- The greatest integer that is written is read as the number behind it. -/
theorem ofInt_greatest : Binary64.ofInt (2 ^ 63 - 1) = Binary64.ofInt (2 ^ 63) := by
  decide +kernel

/-- A finite number is written as a number that stands for it. -/
theorem exists_ofFloat {x : Float} (h : Binary64.isFinite x = true) :
    ∃ n, ofFloat x = .number n ∧ n.Proper ∧ Same n.toFloat x := by
  have hpower : ((twoTo 63 : Nat) : Int) = 2 ^ 63 := by norm_num [twoTo]
  unfold ofFloat
  rw [hpower]
  split
  · rename_i n hinteger
    have hsame := Binary64.same_ofInt hinteger
    split
    · rename_i hle
      have hbound : n ≤ 2 ^ 63 ∧ -2 ^ 63 ≤ n := by omega
      refine ⟨_, rfl, ?_, ?_⟩
      · rw [Number.Proper]
        omega
      -- The power itself is beyond the range and is written as the integer before it.
      · rw [Number.toFloat]
        by_cases hn : n = 2 ^ 63
        · rw [hn] at hsame ⊢
          rw [min_eq_right (by omega), ofInt_greatest]
          exact hsame
        · rw [min_eq_left (by omega)]
          exact hsame
    · exact ⟨_, rfl, h, .refl x⟩
  · rw [if_pos h]
    exact ⟨_, rfl, h, .refl x⟩

end Json

end BoundView
