import BoundView.Proofs.Value.Zeros

/-!
# The order of numbers

Numbers are compared by their ranks, unless one of them is no number at all.  So their order is
linear, and what lies between two finite numbers is finite.
-/

namespace BoundView.Binary64

open Float.Model
open UnpackedFloat (Sign)

variable {x y z : Float}

/-! ## Readings -/

/-- What an unpacked number is read as. -/
def reading : UnpackedFloat → Reading
  | .notANumber => .nan
  | .infinity s => .infinite (s == .negative)
  | .zero s => .finite (s == .negative) 0 minExponent
  | .finite s m e _ => .finite (s == .negative) m e

theorem sign_eq {s : BitVec 1} : (s.toNat == 1) = (Sign.ofBitVec s == .negative) := by
  rcases BitVec.eq_zero_or_eq_one s with rfl | rfl <;> rfl

/-- The bits of a number are its sign, its exponent and its mantissa, which it is read from. -/
theorem exists_fields (x : Float) : ∃ sign exponent fraction : Nat, sign < 2 ∧ exponent < 2 ^ 11
    ∧ fraction < 2 ^ 52 ∧ x.toBits.toNat = sign * 2 ^ 63 + exponent * 2 ^ 52 + fraction
    ∧ read x = if exponent = 2047 then if fraction = 0 then .infinite (sign == 1) else .nan
      else if exponent = 0 then .finite (sign == 1) fraction minExponent
      else .finite (sign == 1) (2 ^ 52 + fraction) (exponent + minExponent - 1) := by
  have hbits : x.toBits.toNat < 2 ^ 64 := x.toBits.toNat_lt
  refine ⟨x.toBits.toNat / 2 ^ 63, x.toBits.toNat / 2 ^ 52 % 2 ^ 11, x.toBits.toNat % 2 ^ 52,
    ?_, ?_, ?_, ?_, rfl⟩ <;> omega

/-- Taking a number apart comes to the same as unpacking it. -/
theorem read_eq (x : Float) : read x = reading x.toModel.unpack := by
  obtain ⟨sign, exponent, fraction, hsign, hexponent, hfraction, hbits, hread⟩ := exists_fields x
  obtain ⟨b, hb, hunpacks⟩ : ∃ b : BitVec Format.binary64.numBits,
      x.toBits.toNat = b.toNat ∧ Zeros.Unpacks b x.toModel.unpack :=
    ⟨x.toBits.toBitVec, rfl, Zeros.unpacks _⟩
  -- Both take the bits apart into the same three fields.
  have hfields := Zeros.toNat_eq_fields b
  have hexponent' : (UnpackedFloat.unpackExponent b).toNat < 2 ^ 11 :=
    (UnpackedFloat.unpackExponent b).isLt
  have hmantissa : (UnpackedFloat.unpackMantissa b).toNat < 2 ^ 52 :=
    (UnpackedFloat.unpackMantissa b).isLt
  obtain rfl : sign = (UnpackedFloat.unpackSign b).toNat := by omega
  obtain rfl : exponent = (UnpackedFloat.unpackExponent b).toNat := by omega
  obtain rfl : fraction = (UnpackedFloat.unpackMantissa b).toNat := by omega
  rw [hread, sign_eq]
  clear hb hfields hbits hread
  generalize x.toModel.unpack = u at hunpacks ⊢
  cases hunpacks with
  | infinity hs he hm =>
    rw [he, hm, hs]
    rfl
  | notANumber he hm =>
    have hne : (UnpackedFloat.unpackMantissa b).toNat ≠ 0 := fun h => hm (BitVec.eq_of_toNat_eq h)
    rw [he]
    exact if_neg hne
  | zero hs he hm =>
    rw [he, hm, hs]
    rfl
  | finite hs hfinite h =>
    have hfinite : (UnpackedFloat.unpackExponent b).toNat ≠ 2047 :=
      fun h => hfinite (BitVec.eq_of_toNat_eq h)
    rw [if_neg hfinite, hs]
    rcases h with ⟨he, rfl, rfl⟩ | ⟨he, rfl, rfl⟩
    · rw [he]
      rfl
    · have he : (UnpackedFloat.unpackExponent b).toNat ≠ 0 := fun h => he (BitVec.eq_of_toNat_eq h)
      rw [if_neg he, reading, minExponent]
      congr 1
      omega

theorem isNaN_eq_false : isNaN x = false ↔ x.toModel.unpack ≠ .notANumber := by
  rw [isNaN, read_eq]
  cases x.toModel.unpack with
  | notANumber | zero | infinity | finite => simp [reading]

/-- A number equals itself if it is one. -/
theorem beq_self (h : isNaN x = false) : (x == x) = true := by
  have hself : (x == x) = (x.toModel.unpack.compare x.toModel.unpack == some Ordering.eq) := rfl
  have hne := isNaN_eq_false.1 h
  rw [hself]
  generalize x.toModel.unpack = u at hne
  cases u with
  | notANumber => exact absurd rfl hne
  | zero s => rfl
  | infinity s => cases s <;> rfl
  | finite s m e => cases s <;> simp [UnpackedFloat.compare]

/-! ## Ranks -/

/-- The place of a number among all numbers, by its sign, its exponent and its mantissa.  The
infinite ones stand beyond the finite ones, and both zeros have the same place. -/
def rank : UnpackedFloat → ℤ ×ₗ ℤ ×ₗ ℤ
  | .infinity .negative => toLex (-2, toLex (0, 0))
  | .finite .negative m e _ => toLex (-1, toLex (-e, -m))
  | .zero _ | .notANumber => toLex (0, toLex (0, 0))
  | .finite .positive m e _ => toLex (1, toLex (e, m))
  | .infinity .positive => toLex (2, toLex (0, 0))

theorem then_eq_lt {e e' : ℤ} {m m' : ℕ} :
    (compare e e').then (compare m m') = .lt ↔ e < e' ∨ e = e' ∧ m < m' := by
  rw [Ordering.then_eq_lt, compare_lt_iff_lt, compare_lt_iff_lt, compare_eq_iff_eq]

theorem then_eq_gt {e e' : ℤ} {m m' : ℕ} :
    (compare e e').then (compare m m') = .gt ↔ e' < e ∨ e = e' ∧ m' < m := by
  rw [Ordering.then_eq_gt, compare_gt_iff_gt, compare_gt_iff_gt, compare_eq_iff_eq]

theorem compare_signs : compare Sign.negative Sign.positive = .lt :=
  rfl

theorem compare_eq_lt {u v : UnpackedFloat} :
    u.compare v = some .lt ↔ u ≠ .notANumber ∧ v ≠ .notANumber ∧ rank u < rank v := by
  -- Unequal classes and signs are told apart by the first part of the rank alone.
  cases u with
  | notANumber => exact iff_of_false (fun h => nomatch h) fun h => h.1 rfl
  | zero s =>
    cases v with
    | zero | notANumber => simp [UnpackedFloat.compare, rank]
    | infinity s' | finite s' =>
      cases s' <;> simp [UnpackedFloat.compare, rank, Prod.Lex.toLex_lt_toLex]
  | infinity s =>
    cases v with
    | zero | notANumber => cases s <;> simp [UnpackedFloat.compare, rank, Prod.Lex.toLex_lt_toLex]
    | infinity s' | finite s' =>
      cases s <;> cases s' <;>
        simp [UnpackedFloat.compare, rank, Prod.Lex.toLex_lt_toLex, compare_signs]
  | finite s m e =>
    cases v with
    | zero | notANumber => cases s <;> simp [UnpackedFloat.compare, rank, Prod.Lex.toLex_lt_toLex]
    | infinity s' | finite s' =>
      cases s <;> cases s' <;>
        simp [UnpackedFloat.compare, rank, Prod.Lex.toLex_lt_toLex, then_eq_lt, then_eq_gt]

theorem lt_iff_rank : x < y ↔ isNaN x = false ∧ isNaN y = false
    ∧ rank x.toModel.unpack < rank y.toModel.unpack := by
  rw [Zeros.lt_iff, beq_iff_eq, isNaN_eq_false, isNaN_eq_false]
  exact compare_eq_lt

theorem not_lt_self (x : Float) : ¬x < x :=
  fun h => (lt_iff_rank.1 h).2.2.ne rfl

theorem lt_trans (h : x < y) (h' : y < z) : x < z := by
  obtain ⟨hx, -, hxy⟩ := lt_iff_rank.1 h
  obtain ⟨-, hz, hyz⟩ := lt_iff_rank.1 h'
  exact lt_iff_rank.2 ⟨hx, hz, hxy.trans hyz⟩

/-- Every number is beyond the lesser of two, or before the greater. -/
theorem lt_or_lt (hz : isNaN z = false) (h : x < y) : x < z ∨ z < y := by
  obtain ⟨hx, hy, hxy⟩ := lt_iff_rank.1 h
  rcases lt_or_ge (rank x.toModel.unpack) (rank z.toModel.unpack) with hlt | hge
  · exact .inl (lt_iff_rank.2 ⟨hx, hz, hlt⟩)
  · exact .inr (lt_iff_rank.2 ⟨hz, hy, hge.trans_lt hxy⟩)

/-! ## Finite numbers -/

theorem isFinite_iff : isFinite x = true ↔ isNaN x = false
    ∧ rank (.infinity .negative) < rank x.toModel.unpack
    ∧ rank x.toModel.unpack < rank (.infinity .positive) := by
  rw [isFinite, read_eq, isNaN_eq_false]
  cases x.toModel.unpack with
  | zero s => simp [reading, rank, Prod.Lex.toLex_lt_toLex]
  | notANumber => simp [reading]
  | infinity s => cases s <;> simp [reading]
  | finite s m e => cases s <;> simp [reading, rank, Prod.Lex.toLex_lt_toLex]

theorem isNaN_of_isFinite (h : isFinite x = true) : isNaN x = false :=
  (isFinite_iff.1 h).1

/-- What lies between two finite numbers is finite. -/
theorem isFinite_of_between (hx : isFinite x = true) (hz : isFinite z = true) (hxy : ¬y < x)
    (hyz : ¬z < y) (hy : isNaN y = false) : isFinite y = true := by
  obtain ⟨hx, hlow, -⟩ := isFinite_iff.1 hx
  obtain ⟨hz, -, hhigh⟩ := isFinite_iff.1 hz
  refine isFinite_iff.2 ⟨hy, hlow.trans_le ?_, lt_of_le_of_lt ?_ hhigh⟩
  · exact le_of_not_gt fun hlt => hxy (lt_iff_rank.2 ⟨hy, hx, hlt⟩)
  · exact le_of_not_gt fun hlt => hyz (lt_iff_rank.2 ⟨hz, hy, hlt⟩)

end BoundView.Binary64
