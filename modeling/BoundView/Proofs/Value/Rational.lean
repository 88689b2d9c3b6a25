import BoundView.Proofs.Value.Exact

/-!
# Numbers as rationals

A finite number stands for a rational, and an integer of a document for itself.  Main statements:
finite numbers are ordered as what they stand for; and the number nearest to an integer is on the
same side of every finite number as the integer, or is that number.
-/

namespace BoundView

namespace Binary64

open Float.Model

variable {x y : Float} {negative : Bool} {num m m' : Nat} {q q' : Int}

/-! ## What a number stands for -/

/-- The sign of a number, as a factor. -/
def sign (negative : Bool) : ℚ :=
  if negative then -1 else 1

/-- The rational that a finite number stands for. -/
def toRat (x : Float) : ℚ :=
  match read x with
  | .finite negative m q => sign negative * (m * 2 ^ q)
  | _ => 0

theorem toRat_of_read (h : read x = .finite negative m q) :
    toRat x = sign negative * (m * 2 ^ q) := by
  rw [toRat, h]

theorem exists_read (h : isFinite x = true) : ∃ negative m q, read x = .finite negative m q := by
  unfold isFinite at h
  split at h
  · rename_i negative m q hread
    exact ⟨negative, m, q, hread⟩
  · exact nomatch h

theorem isFinite_of_integer? {n : Int} (h : integer? x = some n) : isFinite x = true := by
  obtain ⟨negative, m, q, hread, -, -⟩ := exists_of_integer? h
  rw [isFinite, hread]

theorem two_zpow_pos (q : Int) : (0 : ℚ) < 2 ^ q :=
  zpow_pos two_pos q

theorem magnitude_nonneg (m : Nat) (q : Int) : (0 : ℚ) ≤ m * 2 ^ q :=
  mul_nonneg (Nat.cast_nonneg m) (two_zpow_pos q).le

/-- A number stands for the integer that it is. -/
theorem toRat_of_integer? {n : Int} (h : integer? x = some n) : toRat x = n := by
  obtain ⟨negative, m, q, hread, hmagnitude, hsign⟩ := exists_of_integer? h
  have hscaled : (m : ℚ) * 2 ^ q = n.natAbs := by
    have hcast : (n.natAbs : ℚ) * 2 ^ (-q).toNat = m * 2 ^ q.toNat := by exact_mod_cast hmagnitude
    have hq : q = q.toNat - (-q).toNat := by omega
    rw [hq, zpow_sub₀ two_ne_zero, zpow_natCast, zpow_natCast, ← mul_div_assoc, ← hcast,
      mul_div_assoc, div_self (by positivity), mul_one]
  rw [toRat_of_read hread, hscaled]
  have hn : (n : ℚ) = ((if negative then -(n.natAbs : Int) else n.natAbs : Int) : ℚ) :=
    congrArg Int.cast hsign
  rw [hn, sign]
  cases negative <;> simp

/-- A finite number that stands for an integer is that integer. -/
theorem integer?_of_toRat {n : Int} (hx : isFinite x = true) (h : toRat x = n) :
    integer? x = some n := by
  cases hinteger : integer? x with
  | some k =>
    have hcast : (k : ℚ) = n := (toRat_of_integer? hinteger).symm.trans h
    rw [Int.cast_inj.1 hcast]
  | none =>
    obtain ⟨negative, m, q, hread⟩ := exists_read hx
    simp only [integer?, hread, Option.map_eq_none_iff] at hinteger
    by_cases hq : 0 ≤ q
    · rw [if_pos hq] at hinteger
      exact nomatch hinteger
    rw [if_neg hq] at hinteger
    -- No bit of the mantissa stands behind the point.
    have hmagnitude : (m * 2 ^ q : ℚ) = n.natAbs := by
      have habs := congrArg (|·|) h
      rw [toRat_of_read hread, abs_mul, abs_of_nonneg (magnitude_nonneg m q), ← Int.cast_abs]
        at habs
      have hsign : |sign negative| = 1 := by cases negative <;> simp [sign]
      rw [hsign, one_mul] at habs
      rw [habs, Nat.cast_natAbs]
    have hm : m = n.natAbs * 2 ^ (-q).toNat := by
      have hcast : (m : ℚ) = n.natAbs * 2 ^ (-q).toNat := by
        rw [← hmagnitude, ← zpow_natCast, mul_assoc, ← zpow_add₀ two_ne_zero,
          show q + ((-q).toNat : Int) = 0 by omega, zpow_zero, mul_one]
      exact_mod_cast hcast
    have hmod : m % twoTo (-q).toNat = 0 := by
      rw [hm]
      exact Nat.mul_mod_left _ _
    rw [if_pos hmod] at hinteger
    exact nomatch hinteger

/-! ## The order of finite numbers -/

/-- A normal mantissa of a greater exponent is beyond all of a smaller one. -/
theorem magnitude_ge (hm' : 2 ^ 52 ≤ m') (h : q < q') : (2 ^ 53 * 2 ^ q : ℚ) ≤ m' * 2 ^ q' := by
  have hnormal : (2 ^ 52 : ℚ) ≤ m' := by exact_mod_cast hm'
  calc (2 ^ 53 * 2 ^ q : ℚ) = 2 ^ 52 * 2 ^ (q + 1) := by rw [zpow_add_one₀ two_ne_zero]; ring
    _ ≤ 2 ^ 52 * 2 ^ q' :=
      mul_le_mul_of_nonneg_left (zpow_le_zpow_right₀ one_le_two h) (by positivity)
    _ ≤ m' * 2 ^ q' := mul_le_mul_of_nonneg_right hnormal (two_zpow_pos q').le

/-- The exponents of magnitudes tell more than their mantissas, if these are normal. -/
theorem magnitude_lt (hlow : minExponent ≤ q) (hm : m < 2 ^ 53)
    (hm' : q' = minExponent ∨ 2 ^ 52 ≤ m') (h : q < q' ∨ q = q' ∧ m < m') :
    (m : ℚ) * 2 ^ q < m' * 2 ^ q' := by
  rcases h with hlt | ⟨rfl, hlt⟩
  · have hbound : (m : ℚ) < 2 ^ 53 := by exact_mod_cast hm
    exact (mul_lt_mul_of_pos_right hbound (two_zpow_pos q)).trans_le
      (magnitude_ge (hm'.resolve_left (by omega)) hlt)
  · exact mul_lt_mul_of_pos_right (Nat.cast_lt.2 hlt) (two_zpow_pos q)

/-- The ranks of finite numbers, with what the numbers stand for. -/
inductive Ranked : ℤ ×ₗ ℤ ×ₗ ℤ → ℚ → Prop where
  | zero : Ranked (toLex (0, toLex (0, 0))) 0
  | positive {m : Nat} {q : Int} (hpos : 0 < m) (hlow : minExponent ≤ q) (hm : m < 2 ^ 53)
      (hnormal : q = minExponent ∨ 2 ^ 52 ≤ m) : Ranked (toLex (1, toLex (q, m))) (m * 2 ^ q)
  | negative {m : Nat} {q : Int} (hpos : 0 < m) (hlow : minExponent ≤ q) (hm : m < 2 ^ 53)
      (hnormal : q = minExponent ∨ 2 ^ 52 ≤ m) : Ranked (toLex (-1, toLex (-q, -m))) (-(m * 2 ^ q))

theorem ranked (h : isFinite x = true) : Ranked (rank x.toModel.unpack) (toRat x) := by
  obtain ⟨negative, m, q, hread⟩ := exists_read h
  obtain ⟨-, hlow, -, hm, hnormal⟩ := toNat_of_read hread
  rw [toRat_of_read hread]
  rw [read_eq] at hread
  cases hu : x.toModel.unpack with
  | notANumber | infinity => exact nomatch hu ▸ hread
  | zero s =>
    rw [hu] at hread
    obtain ⟨-, rfl, -⟩ := Reading.finite.inj hread
    rw [Nat.cast_zero, zero_mul, mul_zero]
    exact .zero
  | finite s m' q' hpos =>
    rw [hu] at hread
    obtain ⟨rfl, rfl, rfl⟩ := Reading.finite.inj hread
    cases s with
    | positive =>
      rw [show sign (UnpackedFloat.Sign.positive == .negative) = 1 from rfl, one_mul]
      exact .positive hpos hlow hm hnormal
    | negative =>
      rw [show sign (UnpackedFloat.Sign.negative == .negative) = -1 from rfl, neg_one_mul]
      exact .negative hpos hlow hm hnormal

theorem magnitude_pos (h : 0 < m) (q : Int) : (0 : ℚ) < m * 2 ^ q :=
  mul_pos (Nat.cast_pos.2 h) (two_zpow_pos q)

theorem Ranked.lt {r r' : ℤ ×ₗ ℤ ×ₗ ℤ} {a a' : ℚ} (h : Ranked r a) (h' : Ranked r' a')
    (hlt : r < r') : a < a' := by
  cases h with
  | zero =>
    cases h' with
    | zero => exact absurd hlt (lt_irrefl _)
    | positive hpos => exact magnitude_pos hpos _
    | negative => simp [Prod.Lex.toLex_lt_toLex] at hlt
  | positive hpos hlow hm =>
    cases h' with
    | zero | negative => simp [Prod.Lex.toLex_lt_toLex] at hlt
    | positive _ _ _ hnormal =>
      refine magnitude_lt hlow hm hnormal ?_
      simpa [Prod.Lex.toLex_lt_toLex] using hlt
  | negative hpos _ _ hnormal =>
    cases h' with
    | zero => exact neg_neg_of_pos (magnitude_pos hpos _)
    | positive hpos' =>
      exact (neg_neg_of_pos (magnitude_pos hpos _)).trans (magnitude_pos hpos' _)
    | negative _ hlow hm =>
      -- Before zero the greater magnitude comes first.
      refine neg_lt_neg (magnitude_lt hlow hm hnormal ?_)
      simpa [Prod.Lex.toLex_lt_toLex, eq_comm] using hlt

theorem Ranked.eq {r : ℤ ×ₗ ℤ ×ₗ ℤ} {a a' : ℚ} (h : Ranked r a) (h' : Ranked r a') : a = a' := by
  generalize hr : r = r' at h'
  cases h <;> cases h' <;> simp_all

/-- Finite numbers are ordered as what they stand for. -/
theorem lt_iff_toRat (hx : isFinite x = true) (hy : isFinite y = true) :
    x < y ↔ toRat x < toRat y := by
  have hnan := isNaN_of_isFinite hx
  have hnan' := isNaN_of_isFinite hy
  rw [lt_iff_rank]
  refine ⟨fun h => (ranked hx).lt (ranked hy) h.2.2, fun h => ⟨hnan, hnan', ?_⟩⟩
  refine lt_of_not_ge fun hle => ?_
  rcases hle.lt_or_eq with hlt | heq
  · exact lt_asymm h ((ranked hy).lt (ranked hx) hlt)
  · exact h.ne ((ranked hx).eq (heq ▸ ranked hy))

/-! ## Rounding -/

theorem toNat_toBits_ofScaled (h : (q - minExponent).toNat * 2 ^ 52 + m < 2047 * 2 ^ 52) :
    (ofScaled negative m q).toBits.toNat
      = (if negative then 2 ^ 63 else 0) + ((q - minExponent).toNat * 2 ^ 52 + m) := by
  unfold ofScaled
  dsimp only
  rw [show twoTo 52 = 2 ^ 52 from rfl, show twoTo 63 = 2 ^ 63 from rfl,
    if_neg (Nat.not_le_of_lt h)]
  generalize (q - minExponent).toNat * 2 ^ 52 + m = magnitude at h ⊢
  have hbits : (UInt64.ofNat (if negative then 2 ^ 63 + magnitude else magnitude)).toNat
      = (if negative then 2 ^ 63 else 0) + magnitude := by
    rw [UInt64.toNat_ofNat']
    cases negative <;> simp only [if_true, if_false, Bool.false_eq_true] <;> omega
  rw [toBits_ofBits, hbits]
  rw [hbits]
  cases negative <;> simp only [if_true, if_false, Bool.false_eq_true] <;> omega

/-- Scaling is exact, also where a mantissa carries into the exponent. -/
theorem toRat_ofScaled (hlow : minExponent ≤ q) (hm : m ≤ 2 ^ 53)
    (hnormal : q = minExponent ∨ 2 ^ 52 ≤ m)
    (h : (q - minExponent).toNat * 2 ^ 52 + m < 2047 * 2 ^ 52) :
    toRat (ofScaled negative m q) = sign negative * (m * 2 ^ q) := by
  obtain ⟨s, exponent, fraction, hs, hexponent, hfraction, hbits, hread⟩ :=
    exists_fields (ofScaled negative m q)
  rw [toNat_toBits_ofScaled h] at hbits
  obtain ⟨k, rfl⟩ : ∃ k : Nat, q = k + minExponent := ⟨(q - minExponent).toNat, by omega⟩
  rw [Int.add_sub_cancel, Int.toNat_natCast] at h hbits
  have hsign : (s == 1) = negative := by
    cases negative <;> simp only [if_true, if_false, Bool.false_eq_true] at hbits <;>
      simp only [beq_iff_eq, beq_eq_false_iff_ne] <;> omega
  have hfields : exponent * 2 ^ 52 + fraction = k * 2 ^ 52 + m := by
    cases negative <;> simp only [if_true, if_false, Bool.false_eq_true] at hbits <;> omega
  rw [if_neg (by omega), hsign] at hread
  by_cases hzero : exponent = 0
  · obtain ⟨rfl, rfl⟩ : k = 0 ∧ fraction = m := by omega
    rw [if_pos hzero] at hread
    rw [toRat_of_read hread, Nat.cast_zero, zero_add]
  rw [if_neg hzero] at hread
  rw [toRat_of_read hread]
  by_cases hcarry : m = 2 ^ 53
  · obtain ⟨rfl, rfl⟩ : exponent = k + 2 ∧ fraction = 0 := by omega
    subst hcarry
    rw [show ((k + 2 : Nat) : Int) + minExponent - 1 = k + minExponent + 1 by omega,
      zpow_add_one₀ two_ne_zero]
    push_cast
    ring
  · obtain ⟨rfl, rfl⟩ : exponent = k + 1 ∧ 2 ^ 52 + fraction = m := by omega
    rw [show ((k + 1 : Nat) : Int) + minExponent - 1 = k + minExponent by omega]

theorem roundDiv_mul_lt (num : Nat) {den : Nat} (hden : 0 < den) :
    roundDiv num den * den < num + den ∧ num < roundDiv num den * den + den := by
  have hsplit : num / den * den + num % den = num := Nat.div_add_mod' num den
  have hmod : num % den < den := Nat.mod_lt num hden
  unfold roundDiv
  dsimp only
  split
  · omega
  · rename_i hhalf
    have hup : (num / den + 1) * den = num / den * den + den := Nat.succ_mul _ _
    split
    · omega
    · rcases Nat.mod_two_eq_zero_or_one (num / den) with heven | hodd
      · rw [heven, Nat.add_zero]
        omega
      · rw [hodd]
        omega

/-- Whether `m · 2 ^ q` comes of rounding a positive integer to 53 bits: less than one unit is
gained or lost, and nothing where no bit is cut off. -/
structure Rounds (num m : Nat) (q : Int) : Prop where
  low : 2 ^ 52 * 2 ^ q ≤ (num : ℚ)
  high : (num : ℚ) < 2 ^ 53 * 2 ^ q
  up : (m * 2 ^ q : ℚ) < num + 2 ^ q
  down : (num : ℚ) < m * 2 ^ q + 2 ^ q
  exact : q ≤ 0 → (m * 2 ^ q : ℚ) = num

theorem rounds_roundDiv {j : Nat} (hle : 2 ^ (52 + j) ≤ num) (hlt : num < 2 ^ (53 + j)) :
    Rounds num (roundDiv num (2 ^ j)) j := by
  obtain ⟨hup, hdown⟩ := roundDiv_mul_lt num (Nat.two_pow_pos j)
  rw [Nat.pow_add] at hle hlt
  constructor <;> simp only [zpow_natCast]
  · exact_mod_cast hle
  · exact_mod_cast hlt
  · exact_mod_cast hup
  · exact_mod_cast hdown
  · intro hj
    obtain rfl : j = 0 := by omega
    rw [Nat.pow_zero] at hup hdown ⊢
    rw [pow_zero, mul_one]
    exact_mod_cast (show roundDiv num 1 = num by omega)

theorem rounds_shifted {j : Nat} (hle : 2 ^ 52 ≤ num * 2 ^ j) (hlt : num * 2 ^ j < 2 ^ 53) :
    Rounds num (num * 2 ^ j) (-j) := by
  have hpow : (0 : ℚ) < 2 ^ j := by positivity
  have hexact : ((num * 2 ^ j : Nat) * 2 ^ (-j : Int) : ℚ) = num := by
    rw [zpow_neg, zpow_natCast, Nat.cast_mul, Nat.cast_pow, Nat.cast_ofNat,
      mul_inv_cancel_right₀ hpow.ne']
  refine ⟨?_, ?_, ?_, ?_, fun _ => hexact⟩
  · rw [← hexact]
    exact mul_le_mul_of_nonneg_right (by exact_mod_cast hle) (two_zpow_pos _).le
  · rw [← hexact]
    exact mul_lt_mul_of_pos_right (by exact_mod_cast hlt) (two_zpow_pos _)
  · rw [hexact]
    exact lt_add_of_pos_right _ (two_zpow_pos _)
  · rw [hexact]
    exact lt_add_of_pos_right _ (two_zpow_pos _)

/-- The mantissa of a rounded integer is normal, or carries. -/
theorem Rounds.mantissa (h : Rounds num m q) : 2 ^ 52 ≤ m ∧ m ≤ 2 ^ 53 := by
  have hlow : (2 ^ 52 : ℚ) * 2 ^ q < (m + 1) * 2 ^ q := by
    rw [add_one_mul]
    exact h.low.trans_lt h.down
  have hhigh : (m : ℚ) * 2 ^ q < (2 ^ 53 + 1) * 2 ^ q := by
    rw [add_one_mul]
    exact h.up.trans (add_lt_add_of_lt_of_le h.high le_rfl)
  have hlow := lt_of_mul_lt_mul_right hlow (two_zpow_pos q).le
  have hhigh := lt_of_mul_lt_mul_right hhigh (two_zpow_pos q).le
  exact ⟨Nat.lt_succ_iff.1 (by exact_mod_cast hlow), Nat.lt_succ_iff.1 (by exact_mod_cast hhigh)⟩

/-- The number nearest to an integer of 64 bits. -/
theorem exists_nearest (hnum : num ≠ 0) (h : num < 2 ^ 64) (negative : Bool) :
    ∃ (m : Nat) (q : Int), toRat (nearest negative num 1) = sign negative * (m * 2 ^ q)
      ∧ minExponent ≤ q ∧ Rounds num m q := by
  have hlog : num.log2 < 64 := (Nat.log2_lt hnum).2 h
  have hle : 2 ^ num.log2 ≤ num := Nat.log2_self_le hnum
  have hlt : num < 2 ^ (num.log2 + 1) := Nat.lt_log2_self
  unfold nearest
  dsimp only
  rw [if_neg hnum, floorLog2_one hnum]
  generalize num.log2 = k at hlog hle hlt ⊢
  have hscaled : ∀ m : Nat, Rounds num m ((k : Int) - 52) →
      toRat (ofScaled negative m ((k : Int) - 52))
        = sign negative * (m * 2 ^ ((k : Int) - 52)) := by
    intro m hm
    obtain ⟨hlow, hhigh⟩ := hm.mantissa
    refine toRat_ofScaled ?_ hhigh (.inr hlow) ?_ <;> rw [minExponent] <;> omega
  have hlow : minExponent ≤ (k : Int) - 52 := by
    rw [minExponent]
    omega
  rw [max_eq_right hlow]
  suffices hrounds : Rounds num _ ((k : Int) - 52) from ⟨_, _, hscaled _ hrounds, hlow, hrounds⟩
  by_cases hk : 52 ≤ k
  · obtain ⟨j, rfl⟩ := Nat.exists_eq_add_of_le hk
    have hj : ((52 + j : Nat) : Int) - 52 = j := by omega
    rw [hj, if_pos (Int.natCast_nonneg j), Int.toNat_natCast, Nat.one_mul]
    exact rounds_roundDiv hle (hlt.trans_eq (congrArg _ (by omega)))
  · obtain ⟨j, hj⟩ := Nat.exists_eq_add_of_le (Nat.le_of_not_le hk)
    have hq : (k : Int) - 52 = -j := by omega
    rw [hq, if_neg (by omega), Int.neg_neg, Int.toNat_natCast, ← Nat.mul_one (num * twoTo j),
      roundDiv_mul_self Nat.one_pos]
    have hpow : 0 < 2 ^ j := Nat.two_pow_pos j
    refine rounds_shifted ?_ ?_
    · rw [hj, Nat.pow_add]
      exact Nat.mul_le_mul_right _ hle
    · rw [show 53 = k + 1 + j by omega, Nat.pow_add]
      exact Nat.mul_lt_mul_of_pos_right hlt hpow

/-- Rounding does not carry an integer up past a number. -/
theorem Rounds.le_of_le (h : Rounds num m q) (hlow : minExponent ≤ q) (hm' : m' < 2 ^ 53)
    (hnormal : q' = minExponent ∨ 2 ^ 52 ≤ m') (hlow' : minExponent ≤ q')
    (hle : (num : ℚ) ≤ m' * 2 ^ q') : (m * 2 ^ q : ℚ) ≤ m' * 2 ^ q' := by
  rcases lt_trichotomy q q' with hlt | rfl | hgt
  · have hm : (m : ℚ) ≤ 2 ^ 53 := by exact_mod_cast h.mantissa.2
    exact (mul_le_mul_of_nonneg_right hm (two_zpow_pos q).le).trans
      (magnitude_ge (hnormal.resolve_left (by omega)) hlt)
  · have hlt : (m * 2 ^ q : ℚ) < (m' + 1) * 2 ^ q := by
      rw [add_one_mul]
      exact h.up.trans_le (add_le_add_left hle _)
    have hlt := lt_of_mul_lt_mul_right hlt (two_zpow_pos q).le
    have hm : m ≤ m' := Nat.lt_succ_iff.1 (by exact_mod_cast hlt)
    exact mul_le_mul_of_nonneg_right (Nat.cast_le.2 hm) (two_zpow_pos q).le
  · have hlt : (m' * 2 ^ q' : ℚ) < (2 ^ 52 : Nat) * 2 ^ q :=
      magnitude_lt hlow' hm' (.inr le_rfl) (.inl hgt)
    push_cast at hlt
    exact absurd (hle.trans_lt hlt) (not_lt.2 h.low)

/-- Nor down. -/
theorem Rounds.le_of_ge (h : Rounds num m q) (hlow : minExponent ≤ q) (hm' : m' < 2 ^ 53)
    (hnormal : q' = minExponent ∨ 2 ^ 52 ≤ m') (hlow' : minExponent ≤ q')
    (hle : (m' * 2 ^ q' : ℚ) ≤ num) : (m' * 2 ^ q' : ℚ) ≤ m * 2 ^ q := by
  rcases lt_trichotomy q q' with hlt | rfl | hgt
  · have hge := magnitude_ge (hnormal.resolve_left (by omega)) hlt
    exact absurd (hge.trans hle) (not_le.2 h.high)
  · have hlt : (m' * 2 ^ q : ℚ) < (m + 1) * 2 ^ q := by
      rw [add_one_mul]
      exact hle.trans_lt h.down
    have hlt := lt_of_mul_lt_mul_right hlt (two_zpow_pos q).le
    have hm : m' ≤ m := Nat.lt_succ_iff.1 (by exact_mod_cast hlt)
    exact mul_le_mul_of_nonneg_right (Nat.cast_le.2 hm) (two_zpow_pos q).le
  · exact (magnitude_lt hlow' hm' (.inr h.mantissa.1) (.inl hgt)).le

theorem exists_ofInt {n : Int} (hzero : n ≠ 0) (hn : n.natAbs < 2 ^ 64) :
    ∃ (negative : Bool) (m : Nat) (q : Int), (n : ℚ) = sign negative * n.natAbs
      ∧ toRat (ofInt n) = sign negative * (m * 2 ^ q)
      ∧ minExponent ≤ q ∧ Rounds n.natAbs m q := by
  obtain ⟨m, q, hround, hlow, hrounds⟩ :=
    exists_nearest (Int.natAbs_ne_zero.2 hzero) hn (decide (n < 0))
  refine ⟨decide (n < 0), m, q, ?_, hround, hlow, hrounds⟩
  rw [sign, Nat.cast_natAbs, Int.cast_abs]
  by_cases hneg : n < 0
  · rw [if_pos (decide_eq_true hneg), abs_of_neg (Int.cast_lt_zero.2 hneg), neg_one_mul, neg_neg]
  · rw [if_neg (by simpa using hneg), abs_of_nonneg (Int.cast_nonneg (not_lt.1 hneg)), one_mul]

theorem toRat_ofInt_zero : toRat (ofInt 0) = 0 :=
  toRat_of_integer? (by decide +kernel)

/-- The number nearest to an integer is on the same side of a finite number as the integer, or is
that number. -/
theorem toRat_ofInt_sides {n : Int} (hn : n.natAbs < 2 ^ 64) (hx : isFinite x = true) :
    ((n : ℚ) ≤ toRat x → toRat (ofInt n) ≤ toRat x)
      ∧ (toRat x ≤ n → toRat x ≤ toRat (ofInt n)) := by
  by_cases hzero : n = 0
  · subst hzero
    rw [toRat_ofInt_zero, Int.cast_zero]
    exact ⟨id, id⟩
  obtain ⟨negative', m', q', hread⟩ := exists_read hx
  obtain ⟨-, hlow', -, hm', hnormal⟩ := toNat_of_read hread
  obtain ⟨negative, m, q, hsigned, hround, hlow, hrounds⟩ := exists_ofInt hzero hn
  have hup := hrounds.le_of_le hlow hm' hnormal hlow'
  have hdown := hrounds.le_of_ge hlow hm' hnormal hlow'
  have hpos : (0 : ℚ) < n.natAbs := Nat.cast_pos.2 (Int.natAbs_pos.2 hzero)
  have hnonneg := magnitude_nonneg m q
  have hnonneg' := magnitude_nonneg m' q'
  rw [toRat_of_read hread, hsigned, hround]
  cases negative <;> cases negative' <;>
    simp only [sign, if_true, if_false, Bool.false_eq_true, one_mul, neg_one_mul]
  · exact ⟨hup, hdown⟩
  -- Where the signs differ, they decide.
  · exact ⟨fun h => by linarith, fun _ => by linarith⟩
  · exact ⟨fun _ => by linarith, fun h => by linarith⟩
  · exact ⟨fun h => neg_le_neg (hdown (neg_le_neg_iff.1 h)),
      fun h => neg_le_neg (hup (neg_le_neg_iff.1 h))⟩

/-- Integers of 53 bits are not rounded. -/
theorem toRat_ofInt {n : Int} (hn : n.natAbs < 2 ^ 53) : toRat (ofInt n) = n := by
  by_cases hzero : n = 0
  · subst hzero
    rw [toRat_ofInt_zero, Int.cast_zero]
  obtain ⟨negative, m, q, hsigned, hround, -, hrounds⟩ :=
    exists_ofInt hzero (hn.trans (by decide))
  have hlt : (2 ^ 52 * 2 ^ q : ℚ) < 2 ^ 52 * 2 ^ (1 : Int) := by
    refine hrounds.low.trans_lt ?_
    have hn' : (n.natAbs : ℚ) < 2 ^ 53 := by exact_mod_cast hn
    exact hn'.trans_eq (by norm_num)
  have hq : q < 1 := (zpow_lt_zpow_iff_right₀ one_lt_two).1
    (lt_of_mul_lt_mul_left hlt (by positivity))
  rw [hround, hrounds.exact (by omega), ← hsigned]

/-- The number nearest to an integer is an integer. -/
theorem exists_integer?_ofInt {n : Int} (hn : n.natAbs < 2 ^ 64) :
    ∃ k, integer? (ofInt n) = some k := by
  suffices hinteger : ∃ k : Int, toRat (ofInt n) = k by
    obtain ⟨k, hk⟩ := hinteger
    exact ⟨k, integer?_of_toRat (isFinite_ofInt hn) hk⟩
  by_cases hzero : n = 0
  · subst hzero
    exact ⟨0, toRat_ofInt_zero.trans Int.cast_zero.symm⟩
  obtain ⟨negative, m, q, hsigned, hround, -, hrounds⟩ := exists_ofInt hzero hn
  by_cases hq : q ≤ 0
  · rw [hround, hrounds.exact hq]
    exact ⟨n, hsigned.symm⟩
  · obtain ⟨j, rfl⟩ := Int.eq_ofNat_of_zero_le (show 0 ≤ q by omega)
    refine ⟨(if negative then -1 else 1) * (m * 2 ^ j), hround.trans ?_⟩
    rw [sign, zpow_natCast]
    push_cast
    rfl

end Binary64

/-! ## Numbers of documents -/

namespace Json

open Binary64 (toRat)

/-- The rational that a number of a document stands for. -/
def Number.toRat : Number → ℚ
  | .int n => n
  | .float x => Binary64.toRat x

variable {n : Number} {x : Float}

/-- To read a number of a document does not take it past any finite number. -/
theorem Number.Proper.toFloat_sides (h : n.Proper) (hx : Binary64.isFinite x = true) :
    (n.toRat ≤ Binary64.toRat x → Binary64.toRat n.toFloat ≤ Binary64.toRat x)
      ∧ (Binary64.toRat x ≤ n.toRat → Binary64.toRat x ≤ Binary64.toRat n.toFloat) := by
  cases n with
  | int n =>
    obtain ⟨hlow, hhigh⟩ := h
    exact Binary64.toRat_ofInt_sides (by omega) hx
  | float y => exact ⟨id, id⟩

/-- The number that is written for a finite number stands for the same, but for the one integer that
is written one less. -/
theorem toRat_ofFloat (hx : Binary64.isFinite x = true) (h : ofFloat x = .number n) :
    n.toRat = Binary64.toRat x ↔ Binary64.toRat x ≠ 2 ^ 63 := by
  have hpower : ((twoTo 63 : Nat) : Int) = 2 ^ 63 := by norm_num [twoTo]
  unfold ofFloat at h
  rw [hpower] at h
  cases hinteger : Binary64.integer? x with
  | some k =>
    have hcast : (k : ℚ) = 2 ^ 63 ↔ k = 2 ^ 63 := by exact_mod_cast Iff.rfl
    rw [hinteger] at h
    dsimp only at h
    rw [Binary64.toRat_of_integer? hinteger, ne_eq, hcast]
    split at h
    · obtain rfl := Json.number.inj h
      rw [Number.toRat, Int.cast_inj]
      omega
    · obtain rfl := Json.number.inj h
      rw [Number.toRat, Binary64.toRat_of_integer? hinteger]
      exact iff_of_true rfl (by omega)
  | none =>
    have hne : Binary64.toRat x ≠ 2 ^ 63 := fun heq => by
      have hsome := Binary64.integer?_of_toRat (n := 2 ^ 63) hx (by rw [heq]; norm_num)
      exact Option.some_ne_none _ (hsome.symm.trans hinteger)
    rw [hinteger] at h
    dsimp only at h
    rw [if_pos hx] at h
    obtain rfl := Json.number.inj h
    exact iff_of_true rfl hne

/-- Where no more than 53 bits come out, nothing was rounded. -/
theorem Number.Proper.toRat_toFloat (h : n.Proper) (hlt : |Binary64.toRat n.toFloat| < 2 ^ 53) :
    Binary64.toRat n.toFloat = n.toRat := by
  cases n with
  | float y => rfl
  | int n =>
    obtain ⟨hlow, hhigh⟩ := h
    have hpow : Binary64.toRat (Binary64.ofInt (2 ^ 53)) = 2 ^ 53 :=
      (Binary64.toRat_of_integer? (n := 2 ^ 53) (by decide +kernel)).trans (by norm_num)
    have hneg : Binary64.toRat (Binary64.ofInt (-2 ^ 53)) = -2 ^ 53 :=
      (Binary64.toRat_of_integer? (n := -2 ^ 53) (by decide +kernel)).trans (by norm_num)
    obtain ⟨habove, hbelow⟩ := abs_lt.1 hlt
    apply Binary64.toRat_ofInt
    by_contra hn
    -- The integers from the power on are not rounded to less.
    rcases (show 2 ^ 53 ≤ n ∨ n ≤ -2 ^ 53 by omega) with hge | hle
    · have hcast : (2 ^ 53 : ℚ) ≤ n := by exact_mod_cast hge
      have hle := (Binary64.toRat_ofInt_sides (by omega) (by decide +kernel)).2
        (hpow.trans_le hcast)
      exact absurd hle (not_le.2 (hbelow.trans_eq hpow.symm))
    · have hcast : (n : ℚ) ≤ -2 ^ 53 := by exact_mod_cast hle
      have hge := (Binary64.toRat_ofInt_sides (by omega) (by decide +kernel)).1
        (hcast.trans_eq hneg.symm)
      exact absurd hge (not_le.2 (hneg.trans_lt habove))

end Json

end BoundView
