import BoundView.Proofs.Value.Rational
import BoundView.Schema.Basic

/-!
# Numbers and their bounds

A number is compared with its bounds as a binary64 number.  Main statement: it is rejected just if
it breaks the bound, unless it is an integer beyond the bound that is rounded to it, which takes a
bound of at least `2 ^ 53` in magnitude.
-/

namespace BoundView

/-! ## Rationals and numbers that may be infinite -/

namespace Binary64

open Float.Model
open UnpackedFloat (Sign)

variable {x y : Float} {r : ℚ}

/-- Whether a number is greater than a rational, as an infinite one may be. -/
def Above (r : ℚ) (x : Float) : Prop :=
  match read x with
  | .finite .. => r < toRat x
  | .infinite negative => negative = false
  | .nan => False

/-- Whether a number is less than a rational. -/
def Below (r : ℚ) (x : Float) : Prop :=
  match read x with
  | .finite .. => toRat x < r
  | .infinite negative => negative = true
  | .nan => False

theorem above_of_isFinite (h : isFinite x = true) : Above r x ↔ r < toRat x := by
  obtain ⟨negative, m, q, hread⟩ := exists_read h
  rw [Above, hread]

theorem below_of_isFinite (h : isFinite x = true) : Below r x ↔ toRat x < r := by
  obtain ⟨negative, m, q, hread⟩ := exists_read h
  rw [Below, hread]

theorem unpack_of_not_isFinite (h : isFinite y ≠ true) :
    y.toModel.unpack = .notANumber ∨ ∃ s, y.toModel.unpack = .infinity s := by
  rw [isFinite, read_eq] at h
  cases hu : y.toModel.unpack with
  | notANumber => exact .inl rfl
  | infinity s => exact .inr ⟨s, rfl⟩
  | zero | finite =>
    rw [hu] at h
    exact absurd rfl h

/-- A finite number is less than another number just if what it stands for is. -/
theorem lt_iff_above (hx : isFinite x = true) : x < y ↔ Above (toRat x) y := by
  by_cases hy : isFinite y = true
  · rw [above_of_isFinite hy, lt_iff_toRat hx hy]
  · obtain ⟨hnan, hlow, hhigh⟩ := isFinite_iff.1 hx
    rw [lt_iff_rank, hnan, isNaN_eq_false, Above, read_eq]
    rcases unpack_of_not_isFinite hy with hu | ⟨s, hu⟩ <;> rw [hu]
    · simp [reading]
    · cases s with
      | positive => simpa [reading] using hhigh
      | negative => simpa [reading] using hlow.le

theorem lt_iff_below (hx : isFinite x = true) : y < x ↔ Below (toRat x) y := by
  by_cases hy : isFinite y = true
  · rw [below_of_isFinite hy, lt_iff_toRat hy hx]
  · obtain ⟨hnan, hlow, hhigh⟩ := isFinite_iff.1 hx
    rw [lt_iff_rank, hnan, isNaN_eq_false, Below, read_eq]
    rcases unpack_of_not_isFinite hy with hu | ⟨s, hu⟩ <;> rw [hu]
    · simp [reading]
    · cases s with
      | positive => simpa [reading] using hhigh.le
      | negative => simpa [reading] using hlow

/-- To a number that is not finite all rationals are alike. -/
theorem above_congr {r' : ℚ} (hx : isFinite x ≠ true) : Above r x ↔ Above r' x := by
  rw [Above, Above, read_eq]
  rcases unpack_of_not_isFinite hx with hu | ⟨s, hu⟩ <;> rw [hu] <;> rfl

theorem below_congr {r' : ℚ} (hx : isFinite x ≠ true) : Below r x ↔ Below r' x := by
  rw [Below, Below, read_eq]
  rcases unpack_of_not_isFinite hx with hu | ⟨s, hu⟩ <;> rw [hu] <;> rfl

end Binary64

/-! ## One number and its rules -/

open Binary64 (toRat)

namespace Rule

/-- The number that bounds. -/
def bound : Rule → Float
  | .atLeast min => min
  | .atMost max => max

/-- Whether a rational is on the right side of the bound. -/
def Admits (r : ℚ) : Rule → Prop
  | .atLeast min => toRat min ≤ r
  | .atMost max => r ≤ toRat max

/-- Whether a rational is on the wrong side of the bound. -/
def Breaks (r : ℚ) : Rule → Prop
  | .atLeast min => Binary64.Above r min
  | .atMost max => Binary64.Below r max

/-- Whether a number is an integer that is beyond the bound, an integer as well, and is rounded to
it. -/
def Overrun (n : Json.Number) : Rule → Prop
  | .atLeast min => ∃ i b, n = .int i ∧ Binary64.integer? (Binary64.ofInt i) = some b
      ∧ Binary64.integer? min = some b ∧ i < b
  | .atMost max => ∃ i b, n = .int i ∧ Binary64.integer? (Binary64.ofInt i) = some b
      ∧ Binary64.integer? max = some b ∧ b < i

variable {rule : Rule} {x : Float} {n : Json.Number}

theorem breaks_iff_not_admits {r : ℚ} (hbound : Binary64.isFinite rule.bound = true) :
    rule.Breaks r ↔ ¬rule.Admits r := by
  cases rule with
  | atLeast min => exact (Binary64.above_of_isFinite hbound).trans not_le.symm
  | atMost max => exact (Binary64.below_of_isFinite hbound).trans not_le.symm

theorem breaks_congr {r r' : ℚ} (hbound : Binary64.isFinite rule.bound ≠ true) :
    rule.Breaks r ↔ rule.Breaks r' := by
  cases rule with
  | atLeast min => exact Binary64.above_congr hbound
  | atMost max => exact Binary64.below_congr hbound

/-- A finite number is rejected just if what it stands for breaks the bound. -/
theorem rejects_iff_breaks (hx : Binary64.isFinite x = true) :
    rule.rejects x = true ↔ rule.Breaks (toRat x) := by
  cases rule with
  | atLeast min => exact decide_eq_true_iff.trans (Binary64.lt_iff_above hx)
  | atMost max => exact decide_eq_true_iff.trans (Binary64.lt_iff_below hx)

/-- What is not rejected is admitted. -/
theorem admits_of_rejects (hbound : Binary64.isFinite rule.bound = true)
    (hx : Binary64.isFinite x = true) (h : rule.rejects x = false) : rule.Admits (toRat x) := by
  by_contra hnot
  have hrejects := (rejects_iff_breaks hx).2 ((breaks_iff_not_admits hbound).2 hnot)
  exact absurd (h.symm.trans hrejects) Bool.false_ne_true

/-! ## Rounding to a bound -/

/-- A number that was rounded to a bound, but is not the bound, is an integer. -/
theorem exists_of_rounded (hproper : n.Proper) (hx : Binary64.isFinite x = true)
    (heq : toRat n.toFloat = toRat x) (hne : n.toRat ≠ toRat x) :
    ∃ i b : Int, n = .int i ∧ Binary64.integer? (Binary64.ofInt i) = some b
      ∧ Binary64.integer? x = some b ∧ toRat x = b := by
  cases n with
  | float y => exact absurd heq hne
  | int i =>
    obtain ⟨hlow, hhigh⟩ := hproper
    obtain ⟨b, hb⟩ := Binary64.exists_integer?_ofInt (n := i) (by omega)
    have hx' : toRat x = b := heq.symm.trans (Binary64.toRat_of_integer? hb)
    exact ⟨i, b, rfl, hb, Binary64.integer?_of_toRat hx hx', hx'⟩

/-- A number that passes the bound is rounded to it, or is admitted. -/
theorem overrun_of_not_admits (hproper : n.Proper) (hbound : Binary64.isFinite rule.bound = true)
    (h : rule.Admits (toRat n.toFloat)) (hnot : ¬rule.Admits n.toRat) : rule.Overrun n := by
  cases rule with
  | atLeast min =>
    have hlt : n.toRat < toRat min := not_le.1 hnot
    have heq : toRat n.toFloat = toRat min := ((hproper.toFloat_sides hbound).1 hlt.le).antisymm h
    obtain ⟨i, b, rfl, hi, hmin, hb⟩ := exists_of_rounded hproper hbound heq hlt.ne
    exact ⟨i, b, rfl, hi, hmin, Int.cast_lt.1 (hlt.trans_eq hb)⟩
  | atMost max =>
    have hlt : toRat max < n.toRat := not_le.1 hnot
    have heq : toRat n.toFloat = toRat max := le_antisymm h
      ((hproper.toFloat_sides hbound).2 hlt.le)
    obtain ⟨i, b, rfl, hi, hmax, hb⟩ := exists_of_rounded hproper hbound heq hlt.ne'
    exact ⟨i, b, rfl, hi, hmax, Int.cast_lt.1 (hb.symm.trans_lt hlt)⟩

/-- A number that is rounded to a bound that it passes is not admitted. -/
theorem Overrun.not_admits (h : rule.Overrun n) :
    Binary64.isFinite rule.bound = true ∧ ¬rule.Admits n.toRat := by
  cases rule with
  | atLeast min =>
    obtain ⟨i, b, rfl, -, hmin, hlt⟩ := h
    refine ⟨Binary64.isFinite_of_integer? hmin, not_le.2 ?_⟩
    rw [Binary64.toRat_of_integer? hmin]
    exact Int.cast_lt.2 hlt
  | atMost max =>
    obtain ⟨i, b, rfl, -, hmax, hlt⟩ := h
    refine ⟨Binary64.isFinite_of_integer? hmax, not_le.2 ?_⟩
    rw [Binary64.toRat_of_integer? hmax]
    exact Int.cast_lt.2 hlt

/-- No integer is rounded to a bound of less than 53 bits. -/
theorem Overrun.two_pow_le (h : rule.Overrun n) (hproper : n.Proper) :
    2 ^ 53 ≤ |toRat rule.bound| := by
  by_contra hlt
  obtain ⟨i, b, rfl, hi, hb, hne⟩ : ∃ i b : Int, n = .int i
      ∧ Binary64.integer? (Binary64.ofInt i) = some b ∧ Binary64.integer? rule.bound = some b
      ∧ i ≠ b := by
    cases rule with
    | atLeast min =>
      obtain ⟨i, b, hn, hi, hmin, hlt⟩ := h
      exact ⟨i, b, hn, hi, hmin, hlt.ne⟩
    | atMost max =>
      obtain ⟨i, b, hn, hi, hmax, hlt⟩ := h
      exact ⟨i, b, hn, hi, hmax, hlt.ne'⟩
  rw [Binary64.toRat_of_integer? hb, ← Binary64.toRat_of_integer? hi] at hlt
  have hexact := hproper.toRat_toFloat (not_le.1 hlt)
  rw [Json.Number.toFloat, Binary64.toRat_of_integer? hi] at hexact
  exact hne (Int.cast_inj.1 hexact).symm

/-! ## What a check rejects -/

/-- What is admitted as it is is admitted when it is rounded. -/
theorem admits_toFloat (hproper : n.Proper) (hbound : Binary64.isFinite rule.bound = true)
    (h : rule.Admits n.toRat) : rule.Admits (toRat n.toFloat) := by
  cases rule with
  | atLeast min => exact (hproper.toFloat_sides hbound).2 h
  | atMost max => exact (hproper.toFloat_sides hbound).1 h

theorem Overrun.admits_toFloat (h : rule.Overrun n) : rule.Admits (toRat n.toFloat) := by
  cases rule with
  | atLeast min | atMost max =>
    obtain ⟨i, b, rfl, hi, hbound, -⟩ := h
    rw [Admits, Json.Number.toFloat, Binary64.toRat_of_integer? hi,
      Binary64.toRat_of_integer? hbound]

/-- A number is rejected just if it breaks the bound and is not rounded to it. -/
theorem rejects_toFloat_iff (hproper : n.Proper) :
    rule.rejects n.toFloat = true ↔ rule.Breaks n.toRat ∧ ¬rule.Overrun n := by
  rw [rejects_iff_breaks hproper.isFinite]
  by_cases hbound : Binary64.isFinite rule.bound = true
  · rw [breaks_iff_not_admits hbound, breaks_iff_not_admits hbound]
    constructor
    · exact fun h => ⟨mt (admits_toFloat hproper hbound) h, mt Overrun.admits_toFloat h⟩
    · exact fun ⟨hbreaks, hnot⟩ h => hnot (overrun_of_not_admits hproper hbound h hbreaks)
  · rw [breaks_congr hbound]
    exact (and_iff_left fun hoverrun => hbound hoverrun.not_admits.1).symm

end Rule

end BoundView
