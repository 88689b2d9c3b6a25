import BoundView.Proofs.Value.Related
import Mathlib

/-!
# The two zeros

Equality of numbers takes the two zeros for one number and tells all others apart.  Main statements:
numbers that are equal are the same, or both are zeros; and what an expression makes of numbers does
not hang on the sign of a zero, except for the sign of a zero that comes out.
-/

namespace BoundView.Zeros

open Float.Model

/-! ## Numbers as bits -/

theorem eq_of_toBits {x y : Float} (h : x.toBits = y.toBits) : x = y := by
  obtain ⟨⟨bits, valid⟩⟩ := x
  obtain ⟨⟨bits', valid'⟩⟩ := y
  obtain rfl : bits = bits' := h
  rfl

/-- A positive or a negative zero. -/
def zero (sign : UnpackedFloat.Sign) : Float :=
  .ofModel (pack (.zero sign))

/-- The same number, or two zeros. -/
def Same (x y : Float) : Prop :=
  x = y ∨ (∃ s, x = zero s) ∧ ∃ s, y = zero s

theorem Same.refl (x : Float) : Same x x :=
  .inl rfl

theorem Same.zeros (s s' : UnpackedFloat.Sign) : Same (zero s) (zero s') :=
  .inr ⟨⟨s, rfl⟩, ⟨s', rfl⟩⟩

theorem Same.symm {x y : Float} (h : Same x y) : Same y x := by
  rcases h with rfl | ⟨hx, hy⟩
  · exact .inl rfl
  · exact .inr ⟨hy, hx⟩

theorem Same.trans {x y z : Float} (h : Same x y) (h' : Same y z) : Same x z := by
  rcases h with rfl | ⟨hx, hy⟩
  · exact h'
  · rcases h' with rfl | ⟨-, hz⟩
    · exact .inr ⟨hx, hy⟩
    · exact .inr ⟨hx, hz⟩

theorem unpack_zero (s : UnpackedFloat.Sign) : (zero s).toModel.unpack = .zero s := by
  cases s <;> rfl

/-! ## Equal numbers -/

/-- The bits of a number are its sign, its exponent and its mantissa. -/
theorem toNat_eq_fields (b : BitVec Format.binary64.numBits) :
    b.toNat = (UnpackedFloat.unpackSign b).toNat * 2 ^ 63
      + (UnpackedFloat.unpackExponent b).toNat * 2 ^ 52
      + (UnpackedFloat.unpackMantissa b).toNat := by
  have hlt : b.toNat < 2 ^ 64 := b.isLt
  simp only [UnpackedFloat.unpackSign, UnpackedFloat.unpackExponent, UnpackedFloat.unpackMantissa,
    BitVec.toNat_cast, BitVec.extractLsb_toNat, Nat.shiftRight_eq_div_pow]
  omega

theorem sign_inj {s s' : BitVec 1}
    (h : UnpackedFloat.Sign.ofBitVec s = UnpackedFloat.Sign.ofBitVec s') : s = s' := by
  rcases BitVec.eq_zero_or_eq_one s with rfl | rfl <;>
    rcases BitVec.eq_zero_or_eq_one s' with rfl | rfl
  · rfl
  · exact nomatch h
  · exact nomatch h
  · rfl

theorem eq_of_fields {b b' : BitVec Format.binary64.numBits}
    (hsign : UnpackedFloat.Sign.ofBitVec (UnpackedFloat.unpackSign b)
      = UnpackedFloat.Sign.ofBitVec (UnpackedFloat.unpackSign b'))
    (hexponent : UnpackedFloat.unpackExponent b = UnpackedFloat.unpackExponent b')
    (hmantissa : UnpackedFloat.unpackMantissa b = UnpackedFloat.unpackMantissa b') : b = b' := by
  apply BitVec.eq_of_toNat_eq
  rw [toNat_eq_fields b, toNat_eq_fields b', sign_inj hsign, hexponent, hmantissa]

/-- What bits unpack to, by their sign, exponent and mantissa. -/
inductive Unpacks (b : BitVec Format.binary64.numBits) : UnpackedFloat → Prop where
  | infinity {s : UnpackedFloat.Sign} (hs : .ofBitVec (UnpackedFloat.unpackSign b) = s)
      (he : UnpackedFloat.unpackExponent b = -1#_) (hm : UnpackedFloat.unpackMantissa b = 0#_) :
      Unpacks b (.infinity s)
  | notANumber (he : UnpackedFloat.unpackExponent b = -1#_)
      (hm : UnpackedFloat.unpackMantissa b ≠ 0#_) : Unpacks b .notANumber
  | zero {s : UnpackedFloat.Sign} (hs : .ofBitVec (UnpackedFloat.unpackSign b) = s)
      (he : UnpackedFloat.unpackExponent b = 0#_) (hm : UnpackedFloat.unpackMantissa b = 0#_) :
      Unpacks b (.zero s)
  | finite {s : UnpackedFloat.Sign} {m : Nat} {e : Int} {hpos : 0 < m}
      (hs : .ofBitVec (UnpackedFloat.unpackSign b) = s)
      (hfinite : UnpackedFloat.unpackExponent b ≠ -1#_)
      (h : UnpackedFloat.unpackExponent b = 0#_
          ∧ m = (UnpackedFloat.unpackMantissa b).toNat ∧ e = -1074
        ∨ UnpackedFloat.unpackExponent b ≠ 0#_
          ∧ m = 2 ^ 52 + (UnpackedFloat.unpackMantissa b).toNat
          ∧ e = (UnpackedFloat.unpackExponent b).toNat - 1075) :
      Unpacks b (.finite s m e hpos)

theorem toNat_one_append (m : BitVec 52) : (1#1 ++ m).toNat = 2 ^ 52 + m.toNat := by
  have hm : m.toNat < 2 ^ 52 := m.isLt
  rw [BitVec.toNat_append, ← Nat.shiftLeft_add_eq_or_of_lt hm]
  rfl

theorem unpacks (b : BitVec Format.binary64.numBits) :
    Unpacks b (UnpackedFloat.unpack Format.binary64 b) := by
  unfold UnpackedFloat.unpack
  dsimp only
  split
  · rename_i he
    split
    · rename_i hm
      exact .infinity rfl he hm
    · rename_i hm
      exact .notANumber he hm
  · rename_i hfinite
    split
    · rename_i he
      split
      · rename_i hm
        exact .zero rfl he hm
      · refine .finite rfl hfinite (.inl ⟨he, rfl, ?_⟩)
        rw [he]
        rfl
    · rename_i he
      exact .finite rfl hfinite (.inr ⟨he, toNat_one_append _, rfl⟩)

/-- Valid bits that unpack to the same are the same; only one form of what is no number is valid. -/
theorem Unpacks.inj {b b' : BitVec Format.binary64.numBits} {u : UnpackedFloat} (h : Unpacks b u)
    (h' : Unpacks b' u) (hvalid : Format.binary64.Valid b) (hvalid' : Format.binary64.Valid b') :
    b = b' := by
  have hlt : (UnpackedFloat.unpackMantissa b).toNat < 2 ^ 52 :=
    (UnpackedFloat.unpackMantissa b).isLt
  have hlt' : (UnpackedFloat.unpackMantissa b').toNat < 2 ^ 52 :=
    (UnpackedFloat.unpackMantissa b').isLt
  cases h with
  | infinity hs he hm =>
    cases h' with
    | infinity hs' he' hm' =>
      exact eq_of_fields (hs.trans hs'.symm) (he.trans he'.symm) (hm.trans hm'.symm)
  | notANumber he hm =>
    cases h' with
    | notANumber he' hm' => rw [hvalid.eq_packedNaN he hm, hvalid'.eq_packedNaN he' hm']
  | zero hs he hm =>
    cases h' with
    | zero hs' he' hm' =>
      exact eq_of_fields (hs.trans hs'.symm) (he.trans he'.symm) (hm.trans hm'.symm)
  | finite hs _ h =>
    cases h' with
    | finite hs' _ h' =>
      -- Without its leading bit a mantissa is smaller than with it, so the two forms do not mix.
      rcases h with ⟨he, hm, hexp⟩ | ⟨he, hm, hexp⟩ <;>
        rcases h' with ⟨he', hm', hexp'⟩ | ⟨he', hm', hexp'⟩
      · have hmantissa := BitVec.eq_of_toNat_eq (hm.symm.trans hm')
        exact eq_of_fields (hs.trans hs'.symm) (he.trans he'.symm) hmantissa
      · omega
      · omega
      · have hexponent : UnpackedFloat.unpackExponent b = UnpackedFloat.unpackExponent b' :=
          BitVec.eq_of_toNat_eq (by omega)
        have hmantissa : UnpackedFloat.unpackMantissa b = UnpackedFloat.unpackMantissa b' :=
          BitVec.eq_of_toNat_eq (by omega)
        exact eq_of_fields (hs.trans hs'.symm) hexponent hmantissa

theorem unpack_inj {x y : Float} (h : x.toModel.unpack = y.toModel.unpack) : x = y := by
  apply eq_of_toBits
  obtain ⟨⟨bits, hvalid⟩⟩ := x
  obtain ⟨⟨bits', hvalid'⟩⟩ := y
  have hx := unpacks bits.toBitVec
  have hy := unpacks bits'.toBitVec
  rw [← show UnpackedFloat.unpack Format.binary64 bits.toBitVec
    = UnpackedFloat.unpack Format.binary64 bits'.toBitVec from h] at hy
  exact UInt64.eq_of_toBitVec_eq (hx.inj hy hvalid hvalid')

theorem eq_zero_of_unpack {x : Float} {s : UnpackedFloat.Sign} (h : x.toModel.unpack = .zero s) :
    x = zero s :=
  unpack_inj (h.trans (unpack_zero s).symm)

theorem compare_sign {s s' : UnpackedFloat.Sign} (h : compare s s' = .eq) : s = s' := by
  cases s with
  | positive =>
    cases s' with
    | positive => rfl
    | negative => exact nomatch h
  | negative =>
    cases s' with
    | positive => exact nomatch h
    | negative => rfl

theorem eq_of_compare_fields {e e' : Int} {m m' : Nat}
    (h : (compare e e').then (compare m m') = .eq) : e = e' ∧ m = m' := by
  rw [Ordering.then_eq_eq] at h
  exact ⟨Std.LawfulEqOrd.compare_eq_iff_eq.1 h.1, Nat.compare_eq_eq.1 h.2⟩

/-- Numbers that are equal are the same, but for the sign of zeros. -/
theorem same_of_beq {x y : Float} (h : (x == y) = true) : Same x y := by
  have hcompare : x.toModel.unpack.compare y.toModel.unpack = some .eq := by
    exact eq_of_beq h
  generalize hu : x.toModel.unpack = u at hcompare
  generalize hv : y.toModel.unpack = v at hcompare
  cases u with
  | notANumber => exact nomatch hcompare
  | zero s =>
    cases v with
    | zero s' =>
      rw [eq_zero_of_unpack hu, eq_zero_of_unpack hv]
      exact .zeros s s'
    | infinity s' => cases s' <;> exact nomatch hcompare
    | finite s' => cases s' <;> exact nomatch hcompare
    | notANumber => exact nomatch hcompare
  | infinity s =>
    cases v with
    | infinity s' =>
      obtain rfl := compare_sign (Option.some.inj hcompare)
      exact .inl (unpack_inj (hu.trans hv.symm))
    | zero | finite | notANumber => cases s <;> exact nomatch hcompare
  | finite s m e hpos =>
    cases v with
    | finite s' m' e' hpos' =>
      have hfields : s = s' ∧ e = e' ∧ m = m' := by
        cases s <;> cases s'
        · have hswap := Option.some.inj hcompare
          rw [Ordering.swap_eq_eq] at hswap
          exact ⟨rfl, eq_of_compare_fields hswap⟩
        · exact nomatch hcompare
        · exact nomatch hcompare
        · exact ⟨rfl, eq_of_compare_fields (Option.some.inj hcompare)⟩
      obtain ⟨rfl, rfl, rfl⟩ := hfields
      exact .inl (unpack_inj (hu.trans hv.symm))
    | infinity s' => cases s <;> cases s' <;> exact nomatch hcompare
    | zero | notANumber => cases s <;> exact nomatch hcompare

/-! ## Sums, differences, products and quotients -/

/-- The same, or two zeros. -/
def SameUnpacked (u v : UnpackedFloat) : Prop :=
  u = v ∨ ∃ s s', u = .zero s ∧ v = .zero s'

theorem same_pack {u v : UnpackedFloat} (h : SameUnpacked u v) :
    Same (.ofModel (pack u)) (.ofModel (pack v)) := by
  rcases h with rfl | ⟨s, s', rfl, rfl⟩
  · exact .refl _
  · exact .zeros s s'

theorem same_left {op : UnpackedFloat → UnpackedFloat → UnpackedFloat}
    (hop : ∀ s s' v, SameUnpacked (op (.zero s) v) (op (.zero s') v))
    {x x' : Float} (hx : Same x x')
    (y : Float) : Same (.ofModel (pack (op x.toModel.unpack y.toModel.unpack)))
      (.ofModel (pack (op x'.toModel.unpack y.toModel.unpack))) := by
  rcases hx with rfl | ⟨⟨s, rfl⟩, ⟨s', rfl⟩⟩
  · exact .refl _
  · rw [unpack_zero, unpack_zero]
    exact same_pack (hop s s' _)

theorem same_right {op : UnpackedFloat → UnpackedFloat → UnpackedFloat}
    (hop : ∀ s s' u, SameUnpacked (op u (.zero s)) (op u (.zero s')))
    {y y' : Float} (hy : Same y y')
    (x : Float) : Same (.ofModel (pack (op x.toModel.unpack y.toModel.unpack)))
      (.ofModel (pack (op x.toModel.unpack y'.toModel.unpack))) := by
  rcases hy with rfl | ⟨⟨s, rfl⟩, ⟨s', rfl⟩⟩
  · exact .refl _
  · rw [unpack_zero, unpack_zero]
    exact same_pack (hop s s' _)

theorem same_add {x x' y y' : Float} (hx : Same x x') (hy : Same y y') :
    Same (x + y) (x' + y') := by
  refine (same_left (fun s s' v => ?_) hx y).trans (same_right (fun s s' u => ?_) hy x')
  · cases v with
    | zero t => cases s <;> cases s' <;> cases t <;> exact .inr ⟨_, _, rfl, rfl⟩
    | notANumber | infinity | finite => exact .inl rfl
  · cases u with
    | zero t => cases s <;> cases s' <;> cases t <;> exact .inr ⟨_, _, rfl, rfl⟩
    | notANumber | infinity | finite => exact .inl rfl

theorem same_sub {x x' y y' : Float} (hx : Same x x') (hy : Same y y') :
    Same (x - y) (x' - y') := by
  refine (same_left (fun s s' v => ?_) hx y).trans (same_right (fun s s' u => ?_) hy x')
  · cases v with
    | zero t => cases s <;> cases s' <;> cases t <;> exact .inr ⟨_, _, rfl, rfl⟩
    | notANumber | infinity | finite => exact .inl rfl
  · cases u with
    | zero t => cases s <;> cases s' <;> cases t <;> exact .inr ⟨_, _, rfl, rfl⟩
    | notANumber | infinity | finite => exact .inl rfl

theorem same_mul {x x' y y' : Float} (hx : Same x x') (hy : Same y y') :
    Same (x * y) (x' * y') := by
  -- A product of zeros and finite numbers is a zero, of whatever sign.
  refine (same_left (fun s s' v => ?_) hx y).trans (same_right (fun s s' u => ?_) hy x')
  · cases v with
    | zero | finite => exact .inr ⟨_, _, rfl, rfl⟩
    | notANumber | infinity => exact .inl rfl
  · cases u with
    | zero | finite => exact .inr ⟨_, _, rfl, rfl⟩
    | notANumber | infinity => exact .inl rfl

theorem same_div_left {x x' : Float} (hx : Same x x') (y : Float) : Same (x / y) (x' / y) := by
  refine same_left (fun s s' v => ?_) hx y
  cases v with
  | infinity | finite => exact .inr ⟨_, _, rfl, rfl⟩
  | notANumber | zero => exact .inl rfl

theorem same_neg {x x' : Float} (h : Same x x') : Same (-x) (-x') := by
  rcases h with rfl | ⟨⟨s, rfl⟩, ⟨s', rfl⟩⟩
  · exact .refl _
  · show Same (.ofModel (pack (zero s).toModel.unpack.neg))
      (.ofModel (pack (zero s').toModel.unpack.neg))
    rw [unpack_zero, unpack_zero]
    exact .zeros _ _

/-! ## Comparisons -/

theorem compare_left (s s' : UnpackedFloat.Sign) (v : UnpackedFloat) :
    (UnpackedFloat.zero s).compare v = (UnpackedFloat.zero s').compare v := by
  cases v with
  | zero | notANumber => rfl
  | infinity t => cases t <;> rfl
  | finite t => cases t <;> rfl

theorem compare_right (s s' : UnpackedFloat.Sign) (u : UnpackedFloat) :
    u.compare (.zero s) = u.compare (.zero s') := by
  cases u with
  | zero | notANumber => rfl
  | infinity t => cases t <;> rfl
  | finite t => cases t <;> rfl

theorem compare_eq {x x' y y' : Float} (hx : Same x x') (hy : Same y y') :
    x.toModel.unpack.compare y.toModel.unpack = x'.toModel.unpack.compare y'.toModel.unpack := by
  have hleft : x.toModel.unpack.compare y.toModel.unpack
      = x'.toModel.unpack.compare y.toModel.unpack := by
    rcases hx with rfl | ⟨⟨s, rfl⟩, ⟨s', rfl⟩⟩
    · rfl
    · rw [unpack_zero, unpack_zero]
      exact compare_left s s' _
  have hright : x'.toModel.unpack.compare y.toModel.unpack
      = x'.toModel.unpack.compare y'.toModel.unpack := by
    rcases hy with rfl | ⟨⟨s, rfl⟩, ⟨s', rfl⟩⟩
    · rfl
    · rw [unpack_zero, unpack_zero]
      exact compare_right s s' _
  exact hleft.trans hright

theorem beq_eq {x x' y y' : Float} (hx : Same x x') (hy : Same y y') : (x == y) = (x' == y') :=
  congrArg (· == some Ordering.eq) (compare_eq hx hy)

theorem lt_iff {x y : Float} :
    x < y ↔ (x.toModel.unpack.compare y.toModel.unpack == some .lt) = true :=
  decide_eq_true_iff

theorem le_iff {x y : Float} :
    x ≤ y ↔ (x.toModel.unpack.compare y.toModel.unpack).any Ordering.isLE = true :=
  decide_eq_true_iff

theorem lt_eq {x x' y y' : Float} (hx : Same x x') (hy : Same y y') :
    decide (x < y) = decide (x' < y') := by
  rw [decide_eq_decide, lt_iff, lt_iff, compare_eq hx hy]

theorem le_eq {x x' y y' : Float} (hx : Same x x') (hy : Same y y') :
    decide (x ≤ y) = decide (x' ≤ y') := by
  rw [decide_eq_decide, le_iff, le_iff, compare_eq hx hy]

/-! ## Integers, remainders and documents -/

theorem read_zero (s : UnpackedFloat.Sign) :
    Binary64.read (zero s) = .finite (s == .negative) 0 Binary64.minExponent := by
  cases s <;> decide +kernel

theorem isNaN_eq {x x' : Float} (h : Same x x') : Binary64.isNaN x = Binary64.isNaN x' := by
  rcases h with rfl | ⟨⟨s, rfl⟩, ⟨s', rfl⟩⟩
  · rfl
  · rw [Binary64.isNaN, Binary64.isNaN, read_zero, read_zero]

theorem integer?_zero (s : UnpackedFloat.Sign) : Binary64.integer? (zero s) = some 0 := by
  cases s <;> decide +kernel

theorem integer?_eq {x x' : Float} (h : Same x x') :
    Binary64.integer? x = Binary64.integer? x' := by
  rcases h with rfl | ⟨⟨s, rfl⟩, ⟨s', rfl⟩⟩
  · rfl
  · rw [integer?_zero, integer?_zero]

theorem ofFloat_zero (s : UnpackedFloat.Sign) : Json.ofFloat (zero s) = .number (.int 0) := by
  rw [Json.ofFloat, integer?_zero]
  rfl

theorem ofFloat_eq {x x' : Float} (h : Same x x') : Json.ofFloat x = Json.ofFloat x' := by
  rcases h with rfl | ⟨⟨s, rfl⟩, ⟨s', rfl⟩⟩
  · rfl
  · rw [ofFloat_zero, ofFloat_zero]

theorem ofScaled_zero (negative : Bool) : Binary64.ofScaled negative 0 Binary64.minExponent
    = zero (if negative then .negative else .positive) := by
  cases negative <;> decide +kernel

theorem nearest_zero (negative : Bool) (den : Nat) :
    Binary64.nearest negative 0 den = zero (if negative then .negative else .positive) := by
  rw [Binary64.nearest, if_pos rfl, ofScaled_zero]

theorem same_remainder_left {x x' : Float} (hx : Same x x') (y : Float) :
    Same (Binary64.remainder x y) (Binary64.remainder x' y) := by
  rcases hx with rfl | ⟨⟨s, rfl⟩, ⟨s', rfl⟩⟩
  · exact .refl _
  · rw [Binary64.remainder, Binary64.remainder, read_zero, read_zero]
    cases Binary64.read y with
    | nan => exact .refl _
    | infinite negative => exact .zeros s s'
    | finite negative n q =>
      dsimp only
      split
      · exact same_div_left (.zeros s s') y
      · simp only [Nat.zero_mul, Nat.zero_mod, nearest_zero, ite_self]
        split <;> exact .zeros _ _

/-- A number that is not equal to zero is the same as itself alone. -/
theorem eq_of_same {y y' : Float} (h : Same y y') (hzero : (y == 0) = false) : y = y' := by
  rcases h with h | ⟨⟨s, rfl⟩, -⟩
  · exact h
  · have hequal : (zero s == 0) = true := by cases s <;> decide +kernel
    rw [hequal] at hzero
    exact nomatch hzero

/-- No expression tells the zeros apart. -/
theorem congruence_same : Congruence Same where
  refl := .refl
  neg := same_neg
  add := same_add
  sub := same_sub
  mul := same_mul
  div hx hy hzero := by
    obtain rfl := eq_of_same hy hzero
    exact same_div_left hx _
  remainder hx hy hzero := by
    obtain rfl := eq_of_same hy hzero
    exact same_remainder_left hx _
  beq_eq := beq_eq
  lt_eq := lt_eq
  le_eq := le_eq
  isNaN_eq := isNaN_eq
  integer?_eq := integer?_eq
  ofFloat_eq := ofFloat_eq

end BoundView.Zeros
