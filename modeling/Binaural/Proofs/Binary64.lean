import Mathlib

/-!
The arithmetic of 64-bit numbers, as far as their signs go.

Operations unpack their operands into a sign, a mantissa and an exponent, compute there, and round
and pack the result; `stored` is what can be read of it. `Fits` says which mantissas and exponents a
number can have; what fits is changed neither by packing (`stored_of_fits`) nor by rounding
(`roundWithAccuracy_of_fits`).

* `roundWithAccuracy_spec` is the one fact about rounding that the signs need: a number that is not
  below the least one is not rounded to 0.
* `neg_pos`, `mul_nonpos` and `add_neg` are the rules of signs, which hold in spite of rounding,
  overflow and infinite operands.
* `one_sub_div_half_pos`: below one half and not below 0, the distance of the double from 1 is
  positive and finite, since doubling is exact.
* `two_mul_abs_nonneg`: twice an absolute value is not below 0.
-/

namespace Binaural.Binary64

open Float.Model Float.Model.UnpackedFloat

/-! ## Packing -/

/-- The mantissas and exponents that a number can have. All but the numbers of least exponent have
53 bits. -/
structure Fits (m : Nat) (e : Int) : Prop where
  positive : 0 < m
  bits : m.log2 ≤ 52
  least : -1074 ≤ e
  greatest : e ≤ 971
  normal : m.log2 = 52 ∨ e = -1074

/-- What can be read of a number after it was packed. -/
def stored (u : UnpackedFloat) : UnpackedFloat :=
  (Float.Model.pack u).unpack

theorem stored_zero (s : Sign) : stored (.zero s) = .zero s := by
  cases s with
  | negative => rfl
  | positive => rfl

theorem stored_infinity (s : Sign) : stored (.infinity s) = .infinity s := by
  cases s with
  | negative => rfl
  | positive => rfl

theorem overflows_iff {e : Int} :
    2 ^ Format.binary64.exponentBits ≤
        (e + Format.binary64.exponentBias +
          Format.binary64.mantissaBitsWithoutImplicit).toNat + 1 ↔ 971 < e := by
  change 2048 ≤ (e + 1023 + 52).toNat + 1 ↔ 971 < e
  omega

theorem pack_normal {s : Sign} {m : Nat} {e : Int} (positive : 0 < m) (top : m.log2 = 52)
    (greatest : e ≤ 971) :
    UnpackedFloat.pack Format.binary64 (.finite s m e positive) =
      packComponents Format.binary64 s (BitVec.ofNat 11 (e + 1023 + 52).toNat)
        (BitVec.ofNat 52 m) := by
  have implicit : m.log2 + 1 = Format.binary64.mantissaBits := by
    rw [top]
    rfl
  unfold UnpackedFloat.pack
  dsimp only
  rw [if_neg (mt overflows_iff.mp (by omega)), if_pos implicit]
  rfl

theorem pack_subnormal {s : Sign} {m : Nat} {e : Int} (positive : 0 < m) (bits : m.log2 < 52)
    (greatest : e ≤ 971) :
    UnpackedFloat.pack Format.binary64 (.finite s m e positive) =
      packComponents Format.binary64 s 0#11 (BitVec.ofNat 52 m) := by
  have implicit : ¬ m.log2 + 1 = Format.binary64.mantissaBits := by
    change ¬ m.log2 + 1 = 53
    omega
  unfold UnpackedFloat.pack
  dsimp only
  rw [if_neg (mt overflows_iff.mp (by omega)), if_neg implicit]

theorem pack_overflow {s : Sign} {m : Nat} {e : Int} (positive : 0 < m) (large : 971 < e) :
    UnpackedFloat.pack Format.binary64 (.finite s m e positive) =
      packedInfinity Format.binary64 s := by
  unfold UnpackedFloat.pack
  dsimp only
  rw [if_pos (overflows_iff.mpr large)]

theorem finite_congr {s : Sign} {m m' : Nat} {e e' : Int} {positive : 0 < m}
    {positive' : 0 < m'} (mantissa : m = m') (exponent : e = e') :
    UnpackedFloat.finite s m e positive = .finite s m' e' positive' := by
  subst mantissa exponent
  rfl

theorem toNat_implicit (fraction : BitVec 52) :
    (1#1 ++ fraction).toNat = 4503599627370496 + fraction.toNat := by
  have one : (1#1).toNat = 1 := rfl
  rw [BitVec.toNat_append, one, ← Nat.shiftLeft_add_eq_or_of_lt fraction.isLt,
    Nat.one_shiftLeft]

theorem unpack_normal {s : Sign} {exponent : BitVec 11} {fraction : BitVec 52}
    (finite : exponent ≠ -1#11) (normal : exponent ≠ 0#11) :
    ∃ positive, UnpackedFloat.unpack Format.binary64
        (packComponents Format.binary64 s exponent fraction) =
      .finite s (4503599627370496 + fraction.toNat) ((exponent.toNat : Int) - 1075) positive := by
  refine ⟨by omega, ?_⟩
  simp only [UnpackedFloat.unpack, unpackMantissa_packComponents, unpackExponent_packComponents,
    unpackSign_packComponents, Sign.ofBitVec_toBitVec]
  rw [if_neg finite, if_neg normal]
  exact finite_congr (toNat_implicit fraction) rfl

theorem unpack_subnormal {s : Sign} {fraction : BitVec 52} (nonzero : 0 < fraction.toNat) :
    UnpackedFloat.unpack Format.binary64 (packComponents Format.binary64 s 0#11 fraction) =
      .finite s fraction.toNat (-1074) nonzero := by
  have ne : fraction ≠ 0#52 := by
    rintro rfl
    exact absurd nonzero (by decide)
  simp only [UnpackedFloat.unpack, unpackMantissa_packComponents, unpackExponent_packComponents,
    unpackSign_packComponents, Sign.ofBitVec_toBitVec]
  rw [if_neg (by decide), if_pos trivial, dif_neg ne]
  exact finite_congr rfl (by decide)

/-- Packing does not change what fits. -/
theorem stored_of_fits {s : Sign} {m : Nat} {e : Int} (fits : Fits m e) :
    stored (.finite s m e fits.positive) = .finite s m e fits.positive := by
  obtain ⟨positive, bits, least, greatest, normal⟩ := fits
  change UnpackedFloat.unpack Format.binary64 (UnpackedFloat.pack Format.binary64 _) = _
  have small : m < 9007199254740992 := (Nat.log2_lt (by omega)).mp (show m.log2 < 53 by omega)
  by_cases top : m.log2 = 52
  · have large : 4503599627370496 ≤ m := (Nat.le_log2 (by omega)).mp (show 52 ≤ m.log2 by omega)
    have biased : (BitVec.ofNat 11 (e + 1023 + 52).toNat).toNat = (e + 1075).toNat := by
      rw [BitVec.toNat_ofNat]
      omega
    have fraction : (BitVec.ofNat 52 m).toNat = m - 4503599627370496 := by
      rw [BitVec.toNat_ofNat]
      omega
    rw [pack_normal positive top greatest]
    obtain ⟨positive', unpacked⟩ := @unpack_normal s (BitVec.ofNat 11 (e + 1023 + 52).toNat)
      (BitVec.ofNat 52 m) (by
        intro ones
        have := congrArg BitVec.toNat ones
        rw [biased, show (-1#11).toNat = 2047 by decide] at this
        omega) (by
        intro zeros
        have := congrArg BitVec.toNat zeros
        rw [biased, show (0#11).toNat = 0 by decide] at this
        omega)
    rw [unpacked]
    exact finite_congr (by omega) (by omega)
  · have fraction : (BitVec.ofNat 52 m).toNat = m := by
      have : m < 4503599627370496 := (Nat.log2_lt (by omega)).mp (show m.log2 < 52 by omega)
      rw [BitVec.toNat_ofNat]
      omega
    rw [pack_subnormal positive (by omega) greatest, unpack_subnormal (by omega)]
    exact finite_congr fraction (by omega)

theorem log2_of_bits {m : Nat} (large : 4503599627370496 ≤ m) (small : m < 9007199254740992) :
    m.log2 = 52 :=
  (Nat.log2_eq_iff (by omega)).mpr ⟨large, small⟩

/-- What is unpacked fits. -/
theorem fits_of_unpack {v : Float.Model} {s : Sign} {m : Nat} {e : Int} {positive : 0 < m}
    (unpacked : v.unpack = .finite s m e positive) : Fits m e := by
  have fraction : (@unpackMantissa Format.binary64 v.toBits.toBitVec).toNat <
      4503599627370496 := (@unpackMantissa Format.binary64 v.toBits.toBitVec).isLt
  have exponent : (@unpackExponent Format.binary64 v.toBits.toBitVec).toNat < 2048 :=
    (@unpackExponent Format.binary64 v.toBits.toBitVec).isLt
  unfold Float.Model.unpack UnpackedFloat.unpack at unpacked
  dsimp only at unpacked
  split at unpacked
  · split at unpacked
    · cases unpacked
    · cases unpacked
  · rename_i not_ones
    split at unpacked
    · rename_i zeros
      split at unpacked
      · cases unpacked
      · -- the least exponent, with a mantissa of any size
        obtain ⟨rfl, rfl, rfl⟩ := UnpackedFloat.finite.inj unpacked
        have least : (@unpackExponent Format.binary64 v.toBits.toBitVec).toNat = 0 := by
          rw [zeros]
          rfl
        have bits := (Nat.log2_lt (Nat.ne_of_gt positive)).mpr
          (show _ < 2 ^ 52 from fraction)
        refine ⟨positive, by omega, ?_, ?_, .inr ?_⟩
        · change (-1074 : Int) ≤ _ - 1075 + 1
          omega
        · change _ - 1075 + 1 ≤ (971 : Int)
          omega
        · change _ - 1075 + 1 = (-1074 : Int)
          omega
    · rename_i not_zeros
      obtain ⟨rfl, rfl, rfl⟩ := UnpackedFloat.finite.inj unpacked
      have above : (@unpackExponent Format.binary64 v.toBits.toBitVec).toNat ≠ 0 :=
        fun zeros => not_zeros (BitVec.eq_of_toNat_eq zeros)
      have below : (@unpackExponent Format.binary64 v.toBits.toBitVec).toNat ≠ 2047 :=
        fun ones => not_ones (BitVec.eq_of_toNat_eq ones)
      have bits := log2_of_bits (m := (1#1 ++
          @unpackMantissa Format.binary64 v.toBits.toBitVec).toNat)
        (by rw [toNat_implicit]; omega) (by rw [toNat_implicit]; omega)
      refine ⟨positive, bits.le, ?_, ?_, .inl bits⟩
      · change (-1074 : Int) ≤ _ - 1075
        omega
      · change _ - 1075 ≤ (971 : Int)
        omega

/-! ## Rounding -/

theorem targetExponent_eq (m : Nat) (e : Int) :
    Format.binary64.targetExponent (totalExponent m e) = max ((m.log2 : Int) + e - 52) (-1074) := by
  change max ((m.log2 : Int) + 1 + e - 53) (-1074) = _
  omega

theorem mantissa_shiftRight (em : ExtendedMantissa) (k : Nat) :
    (em >>> k).mantissa = em.mantissa / 2 ^ k := by
  induction k with
  | zero => exact (Nat.div_one _).symm
  | succ k ih =>
      change (em >>> k).mantissa / 2 = _
      rw [ih, Nat.div_div_eq_div_mul, Nat.pow_succ]

theorem shiftRight_exact (m k : Nat) :
    (⟨m * 2 ^ k, false, false⟩ : ExtendedMantissa) >>> k = ⟨m, false, false⟩ := by
  induction k generalizing m with
  | zero => simp [HShiftRight.hShiftRight, Nat.repeat]
  | succ k ih =>
      change ((⟨m * 2 ^ (k + 1), false, false⟩ : ExtendedMantissa) >>> k).shiftRightOne = _
      rw [Nat.pow_succ, Nat.mul_comm (2 ^ k), ← Nat.mul_assoc, ih]
      simp [ExtendedMantissa.shiftRightOne]

theorem le_roundedMantissa (em : ExtendedMantissa) :
    em.mantissa ≤ em.roundedMantissa ∧ em.roundedMantissa ≤ em.mantissa + 1 := by
  obtain ⟨m, roundBit, stickyBit⟩ := em
  cases roundBit with
  | false =>
      cases stickyBit with
      | false => exact ⟨Nat.le_refl _, Nat.le_succ _⟩
      | true => exact ⟨Nat.le_refl _, Nat.le_succ _⟩
  | true =>
      cases stickyBit with
      | false =>
          change m ≤ m + m % 2 ∧ m + m % 2 ≤ m + 1
          omega
      | true => exact ⟨Nat.le_succ _, Nat.le_refl _⟩

theorem mantissa_ofMantissaAndAccuracy (m : Nat) (a : Accuracy) :
    (ExtendedMantissa.ofMantissaAndAccuracy m a).mantissa = m := by
  cases a with
  | exact => rfl
  | inexact o =>
      cases o with
      | lt => rfl
      | eq => rfl
      | gt => rfl

/-- How many bits of a mantissa rounding drops. -/
def dropped (m : Nat) (e : Int) : Nat :=
  (Format.binary64.targetExponent (totalExponent m e) - e).toNat

theorem dropped_eq (m : Nat) (e : Int) :
    dropped m e = (max ((m.log2 : Int) + e - 52) (-1074) - e).toNat := by
  rw [dropped, targetExponent_eq]

theorem log2_div_dropped_le (m : Nat) (e : Int) : (m / 2 ^ dropped m e).log2 ≤ 52 := by
  have enough : m.log2 ≤ 52 + dropped m e := by
    rw [dropped_eq]
    omega
  have small : m / 2 ^ dropped m e < 2 ^ 53 := by
    rw [Nat.div_lt_iff_lt_mul (Nat.two_pow_pos _), ← Nat.pow_add]
    exact Nat.lt_of_lt_of_le Nat.lt_log2_self (Nat.pow_le_pow_right (by decide) (by omega))
  by_cases zero : m / 2 ^ dropped m e = 0
  · rw [zero]
    decide
  · exact Nat.le_of_lt_succ ((Nat.log2_lt zero).mpr small)

theorem div_dropped_pos {m : Nat} {e : Int} (positive : 0 < m) (least : -1074 ≤ e) :
    0 < m / 2 ^ dropped m e := by
  have few : dropped m e ≤ m.log2 := by
    rw [dropped_eq]
    omega
  refine Nat.div_pos ?_ (Nat.two_pow_pos _)
  exact Nat.le_trans (Nat.pow_le_pow_right (by decide) few) (Nat.log2_self_le (by omega))

/-- A number out of a sign, a mantissa that may be 0 and an exponent. -/
def ofParts (s : Sign) (m : Nat) (e : Int) : UnpackedFloat :=
  if positive : 0 < m then .finite s m e positive else .zero s

theorem dite_zero_eq_ofParts (s : Sign) (m : Nat) (e : Int) :
    (if zero : m = 0 then .zero s else .finite s m e (Nat.pos_of_ne_zero zero)) =
      ofParts s m e := by
  unfold ofParts
  by_cases zero : m = 0
  · rw [dif_pos zero, dif_neg (by omega)]
  · rw [dif_neg zero, dif_pos (by omega)]

/-- Rounding drops bits, rounds the mantissa, and drops one more if that carried. -/
theorem roundWithAccuracy_eq (s : Sign) (m : Nat) (e : Int) (a : Accuracy) :
    roundWithAccuracy Format.binary64 s m e a =
      let r := (ExtendedMantissa.ofMantissaAndAccuracy m a >>> dropped m e).roundedMantissa
      ofParts s (r / 2 ^ dropped r (e + dropped m e))
        (e + dropped m e + dropped r (e + dropped m e)) := by
  unfold roundWithAccuracy shiftToTargetExponent shiftToExponent
  simp only [mantissa_shiftRight, mantissa_ofMantissaAndAccuracy, dite_zero_eq_ofParts]
  rfl

/-- Rounding gives a number of at most 53 bits, hardly above the exponent that it starts from or
aims at. It is not 0 unless what is rounded is, or is below the least number. -/
theorem roundWithAccuracy_spec (s : Sign) (m : Nat) (e : Int) (a : Accuracy) :
    ∃ m' e', roundWithAccuracy Format.binary64 s m e a = ofParts s m' e' ∧
      m'.log2 ≤ 52 ∧ -1074 ≤ e' ∧
      e' ≤ max e (max ((m.log2 : Int) + e - 52) (-1074)) + 1 ∧
      (0 < m → -1074 ≤ e → 0 < m') := by
  generalize shifted_eq : ExtendedMantissa.ofMantissaAndAccuracy m a >>> dropped m e = em
  have shifted : em.mantissa = m / 2 ^ dropped m e := by
    rw [← shifted_eq, mantissa_shiftRight, mantissa_ofMantissaAndAccuracy]
  obtain ⟨floor, ceiling⟩ := le_roundedMantissa em
  refine ⟨_, _, roundWithAccuracy_eq s m e a, log2_div_dropped_le _ _, ?_, ?_, ?_⟩
  · simp only [dropped_eq]
    omega
  · rw [shifted_eq]
    have carry : em.roundedMantissa.log2 ≤ 53 := by
      by_cases zero : em.roundedMantissa = 0
      · rw [zero]
        decide
      · have small : m / 2 ^ dropped m e < 2 ^ 53 := by
          by_cases none_left : m / 2 ^ dropped m e = 0
          · rw [none_left]
            decide
          · have bits := log2_div_dropped_le m e
            exact (Nat.log2_lt none_left).mp (by omega)
        exact Nat.le_of_lt_succ ((Nat.log2_lt zero).mpr (by omega))
    rw [dropped_eq em.roundedMantissa, dropped_eq]
    omega
  · intro positive least
    rw [shifted_eq]
    refine div_dropped_pos ?_ (by omega)
    have := div_dropped_pos positive least
    omega

theorem log2_mul_two_pow {m : Nat} (positive : 0 < m) (j : Nat) :
    (m * 2 ^ j).log2 = m.log2 + j := by
  have scaled : m * 2 ^ j ≠ 0 := Nat.ne_of_gt (Nat.mul_pos positive (Nat.two_pow_pos j))
  refine (Nat.log2_eq_iff scaled).mpr ⟨?_, ?_⟩
  · rw [Nat.pow_add]
    exact Nat.mul_le_mul_right _ (Nat.log2_self_le (by omega))
  · rw [show m.log2 + j + 1 = m.log2 + 1 + j by omega, Nat.pow_add]
    exact Nat.mul_lt_mul_of_pos_right Nat.lt_log2_self (Nat.two_pow_pos j)

/-- What fits is not changed by rounding, also after a shift. -/
theorem roundWithAccuracy_of_fits {s : Sign} {m : Nat} {e : Int} (j : Nat)
    (fits : Fits m (e + j)) :
    roundWithAccuracy Format.binary64 s (m * 2 ^ j) e .exact =
      .finite s m (e + j) fits.positive := by
  obtain ⟨positive, bits, least, greatest, normal⟩ := fits
  have first : dropped (m * 2 ^ j) e = j := by
    rw [dropped_eq, log2_mul_two_pow positive]
    omega
  have second : dropped m (e + j) = 0 := by
    rw [dropped_eq]
    omega
  have rounded : (⟨m, false, false⟩ : ExtendedMantissa).roundedMantissa = m := rfl
  rw [roundWithAccuracy_eq, first]
  dsimp only [ExtendedMantissa.ofMantissaAndAccuracy]
  rw [shiftRight_exact, rounded, second, Nat.pow_zero, Nat.div_one, ofParts, dif_pos positive]
  exact finite_congr rfl (by omega)

/-! ## Signs -/

/-- Not zero, and of the given sign. -/
inductive Signed (s : Sign) : UnpackedFloat → Prop
  | infinity : Signed s (.infinity s)
  | finite {m : Nat} {e : Int} (positive : 0 < m) : Signed s (.finite s m e positive)

/-- Packing keeps the sign, and keeps a number finite unless its exponent is too large. -/
theorem signed_stored {s : Sign} {m : Nat} {e : Int} (positive : 0 < m)
    (bits : m.log2 ≤ 52) (least : -1074 ≤ e) :
    Signed s (stored (.finite s m e positive)) ∧
      (e ≤ 971 → (stored (.finite s m e positive)).isFinite = true) := by
  by_cases greatest : e ≤ 971
  · by_cases top : m.log2 = 52
    · rw [stored_of_fits ⟨positive, bits, least, greatest, .inl top⟩]
      exact ⟨.finite _, fun _ => rfl⟩
    · have fraction : (BitVec.ofNat 52 m).toNat = m := by
        have : m < 4503599627370496 := (Nat.log2_lt (by omega)).mp (show m.log2 < 52 by omega)
        rw [BitVec.toNat_ofNat]
        omega
      change Signed s (UnpackedFloat.unpack Format.binary64 (UnpackedFloat.pack _ _)) ∧
        (_ → (UnpackedFloat.unpack Format.binary64 (UnpackedFloat.pack _ _)).isFinite = true)
      rw [pack_subnormal positive (by omega) greatest, unpack_subnormal (by omega)]
      exact ⟨.finite _, fun _ => rfl⟩
  · refine ⟨?_, fun small => absurd small greatest⟩
    change Signed s (UnpackedFloat.unpack Format.binary64 (UnpackedFloat.pack _ _))
    rw [pack_overflow positive (by omega)]
    have infinite := stored_infinity s
    change UnpackedFloat.unpack Format.binary64 (packedInfinity _ s) = _ at infinite
    rw [infinite]
    exact .infinity

/-- Rounding gives a zero or keeps the sign. -/
theorem zero_or_signed_round (s : Sign) (m : Nat) (e : Int) (a : Accuracy) :
    stored (roundWithAccuracy Format.binary64 s m e a) = .zero s ∨
      Signed s (stored (roundWithAccuracy Format.binary64 s m e a)) := by
  obtain ⟨m', e', rounded, bits, least, -⟩ := roundWithAccuracy_spec s m e a
  rw [rounded, ofParts]
  by_cases positive : 0 < m'
  · rw [dif_pos positive]
    exact .inr (signed_stored positive bits least).1
  · rw [dif_neg positive]
    exact .inl (stored_zero s)

theorem lt_iff {x y : Float} :
    x < y ↔ UnpackedFloat.lt x.toModel.unpack y.toModel.unpack = true := by
  change decide _ = true ↔ _
  exact decide_eq_true_iff

theorem le_iff {x y : Float} :
    x ≤ y ↔ UnpackedFloat.le x.toModel.unpack y.toModel.unpack = true := by
  change decide _ = true ↔ _
  exact decide_eq_true_iff

section Operations

variable (x y : Float)

theorem unpack_neg : (-x).toModel.unpack = stored x.toModel.unpack.neg := rfl

theorem unpack_abs : x.abs.toModel.unpack = stored x.toModel.unpack.abs := rfl

theorem unpack_add :
    (x + y).toModel.unpack =
      stored (UnpackedFloat.add Format.binary64 x.toModel.unpack y.toModel.unpack) := rfl

theorem unpack_sub :
    (x - y).toModel.unpack =
      stored (UnpackedFloat.sub Format.binary64 x.toModel.unpack y.toModel.unpack) := rfl

theorem unpack_mul :
    (x * y).toModel.unpack =
      stored (UnpackedFloat.mul Format.binary64 x.toModel.unpack y.toModel.unpack) := rfl

theorem unpack_div :
    (x / y).toModel.unpack =
      stored (UnpackedFloat.div Format.binary64 x.toModel.unpack y.toModel.unpack) := rfl

end Operations

theorem unpack_ofNat_zero : (Float.ofNat 0).toModel.unpack = .zero .positive := by
  rfl

theorem lt_zero_iff {x : Float} : x < Float.ofNat 0 ↔ Signed .negative x.toModel.unpack := by
  rw [lt_iff, unpack_ofNat_zero]
  cases x.toModel.unpack with
  | notANumber => exact iff_of_false Bool.false_ne_true nofun
  | zero s => exact iff_of_false Bool.false_ne_true nofun
  | infinity s =>
      cases s with
      | negative => exact iff_of_true rfl .infinity
      | positive => exact iff_of_false Bool.false_ne_true nofun
  | finite s m e positive =>
      cases s with
      | negative => exact iff_of_true rfl (.finite positive)
      | positive => exact iff_of_false Bool.false_ne_true nofun

theorem zero_lt_iff {x : Float} : Float.ofNat 0 < x ↔ Signed .positive x.toModel.unpack := by
  rw [lt_iff, unpack_ofNat_zero]
  cases x.toModel.unpack with
  | notANumber => exact iff_of_false Bool.false_ne_true nofun
  | zero s => exact iff_of_false Bool.false_ne_true nofun
  | infinity s =>
      cases s with
      | negative => exact iff_of_false Bool.false_ne_true nofun
      | positive => exact iff_of_true rfl .infinity
  | finite s m e positive =>
      cases s with
      | negative => exact iff_of_false Bool.false_ne_true nofun
      | positive => exact iff_of_true rfl (.finite positive)

/-- A zero, or negative. -/
inductive Nonpositive : UnpackedFloat → Prop
  | zero (s : Sign) : Nonpositive (.zero s)
  | infinity : Nonpositive (.infinity .negative)
  | finite {m : Nat} {e : Int} (positive : 0 < m) : Nonpositive (.finite .negative m e positive)

theorem Signed.nonpositive {u : UnpackedFloat} (signed : Signed .negative u) : Nonpositive u := by
  cases signed with
  | infinity => exact .infinity
  | finite positive => exact .finite positive

theorem Signed.not_negative {u : UnpackedFloat} (signed : Signed .positive u) :
    ¬ Signed .negative u := by
  intro negative
  cases signed with
  | infinity => cases negative
  | finite => cases negative

theorem le_zero_iff {x : Float} : x ≤ Float.ofNat 0 ↔ Nonpositive x.toModel.unpack := by
  rw [le_iff, unpack_ofNat_zero]
  cases x.toModel.unpack with
  | notANumber => exact iff_of_false Bool.false_ne_true nofun
  | zero s => exact iff_of_true rfl (.zero s)
  | infinity s =>
      cases s with
      | negative => exact iff_of_true rfl .infinity
      | positive => exact iff_of_false Bool.false_ne_true nofun
  | finite s m e positive =>
      cases s with
      | negative => exact iff_of_true rfl (.finite positive)
      | positive => exact iff_of_false Bool.false_ne_true nofun

theorem shiftLeft_pos {m : Nat} (positive : 0 < m) (k : Nat) : 0 < m <<< k := by
  rw [Nat.shiftLeft_eq]
  exact Nat.mul_pos positive (Nat.two_pow_pos k)

/-- Rounding that may also add bits keeps the sign, and keeps what is not too large finite. -/
theorem signed_round_of_pos {s : Sign} {m : Nat} {e : Int} (positive : 0 < m)
    (least : -1074 ≤ e) :
    Signed s (stored (UnpackedFloat.round Format.binary64 s m e)) ∧
      ((m.log2 : Int) + e ≤ 1022 →
        (stored (UnpackedFloat.round Format.binary64 s m e)).isFinite = true) := by
  unfold UnpackedFloat.round decreaseExponent
  dsimp only
  rw [targetExponent_eq]
  generalize added : (e - max ((m.log2 : Int) + e - 52) (-1074)).toNat = k
  have bits : (m <<< k).log2 = m.log2 + k := by
    rw [Nat.shiftLeft_eq, log2_mul_two_pow positive]
  obtain ⟨m', e', rounded, bits', least', greatest, nonzero⟩ :=
    roundWithAccuracy_spec s (m <<< k) (e - k) .exact
  have positive' := nonzero (shiftLeft_pos positive k) (by omega)
  rw [rounded, ofParts, dif_pos positive']
  obtain ⟨signed, finite⟩ := @signed_stored s m' e' positive' bits' least'
  exact ⟨signed, fun small => finite (by omega)⟩

theorem signed_normalize_neg {mantissa e : Int} {z : Sign} (negative : mantissa < 0)
    (least : -1074 ≤ e) :
    Signed .negative (stored (UnpackedFloat.normalize Format.binary64 mantissa e z)) := by
  unfold UnpackedFloat.normalize
  rw [Int.compare_eq_lt.mpr negative]
  exact (signed_round_of_pos (by omega) least).1

theorem neg_pos {x : Float} (negative : x < Float.ofNat 0) : Float.ofNat 0 < -x := by
  rw [lt_zero_iff] at negative
  rw [zero_lt_iff, unpack_neg]
  generalize unpacked : x.toModel.unpack = u at negative
  cases negative with
  | infinity =>
      change Signed .positive (stored (.infinity .positive))
      rw [stored_infinity]
      exact .infinity
  | @finite m e positive =>
      have fits := fits_of_unpack unpacked
      change Signed .positive (stored (.finite .positive m e positive))
      exact (signed_stored positive fits.bits fits.least).1

theorem mul_nonpos {x y : Float} (positive : Float.ofNat 0 < x)
    (finite : x.toModel.unpack.isFinite = true) (nonpositive : y ≤ Float.ofNat 0) :
    x * y ≤ Float.ofNat 0 := by
  rw [zero_lt_iff] at positive
  rw [le_zero_iff] at nonpositive ⊢
  rw [unpack_mul]
  generalize x.toModel.unpack = u at positive finite ⊢
  generalize y.toModel.unpack = w at nonpositive ⊢
  cases positive with
  | infinity => cases finite
  | @finite m e mantissa =>
      cases nonpositive with
      | zero s =>
          change Nonpositive (stored (.zero _))
          rw [stored_zero]
          exact .zero _
      | infinity =>
          change Nonpositive (stored (.infinity .negative))
          rw [stored_infinity]
          exact .infinity
      | @finite m' e' mantissa' =>
          change Nonpositive (stored (roundWithAccuracy _ .negative _ _ _))
          rcases zero_or_signed_round .negative (m * m') (e + e') .exact with zero | signed
          · rw [zero]
            exact .zero _
          · exact signed.nonpositive

theorem add_neg {x y : Float} (negative : x < Float.ofNat 0) (nonpositive : y ≤ Float.ofNat 0) :
    x + y < Float.ofNat 0 := by
  rw [lt_zero_iff] at negative ⊢
  rw [le_zero_iff] at nonpositive
  rw [unpack_add]
  generalize unpacked : x.toModel.unpack = u at negative ⊢
  generalize unpacked' : y.toModel.unpack = w at nonpositive ⊢
  have infinite : Signed .negative (stored (.infinity .negative)) := by
    rw [stored_infinity]
    exact .infinity
  cases negative with
  | infinity =>
      cases nonpositive with
      | zero => exact infinite
      | infinity => exact infinite
      | finite => exact infinite
  | @finite m e mantissa =>
      have fits := fits_of_unpack unpacked
      cases nonpositive with
      | zero => exact (signed_stored mantissa fits.bits fits.least).1
      | infinity => exact infinite
      | @finite m' e' mantissa' =>
          have fits' := fits_of_unpack unpacked'
          refine signed_normalize_neg ?_ ?_
          · change -((m <<< _ : Nat) : Int) + -((m' <<< _ : Nat) : Int) < 0
            have := shiftLeft_pos mantissa (e - min e e').toNat
            have := shiftLeft_pos mantissa' (e' - min e e').toNat
            omega
          · have := fits.least
            have := fits'.least
            omega

theorem signed_normalize_pos {mantissa e : Int} {z : Sign} (positive : 0 < mantissa)
    (least : -1074 ≤ e) :
    Signed .positive (stored (UnpackedFloat.normalize Format.binary64 mantissa e z)) ∧
      ((mantissa.toNat.log2 : Int) + e ≤ 1022 →
        (stored (UnpackedFloat.normalize Format.binary64 mantissa e z)).isFinite = true) := by
  unfold UnpackedFloat.normalize
  rw [Int.compare_eq_gt.mpr positive]
  exact signed_round_of_pos (by omega) least

/-! ## The lower half of the unit interval -/

theorem unpack_half :
    (0.5 : Float).toModel.unpack = .finite .positive 4503599627370496 (-53) (by decide) := by
  rfl

theorem unpack_ofNat_one :
    (Float.ofNat 1).toModel.unpack =
      .finite .positive 4503599627370496 (-52) (by decide) := by
  rfl

/-- The product of any number and 1 is that number, without any rounding. -/
theorem mul_ofNat_one (x : Float) : x * Float.ofNat 1 = x := by
  have unrounded : UnpackedFloat.mul Format.binary64 x.toModel.unpack
      (Float.ofNat 1).toModel.unpack = x.toModel.unpack := by
    have positive (s : Sign) : s * .positive = s := by
      cases s with
      | positive => rfl
      | negative => rfl
    rw [unpack_ofNat_one]
    generalize unpacked : x.toModel.unpack = u
    cases u with
    | notANumber => rfl
    | zero s => exact congrArg UnpackedFloat.zero (positive s)
    | infinity s => exact congrArg UnpackedFloat.infinity (positive s)
    | finite s m e nonzero =>
        have fits : Fits m (e + -52 + (52 : Nat)) := by
          have same : e + -52 + ((52 : Nat) : Int) = e := by omega
          rw [same]
          exact fits_of_unpack unpacked
        have power : 4503599627370496 = 2 ^ 52 := by norm_num
        change roundWithAccuracy Format.binary64 (s * .positive) (m * 4503599627370496) (e + -52)
          .exact = _
        rw [positive, power, roundWithAccuracy_of_fits 52 fits]
        exact finite_congr rfl (by omega)
  have repacked : Float.Model.pack x.toModel.unpack = x.toModel := by
    obtain ⟨⟨bits, valid⟩⟩ := x
    have packed := pack_unpack_of_valid valid (by decide)
    unfold Float.Model.pack Float.Model.unpack
    simp only [packed]
  change Float.ofModel (Float.Model.pack (UnpackedFloat.mul Format.binary64 x.toModel.unpack
    (Float.ofNat 1).toModel.unpack)) = x
  rw [unrounded, repacked]

/-- A zero, or a positive number below one with its mantissa and exponent. -/
inductive BelowOne : UnpackedFloat → Prop
  | zero (s : Sign) : BelowOne (.zero s)
  | finite {m : Nat} {e : Int} (fits : Fits m e) (small : e ≤ -53) :
      BelowOne (.finite .positive m e fits.positive)

/-- Division by one half doubles, without any rounding. -/
theorem div_half {m : Nat} {e : Int} (fits : Fits m e) (small : e ≤ -54) :
    ∃ m' e', ∃ fits' : Fits m' e', e' ≤ -53 ∧
      UnpackedFloat.div Format.binary64 (.finite .positive m e fits.positive)
        (.finite .positive 4503599627370496 (-53) (by decide)) =
          .finite .positive m' e' fits'.positive := by
  obtain ⟨positive, bits, least, greatest, normal⟩ := fits
  have quotient : divCore Format.binary64 m e 4503599627370496 (-53) = (m * 2 ^ 1, e, .exact) := by
    have unit : totalExponent 4503599627370496 (-53) = 0 := by decide
    have aimed : min (e - -53) (Format.binary64.targetExponent
        (totalExponent m e - totalExponent 4503599627370496 (-53))) = e := by
      rw [unit, Int.sub_zero, targetExponent_eq]
      omega
    have shift : (e - -53 - e).toNat = 53 := by omega
    unfold divCore
    dsimp only
    rw [aimed, shift, Nat.shiftLeft_eq, accuracyOfFraction, if_pos (by omega)]
    refine Prod.ext ?_ rfl
    dsimp only
    omega
  unfold UnpackedFloat.div
  dsimp only
  rw [quotient]
  dsimp only
  by_cases top : m.log2 = 52
  · have fits' : Fits m (e + (1 : Nat)) := ⟨positive, bits, by omega, by omega, .inl top⟩
    exact ⟨m, e + (1 : Nat), fits', by omega, roundWithAccuracy_of_fits 1 fits'⟩
  · have bits' : (m * 2 ^ 1).log2 = m.log2 + 1 := log2_mul_two_pow positive 1
    have fits' : Fits (m * 2 ^ 1) (e + (0 : Nat)) :=
      ⟨by omega, by omega, by omega, by omega, .inr (by omega)⟩
    refine ⟨m * 2 ^ 1, e + (0 : Nat), fits', by omega, ?_⟩
    have := roundWithAccuracy_of_fits (s := .positive) 0 fits'
    rwa [Nat.pow_zero, Nat.mul_one] at this

/-- One minus a number below one is positive. -/
theorem one_sub {u : UnpackedFloat} (below : BelowOne u) :
    Signed .positive (stored (UnpackedFloat.sub Format.binary64
        (.finite .positive 4503599627370496 (-52) (by decide)) u)) ∧
      (stored (UnpackedFloat.sub Format.binary64
        (.finite .positive 4503599627370496 (-52) (by decide)) u)).isFinite = true := by
  cases below with
  | zero s =>
      have one := @signed_stored .positive 4503599627370496 (-52) (by decide) (by decide)
        (by decide)
      exact ⟨one.1, one.2 (by decide)⟩
  | @finite m e fits small =>
      obtain ⟨positive, bits, least, greatest, normal⟩ := fits
      have bound : m < 9007199254740992 :=
        (Nat.log2_lt (by omega)).mp (show m.log2 < 53 by omega)
      have exponent : min (-52) e = e := by omega
      have aligned : (e - e).toNat = 0 := by omega
      generalize shift_eq : (-52 - e).toNat = k
      have large : 9007199254740992 ≤ 4503599627370496 <<< k := by
        rw [Nat.shiftLeft_eq]
        have : 2 ^ 1 ≤ 2 ^ k := Nat.pow_le_pow_right (by decide) (by omega)
        omega
      have width : (4503599627370496 <<< k).log2 = 52 + k := by
        rw [Nat.shiftLeft_eq, log2_mul_two_pow (by decide)]
        rfl
      have difference : UnpackedFloat.sub Format.binary64
          (.finite .positive 4503599627370496 (-52) (by decide)) (.finite .positive m e positive) =
            UnpackedFloat.normalize Format.binary64
              (((4503599627370496 <<< k : Nat) : Int) - (m : Int)) e .positive := by
        unfold UnpackedFloat.sub decreaseExponent
        dsimp only
        rw [exponent, shift_eq, aligned]
        rfl
      rw [difference]
      obtain ⟨signed, finite⟩ := @signed_normalize_pos
        (((4503599627370496 <<< k : Nat) : Int) - (m : Int)) e .positive (by omega) least
      refine ⟨signed, finite ?_⟩
      have narrower : (((4503599627370496 <<< k : Nat) : Int) - (m : Int)).toNat.log2 ≤ 52 + k := by
        rw [← width]
        refine Nat.le_of_lt_succ ((Nat.log2_lt (by omega)).mpr ?_)
        exact Nat.lt_of_le_of_lt (by omega) Nat.lt_log2_self
      omega

/-- Half of the distance from one is positive and finite for what is below one half and not
negative. -/
theorem one_sub_div_half_pos {x : Float} (nonneg : ¬ x < Float.ofNat 0) (small : x < 0.5) :
    Float.ofNat 0 < Float.ofNat 1 - x / 0.5 ∧
      (Float.ofNat 1 - x / 0.5).toModel.unpack.isFinite = true := by
  rw [lt_zero_iff] at nonneg
  rw [lt_iff, unpack_half] at small
  rw [zero_lt_iff]
  suffices below : BelowOne (x / 0.5).toModel.unpack by
    rw [unpack_sub, unpack_ofNat_one]
    exact one_sub below
  rw [unpack_div, unpack_half]
  generalize unpacked : x.toModel.unpack = u at nonneg small ⊢
  cases u with
  | notANumber => cases small
  | infinity s =>
      cases s with
      | negative => exact absurd .infinity nonneg
      | positive => cases small
  | zero s =>
      cases s with
      | negative => exact .zero .negative
      | positive => exact .zero .positive
  | finite s m e positive =>
      cases s with
      | negative => exact absurd (.finite positive) nonneg
      | positive =>
          have fits := fits_of_unpack unpacked
          have lower : e ≤ -54 := by
            have order : (compare e (-53)).then (compare m 4503599627370496) = .lt :=
              Option.some.inj (eq_of_beq small)
            obtain ⟨-, -, -, -, normal⟩ := fits
            rcases Ordering.then_eq_lt.mp order with below | ⟨-, fewer⟩
            · have := Int.compare_eq_lt.mp below
              omega
            · have := Nat.compare_eq_lt.mp fewer
              rcases normal with top | least
              · have := (Nat.le_log2 (by omega)).mp (show 52 ≤ m.log2 by omega)
                omega
              · omega
          obtain ⟨m', e', fits', small', quotient⟩ := div_half fits lower
          rw [quotient, stored_of_fits fits']
          exact .finite fits' small'

/-! ## Absolute values -/

theorem unpack_abs_cases (x : Float) :
    x.abs.toModel.unpack = .notANumber ∨ x.abs.toModel.unpack = .zero .positive ∨
      Signed .positive x.abs.toModel.unpack := by
  rw [unpack_abs]
  generalize unpacked : x.toModel.unpack = u
  cases u with
  | notANumber => exact .inl rfl
  | zero s => exact .inr (.inl (stored_zero .positive))
  | infinity s =>
      have infinite : stored (UnpackedFloat.infinity s).abs = .infinity .positive :=
        stored_infinity .positive
      rw [infinite]
      exact .inr (.inr .infinity)
  | finite s m e positive =>
      have fits := fits_of_unpack unpacked
      exact .inr (.inr (signed_stored positive fits.bits fits.least).1)

/-- Twice an absolute value is not negative. -/
theorem two_mul_abs_nonneg (x : Float) : ¬ Float.ofNat 2 * x.abs < Float.ofNat 0 := by
  have two : (Float.ofNat 2).toModel.unpack =
      .finite .positive 4503599627370496 (-51) (by decide) := by rfl
  rw [lt_zero_iff, unpack_mul, two]
  rcases unpack_abs_cases x with undefined | zero | signed
  · rw [undefined]
    exact nofun
  · rw [zero]
    change ¬ Signed .negative (stored (.zero .positive))
    rw [stored_zero]
    exact nofun
  · generalize x.abs.toModel.unpack = u at signed ⊢
    cases signed with
    | infinity =>
        change ¬ Signed .negative (stored (.infinity .positive))
        rw [stored_infinity]
        exact nofun
    | @finite m e positive =>
        change ¬ Signed .negative (stored (roundWithAccuracy _ .positive _ _ _))
        rcases zero_or_signed_round .positive (4503599627370496 * m) (-51 + e) .exact with
          zero | doubled
        · rw [zero]
          exact nofun
        · exact doubled.not_negative

end Binaural.Binary64
