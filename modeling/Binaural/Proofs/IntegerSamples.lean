import Binaural.Proofs.Binary64
import Binaural.Proofs.Narrowing
import Binaural.Recording.Load

/-!
Integer samples as fractions of their full scale.

An integer of at most 53 bits is a float (`Binary64.unpack_ofNat`), and the quotient of a float by a
power of two is one as well, as long as it is not too small (`Binary64.div_two_pow`). So
normalization is exact (`Recording.isFraction_normalize`), and what it makes of a sample that fits
its bits lies in `[-1, 1)`.
-/

namespace Binaural

open Float.Model Float.Model.UnpackedFloat

namespace Binary64

/-! ## Integers -/

theorem fits_of_lt {n : Nat} (positive : 0 < n) (small : n < 2 ^ 53) :
    Fits (n * 2 ^ (52 - n.log2)) ((n.log2 : Int) - 52) := by
  have bits : n.log2 < 53 := (Nat.log2_lt (by omega)).mpr small
  have top : (n * 2 ^ (52 - n.log2)).log2 = 52 := by
    rw [log2_mul_two_pow positive]
    omega
  exact ⟨Nat.mul_pos positive (Nat.two_pow_pos _), top.le, by omega, by omega, .inl top⟩

/-- An integer of at most 53 bits is not rounded. -/
theorem round_of_lt {n : Nat} (s : Sign) (positive : 0 < n) (small : n < 2 ^ 53) :
    UnpackedFloat.round Format.binary64 s n 0 =
      .finite s (n * 2 ^ (52 - n.log2)) ((n.log2 : Int) - 52)
        (fits_of_lt positive small).positive := by
  have bits : n.log2 < 53 := (Nat.log2_lt (by omega)).mpr small
  have fits := fits_of_lt positive small
  have exponent : (0 : Int) - ((52 - n.log2 : Nat) : Int) + (0 : Nat) = (n.log2 : Int) - 52 := by
    omega
  have shift : (0 - max ((n.log2 : Int) + 0 - 52) (-1074)).toNat = 52 - n.log2 := by omega
  rw [← exponent] at fits
  unfold UnpackedFloat.round decreaseExponent
  dsimp only
  rw [targetExponent_eq, shift, Nat.shiftLeft_eq]
  have rounded := roundWithAccuracy_of_fits (s := s) 0 fits
  rw [Nat.pow_zero, Nat.mul_one] at rounded
  rw [rounded]
  exact finite_congr rfl exponent

theorem ofNat_eq {n : Nat} (small : n < 2 ^ 53) : Float.ofNat n = n.toUInt64.toFloat := by
  change Float.ofScientific n false 0 = _
  rw [Float.ofScientific, dif_pos ⟨small, by decide⟩]
  exact mul_ofNat_one _

theorem unpack_ofNat {n : Nat} (positive : 0 < n) (small : n < 2 ^ 53) :
    (Float.ofNat n).toModel.unpack =
      .finite .positive (n * 2 ^ (52 - n.log2)) ((n.log2 : Int) - 52)
        (fits_of_lt positive small).positive := by
  have word : n.toUInt64.toNat = n := by
    rw [Nat.toUInt64, UInt64.toNat_ofNat', Nat.mod_eq_of_lt (by omega)]
  rw [ofNat_eq small]
  change stored (UnpackedFloat.normalize Format.binary64 (n.toUInt64.toNat : Int) 0 .positive) = _
  unfold UnpackedFloat.normalize
  rw [word, Int.compare_eq_gt.mpr (by omega)]
  dsimp only
  rw [Int.toNat_natCast, round_of_lt .positive positive small,
    stored_of_fits (fits_of_lt positive small)]

/-- The sign of an integer that is not 0. -/
def signOf (s : Int) : Sign := if s < 0 then .negative else .positive

theorem unpack_ofInt {s : Int} (nonzero : s ≠ 0) (small : s.natAbs < 2 ^ 53) :
    (Float.ofInt s).toModel.unpack =
      .finite (signOf s) (s.natAbs * 2 ^ (52 - s.natAbs.log2)) ((s.natAbs.log2 : Int) - 52)
        (fits_of_lt (Int.natAbs_pos.mpr nonzero) small).positive := by
  cases s with
  | ofNat n => exact unpack_ofNat (Int.natAbs_pos.mpr nonzero) small
  | negSucc n =>
      change stored (UnpackedFloat.neg (Float.ofNat (n + 1)).toModel.unpack) = _
      have negative : signOf (Int.negSucc n) = .negative := if_pos (Int.negSucc_lt_zero n)
      rw [unpack_ofNat (Nat.succ_pos n) small, negative]
      exact @stored_of_fits .negative _ _ (fits_of_lt (Nat.succ_pos n) small)

/-! ## Powers of two -/

theorem unpack_two_pow {k : Nat} (small : k ≤ 52) :
    (Float.ofNat (2 ^ k)).toModel.unpack =
      .finite .positive 4503599627370496 ((k : Int) - 52) (by decide) := by
  rw [unpack_ofNat (Nat.two_pow_pos k) (Nat.pow_lt_pow_right (by decide) (by omega))]
  have power : 2 ^ k * 2 ^ (52 - (2 ^ k).log2) = 4503599627370496 := by
    rw [Nat.log2_two_pow, ← Nat.pow_add, show k + (52 - k) = 52 by omega]
  exact finite_congr power (by rw [Nat.log2_two_pow])

/-- Division by a power of two takes it off the exponent, without any rounding. -/
theorem div_two_pow {s : Sign} {m : Nat} {e : Int} {k : Nat} (fits : Fits m e)
    (top : m.log2 = 52) (large : (k : Int) - 1073 ≤ e) (small : e ≤ 0) :
    ∃ fits' : Fits m (e - k),
      stored (UnpackedFloat.div Format.binary64 (.finite s m e fits.positive)
        (.finite .positive 4503599627370496 ((k : Int) - 52) (by decide))) =
          .finite s m (e - k) fits'.positive := by
  have fits' : Fits m (e - k) :=
    ⟨fits.positive, top.le, by omega, by omega, .inl top⟩
  have shifted : Fits m (e - k - 1 + (1 : Nat)) := by
    rw [show e - k - 1 + ((1 : Nat) : Int) = e - k by omega]
    exact fits'
  have quotient : divCore Format.binary64 m e 4503599627370496 ((k : Int) - 52) =
      (m * 2 ^ 1, e - k - 1, .exact) := by
    have unit : totalExponent 4503599627370496 ((k : Int) - 52) = k + 1 := by
      change (52 : Int) + 1 + (k - 52) = k + 1
      omega
    have aimed : min (e - ((k : Int) - 52)) (Format.binary64.targetExponent
        (totalExponent m e - (k + 1))) = e - k - 1 := by
      change min _ (max ((m.log2 : Int) + 1 + e - (k + 1) - 53) (-1074)) = _
      omega
    have shift : (e - ((k : Int) - 52) - (e - k - 1)).toNat = 53 := by omega
    unfold divCore
    dsimp only
    rw [unit, aimed, shift, Nat.shiftLeft_eq, accuracyOfFraction, if_pos (by omega)]
    refine Prod.ext ?_ rfl
    dsimp only
    omega
  refine ⟨fits', ?_⟩
  have positive : s / .positive = s := by
    cases s with
    | positive => rfl
    | negative => rfl
  unfold UnpackedFloat.div
  dsimp only
  rw [quotient]
  dsimp only
  rw [positive, roundWithAccuracy_of_fits 1 shifted]
  have same : stored (.finite s m (e - k) fits'.positive) = .finite s m (e - k) fits'.positive :=
    stored_of_fits fits'
  rw [← same]
  exact congrArg stored (finite_congr rfl (by omega))

/-! ## Comparison with one -/

theorem unpack_neg_one :
    (-Float.ofNat 1).toModel.unpack =
      .finite .negative 4503599627370496 (-52) (by decide) := by
  rfl

/-- A number of full mantissa is less than 1 if its exponent says so. -/
theorem lt_one {x : Float} {s : Sign} {m : Nat} {e : Int} {positive : 0 < m}
    (unpacked : x.toModel.unpack = .finite s m e positive) (below : s = .positive → e < -52) :
    x < Float.ofNat 1 := by
  rw [lt_iff, unpacked, unpack_ofNat_one]
  cases s with
  | negative => rfl
  | positive =>
      change (some ((compare e (-52)).then (compare m 4503599627370496)) == some .lt) = true
      rw [Int.compare_eq_lt.mpr (below rfl)]
      rfl

/-- A number of full mantissa is at least -1 if its exponent says so, or if it is -1. -/
theorem neg_one_le {x : Float} {s : Sign} {m : Nat} {e : Int} {positive : 0 < m}
    (unpacked : x.toModel.unpack = .finite s m e positive)
    (below : e < -52 ∨ e = -52 ∧ m = 4503599627370496) : -Float.ofNat 1 ≤ x := by
  rw [le_iff, unpacked, unpack_neg_one]
  cases s with
  | positive => rfl
  | negative =>
      change (some ((compare (-52) e).then (compare 4503599627370496 m)).swap).any
        (fun order => order.isLE) = true
      rcases below with less | ⟨rfl, rfl⟩
      · rw [Int.compare_eq_gt.mpr less]
        rfl
      · rfl

theorem le_of_lt {x y : Float} (less : x < y) : x ≤ y := by
  rw [lt_iff] at less
  have order := eq_of_beq less
  rw [le_iff, UnpackedFloat.le, order]
  rfl

end Binary64

/-! ## Values -/

/-- The number that a finite one is. -/
def BinaryNumber.value : BinaryNumber → ℚ
  | .finite negative significand exponent =>
    if negative then -(significand * 2 ^ exponent) else significand * 2 ^ exponent
  | _ => 0

/-- Whether a sign is the negative one. -/
def isMinus : Sign → Bool
  | .negative => true
  | .positive => false

theorem toNat_unpackSign {spec : Format} (b : BitVec spec.numBits) :
    (unpackSign b).toNat =
      b.toNat / 2 ^ (spec.mantissaBitsWithoutImplicit + spec.exponentBits) % 2 := by
  rw [unpackSign_def, BitVec.extractLsb'_toNat, Nat.shiftRight_eq_div_pow, Nat.pow_one]

theorem isMinus_ofBitVec (v : BitVec 1) : isMinus (Sign.ofBitVec v) = (v.toNat == 1) := by
  rcases BitVec.eq_zero_or_eq_one v with rfl | rfl
  · rfl
  · rfl

/-- The number that an unpacked float stands for. -/
def BinaryNumber.ofUnpacked : UnpackedFloat → BinaryNumber
  | .notANumber => .nan
  | .infinity s => .infinite (isMinus s)
  | .zero s => .finite (isMinus s) 0 (-1074)
  | .finite s m e _ => .finite (isMinus s) m e

/-- Bits are decoded to the number that they are unpacked to. -/
theorem BinaryNumber.ofFloat_eq (x : Float) : ofFloat x = ofUnpacked x.toModel.unpack := by
  generalize bits_eq : x.toBits.toBitVec = b
  have exponent : x.toBits.toNat / Nat.pow 2 (BinaryFormat.double.precision - 1) %
        Nat.pow 2 BinaryFormat.double.exponentBits =
      (@unpackExponent Format.binary64 b).toNat := by
    rw [toNat_unpackExponent, ← bits_eq]
    rfl
  have fraction : x.toBits.toNat % Nat.pow 2 (BinaryFormat.double.precision - 1) =
      (@unpackMantissa Format.binary64 b).toNat := by
    rw [toNat_unpackMantissa, ← bits_eq]
    rfl
  have sign : (x.toBits.toNat / Nat.pow 2 (BinaryFormat.double.precision - 1) /
        Nat.pow 2 BinaryFormat.double.exponentBits % 2 == 1) =
      isMinus (Sign.ofBitVec (@unpackSign Format.binary64 b)) := by
    rw [isMinus_ofBitVec, toNat_unpackSign, ← bits_eq, Nat.div_div_eq_div_mul]
    rfl
  have ones : Nat.pow 2 BinaryFormat.double.exponentBits - 1 =
      2 ^ Format.binary64.exponentBits - 1 := rfl
  have least : BinaryFormat.double.leastExponent = -1074 := by decide
  have start : (Format.binary64.exponentBias : Int) +
      Format.binary64.mantissaBitsWithoutImplicit = 1075 := by decide
  change BinaryFormat.double.decode x.toBits.toNat =
    ofUnpacked (UnpackedFloat.unpack Format.binary64 x.toBits.toBitVec)
  rw [bits_eq]
  unfold BinaryFormat.decode UnpackedFloat.unpack
  dsimp only
  rw [exponent, fraction, sign, ones]
  by_cases top : @unpackExponent Format.binary64 b = -1#_
  · rw [if_pos top, if_pos ((ones_iff _).mp top)]
    by_cases none : @unpackMantissa Format.binary64 b = 0#_
    · rw [if_pos none, if_pos ((zeros_iff _).mp none)]
      rfl
    · rw [if_neg none, if_neg (mt (zeros_iff _).mpr none)]
      rfl
  · rw [if_neg top, if_neg (mt (ones_iff _).mpr top)]
    by_cases bottom : @unpackExponent Format.binary64 b = 0#_
    · rw [if_pos bottom, if_pos ((zeros_iff _).mp bottom)]
      by_cases none : @unpackMantissa Format.binary64 b = 0#_
      · rw [dif_pos none, (zeros_iff _).mp none, least]
        rfl
      · rw [dif_neg none, least, bottom, start]
        rfl
    · have above := mt (zeros_iff _).mpr bottom
      rw [if_neg bottom, if_neg above, least, start, ofUnpacked, Binary64.toNat_implicit]
      refine congrArg₂ (BinaryNumber.finite _) rfl ?_
      omega

/-! ## Normalization -/

namespace Recording

/-- The float is the sample as a fraction of the full scale of its bits. -/
structure IsFraction (bits : Nat) (sample : Int) (x : Float) : Prop where
  finite : x.isFinite = true
  value : (BinaryNumber.ofFloat x).value = sample / 2 ^ (bits - 1)
  lower : -1 ≤ x
  upper : x < 1

/-- A sample that its bits can hold. -/
def FitsBits (bits : Nat) (sample : Int) : Prop :=
  -(2 ^ (bits - 1)) ≤ sample ∧ sample < 2 ^ (bits - 1)

theorem unpack_normalize_zero {bits : Nat} (few : bits ≤ 53) :
    (normalize bits 0).toModel.unpack = .zero .positive := by
  change Binary64.stored (UnpackedFloat.div Format.binary64 (Float.ofNat 0).toModel.unpack
    (Float.ofNat (2 ^ (bits - 1))).toModel.unpack) = _
  rw [Binary64.unpack_two_pow (by omega), Binary64.unpack_ofNat_zero]
  exact Binary64.stored_zero .positive

theorem unpack_normalize {bits : Nat} {sample : Int} (few : bits ≤ 53) (nonzero : sample ≠ 0)
    (small : sample.natAbs < 2 ^ 53) :
    ∃ positive, (normalize bits sample).toModel.unpack =
      .finite (Binary64.signOf sample) (sample.natAbs * 2 ^ (52 - sample.natAbs.log2))
        ((sample.natAbs.log2 : Int) - 52 - (bits - 1 : Nat)) positive := by
  have bits' : sample.natAbs.log2 < 53 :=
    (Nat.log2_lt (Int.natAbs_ne_zero.mpr nonzero)).mpr small
  have fits := Binary64.fits_of_lt (Int.natAbs_pos.mpr nonzero) small
  have top : (sample.natAbs * 2 ^ (52 - sample.natAbs.log2)).log2 = 52 := by
    rw [Binary64.log2_mul_two_pow (Int.natAbs_pos.mpr nonzero)]
    omega
  obtain ⟨fits', quotient⟩ := @Binary64.div_two_pow (Binary64.signOf sample) _ _ (bits - 1) fits
    top (by omega) (by omega)
  refine ⟨fits'.positive, ?_⟩
  rw [← quotient]
  change Binary64.stored (UnpackedFloat.div Format.binary64 (Float.ofInt sample).toModel.unpack
    (Float.ofNat (2 ^ (bits - 1))).toModel.unpack) = _
  rw [Binary64.unpack_two_pow (by omega), Binary64.unpack_ofInt nonzero small]

/-- The mantissa and the exponent of a quotient by a power of two denote just that quotient. -/
theorem mantissa_mul_exponent (n : Nat) {k : Nat} (small : n.log2 ≤ 52) :
    ((n * 2 ^ (52 - n.log2) : Nat) : ℚ) * 2 ^ ((n.log2 : Int) - 52 - k) = n / 2 ^ k := by
  have exponent : ((52 - n.log2 : Nat) : Int) + ((n.log2 : Int) - 52 - k) = -(k : Int) := by omega
  rw [Nat.cast_mul, Nat.cast_pow, Nat.cast_ofNat, mul_assoc, ← zpow_natCast,
    ← zpow_add₀ two_ne_zero, exponent, zpow_neg, zpow_natCast, div_eq_mul_inv]

theorem isFraction_normalize_zero {bits : Nat} (few : bits ≤ 53) :
    IsFraction bits 0 (normalize bits 0) := by
  have unpacked := unpack_normalize_zero few
  have number := BinaryNumber.ofFloat_eq (normalize bits 0)
  rw [unpacked] at number
  constructor
  · rw [← BinaryNumber.isFinite_ofFloat, number]
    rfl
  · rw [number]
    simp [BinaryNumber.ofUnpacked, BinaryNumber.value, isMinus]
  · change -Float.ofNat 1 ≤ _
    rw [Binary64.le_iff, unpacked, Binary64.unpack_neg_one]
    rfl
  · change _ < Float.ofNat 1
    rw [Binary64.lt_iff, unpacked, Binary64.unpack_ofNat_one]
    rfl

/-- The sign of a sample and its part of the scale make up the fraction that it is. -/
theorem value_of_signOf {sample : Int} {m k : Nat} {e : Int} {positive : 0 < m}
    (part : (m : ℚ) * 2 ^ e = sample.natAbs / 2 ^ k) :
    (BinaryNumber.ofUnpacked (.finite (Binary64.signOf sample) m e positive)).value =
      sample / 2 ^ k := by
  rw [BinaryNumber.ofUnpacked, BinaryNumber.value, part]
  by_cases negative : sample < 0
  · have opposite : (sample : ℚ) = -(sample.natAbs : ℚ) := by
      exact_mod_cast (show sample = -(sample.natAbs : Int) by omega)
    rw [Binary64.signOf, if_pos negative, opposite, neg_div]
    rfl
  · have same : (sample : ℚ) = (sample.natAbs : ℚ) := by
      rw [Nat.cast_natAbs, abs_of_nonneg (not_lt.mp negative)]
    rw [Binary64.signOf, if_neg negative, same]
    rfl

/-- A sample that fits its bits is normalized without any rounding, to less than 1. -/
theorem isFraction_normalize {bits : Nat} {sample : Int} (few : bits ≤ 53)
    (fits : FitsBits bits sample) : IsFraction bits sample (normalize bits sample) := by
  obtain ⟨low, high⟩ := fits
  by_cases zero : sample = 0
  · subst zero
    exact isFraction_normalize_zero few
  · generalize scale_eq : bits - 1 = k at low high
    have scale : 2 ^ k ≤ 2 ^ 52 := Nat.pow_le_pow_right (by decide) (by omega)
    have nonzero := Int.natAbs_ne_zero.mpr zero
    have above : sample.natAbs ≤ 2 ^ k := by zify; exact abs_le.mpr ⟨low, high.le⟩
    have small : sample.natAbs < 2 ^ 53 := by omega
    have log : sample.natAbs.log2 < 53 := (Nat.log2_lt nonzero).mpr small
    obtain ⟨positive, unpacked⟩ := unpack_normalize few zero small
    have number := BinaryNumber.ofFloat_eq (normalize bits sample)
    rw [unpacked] at number
    constructor
    · rw [← BinaryNumber.isFinite_ofFloat, number]
      rfl
    · rw [number, scale_eq]
      exact value_of_signOf (mantissa_mul_exponent _ (by omega))
    · refine Binary64.neg_one_le unpacked ?_
      rcases Nat.lt_or_eq_of_le above with less | whole
      · have := (Nat.log2_lt nonzero).mpr less
        exact .inl (by omega)
      · refine .inr ?_
        rw [whole, Nat.log2_two_pow, ← Nat.pow_add, show k + (52 - k) = 52 by omega]
        exact ⟨by omega, by norm_num⟩
    · refine Binary64.lt_one unpacked fun plus => ?_
      have nonneg : ¬ sample < 0 := by
        intro negative
        rw [Binary64.signOf, if_pos negative] at plus
        cases plus
      have less : sample.natAbs < 2 ^ k := by zify; rwa [abs_of_nonneg (by omega)]
      have := (Nat.log2_lt nonzero).mpr less
      omega

end Recording

/-! ## Samples of files -/

namespace Wave

theorem littleEndian_lt (bytes : List UInt8) : littleEndian bytes < 256 ^ bytes.length := by
  induction bytes with
  | nil => exact Nat.one_pos
  | cons b rest ih =>
      have byte : b.toNat < 256 := b.toNat_lt
      rw [littleEndian, List.length_cons, Nat.pow_succ]
      omega

theorem fitsBits_signed {bits : Nat} (positive : 0 < bits) (n : Nat) :
    Recording.FitsBits bits (signed bits n) := by
  have double : 2 ^ bits = 2 * 2 ^ (bits - 1) := by
    rw [← Nat.pow_succ', Nat.succ_eq_add_one, Nat.sub_add_cancel positive]
  have low : n % 2 ^ bits < 2 ^ bits := Nat.mod_lt _ (Nat.two_pow_pos bits)
  have scale : (2 : Int) ^ (bits - 1) = (2 ^ (bits - 1) : Nat) := (Nat.cast_pow 2 _).symm
  have cases : signed bits n =
      if n % 2 ^ bits < 2 ^ (bits - 1) then ((n % 2 ^ bits : Nat) : Int)
      else ((n % 2 ^ bits : Nat) : Int) - (2 ^ bits : Nat) := rfl
  rw [Recording.FitsBits, cases, scale]
  split
  · omega
  · omega

/-- Whatever is decoded as an integer has a supported number of bits, and fits them. -/
theorem fitsBits_of_integer? {format : WaveFormat} {bytes : List UInt8} {sample : Int}
    (decoded : integer? format bytes = some sample) (whole : bytes.length = format.container) :
    Recording.FitsBits format.bits sample := by
  unfold integer? at decoded
  dsimp only at decoded
  split at decoded
  · rename_i container bits
    have small := littleEndian_lt bytes
    rw [whole, container] at small
    cases decoded
    rw [bits, Recording.FitsBits]
    omega
  · rename_i bits
    cases decoded
    rw [bits]
    exact fitsBits_signed (by decide) _
  · rename_i bits
    cases decoded
    rw [bits]
    exact fitsBits_signed (by decide) _
  · rename_i bits
    cases decoded
    rw [bits]
    exact fitsBits_signed (by decide) _
  · rename_i bits
    cases decoded
    rw [bits]
    exact fitsBits_signed (by decide) _
  · cases decoded

/-- Every sample that is read is decoded from bytes as many as it takes. -/
theorem forall_of_readSamples? {β : Type} {read? : List UInt8 → Option β} {width count : Nat}
    {done xs : List β} {bytes : List UInt8} {good : β → Prop}
    (decoded : ∀ sample x, sample.length = width → read? sample = some x → good x)
    (before : ∀ x ∈ done, good x) (read : readSamples? read? width done count bytes = some xs) :
    ∀ x ∈ xs, good x := by
  induction count generalizing done bytes with
  | zero =>
      cases read
      exact fun x member => before x (List.mem_reverse.mp member)
  | succ count ih =>
      rw [readSamples?] at read
      split at read
      · cases read
      · rename_i enough
        split at read
        · cases read
        · rename_i x first
          have whole : (bytes.take width).length = width :=
            Nat.le_antisymm (List.length_take_le _ _) (Nat.le_of_not_lt enough)
          exact ih (List.forall_mem_cons.mpr ⟨decoded _ x whole first, before⟩) read

/-- The integer samples of a file fit its bits. -/
theorem fitsBits_of_integers? {w : Wave} {samples : List Int}
    (decoded : w.integers? = some samples) :
    ∀ sample ∈ samples, Recording.FitsBits w.format.bits sample :=
  forall_of_readSamples? (fun _ _ whole one => fitsBits_of_integer? one whole) (by simp) decoded

end Wave

end Binaural
