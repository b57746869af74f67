import Binaural.Proofs.Narrowing

/-!
Numbers that a format can hold.

* `BinaryFormat.nearest_congr`: what a fraction is rounded to depends on its value alone.
* `BinaryFormat.nearest_of_fits`: rounding leaves the numbers of a format as they are.
* `BinaryNumber.toFloat32_ofFloat32`: a float that is a number is the float of that number.
* `widens_widen`: a finite number of 32 bits has its sign and its value in 64 bits too, and
  narrowing gives it back (`narrow_of_widens`).
-/

namespace Binaural

/-! ## Quotients -/

section RoundDiv

variable {a b c d : Nat}

/-- Fractions of one value have one quotient, and remainders in proportion. -/
theorem div_mod_of_mul_eq_mul (b_pos : 0 < b) (d_pos : 0 < d) (same : a * d = c * b) :
    a / b = c / d ∧ a % b * d = c % d * b := by
  have left : a / b * b + a % b = a := Nat.div_add_mod' a b
  have right : c / d * d + c % d = c := Nat.div_add_mod' c d
  have quotient : a / b = c / d := by
    calc a / b = a * d / (b * d) := (Nat.mul_div_mul_right a b d_pos).symm
      _ = c * b / (d * b) := by rw [same, Nat.mul_comm b d]
      _ = c / d := Nat.mul_div_mul_right c d b_pos
  refine ⟨quotient, ?_⟩
  have expanded : (a / b * b + a % b) * d = (c / d * d + c % d) * b := by rw [left, right, same]
  rw [quotient, Nat.add_mul, Nat.add_mul] at expanded
  have swapped : c / d * b * d = c / d * d * b := Nat.mul_right_comm _ _ _
  omega

theorem roundDiv_congr (b_pos : 0 < b) (d_pos : 0 < d) (same : a * d = c * b) :
    roundDiv a b = roundDiv c d := by
  obtain ⟨quotient, rest⟩ := div_mod_of_mul_eq_mul b_pos d_pos same
  have below : 2 * (a % b) < b ↔ 2 * (c % d) < d := by
    rw [← Nat.mul_lt_mul_right d_pos, ← Nat.mul_lt_mul_right (a := b) (b := 2 * (c % d)) b_pos,
      Nat.mul_assoc, rest, Nat.mul_assoc, Nat.mul_comm b d]
  have above : b < 2 * (a % b) ↔ d < 2 * (c % d) := by
    rw [← Nat.mul_lt_mul_right d_pos, ← Nat.mul_lt_mul_right (a := b) (c := 2 * (c % d)) b_pos,
      Nat.mul_assoc, rest, Nat.mul_assoc, Nat.mul_comm b d]
  simp only [roundDiv, quotient, below, above]

theorem roundDiv_eq_zero (small : 2 * a < b) : roundDiv a b = 0 := by
  have below : a < b := by omega
  simp [roundDiv, Nat.div_eq_of_lt below, Nat.mod_eq_of_lt below, small]

theorem roundDiv_mul_self (b_pos : 0 < b) : roundDiv (a * b) b = a := by
  simp [roundDiv, Nat.mul_div_cancel a b_pos, b_pos]

end RoundDiv

namespace BinaryFormat

/-! ## The nearest number -/

variable {f : BinaryFormat} {num den num' den' : Nat}

theorem floorLog2_eq {k : Int} (num_pos : 0 < num) (den_pos : 0 < den)
    (low : (den : ℚ) * 2 ^ k ≤ num) (high : (num : ℚ) < den * 2 ^ (k + 1)) :
    floorLog2 num den = k := by
  obtain ⟨low', high'⟩ := floorLog2_spec num_pos den_pos
  have positive : (0 : ℚ) < den := by exact_mod_cast den_pos
  have first := (mul_lt_mul_iff_of_pos_left positive).mp (low.trans_lt high')
  have second := (mul_lt_mul_iff_of_pos_left positive).mp (low'.trans_lt high)
  rw [zpow_lt_zpow_iff_right₀ one_lt_two] at first second
  omega

/-- What a fraction is rounded to depends on its value alone. -/
theorem nearest_congr (negative : Bool) (den_pos : 0 < den) (den_pos' : 0 < den')
    (same : num * den' = num' * den) :
    f.nearest negative num den = f.nearest negative num' den' := by
  by_cases zero : num = 0
  · subst zero
    have zero' : num' = 0 := by
      rw [Nat.zero_mul, eq_comm, Nat.mul_eq_zero] at same
      omega
    rw [zero', nearest, nearest, if_pos rfl, if_pos rfl]
  · have num_pos : 0 < num := Nat.pos_of_ne_zero zero
    have num_pos' : 0 < num' := by
      have product := Nat.mul_pos num_pos den_pos'
      rw [same] at product
      exact Nat.pos_of_mul_pos_right product
    have equal : (num : ℚ) * den' = num' * den := by exact_mod_cast same
    have positive : (0 : ℚ) < den := by exact_mod_cast den_pos
    have positive' : (0 : ℚ) < den' := by exact_mod_cast den_pos'
    obtain ⟨low, high⟩ := floorLog2_spec num_pos den_pos
    have digits : floorLog2 num' den' = floorLog2 num den := by
      refine floorLog2_eq num_pos' den_pos' ?_ ?_
      · rw [← mul_le_mul_iff_of_pos_right positive, ← equal, mul_right_comm, mul_comm (den' : ℚ),
          mul_right_comm]
        exact mul_le_mul_of_nonneg_right low positive'.le
      · rw [← mul_lt_mul_iff_of_pos_right positive, ← equal, mul_right_comm, mul_comm (den' : ℚ),
          mul_right_comm]
        exact mul_lt_mul_of_pos_right high positive'
    have exponent : f.roundingExponent num' den' = f.roundingExponent num den := by
      rw [roundingExponent, roundingExponent, digits]
    have significand : f.roundedSignificand num' den' = f.roundedSignificand num den := by
      rw [roundedSignificand, roundedSignificand, exponent]
      refine roundDiv_congr (Nat.mul_pos den_pos' (Nat.two_pow_pos _))
        (Nat.mul_pos den_pos (Nat.two_pow_pos _)) ?_
      rw [Nat.mul_mul_mul_comm, ← same, Nat.mul_mul_mul_comm]
    rw [nearest_eq negative num_pos, nearest_eq negative num_pos', exponent, significand]

/-- The numbers of a format stay as they are. -/
theorem nearest_of_fits (negative : Bool) {significand : Nat} {exponent : Int}
    (fits : f.Fits significand exponent) (den_pos : 0 < den)
    (value : (num : ℚ) = den * (significand * 2 ^ exponent)) :
    f.nearest negative num den = .finite negative significand exponent := by
  obtain ⟨bits, least, greatest, full⟩ := fits
  have power_pos : (0 : ℚ) < 2 ^ exponent := zpow_pos two_pos _
  have positive : (0 : ℚ) < den := by exact_mod_cast den_pos
  rcases Nat.eq_zero_or_pos significand with rfl | significand_pos
  · have zero : num = 0 := by simpa using value
    have lowest : exponent = f.leastExponent := by
      refine full.resolve_left fun reached => ?_
      have := Nat.two_pow_pos (f.precision - 1)
      omega
    rw [nearest, if_pos zero, lowest]
  · have num_pos : 0 < num := by
      have product : (0 : ℚ) < num := value ▸ mul_pos positive (mul_pos (by exact_mod_cast
        significand_pos) power_pos)
      exact_mod_cast product
    have low : 2 ^ significand.log2 ≤ significand := Nat.log2_self_le significand_pos.ne'
    have high : significand < 2 ^ (significand.log2 + 1) := Nat.lt_log2_self
    have digits : floorLog2 num den = significand.log2 + exponent := by
      refine floorLog2_eq num_pos den_pos ?_ ?_
      · rw [value, zpow_add₀ two_ne_zero, zpow_natCast]
        gcongr
        exact_mod_cast low
      · rw [value, add_right_comm, zpow_add₀ two_ne_zero]
        gcongr
        exact_mod_cast high
    have width : significand.log2 ≤ f.precision - 1 := by
      have := (Nat.log2_lt significand_pos.ne').mpr bits
      omega
    have at_exponent : f.roundingExponent num den = exponent := by
      rw [roundingExponent, digits]
      rcases full with reached | lowest
      · have := (Nat.le_log2 significand_pos.ne').mpr reached
        omega
      · omega
    have rounded : f.roundedSignificand num den = significand := by
      have scaled : num * Nat.pow 2 (-exponent).toNat =
          significand * (den * Nat.pow 2 exponent.toNat) := by
        change num * 2 ^ (-exponent).toNat = significand * (den * 2 ^ exponent.toNat)
        rw [← Nat.cast_inj (R := ℚ)]
        push_cast
        rw [value, ← zpow_mul_pow exponent]
        ring
      rw [roundedSignificand, at_exponent, scaled]
      exact roundDiv_mul_self (Nat.mul_pos den_pos (Nat.two_pow_pos _))
    rw [nearest_eq negative num_pos, at_exponent, rounded, if_neg bits.ne, if_neg (by omega)]

/-- A number is rounded to the number of the format that has its value, if there is one. -/
theorem round_of_fits (negative : Bool) {significand significand' : Nat} {exponent exponent' : Int}
    (fits : f.Fits significand' exponent')
    (value : (significand' : ℚ) * 2 ^ exponent' = significand * 2 ^ exponent) :
    f.round (.finite negative significand exponent) =
      .finite negative significand' exponent' := by
  refine nearest_of_fits negative fits (Nat.two_pow_pos _) ?_
  change ((significand * 2 ^ exponent.toNat : Nat) : ℚ) = (2 ^ (-exponent).toNat : Nat) * _
  rw [value]
  push_cast
  rw [← zpow_mul_pow exponent]
  ring

/-- Rounding to a format leaves its numbers as they are. -/
theorem round_of_holds {x : BinaryNumber} (holds : f.Holds x) : f.round x = x := by
  cases holds with
  | nan => rfl
  | infinite negative => rfl
  | finite negative fits => exact round_of_fits negative fits rfl

/-- Bits are those of the number that they stand for, if they stand for one. -/
theorem encode_decode (proper : f.Proper) {bits : Nat}
    (bits_lt : bits < 2 * (Nat.pow 2 f.exponentBits * Nat.pow 2 (f.precision - 1)))
    (number : f.decode bits ≠ .nan) : f.encode (f.decode bits) = bits := by
  have hidden_pos : 0 < Nat.pow 2 (f.precision - 1) := Nat.two_pow_pos _
  have fields_large := proper.four_le_fields
  unfold decode at number ⊢
  dsimp only at number ⊢
  have sign_eq (negative : Bool) : encode.sign f negative =
      negative.toNat * (Nat.pow 2 f.exponentBits * Nat.pow 2 (f.precision - 1)) := by
    cases negative with
    | false => exact (Nat.zero_mul _).symm
    | true => exact (Nat.one_mul _).symm
  generalize hidden_eq : Nat.pow 2 (f.precision - 1) = hidden at *
  generalize fields_eq : Nat.pow 2 f.exponentBits = fields at *
  -- the three parts of the bits
  have fraction_lt : bits % hidden < hidden := Nat.mod_lt _ hidden_pos
  have field_lt : bits / hidden % fields < fields := Nat.mod_lt _ (by omega)
  have top_lt : bits / hidden / fields < 2 := by
    rw [Nat.div_div_eq_div_mul]
    exact Nat.div_lt_of_lt_mul (by rwa [Nat.mul_comm, Nat.mul_comm hidden])
  have parts : bits / hidden / fields * (fields * hidden) + bits / hidden % fields * hidden +
      bits % hidden = bits := by
    rw [← Nat.mul_assoc, ← Nat.add_mul, Nat.div_add_mod', Nat.div_add_mod']
  have negative : (bits / hidden / fields % 2 == 1).toNat = bits / hidden / fields := by
    rw [Nat.mod_eq_of_lt top_lt]
    interval_cases bits / hidden / fields
    · rfl
    · rfl
  split at number
  · rename_i ones
    rw [if_pos ones]
    split at number
    · rename_i none_left
      rw [if_pos none_left, encode, encode.infinite, sign_eq, negative, fields_eq, hidden_eq,
        ← ones]
      omega
    · exact absurd rfl number
  · rename_i not_ones
    rw [if_neg not_ones]
    split
    · rename_i zeros
      rw [encode, hidden_eq, if_pos fraction_lt, sign_eq, negative]
      rw [zeros] at parts
      omega
    · rename_i not_zeros
      have field : (f.leastExponent + ((bits / hidden % fields - 1 : Nat) : Int) -
          f.leastExponent).toNat + 1 = bits / hidden % fields := by omega
      rw [encode, hidden_eq, if_neg (by omega), sign_eq, negative, field]
      omega

/-! ## Larger formats -/

/-- A format with all numbers of another one, however small or large these are. -/
structure Extends (g f : BinaryFormat) : Prop where
  precision : f.precision ≤ g.precision
  least : g.leastExponent + (g.precision - 1 : Nat) ≤ f.leastExponent
  greatest : f.greatestExponent ≤ g.greatestExponent

theorem double_extends_single : double.Extends single := ⟨by decide, by decide, by decide⟩

/-- A number of a format is one of the larger format, with a significand of full length there. -/
theorem Extends.exists_fits {g : BinaryFormat} (larger : g.Extends f) (proper : g.Proper)
    {significand : Nat} {exponent : Int} (fits : f.Fits significand exponent) :
    ∃ significand' exponent', g.Fits significand' exponent' ∧
      (significand' : ℚ) * 2 ^ exponent' = significand * 2 ^ exponent := by
  obtain ⟨bits, least, greatest, -⟩ := fits
  obtain ⟨precision, low, high⟩ := larger
  rcases Nat.eq_zero_or_pos significand with rfl | positive
  · exact ⟨0, g.leastExponent, fits_zero proper, by simp⟩
  · have width : significand.log2 ≤ g.precision - 1 := by
      have := (Nat.log2_lt positive.ne').mpr (bits.trans_le (Nat.pow_le_pow_right (by decide)
        precision))
      omega
    generalize shift_eq : g.precision - 1 - significand.log2 = k
    have reached : 2 ^ (g.precision - 1) ≤ significand * 2 ^ k := by
      calc 2 ^ (g.precision - 1) = 2 ^ significand.log2 * 2 ^ k := by
            rw [← Nat.pow_add, ← shift_eq, Nat.add_sub_cancel' width]
        _ ≤ significand * 2 ^ k := Nat.mul_le_mul_right _ (Nat.log2_self_le positive.ne')
    have short : significand * 2 ^ k < 2 ^ g.precision := by
      have := proper.precision
      calc significand * 2 ^ k < 2 ^ (significand.log2 + 1) * 2 ^ k :=
            Nat.mul_lt_mul_of_pos_right Nat.lt_log2_self (Nat.two_pow_pos k)
        _ = 2 ^ g.precision := by
          rw [← Nat.pow_add]
          congr 1
          omega
    refine ⟨significand * 2 ^ k, exponent - k, ⟨short, by omega, by omega, .inl reached⟩, ?_⟩
    push_cast
    rw [zpow_sub₀ two_ne_zero, zpow_natCast]
    field_simp

end BinaryFormat

/-! ## Floats -/

namespace BinaryNumber

theorem holds_ofFloat32 (x : Float32) : BinaryFormat.single.Holds (ofFloat32 x) :=
  BinaryFormat.holds_decode BinaryFormat.proper_single _

theorem holds_ofFloat (x : Float) : BinaryFormat.double.Holds (ofFloat x) :=
  BinaryFormat.holds_decode BinaryFormat.proper_double _

theorem ofFloat_ofBits (bits : UInt64) :
    ofFloat (Float.ofBits bits) = BinaryFormat.double.decode bits.toNat :=
  decode_pack_unpack describes_double (by decide) bits.toBitVec

/-- The 64-bit float nearest to a number is the number that rounding gives. -/
theorem ofFloat_toFloat (x : BinaryNumber) :
    ofFloat x.toFloat = BinaryFormat.double.round x := by
  have holds := BinaryFormat.holds_round BinaryFormat.proper_double x
  have size : 2 * (Nat.pow 2 BinaryFormat.double.exponentBits *
      Nat.pow 2 (BinaryFormat.double.precision - 1)) = 2 ^ 64 := by decide
  have small := BinaryFormat.encode_lt BinaryFormat.proper_double holds
  rw [size] at small
  rw [toFloat, ofFloat_ofBits, UInt64.toNat_ofNat', Nat.mod_eq_of_lt small,
    BinaryFormat.decode_encode BinaryFormat.proper_double holds]

/-- A float that is a number is the float nearest to that number. -/
theorem toFloat32_ofFloat32 {x : Float32} (number : ofFloat32 x ≠ .nan) :
    (ofFloat32 x).toFloat32 = x := by
  have bits : BinaryFormat.single.encode (ofFloat32 x) = x.toBits.toNat :=
    BinaryFormat.encode_decode BinaryFormat.proper_single x.toBits.toNat_lt number
  rw [toFloat32, BinaryFormat.round_of_holds (holds_ofFloat32 x), bits, UInt32.ofNat_toNat,
    Float32.ofBits_toBits]

theorem toFloat_ofFloat {x : Float} (number : ofFloat x ≠ .nan) : (ofFloat x).toFloat = x := by
  have bits : BinaryFormat.double.encode (ofFloat x) = x.toBits.toNat :=
    BinaryFormat.encode_decode BinaryFormat.proper_double x.toBits.toNat_lt number
  rw [toFloat, BinaryFormat.round_of_holds (holds_ofFloat x), bits, UInt64.ofNat_toNat,
    Float.ofBits_toBits]

theorem isFinite_iff_exists {x : BinaryNumber} :
    x.isFinite = true ↔
      ∃ negative significand exponent, x = .finite negative significand exponent := by
  cases x with
  | nan => exact ⟨nofun, nofun⟩
  | infinite negative => exact ⟨nofun, nofun⟩
  | finite negative significand exponent => exact ⟨fun _ => ⟨_, _, _, rfl⟩, fun _ => rfl⟩

end BinaryNumber

/-- The 64-bit float nearest to a 32-bit one. -/
def widen (x : Float32) : Float := (BinaryNumber.ofFloat32 x).toFloat

/-- Both are finite numbers, of one sign and one value. -/
def Widens (x : Float32) (y : Float) : Prop :=
  ∃ negative significand exponent significand' exponent',
    BinaryNumber.ofFloat32 x = .finite negative significand exponent ∧
      BinaryNumber.ofFloat y = .finite negative significand' exponent' ∧
      (significand' : ℚ) * 2 ^ exponent' = significand * 2 ^ exponent

/-- A finite number of 32 bits is one of 64 bits. -/
theorem widens_widen {x : Float32} (finite : x.isFinite = true) : Widens x (widen x) := by
  have holds := BinaryNumber.holds_ofFloat32 x
  have wide := BinaryNumber.ofFloat_toFloat (BinaryNumber.ofFloat32 x)
  rw [← BinaryNumber.isFinite_ofFloat32, BinaryNumber.isFinite_iff_exists] at finite
  obtain ⟨negative, significand, exponent, number⟩ := finite
  rw [number] at holds wide
  cases holds with
  | finite _ fits =>
      obtain ⟨significand', exponent', fits', value⟩ :=
        BinaryFormat.double_extends_single.exists_fits BinaryFormat.proper_double fits
      refine ⟨negative, significand, exponent, significand', exponent', number, ?_, value⟩
      rw [widen, number, wide, BinaryFormat.round_of_fits negative fits' value]

/-- Narrowing gives back what was widened. -/
theorem narrow_of_widens {x : Float32} {y : Float} (widens : Widens x y) : narrow y = x := by
  have holds := BinaryNumber.holds_ofFloat32 x
  obtain ⟨negative, significand, exponent, significand', exponent', number, wide, value⟩ := widens
  have real : BinaryNumber.ofFloat32 x ≠ .nan := by
    rw [number]
    exact nofun
  have back := BinaryNumber.toFloat32_ofFloat32 real
  rw [number] at holds
  cases holds with
  | finite _ fits =>
      have rounded : BinaryFormat.single.round (BinaryNumber.ofFloat y) =
          BinaryNumber.ofFloat32 x := by
        rw [wide, number, BinaryFormat.round_of_fits negative fits value.symm]
      rw [narrow, BinaryNumber.toFloat32, rounded,
        ← BinaryFormat.round_of_holds (BinaryNumber.holds_ofFloat32 x)]
      exact back

end Binaural
