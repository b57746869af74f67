import Binaural.Decimal.Binary
import Mathlib

/-!
Rounding to a format of binary numbers, and what it makes of 64-bit floats in 32 bits.

* `BinaryFormat.decode_encode`: the numbers of a format (`BinaryFormat.Holds`) are told by their
  bits, and bits stand for nothing else (`BinaryFormat.holds_decode`).
* `BinaryFormat.nearest_cases`: what is rounded becomes infinite from `BinaryFormat.limit` on, which
  is half a unit beyond the largest number, and else a finite number of the format.
* `BinaryNumber.ofFloat32_toFloat32`: a number made into a float and read again is the number
  rounded, so `narrow` is rounding (`ofFloat32_narrow`). Floats keep one bit pattern of those that
  are no number, so this is not a matter of bits alone.
* `isFinite_narrow_iff`: a finite float stays finite in 32 bits just below `2^128 - 2^103`.
-/

namespace Binaural

/-! ## Rounding quotients -/

section RoundDiv

variable {num den bound : Nat}

/-- A quotient is rounded down below a half and up above it, and at a half to what is even. -/
theorem roundDiv_cases (num den : Nat) :
    (roundDiv num den = num / den ∧
        (2 * (num % den) < den ∨ 2 * (num % den) = den ∧ num / den % 2 = 0)) ∨
      (roundDiv num den = num / den + 1 ∧
        (den < 2 * (num % den) ∨ 2 * (num % den) = den ∧ num / den % 2 = 1)) := by
  unfold roundDiv
  dsimp only
  split
  · exact .inl ⟨rfl, .inl ‹_›⟩
  · split
    · exact .inr ⟨rfl, .inl ‹_›⟩
    · have half : 2 * (num % den) = den := by omega
      rcases Nat.mod_two_eq_zero_or_one (num / den) with even | odd
      · exact .inl ⟨by rw [even, Nat.add_zero], .inr ⟨half, even⟩⟩
      · exact .inr ⟨by rw [odd], .inr ⟨half, odd⟩⟩

theorem roundDiv_le (below : num < bound * den) : roundDiv num den ≤ bound := by
  have quotient : num / den < bound := Nat.div_lt_of_lt_mul (by rwa [Nat.mul_comm])
  rcases roundDiv_cases num den with ⟨rounded, -⟩ | ⟨rounded, -⟩
  · omega
  · omega

theorem le_roundDiv (positive : 0 < den) (above : bound * den ≤ num) :
    bound ≤ roundDiv num den := by
  have quotient : bound ≤ num / den := (Nat.le_div_iff_mul_le positive).mpr above
  rcases roundDiv_cases num den with ⟨rounded, -⟩ | ⟨rounded, -⟩
  · omega
  · omega

/-- An even number is reached from half a unit below it on. -/
theorem le_roundDiv_iff (positive : 0 < den) (even : bound % 2 = 0) :
    bound ≤ roundDiv num den ↔ (2 * bound - 1) * den ≤ 2 * num := by
  have parts : num / den * den + num % den = num := Nat.div_add_mod' num den
  have rest : num % den < den := Nat.mod_lt num positive
  rw [Nat.sub_mul, Nat.mul_assoc, Nat.one_mul]
  rcases Nat.lt_trichotomy (num / den + 1) bound with less | next | reached
  · -- two units or more below
    have product : (num / den + 2) * den ≤ bound * den := Nat.mul_le_mul_right den less
    rw [Nat.add_mul] at product
    have far : roundDiv num den ≤ num / den + 1 := roundDiv_le (by rw [Nat.add_mul]; omega)
    omega
  · -- in the unit below, whose lower end is odd
    have product : (num / den + 1) * den = bound * den := by rw [next]
    rw [Nat.add_mul, Nat.one_mul] at product
    rcases roundDiv_cases num den with ⟨rounded, low⟩ | ⟨rounded, high⟩
    · omega
    · omega
  · have product : bound * den ≤ num / den * den := Nat.mul_le_mul_right den (by omega)
    have holds := le_roundDiv positive (show bound * den ≤ num by omega)
    omega

end RoundDiv

/-! ## Powers of two -/

/-- The two natural powers that an integer power is the quotient of. -/
theorem zpow_mul_pow_toNat {b : ℚ} (nonzero : b ≠ 0) (e : Int) :
    b ^ e * b ^ (-e).toNat = b ^ e.toNat := by
  cases e with
  | ofNat n =>
      have down : (-Int.ofNat n).toNat = 0 := by simp
      rw [down, pow_zero, mul_one, Int.ofNat_eq_natCast, Int.toNat_natCast, zpow_natCast]
  | negSucc n =>
      have up : (-Int.negSucc n).toNat = n + 1 := rfl
      rw [up, Int.toNat_negSucc, pow_zero, zpow_negSucc, inv_mul_cancel₀ (pow_ne_zero _ nonzero)]

theorem zpow_mul_pow (e : Int) : (2 : ℚ) ^ e * 2 ^ (-e).toNat = 2 ^ e.toNat :=
  zpow_mul_pow_toNat two_ne_zero e

/-- A comparison scaled by a power of two that may be a fraction. -/
theorem mul_pow_le_iff (a b : Nat) (e : Int) :
    b * Nat.pow 2 e.toNat ≤ a * Nat.pow 2 (-e).toNat ↔ (b : ℚ) * 2 ^ e ≤ a := by
  change b * 2 ^ e.toNat ≤ a * 2 ^ (-e).toNat ↔ _
  rw [← Nat.cast_le (α := ℚ)]
  push_cast
  rw [← zpow_mul_pow e, ← mul_assoc, mul_le_mul_iff_of_pos_right (by positivity)]

namespace BinaryFormat

/-- The exponent of the first digit of a positive fraction. -/
theorem floorLog2_spec {num den : Nat} (num_pos : 0 < num) (den_pos : 0 < den) :
    (den : ℚ) * 2 ^ floorLog2 num den ≤ num ∧ (num : ℚ) < den * 2 ^ (floorLog2 num den + 1) := by
  have num_low : (2 : ℚ) ^ num.log2 ≤ num := by exact_mod_cast Nat.log2_self_le num_pos.ne'
  have num_high : (num : ℚ) < 2 ^ (num.log2 + 1) := by exact_mod_cast @Nat.lt_log2_self num
  have den_low : (2 : ℚ) ^ den.log2 ≤ den := by exact_mod_cast Nat.log2_self_le den_pos.ne'
  have den_high : (den : ℚ) < 2 ^ (den.log2 + 1) := by exact_mod_cast @Nat.lt_log2_self den
  unfold floorLog2
  dsimp only
  generalize difference : (num.log2 : Int) - den.log2 = k
  have upper : (num : ℚ) < den * 2 ^ (k + 1) := by
    calc (num : ℚ) < 2 ^ (num.log2 + 1) := num_high
      _ = 2 ^ den.log2 * 2 ^ (k + 1) := by
        rw [← zpow_natCast, ← zpow_natCast, ← zpow_add₀ two_ne_zero]
        congr 1
        push_cast
        omega
      _ ≤ den * 2 ^ (k + 1) := by gcongr
  split
  · rename_i reaches
    exact ⟨(mul_pow_le_iff num den k).mp reaches, upper⟩
  · rename_i short
    refine ⟨?_, by rwa [sub_add_cancel, ← not_le, ← mul_pow_le_iff]⟩
    calc (den : ℚ) * 2 ^ (k - 1) ≤ 2 ^ (den.log2 + 1) * 2 ^ (k - 1) := by gcongr
      _ = 2 ^ num.log2 := by
        rw [← zpow_natCast, ← zpow_natCast, ← zpow_add₀ two_ne_zero]
        congr 1
        push_cast
        omega
      _ ≤ num := num_low

/-! ## Numbers of a format -/

/-- A format with significands and exponent fields of at least two bits. -/
structure Proper (f : BinaryFormat) : Prop where
  precision : 2 ≤ f.precision
  exponentBits : 2 ≤ f.exponentBits

theorem proper_single : single.Proper := ⟨by decide, by decide⟩

theorem proper_double : double.Proper := ⟨by decide, by decide⟩

section Proper

variable {f : BinaryFormat} (proper : f.Proper)
include proper

theorem Proper.pow_precision : Nat.pow 2 f.precision = 2 * Nat.pow 2 (f.precision - 1) := by
  have precision := proper.precision
  exact (mul_pow_sub_one (by omega) 2).symm

theorem Proper.four_le_fields : 4 ≤ Nat.pow 2 f.exponentBits :=
  Nat.pow_le_pow_right (by decide : 0 < 2) proper.exponentBits

theorem least_lt_greatest : f.leastExponent < f.greatestExponent := by
  have precision := proper.precision
  have fields := proper.four_le_fields
  unfold leastExponent greatestExponent
  omega

end Proper

/-- The significands and exponents of finite numbers as they are stored. All but the numbers of
least exponent have a significand of full length. -/
structure Fits (f : BinaryFormat) (significand : Nat) (exponent : Int) : Prop where
  bits : significand < 2 ^ f.precision
  least : f.leastExponent ≤ exponent
  greatest : exponent ≤ f.greatestExponent
  full : 2 ^ (f.precision - 1) ≤ significand ∨ exponent = f.leastExponent

/-- The numbers of a format as they are stored. -/
inductive Holds (f : BinaryFormat) : BinaryNumber → Prop
  | nan : Holds f .nan
  | infinite (negative : Bool) : Holds f (.infinite negative)
  | finite (negative : Bool) {significand : Nat} {exponent : Int}
      (fits : f.Fits significand exponent) : Holds f (.finite negative significand exponent)

/-- What a sign, an exponent field and a fraction stand for. -/
def ofFields (f : BinaryFormat) (negative : Bool) (field fraction : Nat) : BinaryNumber :=
  if field = Nat.pow 2 f.exponentBits - 1 then
    if fraction = 0 then .infinite negative else .nan
  else if field = 0 then .finite negative fraction f.leastExponent
  else .finite negative (Nat.pow 2 (f.precision - 1) + fraction)
    (f.leastExponent + (field - 1 : Nat))

variable {f : BinaryFormat}

/-- The bits of a sign, an exponent field and a fraction. -/
def bitsOf (f : BinaryFormat) (negative : Bool) (field fraction : Nat) : Nat :=
  encode.sign f negative + field * Nat.pow 2 (f.precision - 1) + fraction

theorem decode_bitsOf {negative : Bool} {field fraction : Nat}
    (field_lt : field < Nat.pow 2 f.exponentBits)
    (fraction_lt : fraction < Nat.pow 2 (f.precision - 1)) :
    f.decode (f.bitsOf negative field fraction) = f.ofFields negative field fraction := by
  unfold decode ofFields bitsOf encode.sign
  dsimp only
  generalize Nat.pow 2 (f.precision - 1) = hidden at *
  generalize Nat.pow 2 f.exponentBits = fields at *
  have shape : (if negative = true then fields * hidden else 0) + field * hidden + fraction =
      (negative.toNat * fields + field) * hidden + fraction := by
    cases negative with
    | false => simp
    | true => simp [Nat.add_mul]
  have low : ((negative.toNat * fields + field) * hidden + fraction) % hidden = fraction := by
    rw [Nat.mul_add_mod_self_right, Nat.mod_eq_of_lt fraction_lt]
  have high : ((negative.toNat * fields + field) * hidden + fraction) / hidden =
      negative.toNat * fields + field := by
    rw [Nat.mul_comm, Nat.mul_add_div (by omega), Nat.div_eq_of_lt fraction_lt, Nat.add_zero]
  have middle : (negative.toNat * fields + field) % fields = field := by
    rw [Nat.mul_add_mod_self_right, Nat.mod_eq_of_lt field_lt]
  have top : (negative.toNat * fields + field) / fields = negative.toNat := by
    rw [Nat.mul_comm, Nat.mul_add_div (by omega), Nat.div_eq_of_lt field_lt, Nat.add_zero]
  have sign : (negative.toNat % 2 == 1) = negative := by
    cases negative with
    | false => rfl
    | true => rfl
  rw [shape, low, high, middle, top, sign]

theorem bitsOf_lt {negative : Bool} {field fraction : Nat}
    (field_lt : field < Nat.pow 2 f.exponentBits)
    (fraction_lt : fraction < Nat.pow 2 (f.precision - 1)) :
    f.bitsOf negative field fraction <
      2 * (Nat.pow 2 f.exponentBits * Nat.pow 2 (f.precision - 1)) := by
  have product : (field + 1) * Nat.pow 2 (f.precision - 1) ≤
      Nat.pow 2 f.exponentBits * Nat.pow 2 (f.precision - 1) := Nat.mul_le_mul_right _ field_lt
  rw [Nat.add_mul, Nat.one_mul] at product
  unfold bitsOf encode.sign
  split
  · omega
  · omega

/-- A number of a format has fields, which its bits consist of. -/
theorem exists_fields (proper : f.Proper) {x : BinaryNumber} (holds : f.Holds x) :
    ∃ negative field fraction, field < Nat.pow 2 f.exponentBits ∧
      fraction < Nat.pow 2 (f.precision - 1) ∧ f.encode x = f.bitsOf negative field fraction ∧
      f.ofFields negative field fraction = x := by
  have precision := proper.precision
  have half := proper.pow_precision
  have hidden_pos : 0 < Nat.pow 2 (f.precision - 1) := Nat.two_pow_pos _
  have fields := proper.four_le_fields
  cases holds with
  | nan =>
      have quiet : Nat.pow 2 (f.precision - 2) < Nat.pow 2 (f.precision - 1) :=
        Nat.pow_lt_pow_right (by decide) (by omega)
      have quiet_pos : 0 < Nat.pow 2 (f.precision - 2) := Nat.two_pow_pos _
      refine ⟨false, _, _, Nat.sub_one_lt (by omega), quiet, ?_, ?_⟩
      · rw [encode, bitsOf, encode.sign, encode.infinite]
        simp
      · rw [ofFields, if_pos rfl, if_neg quiet_pos.ne']
  | infinite negative =>
      refine ⟨negative, _, 0, Nat.sub_one_lt (by omega), hidden_pos, ?_, ?_⟩
      · rw [encode, bitsOf, encode.infinite, Nat.add_zero]
      · rw [ofFields, if_pos rfl, if_pos rfl]
  | finite negative fits =>
      rename_i significand exponent
      obtain ⟨bits, least, greatest, full⟩ := fits
      change significand < Nat.pow 2 f.precision at bits
      change Nat.pow 2 (f.precision - 1) ≤ significand ∨ _ at full
      unfold encode
      dsimp only
      split
      · rename_i short
        have exponent_eq : exponent = f.leastExponent := full.resolve_left (by omega)
        refine ⟨negative, 0, significand, by omega, short, ?_, ?_⟩
        · rw [bitsOf, Nat.zero_mul, Nat.add_zero]
        · rw [ofFields, if_neg (by omega), if_pos rfl, exponent_eq]
      · rename_i long
        have field_lt : (exponent - f.leastExponent).toNat + 1 < Nat.pow 2 f.exponentBits - 1 := by
          unfold greatestExponent at greatest
          unfold leastExponent at least ⊢
          omega
        refine ⟨negative, (exponent - f.leastExponent).toNat + 1,
          significand - Nat.pow 2 (f.precision - 1), by omega, by omega, rfl, ?_⟩
        rw [ofFields, if_neg field_lt.ne, if_neg (by omega)]
        congr 1
        · omega
        · omega

theorem decode_encode (proper : f.Proper) {x : BinaryNumber} (holds : f.Holds x) :
    f.decode (f.encode x) = x := by
  obtain ⟨negative, field, fraction, field_lt, fraction_lt, bits, number⟩ :=
    exists_fields proper holds
  rw [bits, decode_bitsOf field_lt fraction_lt, number]

theorem encode_lt (proper : f.Proper) {x : BinaryNumber} (holds : f.Holds x) :
    f.encode x < 2 * (Nat.pow 2 f.exponentBits * Nat.pow 2 (f.precision - 1)) := by
  obtain ⟨negative, field, fraction, field_lt, fraction_lt, bits, -⟩ :=
    exists_fields proper holds
  rw [bits]
  exact bitsOf_lt field_lt fraction_lt

/-- Every bit pattern stands for a number of the format. -/
theorem holds_decode (proper : f.Proper) (bits : Nat) : f.Holds (f.decode bits) := by
  have hidden_pos : 0 < Nat.pow 2 (f.precision - 1) := Nat.two_pow_pos _
  have fields := proper.four_le_fields
  have precision := proper.precision
  have half : 2 ^ f.precision = _ := proper.pow_precision
  have fraction_lt := Nat.mod_lt bits hidden_pos
  unfold decode
  dsimp only
  generalize field_eq : bits / Nat.pow 2 (f.precision - 1) % Nat.pow 2 f.exponentBits = field
  have field_lt : field < Nat.pow 2 f.exponentBits := field_eq ▸ Nat.mod_lt _ (by omega)
  split
  · split
    · exact .infinite _
    · exact .nan
  · rename_i not_ones
    have range : f.leastExponent + (field - 1 : Nat) ≤ f.greatestExponent := by
      unfold leastExponent greatestExponent
      omega
    split
    · refine .finite _ ⟨by omega, le_rfl, by omega, .inr rfl⟩
    · refine .finite _ ⟨by omega, by omega, range, .inl (Nat.le_add_right _ _)⟩

/-! ## The nearest number -/

/-- Where numbers become infinite: half a unit beyond the largest one. -/
def limit (f : BinaryFormat) : ℚ := (2 ^ (f.precision + 1) - 1) * 2 ^ (f.greatestExponent - 1)

theorem limit_single : single.limit = 2 ^ 128 - 2 ^ 103 := by
  have exponent : single.greatestExponent - 1 = (103 : Nat) := by decide
  have precision : single.precision + 1 = 25 := rfl
  rw [limit, exponent, precision, zpow_natCast]
  norm_num

theorem two_mul_limit (f : BinaryFormat) :
    2 * f.limit = (2 ^ (f.precision + 1) - 1) * 2 ^ f.greatestExponent := by
  have half : (2 : ℚ) ^ f.greatestExponent = 2 * 2 ^ (f.greatestExponent - 1) := by
    rw [← zpow_one_add₀ two_ne_zero, add_sub_cancel]
  rw [half, limit]
  ring

theorem one_le_odd (f : BinaryFormat) : (1 : ℚ) ≤ 2 ^ (f.precision + 1) - 1 := by
  have one : (1 : ℚ) ≤ 2 ^ f.precision := one_le_pow₀ one_le_two
  rw [pow_succ]
  linarith

theorem limit_pos (f : BinaryFormat) : 0 < f.limit :=
  mul_pos (zero_lt_one.trans_le f.one_le_odd) (zpow_pos two_pos _)

theorem two_mul_limit_le {e : Int} (high : f.greatestExponent ≤ e) :
    2 * f.limit ≤ (2 ^ (f.precision + 1) - 1) * 2 ^ e := by
  rw [two_mul_limit]
  exact mul_le_mul_of_nonneg_left (zpow_le_zpow_right₀ one_le_two high)
    (zero_le_one.trans f.one_le_odd)

theorem le_two_mul_limit {e : Int} (low : e ≤ f.greatestExponent) :
    (2 ^ (f.precision + 1) - 1) * 2 ^ e ≤ 2 * f.limit := by
  rw [two_mul_limit]
  exact mul_le_mul_of_nonneg_left (zpow_le_zpow_right₀ one_le_two low)
    (zero_le_one.trans f.one_le_odd)

theorem limit_le_two_zpow {e : Int} (high : f.greatestExponent + f.precision ≤ e) :
    f.limit ≤ 2 ^ e := by
  have bound : (2 : ℚ) * f.limit ≤ 2 * 2 ^ e := by
    calc 2 * f.limit = (2 ^ (f.precision + 1) - 1) * 2 ^ f.greatestExponent := f.two_mul_limit
      _ ≤ 2 ^ (f.precision + 1) * 2 ^ f.greatestExponent := by
        gcongr
        exact sub_le_self _ zero_le_one
      _ = 2 * 2 ^ (f.greatestExponent + f.precision) := by
        rw [zpow_add₀ two_ne_zero, zpow_natCast, pow_succ]
        ring
      _ ≤ 2 * 2 ^ e := by
        gcongr ?_ * ?_
        exact zpow_le_zpow_right₀ one_le_two high
  linarith

theorem two_zpow_le_limit {e : Int} (low : e < f.greatestExponent) :
    (2 : ℚ) ^ (e + f.precision) ≤ f.limit := by
  have bits : (2 : ℚ) ^ f.precision ≤ 2 ^ (f.precision + 1) - 1 := by
    have one : (1 : ℚ) ≤ 2 ^ f.precision := one_le_pow₀ one_le_two
    rw [pow_succ]
    linarith
  calc (2 : ℚ) ^ (e + f.precision) = 2 ^ f.precision * 2 ^ e := by
        rw [zpow_add₀ two_ne_zero, zpow_natCast, mul_comm]
    _ ≤ (2 ^ (f.precision + 1) - 1) * 2 ^ (f.greatestExponent - 1) :=
        mul_le_mul bits (zpow_le_zpow_right₀ one_le_two (by omega)) (by positivity)
          (zero_le_one.trans f.one_le_odd)

theorem limit_single_le_limit_double : single.limit ≤ double.limit := by
  calc single.limit ≤ 2 ^ (128 : Int) := limit_le_two_zpow (by decide)
    _ = 2 ^ ((75 : Int) + double.precision) := rfl
    _ ≤ double.limit := two_zpow_le_limit (by decide)

theorem fits_zero (proper : f.Proper) : f.Fits 0 f.leastExponent :=
  ⟨Nat.two_pow_pos _, le_rfl, (least_lt_greatest proper).le, .inr rfl⟩

/-- The exponent at which a fraction is rounded. -/
def roundingExponent (f : BinaryFormat) (num den : Nat) : Int :=
  max f.leastExponent (floorLog2 num den - (f.precision - 1 : Nat))

/-- The significand to which a fraction is rounded. It can have one bit too many. -/
def roundedSignificand (f : BinaryFormat) (num den : Nat) : Nat :=
  roundDiv (num * Nat.pow 2 (-f.roundingExponent num den).toNat)
    (den * Nat.pow 2 (f.roundingExponent num den).toNat)

theorem nearest_eq {num den : Nat} (negative : Bool) (num_pos : 0 < num) :
    f.nearest negative num den =
      if f.roundedSignificand num den = 2 ^ f.precision then
        if f.greatestExponent < f.roundingExponent num den + 1 then .infinite negative
        else .finite negative (2 ^ f.precision / 2) (f.roundingExponent num den + 1)
      else if f.greatestExponent < f.roundingExponent num den then .infinite negative
      else .finite negative (f.roundedSignificand num den) (f.roundingExponent num den) := by
  have parts (p : Nat × Int) (same : (if f.roundedSignificand num den = 2 ^ f.precision then
      (2 ^ f.precision / 2, f.roundingExponent num den + 1)
      else (f.roundedSignificand num den, f.roundingExponent num den)) = p) :
      f.nearest negative num den =
        if f.greatestExponent < p.2 then .infinite negative else .finite negative p.1 p.2 := by
    unfold nearest
    rw [if_neg num_pos.ne', ← same]
    rfl
  by_cases carried : f.roundedSignificand num den = 2 ^ f.precision
  · rw [if_pos carried, parts _ (if_pos carried)]
  · rw [if_neg carried, parts _ (if_neg carried)]

section Rounding

variable {num den : Nat} (num_pos : 0 < num) (den_pos : 0 < den)
include num_pos den_pos

/-- What is rounded is below the power of two that has one bit more than significands have. -/
theorem num_lt_mul_two_zpow (proper : f.Proper) :
    (num : ℚ) < den * 2 ^ (f.roundingExponent num den + f.precision) := by
  have beyond := (floorLog2_spec num_pos den_pos).2
  have exponents : floorLog2 num den + 1 ≤ f.roundingExponent num den + f.precision := by
    have := proper.precision
    unfold roundingExponent
    omega
  calc (num : ℚ) < den * 2 ^ (floorLog2 num den + 1) := beyond
    _ ≤ den * 2 ^ (f.roundingExponent num den + f.precision) := by
      gcongr ?_ * ?_
      exact zpow_le_zpow_right₀ one_le_two exponents

theorem roundedSignificand_le (proper : f.Proper) :
    f.roundedSignificand num den ≤ 2 ^ f.precision := by
  refine roundDiv_le (Nat.lt_of_not_le fun reached => ?_)
  rw [← Nat.mul_assoc, mul_pow_le_iff] at reached
  push_cast at reached
  have beyond := num_lt_mul_two_zpow num_pos den_pos proper
  rw [add_comm, zpow_add₀ two_ne_zero, zpow_natCast] at beyond
  linarith

/-- Above the least exponent it is not below the power of two of as many bits as significands
have. -/
theorem mul_two_zpow_le_num (above : f.roundingExponent num den ≠ f.leastExponent) :
    den * 2 ^ (f.roundingExponent num den + (f.precision - 1 : Nat)) ≤ (num : ℚ) := by
  have exponent : f.roundingExponent num den + (f.precision - 1 : Nat) = floorLog2 num den := by
    unfold roundingExponent at above ⊢
    omega
  rw [exponent]
  exact (floorLog2_spec num_pos den_pos).1

theorem le_roundedSignificand (above : f.roundingExponent num den ≠ f.leastExponent) :
    2 ^ (f.precision - 1) ≤ f.roundedSignificand num den := by
  refine le_roundDiv (Nat.mul_pos den_pos (Nat.two_pow_pos _)) ?_
  rw [← Nat.mul_assoc, mul_pow_le_iff]
  have reached := mul_two_zpow_le_num num_pos den_pos above
  rw [zpow_add₀ two_ne_zero, zpow_natCast] at reached
  push_cast
  linarith

/-- Significands get one bit too many from half a unit on. -/
theorem carries_iff (proper : f.Proper) :
    f.roundedSignificand num den = 2 ^ f.precision ↔
      den * ((2 ^ (f.precision + 1) - 1) * 2 ^ f.roundingExponent num den) ≤ 2 * (num : ℚ) := by
  have even : 2 ^ f.precision % 2 = 0 := by
    have half : 2 ^ f.precision = _ := proper.pow_precision
    omega
  have scaled_pos : 0 < den * Nat.pow 2 (f.roundingExponent num den).toNat :=
    Nat.mul_pos den_pos (Nat.two_pow_pos _)
  have reaches := @le_roundDiv_iff (num * Nat.pow 2 (-f.roundingExponent num den).toNat) _ _
    scaled_pos even
  rw [← Nat.mul_assoc, ← Nat.mul_assoc, mul_pow_le_iff] at reaches
  have odd : (2 * 2 ^ f.precision - 1 : Nat) = ((2 : ℚ) ^ (f.precision + 1) - 1) := by
    rw [Nat.cast_sub (by have := Nat.two_pow_pos f.precision; omega), pow_succ']
    push_cast
    ring
  rw [Nat.cast_mul, odd] at reaches
  rw [← (roundedSignificand_le num_pos den_pos proper).ge_iff_eq, roundedSignificand, reaches]
  push_cast
  rw [mul_comm _ (den : ℚ), mul_assoc]

/-- What is rounded to the nearest number becomes infinite from the limit on, and else a number of
the format. -/
theorem nearest_cases (proper : f.Proper) (negative : Bool) :
    (den * f.limit ≤ num ∧ f.nearest negative num den = .infinite negative) ∨
      ((num : ℚ) < den * f.limit ∧ ∃ significand exponent, f.Fits significand exponent ∧
        f.nearest negative num den = .finite negative significand exponent) := by
  have beyond := num_lt_mul_two_zpow num_pos den_pos proper
  have reached := @mul_two_zpow_le_num f _ _ num_pos den_pos
  have bits := roundedSignificand_le num_pos den_pos proper
  have full := @le_roundedSignificand f _ _ num_pos den_pos
  have carries := carries_iff num_pos den_pos proper
  have least : f.leastExponent ≤ f.roundingExponent num den := le_max_left _ _
  have least_lt := least_lt_greatest proper
  have half : 2 ^ f.precision = 2 * 2 ^ (f.precision - 1) := proper.pow_precision
  have scaled {a b : ℚ} (le : a ≤ b) : (den : ℚ) * a ≤ den * b :=
    mul_le_mul_of_nonneg_left le (Nat.cast_nonneg den)
  rw [nearest_eq negative num_pos]
  generalize f.roundingExponent num den = e at *
  generalize f.roundedSignificand num den = s at *
  by_cases carried : s = 2 ^ f.precision
  · -- rounded up to the next power of two, which has the exponent above
    rw [if_pos carried]
    by_cases high : f.greatestExponent < e + 1
    · have large : den * f.limit ≤ num := by
        have bound := scaled (two_mul_limit_le (Int.lt_add_one_iff.mp high))
        have reaches := carries.mp carried
        linarith
      rw [if_pos high]
      exact .inl ⟨large, rfl⟩
    · have small : (num : ℚ) < den * f.limit :=
        beyond.trans_le (scaled (two_zpow_le_limit (by omega)))
      have positive := Nat.two_pow_pos f.precision
      rw [if_neg high]
      exact .inr ⟨small, _, _, ⟨by omega, by omega, by omega, .inl (by omega)⟩, rfl⟩
  · rw [if_neg carried]
    by_cases high : f.greatestExponent < e
    · -- so large that rounding does not matter
      have precision := proper.precision
      have large : den * f.limit ≤ num :=
        (scaled (limit_le_two_zpow (by omega))).trans (reached (by omega))
      rw [if_pos high]
      exact .inl ⟨large, rfl⟩
    · have small : (num : ℚ) < den * f.limit := by
        have bound := scaled (le_two_mul_limit (not_lt.mp high))
        have short := not_le.mp (mt carries.mpr carried)
        linarith
      have full_or_least : 2 ^ (f.precision - 1) ≤ s ∨ e = f.leastExponent := by
        by_cases lowest : e = f.leastExponent
        · exact .inr lowest
        · exact .inl (full lowest)
      rw [if_neg high]
      exact .inr ⟨small, _, _, ⟨by omega, least, by omega, full_or_least⟩, rfl⟩

end Rounding

end BinaryFormat

/-! ## Rounding to a format -/

namespace BinaryNumber

/-- Whether this is a number at all, and not an infinite one. -/
def isFinite : BinaryNumber → Bool
  | .finite .. => true
  | _ => false

/-- How far a finite number is from 0. -/
def magnitude : BinaryNumber → ℚ
  | .finite _ significand exponent => significand * 2 ^ exponent
  | _ => 0

end BinaryNumber

namespace BinaryFormat

open BinaryNumber

variable {f : BinaryFormat}

/-- A finite number is rounded to an infinite one from the limit on, and else to a finite one. -/
theorem round_cases (proper : f.Proper) (negative : Bool) (significand : Nat) (exponent : Int) :
    (f.limit ≤ (BinaryNumber.finite negative significand exponent).magnitude ∧
        f.round (.finite negative significand exponent) = .infinite negative) ∨
      ((BinaryNumber.finite negative significand exponent).magnitude < f.limit ∧
        ∃ significand' exponent', f.Fits significand' exponent' ∧
          f.round (.finite negative significand exponent) =
            .finite negative significand' exponent') := by
  rw [round, magnitude]
  by_cases zero : significand = 0
  · subst zero
    refine .inr ⟨?_, 0, f.leastExponent, fits_zero proper, ?_⟩
    · rw [Nat.cast_zero, zero_mul]
      exact f.limit_pos
    · rw [nearest, if_pos (Nat.zero_mul _)]
  · have positive : 0 < significand := Nat.pos_of_ne_zero zero
    have fraction : ((significand * 2 ^ exponent.toNat : Nat) : ℚ) =
        (2 ^ (-exponent).toNat : Nat) * (significand * 2 ^ exponent) := by
      push_cast
      rw [← zpow_mul_pow exponent]
      ring
    have den_pos : (0 : ℚ) < (2 ^ (-exponent).toNat : Nat) := by positivity
    have cases := nearest_cases (Nat.mul_pos positive (Nat.two_pow_pos exponent.toNat))
      (Nat.two_pow_pos (-exponent).toNat) proper negative
    rw [fraction, mul_le_mul_iff_of_pos_left den_pos, mul_lt_mul_iff_of_pos_left den_pos] at cases
    exact cases

/-- The finite numbers of a format are below the limit. -/
theorem Holds.magnitude_lt {x : BinaryNumber} (holds : f.Holds x) : x.magnitude < f.limit := by
  cases holds with
  | nan => exact f.limit_pos
  | infinite negative => exact f.limit_pos
  | finite negative fits =>
      rename_i significand exponent
      have bits : (significand : ℚ) + 1 ≤ 2 ^ f.precision := by exact_mod_cast fits.bits
      have power_pos : (0 : ℚ) < 2 ^ exponent := zpow_pos two_pos _
      have double : 2 * ((significand : ℚ) * 2 ^ exponent) < 2 * f.limit := by
        calc 2 * ((significand : ℚ) * 2 ^ exponent) = 2 * significand * 2 ^ exponent := by ring
          _ < (2 ^ (f.precision + 1) - 1) * 2 ^ exponent := by
            refine mul_lt_mul_of_pos_right ?_ power_pos
            rw [pow_succ]
            linarith
          _ ≤ 2 * f.limit := le_two_mul_limit fits.greatest
      rw [magnitude]
      linarith

/-- Whatever is rounded to a format is a number of it. -/
theorem holds_round (proper : f.Proper) (x : BinaryNumber) : f.Holds (f.round x) := by
  cases x with
  | nan => exact .nan
  | infinite negative => exact .infinite negative
  | finite negative significand exponent =>
      rcases round_cases proper negative significand exponent with
        ⟨-, rounded⟩ | ⟨-, _, _, fits, rounded⟩
      · rw [rounded]
        exact .infinite negative
      · rw [rounded]
        exact .finite negative fits

theorem isFinite_round_iff (proper : f.Proper) (x : BinaryNumber) :
    (f.round x).isFinite = true ↔ x.isFinite = true ∧ x.magnitude < f.limit := by
  cases x with
  | nan => exact ⟨nofun, nofun⟩
  | infinite negative => exact ⟨nofun, nofun⟩
  | finite negative significand exponent =>
      rcases round_cases proper negative significand exponent with
        ⟨large, rounded⟩ | ⟨small, _, _, -, rounded⟩
      · rw [rounded]
        exact ⟨nofun, fun within => absurd within.2 large.not_gt⟩
      · rw [rounded]
        exact ⟨fun _ => ⟨rfl, small⟩, fun _ => rfl⟩

/-- Nothing but what is no number is rounded to what is none. -/
theorem round_eq_nan_iff (proper : f.Proper) (x : BinaryNumber) : f.round x = .nan ↔ x = .nan := by
  cases x with
  | nan => exact ⟨fun _ => rfl, fun _ => rfl⟩
  | infinite negative => exact ⟨nofun, nofun⟩
  | finite negative significand exponent =>
      rcases round_cases proper negative significand exponent with
        ⟨-, rounded⟩ | ⟨-, _, _, -, rounded⟩
      · rw [rounded]
        exact ⟨nofun, nofun⟩
      · rw [rounded]
        exact ⟨nofun, nofun⟩

end BinaryFormat

/-! ## The numbers that floats are -/

open Float.Model Float.Model.UnpackedFloat

section Bits

variable {spec : Format} (b : BitVec spec.numBits)

theorem toNat_unpackExponent :
    (unpackExponent b).toNat =
      b.toNat / 2 ^ spec.mantissaBitsWithoutImplicit % 2 ^ spec.exponentBits := by
  rw [unpackExponent_def, BitVec.extractLsb'_toNat, Nat.shiftRight_eq_div_pow]

theorem toNat_unpackMantissa :
    (unpackMantissa b).toNat = b.toNat % 2 ^ spec.mantissaBitsWithoutImplicit := by
  rw [unpackMantissa_def, BitVec.extractLsb'_toNat, Nat.shiftRight_zero]

theorem ones_iff {w : Nat} (v : BitVec w) : v = -1#w ↔ v.toNat = 2 ^ w - 1 := by
  rw [BitVec.neg_one_eq_allOnes, ← BitVec.toNat_inj, BitVec.toNat_allOnes]

theorem zeros_iff {w : Nat} (v : BitVec w) : v = 0#w ↔ v.toNat = 0 := by
  rw [← BitVec.toNat_inj, BitVec.toNat_ofNat, Nat.zero_mod]

end Bits

/-- A format and the one of the bit patterns of floats are the same. -/
structure Describes (f : BinaryFormat) (spec : Format) : Prop where
  precision : f.precision - 1 = spec.mantissaBitsWithoutImplicit
  exponentBits : f.exponentBits = spec.exponentBits

/-- Whether a number and an unpacked float are of one kind. -/
inductive Alike : BinaryNumber → UnpackedFloat → Prop
  | nan : Alike .nan .notANumber
  | infinite (negative : Bool) (sign : Sign) : Alike (.infinite negative) (.infinity sign)
  | zero (negative : Bool) (significand : Nat) (exponent : Int) (sign : Sign) :
    Alike (.finite negative significand exponent) (.zero sign)
  | finite (negative : Bool) (significand : Nat) (exponent : Int) {sign : Sign} {m : Nat} {e : Int}
    {positive : 0 < m} :
    Alike (.finite negative significand exponent) (.finite sign m e positive)

theorem Alike.isFinite_eq {x : BinaryNumber} {u : UnpackedFloat} (alike : Alike x u) :
    x.isFinite = u.isFinite := by
  cases alike with
  | nan => rfl
  | infinite => rfl
  | zero => rfl
  | finite => rfl

theorem Alike.eq_nan_iff {x : BinaryNumber} {u : UnpackedFloat} (alike : Alike x u) :
    x = .nan ↔ u = .notANumber := by
  cases alike with
  | nan => exact ⟨fun _ => rfl, fun _ => rfl⟩
  | infinite => exact ⟨nofun, nofun⟩
  | zero => exact ⟨nofun, nofun⟩
  | finite => exact ⟨nofun, nofun⟩

theorem alike_decode {f : BinaryFormat} {spec : Format} (same : Describes f spec)
    (b : BitVec spec.numBits) : Alike (f.decode b.toNat) (UnpackedFloat.unpack spec b) := by
  have field : b.toNat / Nat.pow 2 (f.precision - 1) % Nat.pow 2 f.exponentBits =
      (unpackExponent b).toNat := by
    rw [toNat_unpackExponent, same.precision, same.exponentBits]
    rfl
  have fraction : b.toNat % Nat.pow 2 (f.precision - 1) = (unpackMantissa b).toNat := by
    rw [toNat_unpackMantissa, same.precision]
    rfl
  have ones : Nat.pow 2 f.exponentBits - 1 = 2 ^ spec.exponentBits - 1 := by
    rw [same.exponentBits]
    rfl
  unfold BinaryFormat.decode UnpackedFloat.unpack
  dsimp only
  rw [field, fraction, ones]
  by_cases top : unpackExponent b = -1#_
  · rw [if_pos top, if_pos ((ones_iff _).mp top)]
    by_cases none : unpackMantissa b = 0#_
    · rw [if_pos none, if_pos ((zeros_iff _).mp none)]
      exact .infinite _ _
    · rw [if_neg none, if_neg (mt (zeros_iff _).mpr none)]
      exact .nan
  · rw [if_neg top, if_neg (mt (ones_iff _).mpr top)]
    by_cases bottom : unpackExponent b = 0#_
    · rw [if_pos bottom, if_pos ((zeros_iff _).mp bottom)]
      by_cases none : unpackMantissa b = 0#_
      · rw [dif_pos none]
        exact .zero _ _ _ _
      · rw [dif_neg none]
        exact .finite _ _ _
    · rw [if_neg bottom, if_neg (mt (zeros_iff _).mpr bottom)]
      exact .finite _ _ _

/-- Unpacking bits and packing them again leaves the number that they stand for. -/
theorem decode_pack_unpack {f : BinaryFormat} {spec : Format} (same : Describes f spec)
    (wide : 2 ≤ spec.exponentBits) (b : BitVec spec.numBits) :
    f.decode (UnpackedFloat.pack spec (UnpackedFloat.unpack spec b)).toNat = f.decode b.toNat := by
  rw [pack_unpack b wide]
  split
  · rename_i noNumber
    have unpacked : UnpackedFloat.unpack spec b = .notANumber := by
      have fields : @unpackExponent spec b = -1#_ ∧ @unpackMantissa spec b ≠ 0#_ :=
        of_decide_eq_true noNumber
      unfold UnpackedFloat.unpack
      dsimp only
      rw [if_pos fields.1, if_neg fields.2]
    have left := (alike_decode same (packedNaN spec)).eq_nan_iff.mpr unpack_packedNaN
    have right := (alike_decode same b).eq_nan_iff.mpr unpacked
    exact left.trans right.symm
  · rfl

theorem describes_single : Describes .single Format.binary32 := ⟨rfl, rfl⟩

theorem describes_double : Describes .double Format.binary64 := ⟨rfl, rfl⟩

namespace BinaryNumber

theorem isFinite_ofFloat (x : Float) : (ofFloat x).isFinite = x.isFinite :=
  (alike_decode describes_double x.toBits.toBitVec).isFinite_eq

theorem isFinite_ofFloat32 (x : Float32) : (ofFloat32 x).isFinite = x.isFinite :=
  (alike_decode describes_single x.toBits.toBitVec).isFinite_eq

theorem ofFloat32_eq_nan_iff (x : Float32) : ofFloat32 x = .nan ↔ x.isNaN = true :=
  (alike_decode describes_single x.toBits.toBitVec).eq_nan_iff.trans isNaN_iff.symm

/-- Bits are read as they are, but for those that are no number, of which one pattern is left. -/
theorem ofFloat32_ofBits (bits : UInt32) :
    ofFloat32 (Float32.ofBits bits) = BinaryFormat.single.decode bits.toNat :=
  decode_pack_unpack describes_single (by decide) bits.toBitVec

/-- The 32-bit float nearest to a number is the number that rounding gives. -/
theorem ofFloat32_toFloat32 (x : BinaryNumber) :
    ofFloat32 x.toFloat32 = BinaryFormat.single.round x := by
  have holds := BinaryFormat.holds_round BinaryFormat.proper_single x
  have size : 2 * (Nat.pow 2 BinaryFormat.single.exponentBits *
      Nat.pow 2 (BinaryFormat.single.precision - 1)) = 2 ^ 32 := by decide
  have small := BinaryFormat.encode_lt BinaryFormat.proper_single holds
  rw [size] at small
  rw [toFloat32, ofFloat32_ofBits, UInt32.toNat_ofNat', Nat.mod_eq_of_lt small,
    BinaryFormat.decode_encode BinaryFormat.proper_single holds]

end BinaryNumber

/-! ## Narrowing -/

variable (x : Float)

theorem ofFloat32_narrow :
    BinaryNumber.ofFloat32 (narrow x) = BinaryFormat.single.round (BinaryNumber.ofFloat x) :=
  BinaryNumber.ofFloat32_toFloat32 _

/-- A float stays finite in 32 bits just when it is finite and below the limit of these. -/
theorem isFinite_narrow_iff :
    (narrow x).isFinite = true ↔
      x.isFinite = true ∧ (BinaryNumber.ofFloat x).magnitude < 2 ^ 128 - 2 ^ 103 := by
  rw [← BinaryNumber.isFinite_ofFloat32, ofFloat32_narrow,
    BinaryFormat.isFinite_round_iff BinaryFormat.proper_single, BinaryNumber.isFinite_ofFloat,
    BinaryFormat.limit_single]

/-- Narrowing keeps numbers numbers. -/
theorem isNaN_narrow_of_finite (finite : x.isFinite = true) : (narrow x).isNaN = false := by
  rw [← Bool.not_eq_true, ← BinaryNumber.ofFloat32_eq_nan_iff, ofFloat32_narrow,
    BinaryFormat.round_eq_nan_iff BinaryFormat.proper_single]
  intro noNumber
  rw [← BinaryNumber.isFinite_ofFloat, noNumber] at finite
  cases finite

end Binaural
