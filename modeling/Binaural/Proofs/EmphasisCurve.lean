import Binaural.Proofs.Designs
import Binaural.Proofs.Exact

/-!
The curve of the emphasis: alike on both sides, and deeper toward the back.

All is said of equally spaced azimuths, of which the first is in front, in exact arithmetic. The
distance from the back is `|count - 2 * index| / count`, so an index and its mirror image have one
distance (`Emphasis.backRelative_mirror`), what is darkened is a range around the back
(`Emphasis.Curve.darkened_iff_range`), and the attenuation that is asked of the design
(`Emphasis.AsksFor`) falls with the distance (`Emphasis.Curve.attenuation_le`). It need not stay
positive up to the threshold, so nothing is said of whether the design succeeds.
-/

namespace Binaural

open Exact

namespace Emphasis

/-! ## Settings as real numbers -/

/-- The numbers of a curve that meets all demands. -/
structure Curve (c : EmphasisConfig Exact) (threshold offset depth : ℝ) : Prop where
  frontThreshold : c.frontThreshold = real threshold
  stopbandOffset : c.stopbandOffset = real offset
  maxStopband : c.maxStopband = real depth
  threshold_pos : 0 < threshold
  threshold_le : threshold ≤ 1
  depth_nonpos : depth ≤ 0

theorem exists_curve {c : EmphasisConfig Exact} (meets : c.Meets) :
    ∃ threshold offset depth, Curve c threshold offset depth := by
  have positive := meets.frontThreshold_pos
  have small := meets.frontThreshold_le
  have offset_neg := meets.stopbandOffset_neg
  have depth_nonpos := meets.maxStopband_nonpos
  rw [real_zero] at positive offset_neg depth_nonpos
  rw [real_one] at small
  rcases exists_real_le small with ⟨threshold, threshold_eq, below⟩
  rcases exists_real_lt offset_neg with ⟨offset, offset_eq, -⟩
  rcases exists_real_le depth_nonpos with ⟨depth, depth_eq, nonpos⟩
  rw [threshold_eq, real_lt] at positive
  exact ⟨threshold, offset, depth, threshold_eq, offset_eq, depth_eq, positive, below, nonpos⟩

/-! ## What is darkened -/

section Darkened

variable {α : Type} [Scalar α] {c : EmphasisConfig α} {index count : ℕ}

/-- An azimuth that is not left alone. -/
def Darkened (c : EmphasisConfig α) (index count : ℕ) : Prop :=
  treatment (backRelative index count) c ≠ .ok .unchanged

/-- At an azimuth that is not left alone, a lowpass with this gain of the stopband is what is asked
for. The attenuation in the call of the design is the negative of the gain. -/
structure AsksFor (c : EmphasisConfig α) (index count : ℕ) (gain : α) : Prop where
  darkened : Darkened c index count
  designed : treatment (backRelative index count) c =
    (Butterworth.designLowpass c.passband c.stopband c.passbandLoss (-gain)).map (.lowpass gain)

theorem darkened_iff : Darkened c index count ↔ ¬ c.frontThreshold ≤ backRelative index count := by
  refine not_congr ⟨fun unchanged => ?_, treatment_of_front⟩
  by_contra behind
  rw [treatment, if_neg behind] at unchanged
  dsimp only at unchanged
  cases designed : Butterworth.designLowpass c.passband c.stopband c.passbandLoss
      (-stopbandGain (backRelative index count) c) with
  | error e =>
      rw [designed] at unchanged
      cases unchanged
  | ok d =>
      rw [designed] at unchanged
      cases unchanged

theorem Darkened.asksFor (darkened : Darkened c index count) :
    AsksFor c index count (stopbandGain (backRelative index count) c) := by
  have behind := darkened_iff.mp darkened
  exact ⟨darkened, by rw [treatment, if_neg behind]⟩

end Darkened

/-! ## Distances -/

/-- The distance of an azimuth from the back. -/
noncomputable def distance (index count : ℕ) : ℝ := |(count : ℝ) - (2 * index : ℕ)| / count

section Distance

variable {index other count : ℕ}

theorem distance_eq (index count : ℕ) :
    distance index count = |(count : ℝ) - 2 * index| / count := by
  rw [distance, Nat.cast_mul, Nat.cast_ofNat]

theorem distance_nonneg (index count : ℕ) : 0 ≤ distance index count :=
  div_nonneg (abs_nonneg _) (Nat.cast_nonneg count)

theorem distance_le_one (inside : index ≤ count) : distance index count ≤ 1 := by
  have bound : (index : ℝ) ≤ count := Nat.cast_le.mpr inside
  have start : (0 : ℝ) ≤ index := Nat.cast_nonneg index
  rw [distance_eq]
  refine div_le_one_of_le₀ (abs_le.mpr ⟨?_, ?_⟩) (Nat.cast_nonneg count)
  · linarith
  · linarith

theorem distance_front (positive : 0 < count) : distance 0 count = 1 := by
  have nonzero : (count : ℝ) ≠ 0 := Nat.cast_ne_zero.mpr positive.ne'
  rw [distance_eq, Nat.cast_zero, mul_zero, sub_zero, Nat.abs_cast, div_self nonzero]

theorem distance_back (opposite : 2 * index = count) : distance index count = 0 := by
  have equal : (count : ℝ) = 2 * index := by exact_mod_cast opposite.symm
  rw [distance_eq, equal, sub_self, abs_zero, zero_div]

theorem distance_mirror (inside : index ≤ count) :
    distance (count - index) count = distance index count := by
  have turned : (count : ℝ) - 2 * (count - index : ℕ) = -(count - 2 * index) := by
    rw [Nat.cast_sub inside]
    ring
  rw [distance_eq, turned, abs_neg, distance_eq]

theorem distance_le (closer : |(count : ℤ) - 2 * index| ≤ |(count : ℤ) - 2 * other|) :
    distance index count ≤ distance other count := by
  have real_closer := Int.cast_le (R := ℝ).mpr closer
  push_cast at real_closer
  rw [distance_eq, distance_eq]
  exact div_le_div_of_nonneg_right real_closer (Nat.cast_nonneg count)

theorem real_half : (0.5 : Exact) = real (1 / 2) := by
  change real (0.5 : ℝ) = _
  norm_num

theorem backRelative_exact (positive : 0 < count) :
    (backRelative index count : Exact) = real (distance index count) := by
  have above : (0 : ℝ) < count := Nat.cast_pos.mpr positive
  have scaled : (2 : ℝ) * |(1 / 2 - index / count : ℝ)| = distance index count := by
    have inside : (1 / 2 - index / count : ℝ) = (count - 2 * index) / (2 * count) := by
      field_simp
    rw [inside, abs_div, abs_of_pos (by positivity : (0 : ℝ) < 2 * count), distance_eq]
    field_simp
  rw [backRelative, real_ofNat, real_ofNat, real_div above.ne', real_half, real_sub, real_abs,
    real_two, real_mul, scaled]

theorem backRelative_mirror (positive : 0 < count) (inside : index ≤ count) :
    (backRelative (count - index) count : Exact) = backRelative index count := by
  rw [backRelative_exact positive, backRelative_exact positive, distance_mirror inside]

end Distance

/-! ## The curve -/

namespace Curve

variable {c : EmphasisConfig Exact} {threshold offset depth : ℝ}
  (curve : Curve c threshold offset depth) {index other count : ℕ}
include curve

theorem darkened_iff (positive : 0 < count) :
    Darkened c index count ↔ distance index count < threshold := by
  rw [Emphasis.darkened_iff, curve.frontThreshold, backRelative_exact positive, real_le, not_le]

theorem darkened_back (opposite : 2 * index = count) (positive : 0 < count) :
    Darkened c index count := by
  rw [curve.darkened_iff positive, distance_back opposite]
  exact curve.threshold_pos

theorem darkened_of_closer (positive : 0 < count)
    (closer : distance index count ≤ distance other count) (darkened : Darkened c other count) :
    Darkened c index count := by
  rw [curve.darkened_iff positive] at darkened ⊢
  exact closer.trans_lt darkened

/-- What is darkened begins at an index and ends at its mirror image. -/
theorem darkened_iff_range (positive : 0 < count) (inside : index < count) :
    Darkened c index count ↔
      ⌊count * (1 - threshold) / 2⌋₊ + 1 ≤ index ∧
        index + (⌊count * (1 - threshold) / 2⌋₊ + 1) ≤ count := by
  have above : (0 : ℝ) < count := Nat.cast_pos.mpr positive
  have margin_nonneg : 0 ≤ count * (1 - threshold) / 2 := by
    have := mul_nonneg above.le (sub_nonneg.mpr curve.threshold_le)
    positivity
  have from_front : ⌊count * (1 - threshold) / 2⌋₊ + 1 ≤ index ↔
      count * (1 - threshold) / 2 < index := Nat.floor_lt margin_nonneg
  have to_front : index + (⌊count * (1 - threshold) / 2⌋₊ + 1) ≤ count ↔
      count * (1 - threshold) / 2 < count - index := by
    rw [← Nat.cast_sub inside.le, ← Nat.floor_lt margin_nonneg]
    omega
  rw [curve.darkened_iff positive, distance_eq, div_lt_iff₀ above, abs_lt, from_front, to_front]
  constructor
  · intro near
    constructor
    · linarith [near.2]
    · linarith [near.1]
  · intro near
    constructor
    · linarith [near.2]
    · linarith [near.1]

theorem gain_exact (positive : 0 < count) :
    stopbandGain (backRelative index count) c =
      real (offset + (1 - 2 * distance index count) * depth) := by
  have half : (1 / 2 : ℝ) ≠ 0 := by norm_num
  have scale : distance index count / (1 / 2) = 2 * distance index count := by ring
  rw [stopbandGain, backRelative_exact positive, curve.stopbandOffset, curve.maxStopband,
    real_half, real_div half, scale, real_one, real_sub, real_mul, real_add]

/-- The attenuation falls with the distance from the back. -/
theorem attenuation_le (positive : 0 < count)
    (closer : distance index count ≤ distance other count) :
    -stopbandGain (backRelative other count) c ≤ -stopbandGain (backRelative index count) c := by
  rw [curve.gain_exact positive, curve.gain_exact positive, real_neg, real_neg, real_le]
  have := mul_le_mul_of_nonpos_right closer curve.depth_nonpos
  linarith

theorem gains_exact : c.stopbandOffset + c.maxStopband = real (offset + depth) := by
  rw [curve.stopbandOffset, curve.maxStopband, real_add]

theorem gain_back (opposite : 2 * index = count) (positive : 0 < count) :
    stopbandGain (backRelative index count) c = c.stopbandOffset + c.maxStopband := by
  rw [curve.gain_exact positive, curve.gains_exact, distance_back opposite, mul_zero, sub_zero,
    one_mul]

/-- Whether an azimuth lies at the back or not, no other asks for more. -/
theorem attenuation_le_back (positive : 0 < count) :
    -stopbandGain (backRelative index count) c ≤ -(c.stopbandOffset + c.maxStopband) := by
  rw [curve.gain_exact positive, curve.gains_exact, real_neg, real_neg, real_le]
  have := mul_nonpos_of_nonneg_of_nonpos (distance_nonneg index count) curve.depth_nonpos
  linarith

theorem treatment_front (positive : 0 < count) :
    treatment (backRelative 0 count) c = .ok .unchanged := by
  refine treatment_of_front ?_
  rw [curve.frontThreshold, backRelative_exact positive, distance_front positive, real_le]
  exact curve.threshold_le

end Curve

/-- The emphasis of equally spaced azimuths. -/
structure Deepens (c : EmphasisConfig Exact) (count : ℕ) : Prop where
  distance : ∀ index < count,
    (backRelative index count : Exact) = real (|(count : ℝ) - 2 * index| / count) ∧
      |(count : ℝ) - 2 * index| / count ∈ Set.Icc (0 : ℝ) 1
  front : treatment (backRelative 0 count) c = .ok .unchanged
  mirrored : ∀ index, 1 ≤ index → index < count →
    (backRelative (count - index) count : Exact) = backRelative index count ∧
      treatment (backRelative (count - index) count) c = treatment (backRelative index count) c
  darkened_iff : ∀ index < count,
    Darkened c index count ↔ backRelative index count < c.frontThreshold
  contiguous : ∃ first, 0 < first ∧ ∀ index < count,
    Darkened c index count ↔ first ≤ index ∧ index + first ≤ count
  /-- The gain is the offset at the sides, and both gains together at the back. In between it is
  linear in the distance, and beyond the sides it goes on so. -/
  linear : ∃ offset depth : ℝ, c.stopbandOffset = real offset ∧ c.maxStopband = real depth ∧
    depth ≤ 0 ∧ ∀ index < count, stopbandGain (backRelative index count) c =
      real (offset + (1 - 2 * (|(count : ℝ) - 2 * index| / count)) * depth)
  /-- What is closer to the back than a darkened azimuth is darkened as well, and at least as much
  is asked for. -/
  deeper : ∀ index < count, ∀ other < count,
    |(count : ℤ) - 2 * index| ≤ |(count : ℤ) - 2 * other| →
      -stopbandGain (backRelative other count) c ≤ -stopbandGain (backRelative index count) c ∧
        (Darkened c other count →
          AsksFor c index count (stopbandGain (backRelative index count) c) ∧
            AsksFor c other count (stopbandGain (backRelative other count) c))
  back : ∀ index, 2 * index = count → AsksFor c index count (c.stopbandOffset + c.maxStopband)
  deepest : ∀ index < count,
    -stopbandGain (backRelative index count) c ≤ -(c.stopbandOffset + c.maxStopband) ∧
      (Darkened c index count →
        AsksFor c index count (stopbandGain (backRelative index count) c))

/-- With settings that are accepted, and whatever the number of azimuths is, the emphasis is alike
on both sides. It leaves the front alone, darkens a range around the back, and in it the attenuation
that is asked for does not fall toward the back. The back itself is always darkened, with the
attenuation of both gains together. -/
theorem deepens_of_validate {c : Config Exact} (valid : c.validate = .ok ()) {count : ℕ}
    (positive : 0 < count) : Deepens c.emphasis count := by
  have meets := (Config.validate_eq_ok_iff.mp valid).emphasis
  rcases exists_curve meets with ⟨threshold, offset, depth, curve⟩
  exact {
    distance := by
      intro index inside
      rw [← distance_eq]
      exact ⟨backRelative_exact positive, distance_nonneg index count, distance_le_one inside.le⟩
    front := curve.treatment_front positive
    mirrored := by
      intro index _ inside
      have same : (backRelative (count - index) count : Exact) = backRelative index count :=
        backRelative_mirror positive inside.le
      exact ⟨same, by rw [same]⟩
    darkened_iff := by
      intro index _
      rw [curve.darkened_iff positive, curve.frontThreshold, backRelative_exact positive, real_lt]
    contiguous := ⟨_, Nat.succ_pos _, fun index => curve.darkened_iff_range positive⟩
    linear := by
      refine ⟨offset, depth, curve.stopbandOffset, curve.maxStopband, curve.depth_nonpos, ?_⟩
      intro index _
      rw [curve.gain_exact positive, distance_eq]
    deeper := by
      intro index _ other _ closer
      have distance_closer := distance_le closer
      refine ⟨curve.attenuation_le positive distance_closer, fun darkened => ?_⟩
      exact ⟨(curve.darkened_of_closer positive distance_closer darkened).asksFor,
        darkened.asksFor⟩
    back := by
      intro index opposite
      rw [← curve.gain_back opposite positive]
      exact (curve.darkened_back opposite positive).asksFor
    deepest := fun index _ => ⟨curve.attenuation_le_back positive, Darkened.asksFor⟩ }

theorem toGain_exact : Decibel.toGain (6 : Exact) = real (10 ^ (6 / 20 : ℝ)) := by
  rw [Decibel.toGain, real_numeral 10, real_numeral 6, real_numeral 20, real_div (by norm_num),
    real_pow (by norm_num)]

theorem default_meets : (Config.default : Config Exact).Meets where
  finalLength_ne := by decide
  finalLength_le := by decide
  equalizationCutoff_ne := by decide
  equalizationCutoff_le := by decide
  minGain_nonneg := (real_le _ _).mpr le_rfl
  minGain_le := by
    change (0 : Exact) ≤ Decibel.toGain 6
    rw [toGain_exact, real_zero, real_le]
    positivity
  maxGain_finite := by
    change Scalar.isFinite (Decibel.toGain (6 : Exact)) = true
    rw [toGain_exact, real_isFinite]
  minPhaseFloor_pos := (real_lt _ _).mpr (by norm_num)
  rumbleCutoff_pos := (real_lt _ _).mpr (by norm_num)
  rumbleCutoff_lt := (real_lt _ _).mpr (by norm_num [nyquist, sampleRate])
  rumbleOrder_ne := by decide
  emphasis := {
    passband_pos := (real_lt _ _).mpr (by norm_num)
    passband_lt := (real_lt _ _).mpr (by norm_num [nyquist, sampleRate])
    stopband_le := (real_le _ _).mpr le_rfl
    passbandLoss_pos := (real_lt _ _).mpr (by norm_num)
    stopbandOffset_neg := (real_lt _ _).mpr (by norm_num)
    maxStopband_nonpos := (real_le _ _).mpr (by norm_num)
    frontThreshold_pos := (real_lt _ _).mpr (by norm_num)
    frontThreshold_le := (real_le _ _).mpr (by norm_num) }

/-- Eight azimuths with the settings of the shipped dataset: the ones next to the back are alike
and darkened, and no more is asked for there than at the back itself. -/
theorem deepens_of_validate_eight :
    (Config.default : Config Exact).validate = .ok () ∧
      treatment (backRelative 5 8 : Exact) .default = treatment (backRelative 3 8) .default ∧
      AsksFor (.default : EmphasisConfig Exact) 4 8 (real (-1.6)) ∧
      AsksFor (.default : EmphasisConfig Exact) 3 8 (stopbandGain (backRelative 3 8) .default) ∧
      -stopbandGain (backRelative 3 8) .default ≤ -real (-1.6) := by
  have valid := Config.validate_eq_ok_iff.mpr default_meets
  have deepens : Deepens (.default : EmphasisConfig Exact) 8 :=
    deepens_of_validate valid (by decide)
  have sum : (EmphasisConfig.default : EmphasisConfig Exact).stopbandOffset +
      EmphasisConfig.default.maxStopband = real (-1.6) := by
    change real (-0.1 + -1.5) = _
    norm_num
  have back := deepens.back 4 rfl
  have deepest := deepens.deepest 3 (by decide)
  have beside : Darkened (.default : EmphasisConfig Exact) 3 8 := by
    refine (deepens.darkened_iff 3 (by decide)).mpr ?_
    rw [(deepens.distance 3 (by decide)).1]
    exact (real_lt _ _).mpr (by norm_num)
  rw [sum] at back deepest
  exact ⟨valid, (deepens.mirrored 3 (by decide) (by decide)).2, back, deepest.2 beside, deepest.1⟩

end Emphasis

end Binaural
