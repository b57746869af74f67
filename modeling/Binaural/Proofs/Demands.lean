import Binaural.Config

/-!
The demands on settings, all at once.

`Config.fault?` finds the first demand that is not met. `Config.Meets` states all of them, and
`Config.validate_eq_ok_iff` says that validation accepts exactly the settings that meet them.
-/

namespace Binaural

variable {α : Type} [Scalar α]

/-- The demands on the emphasis curve. -/
structure EmphasisConfig.Meets (e : EmphasisConfig α) : Prop where
  passband_pos : 0 < e.passband
  passband_lt : e.passband < e.stopband
  stopband_le : e.stopband ≤ Scalar.ofNat nyquist
  passbandLoss_pos : 0 < e.passbandLoss
  stopbandOffset_neg : e.stopbandOffset < 0
  maxStopband_nonpos : e.maxStopband ≤ 0
  frontThreshold_pos : 0 < e.frontThreshold
  frontThreshold_le : e.frontThreshold ≤ 1

namespace Config

/-- The demands on all settings. -/
structure Meets (c : Config α) : Prop where
  finalLength_ne : c.finalLength ≠ 0
  finalLength_le : c.finalLength ≤ sampleRate
  equalizationCutoff_ne : c.equalizationCutoff ≠ 0
  equalizationCutoff_le : c.equalizationCutoff ≤ nyquist
  minGain_nonneg : 0 ≤ c.minGain
  minGain_le : c.minGain ≤ c.maxGain
  maxGain_finite : Scalar.isFinite c.maxGain = true
  minPhaseFloor_pos : 0 < c.minPhaseFloor
  rumbleCutoff_pos : 0 < c.rumbleCutoff
  rumbleCutoff_lt : c.rumbleCutoff < Scalar.ofNat nyquist
  rumbleOrder_ne : c.rumbleOrder ≠ 0
  emphasis : c.emphasis.Meets

/-- A check that finds nothing passes, and so do those after it. -/
theorem ite_some_eq_none_iff {β : Type} {p : Prop} [Decidable p] {fault : β} {rest : Option β} :
    (if p then some fault else rest) = none ↔ ¬ p ∧ rest = none := by
  by_cases holds : p
  · simp [holds]
  · simp [holds]

theorem fault?_eq_none_iff {c : Config α} : c.fault? = none ↔ c.Meets := by
  unfold fault?
  simp only [ite_some_eq_none_iff, Decidable.not_not, not_or, Nat.not_lt, and_true]
  constructor
  · rintro ⟨⟨length_ne, length_le⟩, ⟨cutoff_ne, cutoff_le⟩, ⟨gain_nonneg, gain_le, finite⟩, floor,
      ⟨rumble_pos, rumble_lt⟩, order, ⟨passband, edges, stopband⟩, loss, ⟨offset, greatest⟩,
      threshold_pos, threshold_le⟩
    exact ⟨length_ne, length_le, cutoff_ne, cutoff_le, gain_nonneg, gain_le, finite, floor,
      rumble_pos, rumble_lt, order, ⟨passband, edges, stopband, loss, offset, greatest,
      threshold_pos, threshold_le⟩⟩
  · rintro ⟨length_ne, length_le, cutoff_ne, cutoff_le, gain_nonneg, gain_le, finite, floor,
      rumble_pos, rumble_lt, order, ⟨passband, edges, stopband, loss, offset, greatest,
      threshold_pos, threshold_le⟩⟩
    exact ⟨⟨length_ne, length_le⟩, ⟨cutoff_ne, cutoff_le⟩, ⟨gain_nonneg, gain_le, finite⟩, floor,
      ⟨rumble_pos, rumble_lt⟩, order, ⟨passband, edges, stopband⟩, loss, ⟨offset, greatest⟩,
      threshold_pos, threshold_le⟩

/-- Validation accepts exactly the settings that meet all demands. -/
theorem validate_eq_ok_iff {c : Config α} : c.validate = .ok () ↔ c.Meets := by
  rw [← fault?_eq_none_iff, validate]
  cases c.fault? with
  | none => simp
  | some fault => simp

end Config

end Binaural
