import Binaural.Proofs.Demands
import Binaural.Proofs.Measurements
import Binaural.Proofs.TransformPair

/-!
Bounds on magnitudes are bounds on the responses of impulses.

Magnitudes of real signals are mirrored, and stay so up to the synthesis; there each impulse gets
exactly the magnitudes that it was made from, over the floor (`MinimumPhase.exists_reconstructs`).
So clamping before the synthesis bounds the responses after it
(`Impulse.exists_clamped_synthesis`), and this holds of every compilation, since its spectra are
those of real recordings (`Config.exists_impulses`).
-/

namespace Binaural

open Exact

/-! ## Clamping and synthesis -/

/-- The entries of a grid are real numbers between two bounds. -/
def Grid.Within (g : Grid (List Exact)) (low high : ℝ) : Prop :=
  ∀ entry ∈ g.positioned, ∃ m : List ℝ, entry.2 = m.map real ∧ ∀ x ∈ m, low ≤ x ∧ x ≤ high

/-- The response of an impulse to all frequencies lies between two bounds. -/
def Impulse.ResponseWithin (t : Transform Exact) (low high : ℝ) (impulse : List Exact) : Prop :=
  ∀ x ∈ t.magnitudes impulse, real low ≤ x ∧ x ≤ real high

/-- The responses of all impulses to all frequencies lie between two bounds. -/
def Impulse.ResponsesWithin (size : ℕ) (low high : ℝ) (impulses : Grid (List Exact)) : Prop :=
  ∃ t : Transform Exact, Transform.ofSize size = .ok t ∧
    ∀ entry ∈ impulses.positioned, ResponseWithin t low high entry.2

section Stages

variable {size : ℕ} {low high floor : ℝ} {g : Grid (List Exact)}

/-- Numbers that are brought between bounds lie between them. -/
theorem Exact.exists_clamp_real {low high : ℝ} (ordered : low ≤ high) (x : ℝ) :
    ∃ y, Scalar.clamp (real low) (real high) (real x) = real y ∧ low ≤ y ∧ y ≤ high := by
  unfold Scalar.clamp
  by_cases below : x < low
  · exact ⟨low, if_pos ((real_lt _ _).mpr below), le_rfl, ordered⟩
  · rw [if_neg (mt (real_lt _ _).mp below)]
    by_cases above : high < x
    · exact ⟨high, if_pos ((real_lt _ _).mpr above), ordered, le_rfl⟩
    · exact ⟨x, if_neg (mt (real_lt _ _).mp above), not_lt.mp below, not_lt.mp above⟩

theorem Spectrum.clampAll_map_real (ordered : low ≤ high) (m : List ℝ) :
    ∃ bounded : List ℝ, clampAll (real low) (real high) (m.map real) = .ok (bounded.map real) ∧
      ∀ x ∈ bounded, low ≤ x ∧ x ≤ high := by
  choose clamped given bounds using exists_clamp_real ordered
  refine ⟨m.map clamped, ?_, fun x member => ?_⟩
  · rw [clampAll, if_pos (.inl ((real_le _ _).mpr ordered)), List.map_map, List.map_map]
    exact congrArg Except.ok (List.map_congr_left fun x _ => given x)
  · rcases List.mem_map.mp member with ⟨y, -, rfl⟩
    exact bounds y

/-- Numbers can always be clamped, and then lie between the bounds. -/
theorem Spectrum.exists_clamp (ordered : low ≤ high)
    (finite : ∀ entry ∈ g.positioned, ∀ x ∈ entry.2, Scalar.isFinite x = true) :
    ∃ clamped, clamp (real low) (real high) g = .ok clamped ∧ clamped.outline = g.outline ∧
      clamped.Within low high := by
  refine Grid.exists_tryMap (fun magnitudes => ∃ m : List ℝ, magnitudes = m.map real ∧
    ∀ x ∈ m, low ≤ x ∧ x ≤ high) fun entry member => ?_
  rcases exists_map_real (finite entry member) with ⟨m, numbers⟩
  rcases clampAll_map_real ordered m with ⟨bounded, given, bounds⟩
  refine ⟨bounded.map real, ?_, finite_map_real bounded, bounded, rfl, bounds⟩
  rw [numbers, given]
  rfl

/-- The response of an impulse lies between the bounds of the magnitudes, over the floor. -/
theorem MinimumPhase.exists_within {mp : MinimumPhase Exact} (known : mp.floor = real floor)
    {m : List ℝ} (length : m.length = mp.transform.size) (mirrored : Mirrored m)
    (bounds : ∀ x ∈ m, low ≤ x ∧ x ≤ high) :
    ∃ impulse, mp.reconstruct (m.map real) = .ok impulse ∧
      (∀ x ∈ impulse, Scalar.isFinite x = true) ∧
      Impulse.ResponseWithin mp.transform (max low floor) (max high floor) impulse := by
  rcases exists_reconstructs known length mirrored with ⟨bins, samples, reconstructs⟩
  refine ⟨_, reconstructs.reconstruct, fun x member => ?_, fun x member => ?_⟩
  · rcases List.mem_map.mp member with ⟨k, -, rfl⟩
    rfl
  · rw [reconstructs.magnitudes] at member
    rcases List.mem_map.mp member with ⟨y, inside, rfl⟩
    rcases bounds y inside with ⟨above, below⟩
    exact ⟨max_le_max_right floor above, max_le_max_right floor below⟩

/-- Mirrored magnitudes always have impulses, whose responses lie between the bounds of the
magnitudes, over the floor. -/
theorem Impulse.exists_synthesis (positive : 0 < size) (floor_pos : 0 < floor)
    (mirrored : g.Mirrored size) (nonempty : g.positioned ≠ []) (within : g.Within low high) :
    ∃ impulses, synthesize (real floor) g = .ok impulses ∧ impulses.outline = g.outline ∧
      ResponsesWithin size (max low floor) (max high floor) impulses := by
  rcases MinimumPhase.exists_ofSize positive floor_pos with ⟨mp, made, known, transform⟩
  have length : g.entryLength = size := by
    rcases List.exists_mem_of_ne_nil _ nonempty with ⟨entry, member⟩
    exact mirrored.entryLength_eq member
  have run : synthesize (real floor) g = g.tryMap .minimumPhase fun _ magnitudes =>
      Failure.ofViolation (mp.reconstruct magnitudes) := by
    rw [synthesize, length, made]
    rfl
  have walk : ∃ impulses, synthesize (real floor) g = .ok impulses ∧
      impulses.outline = g.outline ∧ ∀ entry ∈ impulses.positioned,
        ResponseWithin mp.transform (max low floor) (max high floor) entry.2 := by
    rw [run]
    refine Grid.exists_tryMap _ fun entry member => ?_
    rcases within entry member with ⟨m, numbers, bounds⟩
    have alike := mirrored.mirrored entry member
    have count := mirrored.length entry member
    rw [numbers] at alike count ⊢
    rw [List.length_map, ← Transform.size_of_ofSize transform] at count
    rcases MinimumPhase.exists_within known count (alike.of_map fun _ _ => real.inj) bounds with
      ⟨impulse, given, finite, response⟩
    exact ⟨impulse, by rw [given]; rfl, finite, response⟩
  rcases walk with ⟨impulses, given, outline, responses⟩
  exact ⟨impulses, given, outline, mp.transform, transform, responses⟩

/-- Clamping and then the synthesis bound the responses. -/
theorem Impulse.exists_clamped_synthesis (positive : 0 < size) (floor_pos : 0 < floor)
    (nonempty : g.positioned ≠ []) (mirrored : g.Mirrored size)
    (finite : ∀ entry ∈ g.positioned, ∀ x ∈ entry.2, Scalar.isFinite x = true)
    (ordered : low ≤ high) :
    ∃ clamped impulses, Spectrum.clamp (real low) (real high) g = .ok clamped ∧
      synthesize (real floor) clamped = .ok impulses ∧ impulses.outline = g.outline ∧
      ResponsesWithin size (max low floor) (max high floor) impulses := by
  rcases Spectrum.exists_clamp ordered finite with ⟨clamped, bounded, outline, within⟩
  have places := (Grid.tryMap_eq_ok_iff.mp bounded).2.ne_nil nonempty
  rcases exists_synthesis positive floor_pos (mirrored.of_clamp bounded) places within with
    ⟨impulses, synthesized, outline', responses⟩
  exact ⟨clamped, impulses, bounded, synthesized, outline'.trans outline, responses⟩

end Stages

/-- A reconstruction keeps mirrored magnitudes, whatever their number: its bins are
conjugate-symmetric, all that comes back from them is real, and the response of the impulse is the
magnitudes over the floor. So impulses that are synthesized from clamped spectra have responses
between the bounds, where these are over the floor. -/
theorem MinimumPhase.keeps_magnitudes {size : ℕ} {floor : ℝ} (positive : 0 < size)
    (floor_pos : 0 < floor) :
    (∃ mp : MinimumPhase Exact, ofSize size (real floor) = .ok mp ∧
      Transform.ofSize size = .ok mp.transform ∧
      ∀ m : List ℝ, m.length = size → Mirrored m →
        ∃ bins impulse, mp.Reconstructs floor m bins impulse) ∧
    ∀ (g : Grid (List Exact)) (low high : ℝ), g.positioned ≠ [] → g.Mirrored size →
      (∀ entry ∈ g.positioned, ∀ x ∈ entry.2, Scalar.isFinite x = true) → low ≤ high →
      ∃ clamped impulses, Spectrum.clamp (real low) (real high) g = .ok clamped ∧
        Impulse.synthesize (real floor) clamped = .ok impulses ∧
        impulses.outline = g.outline ∧
        Impulse.ResponsesWithin size (max low floor) (max high floor) impulses := by
  constructor
  · rcases exists_ofSize positive floor_pos with ⟨mp, made, known, transform⟩
    refine ⟨mp, made, transform, fun m length mirrored => ?_⟩
    rw [← Transform.size_of_ofSize transform] at length
    rcases exists_reconstructs known length mirrored with ⟨bins, samples, reconstructs⟩
    exact ⟨bins, _, reconstructs⟩
  · intro g low high nonempty mirrored finite ordered
    exact Impulse.exists_clamped_synthesis positive floor_pos nonempty mirrored finite ordered

/-- A spectrum of three bins, of which the first is above the greater bound. -/
theorem MinimumPhase.keeps_magnitudes_three :
    let g : Grid (List Exact) := ⟨[⟨0, [(0, [real 2, real 1, real 1])]⟩]⟩
    (∃ mp : MinimumPhase Exact, ofSize 3 (real 2⁻¹) = .ok mp ∧
      ∃ bins impulse, mp.Reconstructs 2⁻¹ [2, 1, 1] bins impulse) ∧
    ∃ clamped impulses, Spectrum.clamp (real 0) (real 1) g = .ok clamped ∧
      Impulse.synthesize (real 2⁻¹) clamped = .ok impulses ∧
      Impulse.ResponsesWithin 3 (max 0 2⁻¹) (max 1 2⁻¹) impulses := by
  intro g
  have floor_pos : (0 : ℝ) < 2⁻¹ := by norm_num
  have mirrored {β : Type} (x y : β) : Mirrored [x, y, y] := by
    intro k positive inside
    have bound : k < 3 := inside
    obtain rfl | rfl : k = 1 ∨ k = 2 := by omega
    · rfl
    · rfl
  have entries : g.positioned = [(⟨0, 0, 0, 0, 1⟩, [real 2, real 1, real 1])] := rfl
  have alike : g.Mirrored 3 := by
    constructor
    · simp [entries]
    · simpa [entries] using mirrored (real 2) (real 1)
  have kept := keeps_magnitudes (show 0 < 3 by decide) floor_pos
  rcases kept with ⟨⟨mp, made, -, reconstructs⟩, bounded⟩
  rcases bounded g 0 1 (by simp [entries]) alike (by simp [entries]) zero_le_one with
    ⟨clamped, impulses, bound, synthesized, -, within⟩
  exact ⟨⟨mp, made, reconstructs [2, 1, 1] rfl (mirrored 2 1)⟩, clamped, impulses, bound,
    synthesized, within⟩

/-! ## Compilations -/

/-- Spectra of an accepted dataset are mirrored. -/
theorem Dataset.mirrored_of_analyze {ms : List (Measurement Exact)} {d : Dataset Exact}
    {spectra : Grid (List Exact)} (accepted : ofMeasurements ms = .ok d)
    (analyzed : Spectrum.analyze d.grid = .ok spectra) :
    spectra.Mirrored Spectrum.analysisSize ∧ spectra.positioned ≠ [] := by
  have comprises := ofMeasurements_eq_ok_iff.mp accepted
  rcases bind_eq_ok_iff.mp analyzed with ⟨t, made, walked⟩
  have size := Transform.size_of_ofSize (Failure.ofViolation_eq_ok_iff.mp made)
  rw [Grid.mapSignals] at walked
  have result := (Grid.tryMap_eq_ok_iff.mp walked).2.of_settled
  refine ⟨Grid.Mirrored.of_images (fun entry member y given => ?_) result,
    result.ne_nil (positioned_ne_nil accepted)⟩
  cases given
  have numbers : ∀ x ∈ entry.2, ∃ y, x = real y := fun x inside =>
    exists_real_of_le (comprises.inRange member x inside).1
  exact ⟨by rw [Transform.length_magnitudes, size], Transform.mirrored_magnitudes numbers⟩

/-- In a compilation, nothing but the equalizer can fail between the analysis and the impulses, and
the responses of these lie between the gains that are asked for, where these are over the floor. -/
theorem Config.exists_impulses {ms : List (Measurement Exact)} {d : Dataset Exact}
    {c : Config Exact} {spectra equalized : Grid (List Exact)}
    (accepted : Dataset.ofMeasurements ms = .ok d) (valid : c.validate = .ok ())
    (analyzed : Spectrum.analyze d.grid = .ok spectra)
    (corrected : equalize c.equalizationCutoff spectra = .ok equalized) :
    ∃ (low high floor : ℝ) (clamped impulses : Grid (List Exact)),
      c.minGain = real low ∧ c.maxGain = real high ∧ c.minPhaseFloor = real floor ∧
        Spectrum.clamp c.minGain c.maxGain equalized = .ok clamped ∧
        Impulse.synthesize c.minPhaseFloor clamped = .ok impulses ∧
        impulses.outline = equalized.outline ∧
        Impulse.ResponsesWithin Spectrum.analysisSize (max low floor) (max high floor)
          impulses := by
  have meets := Config.validate_eq_ok_iff.mp valid
  have ordered := meets.minGain_le
  have floor_pos := meets.minPhaseFloor_pos
  rcases exists_real_of_le meets.minGain_nonneg with ⟨low, low_eq⟩
  rcases exists_real_of_le ordered with ⟨high, high_eq⟩
  rcases exists_real_of_lt floor_pos with ⟨floor, floor_eq⟩
  rw [low_eq, high_eq, real_le] at ordered
  rw [floor_eq, real_zero, real_lt] at floor_pos
  rcases Dataset.mirrored_of_analyze accepted analyzed with ⟨mirrored, nonempty⟩
  rcases bind_eq_ok_iff.mp corrected with ⟨eq, -, applied⟩
  rw [Equalizer.apply, Grid.mapSignals] at applied
  have result := (Grid.tryMap_eq_ok_iff.mp applied).2
  rcases Impulse.exists_clamped_synthesis (by decide) floor_pos (result.ne_nil nonempty)
    (mirrored.of_equalize corrected) result.finite_of_settled ordered with
    ⟨clamped, impulses, bounded, synthesized, outline, responses⟩
  rw [← low_eq, ← high_eq] at bounded
  rw [← floor_eq] at synthesized
  exact ⟨low, high, floor, clamped, impulses, low_eq, high_eq, floor_eq, bounded, synthesized,
    outline, responses⟩

end Binaural
