import Binaural.Proofs.DiscreteFourier
import Binaural.Proofs.Measurements
import Binaural.Proofs.Stages

/-!
Delay and polarity of recordings.

In exact arithmetic a compilation does not hear when a sound arrives nor which sign it has. The
discrete Fourier transform of a delayed signal is that of the signal, turned bin by bin
(`dft_of_delay`), so the magnitudes are the same (`Delays.magnitudes_eq`), and magnitudes are all
that the first stage leaves of a recording (`Grid.mapSignals_eq`).
-/

namespace Binaural

open Exact

/-! ## Delayed signals -/

/-- The second signal is the first one or its negation after a delay, and neither has a sample other
than 0 beyond the analysis. Both are taken to be continued by zeros. -/
structure Delays {α : Type} [Scalar α] (signal signal' : List α) : Prop where
  delayed : ∃ delay, ∃ negate : Bool, ∀ k, sample signal' k =
    if k < delay then 0
    else if negate then -sample signal (k - delay) else sample signal (k - delay)
  ends : ∀ k, Spectrum.analysisSize ≤ k → sample signal k = 0 ∧ sample signal' k = 0

theorem norm_root_pow (size j : ℕ) : ‖Roots.root size ^ j‖ = 1 := by
  rw [Roots.root_pow, ← Complex.ofReal_neg, Complex.norm_exp_ofReal_mul_I]

/-- A delay turns each bin, and changes nothing else of it but the sign. -/
theorem dft_of_delay {size delay : ℕ} {sign : ℝ} {x y : ℕ → ℝ}
    (delayed : ∀ k, y k = if k < delay then 0 else sign * x (k - delay))
    (ends : ∀ k, size ≤ k → x k = 0 ∧ y k = 0) (k : ℕ) :
    dft size y k = sign * Roots.root size ^ (delay * k) * dft size x k := by
  have reach : dft size y k =
      ∑ j ∈ Finset.range (size + delay), y j * Roots.root size ^ (j * k) := by
    have rest : ∑ j ∈ Finset.range delay,
        (y (size + j) : ℂ) * Roots.root size ^ ((size + j) * k) = 0 := by
      refine Finset.sum_eq_zero fun j _ => ?_
      rw [(ends _ (Nat.le_add_right size j)).2]
      simp
    rw [Finset.sum_range_add, rest, add_zero, dft]
  have silence : ∑ j ∈ Finset.range delay, (y j : ℂ) * Roots.root size ^ (j * k) = 0 := by
    refine Finset.sum_eq_zero fun j member => ?_
    rw [delayed, if_pos (Finset.mem_range.mp member)]
    simp
  rw [reach, Nat.add_comm, Finset.sum_range_add, silence, zero_add, dft, Finset.mul_sum]
  refine Finset.sum_congr rfl fun j _ => ?_
  rw [delayed, if_neg (by omega), Nat.add_sub_cancel_left, Nat.add_mul, pow_add]
  push_cast
  ring

/-- The magnitudes of a signal do not show its delay nor its sign. -/
theorem Delays.magnitudes_eq {t : Transform Exact} (size : t.size = Spectrum.analysisSize)
    {signal signal' : List Exact} (delays : Delays signal signal')
    (numbers : ∀ x ∈ signal, ∃ y, x = real y) : t.magnitudes signal' = t.magnitudes signal := by
  obtain ⟨⟨delay, negate, delayed⟩, ends⟩ := delays
  obtain ⟨x, samples⟩ := exists_samples numbers
  generalize sign_eq : (if negate then -1 else 1 : ℝ) = sign
  have samples' (k : ℕ) :
      sample signal' k = real (if k < delay then 0 else sign * x (k - delay)) := by
    rw [delayed, samples, ← sign_eq]
    split
    · exact real_zero
    · cases negate with
      | true => simp
      | false => simp
  have beyond (k : ℕ) (far : t.size ≤ k) :
      x k = 0 ∧ (if k < delay then 0 else sign * x (k - delay)) = 0 := by
    obtain ⟨left, right⟩ := ends k (size ▸ far)
    rw [samples, real_zero] at left
    rw [samples', real_zero] at right
    exact ⟨real.inj left, real.inj right⟩
  have unit : ‖(sign : ℂ)‖ = 1 := by
    rw [← sign_eq]
    cases negate with
    | true => simp
    | false => simp
  rw [Transform.magnitudes_eq samples, Transform.magnitudes_eq samples']
  refine List.map_congr_left fun k _ => congrArg real ?_
  rw [dft_of_delay (fun _ => rfl) beyond, norm_mul, norm_mul, unit, norm_root_pow, one_mul, one_mul]

/-! ## Delayed measurements -/

/-- The second measurement is one at the same angle, of the same sound with another delay. -/
structure Measurement.Delays {α : Type} [Scalar α] (m m' : Measurement α) : Prop where
  elevation : m'.elevation = m.elevation
  azimuth : m'.azimuth = m.azimuth
  samples : Binaural.Delays m.samples m'.samples

namespace Dataset

variable {ms ms' : List (Measurement Exact)} {d d' : Dataset Exact}

/-- The magnitudes of delayed measurements, with their angles. -/
theorem map_magnitudes_entries {t : Transform Exact} (size : t.size = Spectrum.analysisSize)
    (delayed : List.Forall₂ Measurement.Delays ms ms')
    (numbers : ∀ m ∈ ms, ∀ x ∈ m.samples, ∃ y, x = real y) :
    (ms'.map Measurement.entry).map (fun entry => (entry.1, t.magnitudes entry.2)) =
      (ms.map Measurement.entry).map fun entry => (entry.1, t.magnitudes entry.2) := by
  induction delayed with
  | nil => rfl
  | @cons m m' _ _ head _ ih =>
      obtain ⟨here, later⟩ := List.forall_mem_cons.mp numbers
      have first : (m'.entry.1, t.magnitudes m'.entry.2) = (m.entry.1, t.magnitudes m.entry.2) := by
        change ((m'.elevation, m'.azimuth), t.magnitudes m'.samples) =
          ((m.elevation, m.azimuth), t.magnitudes m.samples)
        rw [head.elevation, head.azimuth, head.samples.magnitudes_eq size here]
      simp only [List.map_cons, first, ih later]

/-- All that the analysis sees is the same. -/
theorem Comprises.map_magnitudes_eq {t : Transform Exact} (size : t.size = Spectrum.analysisSize)
    (comprises : d.Comprises ms) (comprises' : d'.Comprises ms')
    (delayed : List.Forall₂ Measurement.Delays ms ms') :
    d'.grid.map t.magnitudes = d.grid.map t.magnitudes := by
  have numbers : ∀ m ∈ ms, ∀ x ∈ m.samples, ∃ y, x = real y := fun m member x inside =>
    exists_real_of_le ((comprises.sound m member).inRange x inside).1
  refine Grid.Ascending.eq_of_perm (comprises'.ascending.of_outline_eq (Grid.outline_map _ _))
    (comprises.ascending.of_outline_eq (Grid.outline_map _ _)) ?_
  rw [Grid.entries_map, Grid.entries_map]
  refine (comprises'.entries.map _).trans ?_
  rw [map_magnitudes_entries size delayed numbers]
  exact (comprises.entries.map _).symm

theorem Comprises.layout_eq (comprises : d.Comprises ms) (comprises' : d'.Comprises ms')
    (outline : d'.grid.outline = d.grid.outline) : d'.layout = d.layout := by
  have elevations : d'.grid.elevations = d.grid.elevations := by
    have heights := congrArg (List.map Prod.fst) outline
    rwa [Grid.outline, Grid.outline, List.map_map, List.map_map] at heights
  have laidOut := comprises'.layout
  rw [elevations] at laidOut
  exact Except.ok.inj (laidOut.symm.trans comprises.layout)

end Dataset

/-- In exact arithmetic, recordings of the same sounds with other delays and signs compile to the
same impulses, or fail in the same way. -/
theorem compile_of_delays {ms ms' : List (Measurement Exact)} {d d' : Dataset Exact}
    (accepted : Dataset.ofMeasurements ms = .ok d) (accepted' : Dataset.ofMeasurements ms' = .ok d')
    (delayed : List.Forall₂ Measurement.Delays ms ms') (c : Config Exact) :
    compile d' c = compile d c := by
  have comprises := Dataset.ofMeasurements_eq_ok_iff.mp accepted
  have comprises' := Dataset.ofMeasurements_eq_ok_iff.mp accepted'
  obtain ⟨t, made⟩ := Transform.ofSize_isOk (α := Exact) (show 0 < Spectrum.analysisSize by decide)
  have same := comprises.map_magnitudes_eq (Transform.size_of_ofSize made) comprises' delayed
  have outline : d'.grid.outline = d.grid.outline := by
    rw [← Grid.outline_map t.magnitudes, same, Grid.outline_map]
  have analyzed : Spectrum.analyze d'.grid = Spectrum.analyze d.grid := by
    rw [Spectrum.analyze, Spectrum.analyze, made]
    change d'.grid.mapSignals .analyze t.magnitudes = d.grid.mapSignals .analyze t.magnitudes
    rw [Grid.mapSignals_eq, same, ← Grid.mapSignals_eq]
  have processed : c.process d'.grid = c.process d.grid := by
    rw [Config.process, Config.process, analyzed]
  rw [compile, compile, processed, comprises.layout_eq comprises' outline]

/-- A click at one angle that comes later and upside down, and one at another that does not. -/
theorem compile_of_delays_click :
    let ms : List (Measurement Exact) := [⟨0, 0, [1, 0]⟩, ⟨10, 0, [1, 0]⟩]
    let ms' : List (Measurement Exact) := [⟨0, 0, [0, -1]⟩, ⟨10, 0, [1, 0]⟩]
    List.Forall₂ Measurement.Delays ms ms' ∧
      ∃ d d', Dataset.ofMeasurements ms = .ok d ∧ Dataset.ofMeasurements ms' = .ok d' ∧
        compile d' .default = compile d .default := by
  intro ms ms'
  have accepted (first second : List Exact) (lengths : first.length = 2 ∧ second.length = 2)
      (inRange : ∀ x ∈ first ++ second, -1 ≤ x ∧ x ≤ 1) :
      Dataset.ofMeasurements [⟨0, 0, first⟩, ⟨10, 0, second⟩] =
        .ok ⟨⟨[⟨0, [(0, first)]⟩, ⟨10, [(0, second)]⟩]⟩, ⟨[0, 10], 10, 0, 10⟩, 2⟩ := by
    obtain ⟨inRange, inRange'⟩ := List.forall_mem_append.mp inRange
    refine Dataset.ofMeasurements_eq_ok_iff.mpr ⟨?_, .refl _, fun m member => ?_, rfl⟩
    · exact Grid.ascending_iff.mpr (by simp [Grid.RowsAscend])
    · rcases List.mem_pair.mp member with rfl | rfl
      · exact ⟨List.ne_nil_of_length_pos (lengths.1 ▸ Nat.two_pos), lengths.1, inRange⟩
      · exact ⟨List.ne_nil_of_length_pos (lengths.2 ▸ Nat.two_pos), lengths.2, inRange'⟩
  have silent (first second : Exact) (k : Nat) (far : Spectrum.analysisSize ≤ k) :
      sample [first, second] k = 0 := by
    have beyond : 2 ≤ k := le_trans (by decide) far
    rw [sample, List.getD_eq_default _ _ beyond]
  have later : Delays [(1 : Exact), 0] [0, -1] := by
    refine ⟨⟨1, true, fun k => ?_⟩, fun k far => ⟨silent _ _ k far, silent _ _ k far⟩⟩
    rcases k with _ | _ | _ | k
    · simp [sample]
    · simp [sample]
    · simp [sample]
    · simp [sample]
  have same : Delays [(1 : Exact), 0] [1, 0] :=
    ⟨⟨0, false, fun k => by simp⟩, fun k far => ⟨silent _ _ k far, silent _ _ k far⟩⟩
  have delayed : List.Forall₂ Measurement.Delays ms ms' :=
    .cons ⟨rfl, rfl, later⟩ (.cons ⟨rfl, rfl, same⟩ .nil)
  have given := accepted [1, 0] [1, 0] ⟨rfl, rfl⟩ (by simp)
  have given' := accepted [0, -1] [1, 0] ⟨rfl, rfl⟩ (by simp)
  exact ⟨delayed, _, _, given, given', compile_of_delays given given' delayed .default⟩

end Binaural
