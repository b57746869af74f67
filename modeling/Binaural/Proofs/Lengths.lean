import Binaural.Emphasis
import Binaural.Equalizer
import Binaural.Impulse
import Binaural.Spectrum
import Binaural.Proofs.Traversal

/-!
How long what each operation gives is.

Magnitudes are as many as the transform is large, whatever the recording was; equalization,
clamping, reconstruction and filters keep the length; a truncated impulse is as long as the window.
-/

namespace Binaural

variable {α : Type} [Scalar α]

/-! ## Transforms -/

namespace Roots

theorem size_transform (w : Roots α) (x : Array (Complex α)) {n : Nat} (stride offset : Nat)
    (positive : 0 < n) : (w.transform x n stride offset).size = n := by
  rw [transform]
  by_cases single : n ≤ 1
  · rw [if_pos single]
    exact Nat.le_antisymm positive single
  · rw [if_neg single]
    exact Array.size_ofFn

end Roots

namespace Transform

variable {t : Transform α}

theorem size_of_ofSize {size : Nat} (made : ofSize size = .ok t) : t.size = size := by
  unfold ofSize at made
  split at made
  · cases made
    rfl
  · cases made

theorem ofSize_isOk {size : Nat} (positive : 0 < size) :
    ∃ t : Transform α, ofSize size = .ok t := by
  rw [ofSize, dif_pos positive]
  exact ⟨_, rfl⟩

theorem length_bins (x : List (Complex α)) : (t.bins x).length = t.size := by
  have size : t.forwardRoots.size = t.size := by rw [t.forwardRoots_eq, Roots.backward]
  rw [bins, Roots.apply, Array.length_toList, Roots.size_transform, size]
  rw [size]
  exact t.size_pos

theorem length_points (x : List (Complex α)) : (t.points x).length = t.size := by
  have size : t.inverseRoots.size = t.size := by rw [t.inverseRoots_eq, Roots.onward]
  rw [points, List.length_map, Roots.apply, Array.length_toList, Roots.size_transform, size]
  rw [size]
  exact t.size_pos

theorem length_fit (signal : List α) : (t.fit signal).length = t.size := by
  rw [fit, List.length_append, List.length_take, List.length_replicate]
  omega

theorem length_magnitudes (signal : List α) : (t.magnitudes signal).length = t.size := by
  rw [magnitudes, List.length_map, forwardReal, length_bins]

end Transform

/-! ## Equalization and bounds -/

namespace Equalizer

theorem length_addPower (power magnitudes : List α) :
    (addPower power magnitudes).length = power.length := by
  rw [addPower, List.length_append, List.length_zipWith, List.length_drop]
  omega

theorem length_totalPower (g : Grid (List α)) : (totalPower g).length = g.entryLength := by
  have folds : ∀ (spectra : List (List α)) (power : List α),
      (spectra.foldl addPower power).length = power.length := by
    intro spectra
    induction spectra with
    | nil => exact fun _ => rfl
    | cons magnitudes rest ih =>
        intro power
        rw [List.foldl_cons, ih, length_addPower]
  rw [totalPower, folds, List.length_replicate]

theorem gains_of_ofGrid {g : Grid (List α)} {cutoff : Nat} {eq : Equalizer α}
    (made : ofGrid g cutoff = .ok eq) : eq.gains = gainsOf (averagePower g cutoff) := by
  unfold ofGrid at made
  dsimp only at made
  split at made
  · cases made
  · cases checked : Grid.checkFinite .equalize .everywhere (gainsOf (averagePower g cutoff)) with
    | error e =>
        rw [checked] at made
        cases made
    | ok _ =>
        rw [checked] at made
        cases made
        rfl

theorem length_gains {g : Grid (List α)} {cutoff : Nat} {eq : Equalizer α}
    (made : ofGrid g cutoff = .ok eq) : eq.gains.length = g.entryLength := by
  rw [gains_of_ofGrid made, gainsOf, List.length_map, averagePower, List.length_mapIdx,
    length_totalPower]

theorem length_applyTo (eq : Equalizer α) (magnitudes : List α) :
    (eq.applyTo magnitudes).length = min magnitudes.length eq.gains.length := by
  rw [applyTo, List.length_set, List.length_zipWith]

end Equalizer

theorem Spectrum.length_of_clampAll {low high : α} {xs ys : List α}
    (clamped : clampAll low high xs = .ok ys) : ys.length = xs.length := by
  unfold clampAll at clamped
  split at clamped
  · cases clamped
    exact List.length_map _
  · cases clamped

/-! ## Reconstruction -/

namespace MinimumPhase

variable {mp : MinimumPhase α}

theorem size_of_ofSize {size : Nat} {floor : α} (made : ofSize size floor = .ok mp) :
    mp.transform.size = size := by
  unfold ofSize at made
  split at made
  · cases prepared : Transform.ofSize (α := α) size with
    | error v =>
        rw [prepared] at made
        cases made
    | ok t =>
        rw [prepared] at made
        cases made
        exact Transform.size_of_ofSize prepared
  · cases made

theorem length_hilbertOf (x : List α) : (mp.hilbertOf x).length = mp.transform.size := by
  rw [hilbertOf, List.length_map, analyticSignal, Transform.length_points]

theorem length_pinPhase (size : Nat) (phases : List α) :
    (pinPhase size phases).length = phases.length := by
  unfold pinPhase
  split
  · rw [List.length_set, List.length_set]
  · exact List.length_set

theorem length_spectrumOf {magnitudes : List α} (length : magnitudes.length = mp.transform.size) :
    (mp.spectrumOf magnitudes).length = mp.transform.size := by
  rw [spectrumOf, List.length_zipWith, List.length_map, length_pinPhase, length_hilbertOf, length,
    Nat.min_self]

theorem length_of_reconstruct {magnitudes impulse : List α}
    (reconstructed : mp.reconstruct magnitudes = .ok impulse) :
    impulse.length = mp.transform.size := by
  unfold reconstruct at reconstructed
  cases bins : mp.spectrum magnitudes with
  | error v =>
      rw [bins] at reconstructed
      cases reconstructed
  | ok z =>
      rw [bins] at reconstructed
      cases reconstructed
      rw [List.length_map, Transform.length_points]

end MinimumPhase

/-! ## Filters and windows -/

theorem Section.length_runOnto (s : Section α) (state : State α) (done xs : List α) :
    (s.runOnto state done xs).1.length = done.length + xs.length := by
  induction xs generalizing state done with
  | nil => simp [runOnto]
  | cons x xs ih =>
      rw [runOnto]
      dsimp only
      rw [ih, List.length_cons, List.length_cons]
      omega

theorem Section.length_filter (s : Section α) (xs : List α) : (s.filter xs).length = xs.length := by
  rw [filter, runFrom, length_runOnto, List.length_nil, Nat.zero_add]

theorem Cascade.length_filter (c : Cascade α) (xs : List α) : (c.filter xs).length = xs.length := by
  obtain ⟨sections⟩ := c
  rw [filter]
  dsimp only
  induction sections generalizing xs with
  | nil => rfl
  | cons s rest ih => rw [List.foldl_cons, ih, Section.length_filter]

theorem Emphasis.Treatment.length_apply (t : Treatment α) (impulse : List α) :
    (t.apply impulse).length = impulse.length := by
  cases t with
  | unchanged => rfl
  | lowpass _ design => exact Cascade.length_filter _ _

theorem Window.length_full (length : Nat) : (full (α := α) length).length = length := by
  rw [full]
  by_cases single : length = 1
  · rw [if_pos single, single, List.length_singleton]
  · rw [if_neg single, List.length_map, List.length_range]

theorem Window.length_tail (length : Nat) : (tail (α := α) length).length = length := by
  rw [tail, List.length_set, List.length_drop, length_full]
  omega

theorem Impulse.length_truncateOne (impulse window : List α) :
    (truncateOne impulse window).length = window.length := by
  rw [truncateOne, List.length_append, List.length_zipWith, List.length_replicate]
  omega

/-! ## Grids -/

/-- There are entries, and all are of one length. -/
structure Grid.Uniform {β : Type} (g : Grid (List β)) (length : Nat) : Prop where
  nonempty : g.positioned ≠ []
  length : ∀ entry ∈ g.positioned, entry.2.length = length

namespace Grid.Uniform

variable {β γ ε : Type} {g : Grid (List β)} {h : Grid (List γ)} {length : Nat}

theorem entryLength (uniform : g.Uniform length) : g.entryLength = length := by
  obtain ⟨nonempty, lengths⟩ := uniform
  rw [Grid.entryLength, ← map_snd_positioned]
  cases places : g.positioned with
  | nil => exact (nonempty places).elim
  | cons first rest => exact lengths first (by simp [places])

/-- What a step makes of one length to another, it makes so at every place. -/
theorem of_images {f : Position → List β → Except ε (List γ)} {image : Nat}
    (uniform : g.Uniform length)
    (step : ∀ p x y, x.length = length → f p x = .ok y → y.length = image)
    (result : Images f g.positioned h.positioned) : h.Uniform image := by
  refine ⟨result.ne_nil uniform.nonempty, fun entry member => ?_⟩
  obtain ⟨source, sourceMember, -, given⟩ := result.exists_source member
  exact step _ _ _ (uniform.length source sourceMember) given

end Grid.Uniform

end Binaural
