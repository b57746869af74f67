import Binaural.Proofs.Reconstruction

/-!
The two directions of the transform as a pair.

In exact arithmetic the bins are the sums of the definition, over exponentials and without a factor
(`turned_root`); the way back takes the opposite exponentials and divides by the number of bins
(`idft_eq`). Each direction undoes the other, whatever the size is made of
(`Transform.inverse_forward`, `Transform.forward_inverse`).

A real signal of any length has the bins of its first samples, continued by zeros. Those of opposite
frequencies are conjugate, so its magnitudes are mirrored (`Transform.mirrored_magnitudes`).
-/

namespace Binaural

open Exact
open Roots (turned root)
open scoped ComplexConjugate

/-! ## The sums by their definition -/

/-- Bins are sums of points that are turned against the direction in which angles grow. -/
theorem turned_root (size : ℕ) (x : ℕ → ℂ) (k : ℕ) :
    turned (root size) size x k =
      ∑ j ∈ Finset.range size,
        x j * Complex.exp (-(2 * Real.pi * j * k / size : ℝ) * Complex.I) := by
  refine Finset.sum_congr rfl fun j _ => ?_
  rw [Roots.root_pow, Nat.cast_mul, ← mul_assoc]

/-- Points are averages of bins that are turned in the direction in which angles grow. -/
theorem idft_eq (size : ℕ) (x : ℕ → ℂ) (k : ℕ) :
    idft size x k =
      (∑ j ∈ Finset.range size,
        x j * Complex.exp ((2 * Real.pi * j * k / size : ℝ) * Complex.I)) / size := by
  refine congrArg (· / (size : ℂ)) (Finset.sum_congr rfl fun j _ => ?_)
  rw [inv_pow, Roots.root_pow, neg_mul, Complex.exp_neg, inv_inv, Nat.cast_mul, ← mul_assoc]

theorem Exact.map_ofComplex_eq (x : List ℂ) :
    x.map ofComplex = complexes x.length fun k => x.getD k 0 := by
  refine List.ext_getElem (by simp) fun k here _ => ?_
  rw [List.length_map] at here
  rw [getElem_complexes, List.getElem_map, List.getD_eq_getElem _ _ here]

theorem sample_map_real (signal : List ℝ) (k : ℕ) :
    sample (signal.map real) k = real (signal.getD k 0) := by
  rw [sample, real_zero, List.getD_map]

/-! ## Magnitudes of real signals -/

theorem hermitian_dft (size : ℕ) (x : ℕ → ℝ) : Hermitian size (dft size x) := fun k inside =>
  hermitian_turned (Roots.root_primitive (by omega)) x k inside

theorem mirrored_reals {size : ℕ} {x : ℕ → ℝ} (alike : ∀ k < size, x (mirror size k) = x k) :
    Mirrored (reals size x) := by
  intro k positive inside
  rw [length_reals] at inside ⊢
  have same := alike k inside
  rw [mirror, if_neg positive.ne'] at same
  rw [List.getElem?_eq_getElem (by rw [length_reals]; omega),
    List.getElem?_eq_getElem (by rwa [length_reals]), getElem_reals, getElem_reals, same]

namespace Transform

variable {t : Transform Exact}

theorem mirrored_magnitudes {signal : List Exact} (numbers : ∀ x ∈ signal, ∃ y, x = real y) :
    Mirrored (t.magnitudes signal) := by
  rcases exists_samples numbers with ⟨x, samples⟩
  rw [t.magnitudes_eq samples]
  exact mirrored_reals fun k inside => by rw [hermitian_dft t.size x k inside, RCLike.norm_conj]

/-! ## Either direction undoes the other -/

theorem forward_complexes (x : ℕ → ℂ) :
    t.forward (complexes t.size x) =
      .ok (complexes t.size (turned (root t.size) t.size x)) := by
  rw [forward, if_pos (length_complexes x), bins_complexes]

theorem inverse_complexes (x : ℕ → ℂ) :
    t.inverse (complexes t.size x) = .ok (complexes t.size (idft t.size x)) := by
  rw [inverse, if_pos (length_complexes x), points_complexes]

theorem inverse_forward (x : ℕ → ℂ) :
    t.forward (complexes t.size x) >>= t.inverse = .ok (complexes t.size x) := by
  rw [forward_complexes]
  change t.inverse _ = _
  rw [inverse_complexes, complexes_congr fun k inside => idft_turned x inside]

theorem forward_inverse (x : ℕ → ℂ) :
    t.inverse (complexes t.size x) >>= t.forward = .ok (complexes t.size x) := by
  rw [inverse_complexes]
  change t.forward _ = _
  rw [forward_complexes, complexes_congr fun k inside => turned_idft x inside]

/-- What the two directions of a transform are: the sums of the definition and their inverse, on the
points of the transform as on a real signal of any length. -/
structure IsFourier (t : Transform Exact) : Prop where
  forward : ∀ x : List ℂ, x.length = t.size →
    t.forward (x.map ofComplex) = .ok (complexes t.size fun k =>
      ∑ j ∈ Finset.range t.size,
        x.getD j 0 * Complex.exp (-(2 * Real.pi * j * k / t.size : ℝ) * Complex.I))
  inverse : ∀ x : List ℂ, x.length = t.size →
    t.inverse (x.map ofComplex) = .ok (complexes t.size fun k =>
      (∑ j ∈ Finset.range t.size,
        x.getD j 0 * Complex.exp ((2 * Real.pi * j * k / t.size : ℝ) * Complex.I)) / t.size)
  inverse_forward : ∀ x : List ℂ, x.length = t.size →
    t.forward (x.map ofComplex) >>= t.inverse = .ok (x.map ofComplex)
  forward_inverse : ∀ x : List ℂ, x.length = t.size →
    t.inverse (x.map ofComplex) >>= t.forward = .ok (x.map ofComplex)
  /-- A signal that is longer than the transform is cut, and a shorter one continued by zeros. -/
  forwardReal : ∀ signal : List ℝ,
    t.forwardReal (signal.map real) = complexes t.size fun k =>
      ∑ j ∈ Finset.range t.size,
        signal.getD j 0 * Complex.exp (-(2 * Real.pi * j * k / t.size : ℝ) * Complex.I)
  conjugate : ∀ signal : List ℝ, ConjugateSymmetric (t.forwardReal (signal.map real))
  mirrored : ∀ signal : List ℝ, Mirrored (t.magnitudes (signal.map real))

theorem isFourier (t : Transform Exact) : t.IsFourier where
  forward x length := by
    rw [map_ofComplex_eq, length, forward_complexes]
    exact congrArg Except.ok (complexes_congr fun k _ => turned_root t.size _ k)
  inverse x length := by
    rw [map_ofComplex_eq, length, inverse_complexes]
    exact congrArg Except.ok (complexes_congr fun k _ => idft_eq t.size _ k)
  inverse_forward x length := by
    rw [map_ofComplex_eq, length, inverse_forward]
  forward_inverse x length := by
    rw [map_ofComplex_eq, length, forward_inverse]
  forwardReal signal := by
    rw [forwardReal_eq (sample_map_real signal)]
    exact complexes_congr fun k _ => turned_root t.size _ k
  conjugate signal := by
    rw [forwardReal_eq (sample_map_real signal)]
    exact (hermitian_dft t.size _).conjugateSymmetric
  mirrored signal := mirrored_magnitudes fun x member => by
    rcases List.mem_map.mp member with ⟨y, -, rfl⟩
    exact ⟨y, rfl⟩

/-- Every size but 0 has a transform, and that is the discrete Fourier transform and its inverse. -/
theorem ofSize_isFourier {size : ℕ} (positive : 0 < size) :
    ∃ t : Transform Exact, ofSize size = .ok t ∧ t.size = size ∧ t.IsFourier := by
  rcases ofSize_isOk (α := Exact) positive with ⟨t, made⟩
  exact ⟨t, made, size_of_ofSize made, t.isFourier⟩

/-- A composite size. Of the longer signal the samples within it have flat bins. -/
theorem ofSize_isFourier_six :
    ∃ t : Transform Exact, ofSize 6 = .ok t ∧
      t.forward ([1, Complex.I, 0, 2, -Complex.I, 3].map ofComplex) >>= t.inverse =
        .ok ([1, Complex.I, 0, 2, -Complex.I, 3].map ofComplex) ∧
      t.forwardReal ([1, 0, 0, 0, 0, 0, 5, 5].map real) = complexes 6 fun _ => 1 := by
  rcases ofSize_isFourier (show 0 < 6 by decide) with ⟨t, made, size, fourier⟩
  refine ⟨t, made, fourier.inverse_forward _ size.symm, ?_⟩
  rw [fourier.forwardReal, size]
  refine complexes_congr fun k _ => ?_
  simp [Finset.sum_range_succ]

end Transform

end Binaural
