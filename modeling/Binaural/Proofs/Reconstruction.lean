import Binaural.Proofs.Inversion
import Binaural.Proofs.Mirrored

/-!
Responses of minimum phase keep their magnitudes.

In exact arithmetic a reconstruction is a formula for each bin (`response`): the magnitude there,
turned by a phase that all magnitudes together determine (`quadrature`), or the exponential of what
is linear in their logarithms (`response_eq_exp`). If the magnitudes of opposite frequencies are
alike, then so are their logarithms and the bins of these, which are real; the analytic signal
weighs real bins by real numbers, so its imaginary part changes sign at the opposite place
(`quadrature_mirror`). The response is then Hermitian (`hermitian_response`), hence that of a real
impulse, and turning a bin does not change its length.
-/

namespace Binaural

open Exact
open Roots (turned root)

/-! ## Reconstruction, bin by bin -/

namespace MinimumPhase

/-- How often a bin counts in the analytic signal. -/
def share (size k : ℕ) : ℕ :=
  if k = 0 ∨ 2 * k = size then 1 else if 2 * k < size then 2 else 0

theorem analyticBin_ofComplex (size k : ℕ) (z : ℂ) :
    analyticBin size k (ofComplex z) = ofComplex (share size k * z) := by
  unfold analyticBin share
  split
  · rw [Nat.cast_one, one_mul]
  · split
    · rw [real_two, ofComplex_scale, Nat.cast_ofNat, Complex.ofReal_ofNat, mul_comm]
    · rw [Nat.cast_zero, zero_mul, real_zero]
      rfl

/-- What the analytic signal of a real sequence has in addition to the sequence. -/
noncomputable def quadrature (size : ℕ) (x : ℕ → ℝ) (k : ℕ) : ℝ :=
  (idft size (fun j => share size j * dft size x j) k).im

/-- The phases with those at zero and at the highest frequency removed. -/
def pinned (size : ℕ) (x : ℕ → ℝ) (k : ℕ) : ℝ := if k = 0 ∨ 2 * k = size then 0 else x k

/-- The bin of minimum phase over a floor: the magnitude, turned back by the phase. -/
noncomputable def response (size : ℕ) (floor : ℝ) (m : ℕ → ℝ) (k : ℕ) : ℂ :=
  (max (m k) floor : ℝ) *
    Complex.exp ((-pinned size (quadrature size fun j => Real.log (max (m j) floor)) k : ℝ) *
      Complex.I)

theorem analyticSignal_reals {t : Transform Exact} (x : ℕ → ℝ) :
    analyticSignal t (reals t.size x) =
      complexes t.size (idft t.size fun j => share t.size j * dft t.size x j) := by
  have weighed : (complexes t.size (dft t.size x)).mapIdx (fun k z => analyticBin t.size k z) =
      complexes t.size fun j => share t.size j * dft t.size x j := by
    refine List.ext_getElem (by simp) fun k _ _ => ?_
    rw [List.getElem_mapIdx, getElem_complexes, getElem_complexes, analyticBin_ofComplex]
  have bins : t.bins (complexes t.size fun j => x j) = complexes t.size (dft t.size x) :=
    t.bins_complexes _
  rw [analyticSignal, map_ofReal_reals, bins, weighed, Transform.points_complexes]

theorem pinPhase_reals {size : ℕ} (x : ℕ → ℝ) :
    pinPhase size (reals size x) = reals size (pinned size x) := by
  refine List.ext_getElem (by rw [length_pinPhase, length_reals, length_reals]) fun k _ _ => ?_
  rw [getElem_reals]
  unfold pinPhase pinned
  by_cases even : size % 2 = 0
  · simp only [if_pos even, List.getElem_set, getElem_reals]
    split
    · rw [if_pos (by omega), real_zero]
    · split
      · rw [if_pos (by omega), real_zero]
      · rw [if_neg (by omega)]
  · simp only [if_neg even, List.getElem_set, getElem_reals]
    split
    · rw [if_pos (by omega), real_zero]
    · rw [if_neg (by omega)]

variable {mp : MinimumPhase Exact} {floor : ℝ}

theorem hilbertOf_reals (x : ℕ → ℝ) :
    mp.hilbertOf (reals mp.transform.size x) =
      reals mp.transform.size (quadrature mp.transform.size x) := by
  rw [hilbertOf, analyticSignal_reals, map_im_complexes]
  rfl

theorem exists_ofSize {size : ℕ} {floor : ℝ} (positive : 0 < size)
    (floor_pos : 0 < floor) :
    ∃ mp : MinimumPhase Exact, ofSize size (real floor) = .ok mp ∧ mp.floor = real floor ∧
      Transform.ofSize size = .ok mp.transform := by
  have above : (0 : Exact) < real floor := by rwa [real_zero, real_lt]
  rcases Transform.ofSize_isOk (α := Exact) positive with ⟨t, made⟩
  refine ⟨⟨t, real floor, above⟩, ?_, rfl, made⟩
  rw [ofSize, dif_pos above, made]
  rfl

theorem floor_pos_of_known (known : mp.floor = real floor) : 0 < floor := by
  have above := mp.floor_pos
  rwa [known, real_zero, real_lt] at above

theorem spectrumOf_reals (known : mp.floor = real floor) (m : ℕ → ℝ) :
    mp.spectrumOf (reals mp.transform.size m) =
      complexes mp.transform.size (response mp.transform.size floor m) := by
  have positive := floor_pos_of_known known
  have floored : (reals mp.transform.size m).map (Scalar.atLeast mp.floor) =
      reals mp.transform.size fun k => max (m k) floor :=
    map_reals fun k => by rw [known, atLeast_real]
  have logarithms : (reals mp.transform.size fun k => max (m k) floor).map Scalar.ln =
      reals mp.transform.size fun k => Real.log (max (m k) floor) :=
    map_reals fun k => real_ln (lt_max_of_lt_right positive)
  rw [spectrumOf, floored, logarithms, hilbertOf_reals, pinPhase_reals, reals, reals, complexes,
    List.zipWith_map, List.zipWith_self]
  refine List.map_congr_left fun k _ => ?_
  rw [real_neg, polar_real]
  rfl

/-! ## Logarithms of bins -/

/-- The logarithms of magnitudes over a floor. -/
noncomputable def logarithms (floor : ℝ) (m : ℕ → ℝ) (k : ℕ) : ℝ := Real.log (max (m k) floor)

/-- The logarithm of a bin of minimum phase out of those of all magnitudes. -/
noncomputable def logResponse (size : ℕ) (logs : ℕ → ℝ) (k : ℕ) : ℂ :=
  logs k - pinned size (quadrature size logs) k * Complex.I

theorem response_eq_exp {floor : ℝ} (positive : 0 < floor) (size : ℕ) (m : ℕ → ℝ) (k : ℕ) :
    response size floor m k = Complex.exp (logResponse size (logarithms floor m) k) := by
  have above : 0 < max (m k) floor := lt_max_of_lt_right positive
  rw [logResponse, sub_eq_add_neg, Complex.exp_add, logarithms, ← Complex.ofReal_exp,
    Real.exp_log above, ← neg_mul, ← Complex.ofReal_neg]
  rfl

/-! ## Symmetry -/

section Symmetry

variable {size : ℕ}

/-- Sequences that are alike at opposite places have real bins. -/
theorem dft_eq_re {x : ℕ → ℝ} (alike : ∀ k < size, x (mirror size k) = x k) {k : ℕ}
    (inside : k < size) : dft size x k = (dft size x k).re :=
  (hermitian_of_mirror alike).turned_eq_re (Roots.root_primitive (by omega)) inside

/-- The analytic signal weighs these bins by real numbers, so it is Hermitian, and what it has in
addition changes its sign at the opposite place. -/
theorem quadrature_mirror {x : ℕ → ℝ} (alike : ∀ k < size, x (mirror size k) = x k) {k : ℕ}
    (inside : k < size) : quadrature size x (mirror size k) = -quadrature size x k := by
  -- the weights are real, and so are the bins of a sequence that is mirrored
  have weighed : ∀ j < size,
      (share size j * dft size x j : ℂ) = ((share size j * (dft size x j).re : ℝ) : ℂ) := by
    intro j small
    rw [dft_eq_re alike small, Complex.ofReal_re, Complex.ofReal_mul, Complex.ofReal_natCast]
  rw [quadrature, quadrature, idft_congr weighed, hermitian_idft _ k inside, Complex.conj_im]

theorem pinned_mirror {x : ℕ → ℝ} {k : ℕ} (inside : k < size)
    (odd : x (mirror size k) = -x k) : pinned size x (mirror size k) = -pinned size x k := by
  have same : mirror size k = 0 ∨ 2 * mirror size k = size ↔ k = 0 ∨ 2 * k = size := by
    unfold mirror
    split
    · omega
    · omega
  unfold pinned
  -- the places whose phases are removed are their own opposites
  by_cases ends : k = 0 ∨ 2 * k = size
  · rw [if_pos ends, if_pos (same.mpr ends), neg_zero]
  · rw [if_neg ends, if_neg (mt same.mp ends), odd]

/-- The bins of minimum phase are those of a real impulse. -/
theorem hermitian_response (floor : ℝ) {m : ℕ → ℝ} (alike : ∀ k < size, m (mirror size k) = m k) :
    Hermitian size (response size floor m) := by
  intro k inside
  have phase := quadrature_mirror (x := fun j => Real.log (max (m j) floor))
    (fun j small => by rw [alike j small]) inside
  rw [response, response, alike k inside, pinned_mirror inside phase, map_mul, Complex.conj_ofReal,
    ← Complex.exp_conj, map_mul, Complex.conj_ofReal, Complex.conj_I, neg_neg, Complex.ofReal_neg,
    neg_mul_neg]

theorem norm_response {floor : ℝ} (positive : 0 < floor) (m : ℕ → ℝ) (k : ℕ) :
    ‖response size floor m k‖ = max (m k) floor := by
  rw [response, norm_mul, Complex.norm_exp_ofReal_mul_I, mul_one, Complex.norm_real,
    Real.norm_of_nonneg (le_max_of_le_right positive.le)]

/-- The samples of the impulse: all of what comes back from the bins, which is real. -/
noncomputable def impulseAt (size : ℕ) (floor : ℝ) (m : ℕ → ℝ) (k : ℕ) : ℝ :=
  (idft size (response size floor m) k).re

theorem impulseAt_eq (floor : ℝ) {m : ℕ → ℝ} (alike : ∀ k < size, m (mirror size k) = m k) :
    ∀ j < size, (impulseAt size floor m j : ℂ) = idft size (response size floor m) j :=
  fun _ small => ((hermitian_response floor alike).idft_eq_re small).symm

/-- The impulse has the bins from which it was made. -/
theorem dft_impulseAt (floor : ℝ) {m : ℕ → ℝ} (alike : ∀ k < size, m (mirror size k) = m k)
    {k : ℕ} (inside : k < size) :
    dft size (impulseAt size floor m) k = response size floor m k := by
  have sums : dft size (impulseAt size floor m) k =
      turned (root size) size (idft size (response size floor m)) k := by
    rw [← Roots.turned_congr (impulseAt_eq floor alike)]
    rfl
  rw [sums, turned_idft _ inside]

end Symmetry

/-! ## Impulses -/

section Impulses

variable {m : List ℝ}

/-- Magnitudes that are mirrored are alike at opposite places. -/
theorem getD_mirror (mirrored : Mirrored m) :
    ∀ k < m.length, m.getD (mirror m.length k) 0 = m.getD k 0 := by
  intro k inside
  unfold mirror
  split
  · rename_i zero
    rw [zero]
  · rw [List.getD_eq_getElem?_getD, List.getD_eq_getElem?_getD,
      mirrored k (by omega) inside]

theorem le_getD (above : ∀ x ∈ m, floor ≤ x) : ∀ k < m.length, floor ≤ m.getD k 0 := by
  intro k inside
  rw [List.getD_eq_getElem _ _ inside]
  exact above _ (List.getElem_mem inside)

variable (known : mp.floor = real floor) (length : m.length = mp.transform.size)
include known length

theorem spectrum_map_real :
    mp.spectrum (m.map real) =
      .ok (complexes mp.transform.size (response mp.transform.size floor fun k => m.getD k 0)) := by
  rw [spectrum, if_pos (by rw [List.length_map, length]), map_real_eq, length,
    spectrumOf_reals known]

theorem reconstruct_map_real :
    mp.reconstruct (m.map real) =
      .ok (reals mp.transform.size (impulseAt mp.transform.size floor fun k => m.getD k 0)) := by
  rw [reconstruct, spectrum_map_real known length, Except.map, Transform.points_complexes,
    map_re_complexes]
  rfl

end Impulses

end MinimumPhase

/-- A number mirrored about the real axis. -/
def Complex.conjugate {α : Type} [Scalar α] (z : Complex α) : Complex α := ⟨z.re, -z.im⟩

/-- Bins of opposite frequencies are conjugate. The bin at zero is opposite to itself. -/
def ConjugateSymmetric (bins : List (Complex Exact)) : Prop :=
  ∀ k < bins.length, bins[(bins.length - k) % bins.length]? = bins[k]?.map Complex.conjugate

theorem Hermitian.conjugateSymmetric {size : ℕ} {x : ℕ → ℂ} (hermitian : Hermitian size x) :
    ConjugateSymmetric (complexes size x) := by
  intro k inside
  rw [length_complexes] at inside ⊢
  have opposite : (size - k) % size = mirror size k := by
    unfold mirror
    split
    · rename_i zero
      rw [zero, Nat.sub_zero, Nat.mod_self]
    · exact Nat.mod_eq_of_lt (by omega)
  have inside' := mirror_lt inside
  rw [opposite, List.getElem?_eq_getElem (by rwa [length_complexes]),
    List.getElem?_eq_getElem (by rwa [length_complexes]), getElem_complexes, getElem_complexes,
    hermitian k inside]
  rfl

namespace MinimumPhase

/-- What a reconstruction makes of magnitudes: conjugate-symmetric bins, whose points have no
imaginary part, and an impulse of these points that has the magnitudes over the floor. -/
structure Reconstructs (mp : MinimumPhase Exact) (floor : ℝ) (m : List ℝ)
    (bins : List (Complex Exact)) (impulse : List Exact) : Prop where
  spectrum : mp.spectrum (m.map real) = .ok bins
  symmetric : ConjugateSymmetric bins
  inverse : mp.transform.inverse bins = .ok (impulse.map Complex.ofReal)
  reconstruct : mp.reconstruct (m.map real) = .ok impulse
  magnitudes : mp.transform.magnitudes impulse = m.map fun x => real (max x floor)

theorem exists_reconstructs {mp : MinimumPhase Exact} {floor : ℝ} {m : List ℝ}
    (known : mp.floor = real floor) (length : m.length = mp.transform.size)
    (mirrored : Mirrored m) :
    ∃ bins samples, mp.Reconstructs floor m bins (reals mp.transform.size samples) := by
  have positive := floor_pos_of_known known
  have alike := getD_mirror mirrored
  rw [length] at alike
  have hermitian := hermitian_response (m := fun k => m.getD k 0) floor alike
  refine ⟨_, _, spectrum_map_real known length, hermitian.conjugateSymmetric, ?_,
    reconstruct_map_real known length, ?_⟩
  · -- what comes back from Hermitian bins is its own real part
    rw [Transform.inverse, if_pos (length_complexes _), Transform.points_complexes,
      map_ofReal_reals]
    exact congrArg Except.ok (complexes_congr fun k inside => hermitian.idft_eq_re inside)
  · have floored := map_real_comp m fun x => max x floor
    rw [Transform.magnitudes_eq (sample_reals _), floored, length]
    refine reals_congr fun k small => ?_
    rw [dft_congr fun j inside => if_pos inside, dft_impulseAt floor alike small,
      norm_response positive]

end MinimumPhase

end Binaural
