import Binaural.Proofs.NoPanic
import Binaural.Proofs.TransformPair

/-!
The Hilbert transform of a sequence turns its bins by a quarter of a circle.

The analytic signal counts each bin as often as its `share`, which is once, and once more or less as
the frequency is positive or negative: once plus `i` times a `quarterTurn` (`share_eq`). Bins that
are turned by quarters are still those of real numbers (`hermitian_quarterTurn`). So the analytic
signal is the sequence itself plus `i` times these numbers (`analytic_eq`), and it is they that the
Hilbert transform gives (`quadrature_eq`, `dft_quadrature`), for even sizes as for odd ones.
-/

namespace Binaural

open Exact
open Roots (turned root)
open scoped ComplexConjugate

theorem idft_dft {size k : ℕ} (x : ℕ → ℝ) (inside : k < size) : idft size (dft size x) k = x k :=
  idft_turned (fun j => x j) inside

theorem Hermitian.mul {size : ℕ} {x y : ℕ → ℂ} (hermitian : Hermitian size x)
    (hermitian' : Hermitian size y) : Hermitian size fun k => x k * y k := by
  intro k inside
  dsimp only
  rw [hermitian k inside, hermitian' k inside, map_mul]

namespace MinimumPhase

/-! ## Quarter turns -/

/-- How the Hilbert transform turns a bin: positive frequencies a quarter back, negative ones a
quarter on. The bins at zero and at the highest frequency are neither, and vanish. -/
noncomputable def quarterTurn (size k : ℕ) : ℂ :=
  if k = 0 ∨ 2 * k = size then 0 else if 2 * k < size then -Complex.I else Complex.I

theorem share_eq (size k : ℕ) : (share size k : ℂ) = 1 + Complex.I * quarterTurn size k := by
  unfold share quarterTurn
  split
  · simp
  · split
    · rw [mul_neg, Complex.I_mul_I, neg_neg, one_add_one_eq_two, Nat.cast_ofNat]
    · rw [Complex.I_mul_I, add_neg_cancel, Nat.cast_zero]

theorem hermitian_quarterTurn (size : ℕ) : Hermitian size (quarterTurn size) := by
  intro k inside
  unfold quarterTurn mirror
  by_cases ends : k = 0 ∨ 2 * k = size
  · -- the two bins that vanish are their own opposites
    rw [if_pos ends, if_pos (by split <;> omega), map_zero]
  · have other : k ≠ 0 := fun zero => ends (.inl zero)
    rw [if_neg ends, if_neg other, if_neg (by omega)]
    by_cases low : 2 * k < size
    · rw [if_pos low, if_neg (by omega), map_neg, Complex.conj_I, neg_neg]
    · rw [if_neg low, if_pos (by omega), Complex.conj_I]

section Quadrature

variable {size k : ℕ} (x : ℕ → ℝ) (inside : k < size)
include inside

/-- The analytic signal is the sequence itself, and what the turned bins give beside. -/
theorem idft_share :
    idft size (fun j => share size j * dft size x j) k =
      x k + Complex.I * idft size (fun j => quarterTurn size j * dft size x j) k := by
  have split : (fun j => share size j * dft size x j) = fun j =>
      dft size x j + Complex.I * (quarterTurn size j * dft size x j) :=
    funext fun j => by rw [share_eq, add_mul, one_mul, mul_assoc]
  rw [split, idft_add, idft_const_mul, idft_dft x inside]

/-- What is in quadrature to a sequence has the bins of the sequence, turned by quarters. -/
theorem quadrature_eq :
    (quadrature size x k : ℂ) = idft size (fun j => quarterTurn size j * dft size x j) k := by
  have hermitian := (hermitian_quarterTurn size).mul (hermitian_dft size x)
  -- the turned bins are those of real numbers, so these are all of the imaginary part
  rw [quadrature, idft_share x inside, hermitian.idft_eq_re inside, Complex.add_im,
    Complex.ofReal_im, zero_add, Complex.I_mul_im, Complex.ofReal_re]

theorem analytic_eq :
    idft size (fun j => share size j * dft size x j) k = x k + quadrature size x k * Complex.I := by
  rw [idft_share x inside, quadrature_eq x inside, mul_comm Complex.I]

theorem dft_quadrature : dft size (quadrature size x) k = quarterTurn size k * dft size x k := by
  have sums : dft size (quadrature size x) k = turned (root size) size
      (idft size fun j => quarterTurn size j * dft size x j) k := by
    rw [← Roots.turned_congr fun j small => quadrature_eq x small]
    rfl
  rw [sums, turned_idft _ inside]

end Quadrature

/-! ## The Hilbert transform -/

/-- A sequence and its Hilbert transform, as sequences as long as the transform is large and by
their bins. Writing the two halves of the bins in place gives the same. -/
structure HilbertPair (mp : MinimumPhase Exact) (x : List ℝ) (h : ℕ → ℝ) : Prop where
  hilbert : mp.hilbert (x.map real) = .ok (reals mp.transform.size h)
  inPlace : Guarded.hilbert mp (x.map real) = .ok (reals mp.transform.size h)
  realPart : (analyticSignal mp.transform (x.map real)).map Complex.re = x.map real
  imaginaryPart :
    (analyticSignal mp.transform (x.map real)).map Complex.im = reals mp.transform.size h
  positive : ∀ k, 0 < k → 2 * k < mp.transform.size →
    dft mp.transform.size h k = -Complex.I * dft mp.transform.size (x.getD · 0) k
  negative : ∀ k < mp.transform.size, mp.transform.size < 2 * k →
    dft mp.transform.size h k = Complex.I * dft mp.transform.size (x.getD · 0) k
  zero : dft mp.transform.size h 0 = 0
  highest : ∀ k, 2 * k = mp.transform.size → dft mp.transform.size h k = 0

theorem hilbertPair {mp : MinimumPhase Exact} {x : List ℝ} (length : x.length = mp.transform.size) :
    mp.HilbertPair x (quadrature mp.transform.size (x.getD · 0)) := by
  have positive := mp.transform.size_pos
  have numbers : x.map real = reals mp.transform.size (x.getD · 0) := by rw [map_real_eq, length]
  have length' : (x.map real).length = mp.transform.size := by rw [List.length_map, length]
  have hilbert : mp.hilbertOf (x.map real) =
      reals mp.transform.size (quadrature mp.transform.size (x.getD · 0)) := by
    rw [numbers, hilbertOf_reals]
  constructor
  case hilbert => rw [MinimumPhase.hilbert, if_pos length', hilbert]
  case inPlace => rw [Guarded.hilbert_eq length', hilbert]
  case realPart =>
    rw [numbers, analyticSignal_reals, map_re_complexes]
    refine reals_congr fun k inside => ?_
    rw [analytic_eq _ inside]
    simp
  case imaginaryPart => exact hilbert
  case positive =>
    intro k above below
    rw [dft_quadrature _ (by omega), quarterTurn, if_neg (by omega), if_pos below]
  case negative =>
    intro k inside above
    rw [dft_quadrature _ inside, quarterTurn, if_neg (by omega), if_neg (by omega)]
  case zero => rw [dft_quadrature _ positive, quarterTurn, if_pos (.inl rfl), zero_mul]
  case highest =>
    intro k middle
    rw [dft_quadrature _ (by omega), quarterTurn, if_pos (.inr middle), zero_mul]

/-- Every sequence as long as the transform has its Hilbert transform, whether this length is even
or odd. -/
theorem hilbert_turns_bins {size : ℕ} {floor : ℝ} (positive : 0 < size) (floor_pos : 0 < floor) :
    ∃ mp : MinimumPhase Exact, ofSize size (real floor) = .ok mp ∧ mp.transform.size = size ∧
      ∀ x : List ℝ, x.length = size → ∃ h : ℕ → ℝ, mp.HilbertPair x h := by
  rcases exists_ofSize positive floor_pos with ⟨mp, made, -, transform⟩
  have size_eq := Transform.size_of_ofSize transform
  exact ⟨mp, made, size_eq, fun x length => ⟨_, hilbertPair (length.trans size_eq.symm)⟩⟩

/-- An even size, with one bin of each kind. -/
theorem hilbert_turns_bins_four :
    ∃ mp : MinimumPhase Exact, ofSize 4 (real 1) = .ok mp ∧ ∃ h : ℕ → ℝ,
      mp.hilbert ([1, 2, 3, 4].map real) = .ok (reals 4 h) ∧
      dft 4 h 0 = 0 ∧ dft 4 h 1 = -Complex.I * dft 4 ([1, 2, 3, 4].getD · 0) 1 ∧
      dft 4 h 2 = 0 ∧ dft 4 h 3 = Complex.I * dft 4 ([1, 2, 3, 4].getD · 0) 3 := by
  rcases hilbert_turns_bins (show 0 < 4 by decide) one_pos with ⟨mp, made, size, pairs⟩
  rcases pairs [1, 2, 3, 4] rfl with ⟨h, pair⟩
  have hilbert := pair.hilbert
  have zero := pair.zero
  have positive := pair.positive 1 one_pos (by omega)
  have highest := pair.highest 2 (by omega)
  have negative := pair.negative 3 (by omega) (by omega)
  rw [size] at hilbert zero positive highest negative
  exact ⟨mp, made, h, hilbert, zero, positive, highest, negative⟩

end MinimumPhase

end Binaural
