import Binaural.Proofs.HilbertTransform

/-!
Minimum phase by folding the cepstrum.

The cepstrum of magnitudes is what has their logarithms as bins. To fold it is to add to each
positive quefrency what stands at the negative one, so that nothing is left there. In the bins of a
real sequence, folding leaves the sequence and subtracts `i` times its Hilbert transform
(`turned_folded`). If magnitudes are mirrored, the removal of phases at both ends removes nothing
(`pinned_quadrature`), and the bins of minimum phase are the exponentials of those of the folded
cepstrum (`response_eq_exp_folded`).

So the folded cepstrum is a cepstrum of the impulse (`complexCepstrum_impulseAt`). Logarithms of its
bins are known but for whole turns; yet a real sequence without negative quefrencies is known by the
real parts of its bins (`eq_folded_of_re`), so there is no other such cepstrum (`eq_folded_of_exp`).
-/

namespace Binaural

open Exact
open Roots (turned root)
open scoped ComplexConjugate

/-! ## Folding -/

/-- The cepstrum of magnitudes with the given logarithms: the samples that have these as bins. -/
noncomputable def cepstrum (size : ℕ) (logs : ℕ → ℝ) : ℕ → ℂ := idft size fun k => logs k

/-- A cepstrum whose negative quefrencies, from half of the size on, are folded onto the positive
ones. The quefrency at half of an even size is its own opposite. -/
noncomputable def folded (size : ℕ) (c : ℕ → ℂ) (n : ℕ) : ℂ :=
  if n = 0 then c 0
  else if 2 * n < size then 2 • c n
  else if 2 * n = size then c n
  else 0

theorem cepstrum_congr {size : ℕ} {x y : ℕ → ℝ} (same : ∀ j < size, x j = y j) :
    cepstrum size x = cepstrum size y :=
  idft_congr fun j small => by rw [same j small]

theorem folded_eq (size : ℕ) (c : ℕ → ℂ) (n : ℕ) :
    folded size c n = MinimumPhase.share size n * c n := by
  unfold folded MinimumPhase.share
  by_cases zero : n = 0
  · rw [if_pos zero, if_pos (.inl zero), zero, Nat.cast_one, one_mul]
  · rw [if_neg zero]
    by_cases middle : 2 * n = size
    · rw [if_neg (by omega), if_pos middle, if_pos (.inr middle), Nat.cast_one, one_mul]
    · rw [if_neg middle, if_neg (not_or.mpr ⟨zero, middle⟩)]
      split
      · rw [nsmul_eq_mul]
      · rw [Nat.cast_zero, zero_mul]

/-- The opposite bins of a real sequence are its cepstrum, but for their number. -/
theorem conj_dft {size k : ℕ} (x : ℕ → ℝ) (inside : k < size) :
    conj (dft size x k) = size * cepstrum size x k := by
  have nonzero : (size : ℂ) ≠ 0 := Nat.cast_ne_zero.mpr (by omega)
  have opposite := conj_turned (Roots.root_primitive (by omega)) inside fun j => x j
  simp only [Complex.conj_ofReal] at opposite
  rw [cepstrum, idft, mul_div_cancel₀ _ nonzero, ← opposite]
  rfl

/-- A sequence and its reversal add up to twice what has the real parts of its bins. -/
theorem two_mul_cepstrum {size n : ℕ} {c x : ℕ → ℝ}
    (parts : ∀ k < size, (dft size c k).re = x k) (inside : n < size) :
    2 * cepstrum size x n = c n + c (mirror size n) := by
  have primitive := Roots.root_primitive (show 0 < size by omega)
  have bins : ∀ k < size, 2 * (x k : ℂ) =
      turned (root size) size (fun j => c j + c (mirror size j)) k := by
    intro k small
    have opposite := turned_comp_mirror primitive.inv (fun j => (c j : ℂ)) k
    have conjugate := conj_turned primitive small fun j => (c j : ℂ)
    have double := Complex.add_conj (dft size c k)
    simp only [Complex.conj_ofReal] at conjugate
    rw [inv_inv] at opposite
    rw [parts k small, Complex.ofReal_mul, Complex.ofReal_ofNat] at double
    rw [Roots.turned_add, opposite, ← conjugate, ← double]
    rfl
  rw [cepstrum, ← idft_const_mul, idft_congr bins, idft_turned _ inside]

/-- A real sequence without negative quefrencies is folded out of the real parts of its bins. -/
theorem eq_folded_of_re {size n : ℕ} {c x : ℕ → ℝ}
    (causal : ∀ n < size, size < 2 * n → c n = 0)
    (parts : ∀ k < size, (dft size c k).re = x k) (inside : n < size) :
    (c n : ℂ) = folded size (cepstrum size x) n := by
  have sum := two_mul_cepstrum parts inside
  have twice : mirror size n = n → (c n : ℂ) = cepstrum size x n := by
    intro self
    rw [self, ← two_mul] at sum
    exact (mul_left_cancel₀ two_ne_zero sum).symm
  unfold folded
  by_cases zero : n = 0
  · rw [if_pos zero, twice (by rw [zero, mirror, if_pos rfl]), zero]
  · have opposite : mirror size n = size - n := if_neg zero
    rw [if_neg zero]
    by_cases low : 2 * n < size
    · rw [opposite, causal (size - n) (by omega) (by omega), Complex.ofReal_zero, add_zero] at sum
      rw [if_pos low, nsmul_eq_mul, Nat.cast_ofNat, sum]
    · rw [if_neg low]
      by_cases middle : 2 * n = size
      · rw [if_pos middle, twice (by omega)]
      · rw [if_neg middle, causal n inside (by omega), Complex.ofReal_zero]

namespace MinimumPhase

/-- Folding in quefrencies subtracts `i` times the Hilbert transform in frequencies. -/
theorem turned_folded {size k : ℕ} (x : ℕ → ℝ) (inside : k < size) :
    turned (root size) size (folded size (cepstrum size x)) k =
      x k - quadrature size x k * Complex.I := by
  have nonzero : (size : ℂ) ≠ 0 := Nat.cast_ne_zero.mpr (by omega)
  have primitive := (Roots.root_primitive (show 0 < size by omega)).inv
  have weighed : ∀ j < size,
      conj (share size j * dft size x j) = size * folded size (cepstrum size x) j := by
    intro j small
    rw [map_mul, Complex.conj_natCast, conj_dft x small, folded_eq]
    ring
  -- both are the conjugate of the analytic signal
  have analytic := congrArg conj (analytic_eq x inside)
  rw [idft, map_div₀, Complex.conj_natCast, conj_turned primitive inside, inv_inv,
    Roots.turned_congr weighed, Roots.turned_const_mul, mul_div_cancel_left₀ _ nonzero] at analytic
  rw [analytic, map_add, map_mul, Complex.conj_ofReal, Complex.conj_ofReal, Complex.conj_I,
    mul_neg, ← sub_eq_add_neg]

/-- A sequence that is alike at opposite places has no Hilbert transform at the two ends. -/
theorem pinned_quadrature {size k : ℕ} {x : ℕ → ℝ}
    (alike : ∀ k < size, x (mirror size k) = x k) (inside : k < size) :
    pinned size (quadrature size x) k = quadrature size x k := by
  have odd := quadrature_mirror alike inside
  unfold pinned
  split
  · rename_i ends
    have self : mirror size k = k := by
      unfold mirror
      split <;> omega
    rw [self] at odd
    exact (self_eq_neg.mp odd).symm
  · rfl

/-! ## Cepstra of impulses -/

/-- The cepstrum of an impulse: the samples whose bins are the logarithms of its bins. The imaginary
parts, which bins show but for whole turns, are given as the phases by which the bins lag. -/
noncomputable def complexCepstrum (size : ℕ) (impulse phases : ℕ → ℝ) : ℕ → ℂ :=
  idft size fun k => Real.log ‖dft size impulse k‖ - phases k * Complex.I

section Impulse

variable {size k : ℕ} {floor : ℝ} {m : ℕ → ℝ} (positive : 0 < floor)
  (alike : ∀ k < size, m (mirror size k) = m k)
include alike

theorem logarithms_mirror :
    ∀ k < size, logarithms floor m (mirror size k) = logarithms floor m k :=
  fun k small => by rw [logarithms, logarithms, alike k small]

theorem im_folded (inside : k < size) :
    (folded size (cepstrum size (logarithms floor m)) k).im = 0 := by
  have whole : cepstrum size (logarithms floor m) k = (cepstrum size (logarithms floor m) k).re :=
    (hermitian_of_mirror (logarithms_mirror alike)).idft_eq_re inside
  rw [folded_eq, whole, ← Complex.ofReal_natCast, ← Complex.ofReal_mul, Complex.ofReal_im]

include positive

theorem response_eq_exp_folded (inside : k < size) :
    response size floor m k = Complex.exp
      (turned (root size) size (folded size (cepstrum size (logarithms floor m))) k) := by
  rw [response_eq_exp positive, logResponse, pinned_quadrature (logarithms_mirror alike) inside,
    turned_folded _ inside]

/-- The bins of the folded cepstrum are logarithms of those of the impulse. -/
theorem log_dft_impulseAt (inside : k < size) :
    (Real.log ‖dft size (impulseAt size floor m) k‖ : ℂ) -
        quadrature size (logarithms floor m) k * Complex.I =
      turned (root size) size (folded size (cepstrum size (logarithms floor m))) k := by
  rw [dft_impulseAt floor alike inside, norm_response positive, turned_folded _ inside]
  rfl

theorem complexCepstrum_impulseAt (inside : k < size) :
    complexCepstrum size (impulseAt size floor m) (quadrature size (logarithms floor m)) k =
      folded size (cepstrum size (logarithms floor m)) k := by
  rw [complexCepstrum, idft_congr fun j small => log_dft_impulseAt positive alike small,
    idft_turned _ inside]

/-- No other real sequence without negative quefrencies has logarithms of these bins as bins. -/
theorem eq_folded_of_exp {c : ℕ → ℝ} (causal : ∀ n < size, size < 2 * n → c n = 0)
    (logarithm : ∀ k < size, Complex.exp (dft size c k) = dft size (impulseAt size floor m) k)
    (inside : k < size) : (c k : ℂ) = folded size (cepstrum size (logarithms floor m)) k := by
  refine eq_folded_of_re causal (fun j small => ?_) inside
  have magnitude := congrArg norm (logarithm j small)
  rw [Complex.norm_exp, dft_impulseAt floor alike small, norm_response positive] at magnitude
  rw [logarithms, ← magnitude, Real.log_exp]

end Impulse

/-- The folded cepstrum of magnitudes. -/
noncomputable def foldedCepstrum (m : List ℝ) : ℕ → ℂ :=
  folded m.length (cepstrum m.length fun k => Real.log (m.getD k 0))

/-- Minimum phase is what the folded cepstrum of the magnitudes gives. With the phases of the
Hilbert transform, this is also the cepstrum of the impulse, so the latter vanishes at all negative
quefrencies. It is the only real sequence that does so and gives the bins of the impulse. -/
structure FoldsCepstrum (mp : MinimumPhase Exact) (m : List ℝ) (phases impulse : ℕ → ℝ) :
    Prop where
  spectrum : mp.spectrum (m.map real) = .ok (complexes m.length fun k =>
    Complex.exp (turned (root m.length) m.length (foldedCepstrum m) k))
  hilbert : mp.hilbert (m.map fun x => real (Real.log x)) = .ok (reals m.length phases)
  reconstruct : mp.reconstruct (m.map real) = .ok (reals m.length impulse)
  logarithm : ∀ k < m.length, dft m.length impulse k =
    Complex.exp (Real.log ‖dft m.length impulse k‖ - phases k * Complex.I)
  cepstrum : ∀ n < m.length, complexCepstrum m.length impulse phases n = foldedCepstrum m n
  vanishes : ∀ n < m.length, m.length < 2 * n →
    complexCepstrum m.length impulse phases n = 0
  isReal : ∀ n < m.length, (complexCepstrum m.length impulse phases n).im = 0
  unique : ∀ c : ℕ → ℝ, (∀ n < m.length, m.length < 2 * n → c n = 0) →
    (∀ k < m.length, Complex.exp (dft m.length c k) = dft m.length impulse k) →
    ∀ n < m.length, (c n : ℂ) = complexCepstrum m.length impulse phases n

section Lists

variable {mp : MinimumPhase Exact} {floor : ℝ} {m : List ℝ}
  (known : mp.floor = real floor) (length : mp.transform.size = m.length)
  (mirrored : Mirrored m) (above : ∀ x ∈ m, floor ≤ x)
include above

theorem logarithms_getD {k : ℕ} (inside : k < m.length) :
    logarithms floor (m.getD · 0) k = Real.log (m.getD k 0) := by
  rw [logarithms, max_eq_left (le_getD above k inside)]

theorem foldedCepstrum_eq : foldedCepstrum m =
    folded m.length (cepstrum m.length (logarithms floor (m.getD · 0))) := by
  rw [foldedCepstrum, cepstrum_congr fun k inside => logarithms_getD above inside]

include known length mirrored

theorem foldsCepstrum : mp.FoldsCepstrum m
    (quadrature m.length (logarithms floor (m.getD · 0)))
    (impulseAt m.length floor (m.getD · 0)) := by
  have positive := floor_pos_of_known known
  have alike := getD_mirror mirrored
  constructor
  case spectrum =>
    rw [spectrum_map_real known length.symm, length, foldedCepstrum_eq above]
    exact congrArg Except.ok (complexes_congr fun k inside =>
      response_eq_exp_folded positive alike inside)
  case hilbert =>
    have numbers : (m.map fun x => real (Real.log x)) =
        reals mp.transform.size (logarithms floor (m.getD · 0)) := by
      rw [map_real_comp, length]
      exact reals_congr fun k inside => (logarithms_getD above inside).symm
    rw [MinimumPhase.hilbert, if_pos (by rw [List.length_map, length]), numbers, hilbertOf_reals,
      length]
  case reconstruct => rw [reconstruct_map_real known length.symm, length]
  case logarithm =>
    intro k inside
    rw [log_dft_impulseAt positive alike inside, ← response_eq_exp_folded positive alike inside,
      dft_impulseAt floor alike inside]
  case cepstrum =>
    intro n inside
    rw [complexCepstrum_impulseAt positive alike inside, foldedCepstrum_eq above]
  case vanishes =>
    intro n inside negative
    rw [complexCepstrum_impulseAt positive alike inside, folded, if_neg (by omega),
      if_neg (by omega), if_neg (by omega)]
  case isReal =>
    intro n inside
    rw [complexCepstrum_impulseAt positive alike inside, im_folded alike inside]
  case unique =>
    intro c causal logarithm n inside
    rw [complexCepstrum_impulseAt positive alike inside]
    exact eq_folded_of_exp positive alike causal logarithm inside

end Lists

/-- Mirrored magnitudes over the floor have the spectrum that their folded cepstrum gives, whatever
their number. -/
theorem spectrum_eq_exp_folded {size : ℕ} {floor : ℝ} (positive : 0 < size)
    (floor_pos : 0 < floor) :
    ∃ mp : MinimumPhase Exact, ofSize size (real floor) = .ok mp ∧
      ∀ m : List ℝ, m.length = size → Mirrored m → (∀ x ∈ m, floor ≤ x) →
        ∃ phases impulse : ℕ → ℝ, mp.FoldsCepstrum m phases impulse := by
  rcases exists_ofSize positive floor_pos with ⟨mp, made, known, transform⟩
  have size_eq := Transform.size_of_ofSize transform
  refine ⟨mp, made, fun m length mirrored above => ?_⟩
  exact ⟨_, _, foldsCepstrum known (size_eq.trans length.symm) mirrored above⟩

/-- An even number of magnitudes, all different up to opposite ones. -/
theorem spectrum_eq_exp_folded_four :
    Mirrored [(2 : ℝ), 1, 3, 1] ∧ ∃ mp : MinimumPhase Exact, ofSize 4 (real 1) = .ok mp ∧
      ∃ phases impulse : ℕ → ℝ, mp.FoldsCepstrum [2, 1, 3, 1] phases impulse := by
  have mirrored : Mirrored [(2 : ℝ), 1, 3, 1] := .of_reverse rfl
  rcases spectrum_eq_exp_folded (show 0 < 4 by decide) one_pos with ⟨mp, made, folds⟩
  exact ⟨mirrored, mp, made, folds [2, 1, 3, 1] rfl mirrored (by norm_num)⟩

end MinimumPhase

end Binaural
