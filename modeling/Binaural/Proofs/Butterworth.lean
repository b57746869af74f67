import Binaural.Proofs.Designs
import Binaural.Proofs.FrequencyResponse

/-!
The magnitudes of Butterworth filters.

Every section divides the power of a sine between what it passes and what it stops. At half of the
angle that the sine turns by from sample to sample, the shares of a section of second order are
those of a resonance (`Butterworth.passes_lowpass`); at the qualities of the prototype the
resonances multiply to a sum of two powers (`Butterworth.prod_poles`), so the whole cascade has one
closed law (`Butterworth.magnitudes_of_order`).
-/

namespace Binaural

open Exact

/-- The factors of a range multiplied from both ends towards the middle. -/
theorem prod_range_eq_prod_pairs {β : Type} [CommMonoid β] (f : ℕ → β) (n : ℕ) :
    ∏ i ∈ Finset.range n, f i =
      (∏ k ∈ Finset.range (n / 2), f k * f (n - 1 - k)) * if n % 2 = 1 then f (n / 2) else 1 := by
  have later (first m : ℕ) :
      ∏ k ∈ Finset.range m, f (first + k) = ∏ k ∈ Finset.range m, f (first + m - 1 - k) := by
    rw [← Finset.prod_range_reflect]
    refine Finset.prod_congr rfl fun k member => congrArg f ?_
    have := Finset.mem_range.mp member
    omega
  rw [Finset.prod_mul_distrib]
  rcases Nat.mod_two_eq_zero_or_one n with even | odd
  · have halves : n = n / 2 + n / 2 := by omega
    rw [if_neg (by omega), mul_one]
    conv_lhs => rw [halves, Finset.prod_range_add, later, ← halves]
  · have halves : n = n / 2 + 1 + n / 2 := by omega
    rw [if_pos odd]
    conv_lhs => rw [halves, Finset.prod_range_add, later, ← halves, Finset.prod_range_succ]
    exact mul_right_comm _ _ _

namespace Butterworth

/-! ## Shares of the power -/

/-- Half of the angle by which a frequency turns from one sample to the next. -/
noncomputable def halfAngle (f : ℝ) : ℝ := Real.pi * f / sampleRate

/-- What a first-order lowpass with its corner at `fc` passes of the power at `f`, in proportion to
what it stops, `stopped`. -/
noncomputable def passed (fc f : ℝ) : ℝ :=
  (Real.cos (halfAngle f) * Real.sin (halfAngle fc)) ^ 2

noncomputable def stopped (fc f : ℝ) : ℝ :=
  (Real.sin (halfAngle f) * Real.cos (halfAngle fc)) ^ 2

section Sections

variable {fc q : ℝ} (f : ℝ)

theorem halfAngle_bounds (above : 0 < fc) (below : fc < nyquist) :
    0 < halfAngle fc ∧ halfAngle fc < Real.pi / 2 := by
  have pi_pos := Real.pi_pos
  norm_num [nyquist, sampleRate] at below
  norm_num [halfAngle, sampleRate]
  constructor
  · positivity
  · nlinarith

theorem sin_halfAngle_pos (above : 0 < fc) (below : fc < nyquist) :
    0 < Real.sin (halfAngle fc) := by
  obtain ⟨low, high⟩ := halfAngle_bounds above below
  exact Real.sin_pos_of_pos_of_lt_pi low (by linarith [Real.pi_pos])

theorem cos_halfAngle_pos (above : 0 < fc) (below : fc < nyquist) :
    0 < Real.cos (halfAngle fc) := by
  obtain ⟨low, high⟩ := halfAngle_bounds above below
  exact Real.cos_pos_of_mem_Ioo ⟨by linarith, high⟩

theorem passed_add_stopped_pos (above : 0 < fc) (below : fc < nyquist) :
    0 < passed fc f + stopped fc f := by
  have sin_pos := sin_halfAngle_pos above below
  have cos_pos := cos_halfAngle_pos above below
  have circle := Real.sin_sq_add_cos_sq (halfAngle f)
  rw [passed, stopped, mul_pow, mul_pow]
  rcases eq_or_ne (Real.cos (halfAngle f)) 0 with zero | nonzero
  · have sin_sq : Real.sin (halfAngle f) ^ 2 = 1 := by rw [zero] at circle; linarith
    rw [zero, sin_sq]
    positivity
  · positivity

theorem cos_turn (f : ℝ) :
    Real.cos (2 * Real.pi * f / sampleRate) = 2 * Real.cos (halfAngle f) ^ 2 - 1 := by
  rw [← Real.cos_two_mul, halfAngle]
  congr 1
  ring

theorem sin_turn (f : ℝ) : Real.sin (2 * Real.pi * f / sampleRate) =
    2 * Real.sin (halfAngle f) * Real.cos (halfAngle f) := by
  rw [← Real.sin_two_mul, halfAngle]
  congr 1
  ring

/-- By how much the quality `q` keeps the poles away from the unit circle. -/
noncomputable def damping (fc q : ℝ) : ℝ :=
  Real.sin (halfAngle fc) * Real.cos (halfAngle fc) / q

theorem damping_pos (above : 0 < fc) (below : fc < nyquist) (q_pos : 0 < q) : 0 < damping fc q :=
  div_pos (mul_pos (sin_halfAngle_pos above below) (cos_halfAngle_pos above below)) q_pos

/-- What a resonant section weakens at a frequency. -/
noncomputable def resonance (fc q f : ℝ) : ℝ :=
  (passed fc f - stopped fc f) ^ 2 + passed fc f * stopped fc f / q ^ 2

theorem resonance_pos (above : 0 < fc) (below : fc < nyquist) (q_pos : 0 < q) :
    0 < resonance fc q f := by
  have both := passed_add_stopped_pos f above below
  have passed_nonneg : 0 ≤ passed fc f := sq_nonneg _
  have stopped_nonneg : 0 ≤ stopped fc f := sq_nonneg _
  rcases eq_or_ne (passed fc f) (stopped fc f) with same | different
  · have positive : 0 < stopped fc f := by linarith
    rw [resonance, same]
    positivity
  · have := sub_ne_zero.mpr different
    unfold resonance
    positivity

theorem sq_norm_poles (fc q f : ℝ) :
    ‖((1 + damping fc q : ℝ) : ℂ) + (-2 * (2 * Real.cos (halfAngle fc) ^ 2 - 1) : ℝ) *
      Section.turn f + (1 - damping fc q : ℝ) * Section.turn f ^ 2‖ ^ 2 =
        16 * resonance fc q f := by
  have circle : Real.sin (halfAngle f) ^ 2 = 1 - Real.cos (halfAngle f) ^ 2 := Real.sin_sq _
  have circle' : Real.sin (halfAngle fc) ^ 2 = 1 - Real.cos (halfAngle fc) ^ 2 := Real.sin_sq _
  have balance : passed fc f - stopped fc f =
      Real.cos (halfAngle f) ^ 2 - Real.cos (halfAngle fc) ^ 2 := by
    rw [passed, stopped, mul_pow, mul_pow, circle, circle']
    ring
  rw [Section.sq_norm_polynomial, resonance, balance, cos_turn, passed, stopped, damping, mul_pow,
    mul_pow (Real.sin (halfAngle f)), circle]
  ring

/-- A section with the poles of a corner and a quality, and any zeros. -/
theorem passes_of_zeros {b0 b1 b2 part : ℝ} (above : 0 < fc) (below : fc < nyquist)
    (q_pos : 0 < q) (b0_ne : b0 ≠ 0)
    (zeros : ‖(b0 : ℂ) + b1 * Section.turn f + b2 * Section.turn f ^ 2‖ ^ 2 = 16 * part) :
    Passes ((Section.ofCoefficients (real b0) (real b1) (real b2) (real (1 + damping fc q))
      (real (-2 * (2 * Real.cos (halfAngle fc) ^ 2 - 1)))
      (real (1 - damping fc q))).frequencyResponse (real f)) (part / resonance fc q f) := by
  have first : 1 + damping fc q ≠ 0 := (add_pos one_pos (damping_pos above below q_pos)).ne'
  have nonzero : ((1 + damping fc q : ℝ) : ℂ) + (-2 * (2 * Real.cos (halfAngle fc) ^ 2 - 1) : ℝ) *
      Section.turn f + (1 - damping fc q : ℝ) * Section.turn f ^ 2 ≠ 0 := by
    intro zero
    have size := sq_norm_poles fc q f
    rw [zero, norm_zero] at size
    have := resonance_pos f above below q_pos
    linarith
  refine ⟨_, Section.frequencyResponse_ofCoefficients _ _ _ _ _ b0_ne first nonzero, ?_⟩
  rw [norm_div, div_pow, sq_norm_poles, zeros, mul_div_mul_left _ _ (by norm_num)]

theorem sin_turn_div (fc : ℝ) (q_ne : q ≠ 0) :
    Real.sin (2 * Real.pi * fc / sampleRate) / (2 * q) = damping fc q := by
  rw [sin_turn, damping]
  field_simp

/-- The coefficients of a resonant lowpass. -/
theorem lowpass_real (q_pos : 0 < q) : Section.lowpass (real fc) (real q) =
    Section.ofCoefficients (real (Real.sin (halfAngle fc) ^ 2))
      (real (2 * Real.sin (halfAngle fc) ^ 2)) (real (Real.sin (halfAngle fc) ^ 2))
      (real (1 + damping fc q)) (real (-2 * (2 * Real.cos (halfAngle fc) ^ 2 - 1)))
      (real (1 - damping fc q)) := by
  have gain : 1 - Real.cos (2 * Real.pi * fc / sampleRate) = 2 * Real.sin (halfAngle fc) ^ 2 := by
    rw [cos_turn, Real.sin_sq]
    ring
  rw [Section.lowpass, Section.angularFrequency_real, real_cos, real_sin, real_one, real_two,
    real_neg, real_mul, real_mul, real_sub, real_div two_ne_zero,
    real_div (mul_ne_zero two_ne_zero q_pos.ne'), real_add, real_sub, sin_turn_div _ q_pos.ne',
    gain, mul_div_cancel_left₀ _ two_ne_zero, cos_turn]

/-- The coefficients of a resonant highpass. -/
theorem highpass_real (q_pos : 0 < q) : Section.highpass (real fc) (real q) =
    Section.ofCoefficients (real (Real.cos (halfAngle fc) ^ 2))
      (real (-(2 * Real.cos (halfAngle fc) ^ 2))) (real (Real.cos (halfAngle fc) ^ 2))
      (real (1 + damping fc q)) (real (-2 * (2 * Real.cos (halfAngle fc) ^ 2 - 1)))
      (real (1 - damping fc q)) := by
  have gain : 1 + Real.cos (2 * Real.pi * fc / sampleRate) = 2 * Real.cos (halfAngle fc) ^ 2 := by
    rw [cos_turn]
    ring
  rw [Section.highpass, Section.angularFrequency_real, real_cos, real_sin, real_one, real_two,
    real_neg, real_mul, real_mul, real_add, real_div two_ne_zero, real_neg,
    real_div (mul_ne_zero two_ne_zero q_pos.ne'), real_add, real_sub, sin_turn_div _ q_pos.ne',
    gain, mul_div_cancel_left₀ _ two_ne_zero, cos_turn]

theorem passes_lowpass (above : 0 < fc) (below : fc < nyquist) (q_pos : 0 < q) :
    Passes ((Section.lowpass (real fc) (real q)).frequencyResponse (real f))
      (passed fc f ^ 2 / resonance fc q f) := by
  rw [lowpass_real q_pos]
  refine passes_of_zeros f above below q_pos (pow_pos (sin_halfAngle_pos above below) 2).ne' ?_
  rw [Section.sq_norm_polynomial, cos_turn, passed]
  ring

theorem passes_highpass (above : 0 < fc) (below : fc < nyquist) (q_pos : 0 < q) :
    Passes ((Section.highpass (real fc) (real q)).frequencyResponse (real f))
      (stopped fc f ^ 2 / resonance fc q f) := by
  rw [highpass_real q_pos]
  refine passes_of_zeros f above below q_pos (pow_pos (cos_halfAngle_pos above below) 2).ne' ?_
  rw [Section.sq_norm_polynomial, cos_turn, stopped, mul_pow, Real.sin_sq]
  ring

/-! ## Sections of first order -/

theorem prewarp_real (above : 0 < fc) (below : fc < nyquist) :
    Section.prewarp (real fc) = real (Real.tan (halfAngle fc)) := by
  have nonzero : (sampleRate : ℝ) ≠ 0 := by norm_num [sampleRate]
  rw [Section.prewarp, real_pi, real_ofNat, real_mul, real_div nonzero]
  exact real_tan (cos_halfAngle_pos above below).ne'

theorem tan_halfAngle_pos (above : 0 < fc) (below : fc < nyquist) :
    0 < Real.tan (halfAngle fc) := by
  obtain ⟨low, high⟩ := halfAngle_bounds above below
  exact Real.tan_pos_of_pos_of_lt_pi_div_two low high

/-- The coefficients of a lowpass of first order. -/
theorem firstOrderLowpass_real (above : 0 < fc) (below : fc < nyquist) :
    Section.firstOrderLowpass (real fc) =
      Section.ofCoefficients (real (Real.tan (halfAngle fc))) (real (Real.tan (halfAngle fc)))
        (real 0) (real (1 + Real.tan (halfAngle fc))) (real (Real.tan (halfAngle fc) - 1))
        (real 0) := by
  rw [Section.firstOrderLowpass, prewarp_real above below, real_one, real_zero, real_add, real_sub]

/-- The coefficients of a highpass of first order. -/
theorem firstOrderHighpass_real (above : 0 < fc) (below : fc < nyquist) :
    Section.firstOrderHighpass (real fc) =
      Section.ofCoefficients (real 1) (real (-1)) (real 0) (real (1 + Real.tan (halfAngle fc)))
        (real (Real.tan (halfAngle fc) - 1)) (real 0) := by
  rw [Section.firstOrderHighpass, prewarp_real above below, real_one, real_zero, real_add, real_sub,
    real_neg]

theorem sq_norm_pole (above : 0 < fc) (below : fc < nyquist) (f : ℝ) :
    ‖((1 + Real.tan (halfAngle fc) : ℝ) : ℂ) + (Real.tan (halfAngle fc) - 1 : ℝ) * Section.turn f +
      (0 : ℝ) * Section.turn f ^ 2‖ ^ 2 =
        4 / Real.cos (halfAngle fc) ^ 2 * (passed fc f + stopped fc f) := by
  have cos_ne := (cos_halfAngle_pos above below).ne'
  have circle : Real.sin (halfAngle fc) ^ 2 = 1 - Real.cos (halfAngle fc) ^ 2 := Real.sin_sq _
  rw [Section.sq_norm_polynomial, cos_turn, passed, stopped, mul_pow,
    mul_pow (Real.sin (halfAngle f)), Real.sin_sq (halfAngle f), Real.tan_eq_sin_div_cos]
  field_simp
  ring

theorem passes_of_zero {b0 b1 part : ℝ} (above : 0 < fc) (below : fc < nyquist)
    (b0_ne : b0 ≠ 0)
    (zeros : ‖(b0 : ℂ) + b1 * Section.turn f + (0 : ℝ) * Section.turn f ^ 2‖ ^ 2 =
      4 / Real.cos (halfAngle fc) ^ 2 * part) :
    Passes ((Section.ofCoefficients (real b0) (real b1) (real 0)
      (real (1 + Real.tan (halfAngle fc))) (real (Real.tan (halfAngle fc) - 1))
      (real 0)).frequencyResponse (real f)) (part / (passed fc f + stopped fc f)) := by
  have cos_pos := cos_halfAngle_pos above below
  have tan_pos := tan_halfAngle_pos above below
  have scale : (4 / Real.cos (halfAngle fc) ^ 2) ≠ 0 := by positivity
  have nonzero : ((1 + Real.tan (halfAngle fc) : ℝ) : ℂ) + (Real.tan (halfAngle fc) - 1 : ℝ) *
      Section.turn f + (0 : ℝ) * Section.turn f ^ 2 ≠ 0 := by
    intro zero
    have size := sq_norm_pole above below f
    rw [zero, norm_zero, sq, zero_mul] at size
    exact mul_ne_zero scale (passed_add_stopped_pos f above below).ne' size.symm
  refine ⟨_, Section.frequencyResponse_ofCoefficients _ _ _ _ _ b0_ne (by positivity) nonzero, ?_⟩
  rw [norm_div, div_pow, sq_norm_pole above below, zeros, mul_div_mul_left _ _ scale]

theorem passes_firstOrderLowpass (above : 0 < fc) (below : fc < nyquist) :
    Passes ((Section.firstOrderLowpass (real fc)).frequencyResponse (real f))
      (passed fc f / (passed fc f + stopped fc f)) := by
  have cos_pos := cos_halfAngle_pos above below
  rw [firstOrderLowpass_real above below]
  refine passes_of_zero f above below (tan_halfAngle_pos above below).ne' ?_
  rw [Section.sq_norm_polynomial, cos_turn, passed, Real.tan_eq_sin_div_cos]
  field_simp
  ring

theorem passes_firstOrderHighpass (above : 0 < fc) (below : fc < nyquist) :
    Passes ((Section.firstOrderHighpass (real fc)).frequencyResponse (real f))
      (stopped fc f / (passed fc f + stopped fc f)) := by
  have cos_pos := cos_halfAngle_pos above below
  rw [firstOrderHighpass_real above below]
  refine passes_of_zero f above below one_ne_zero ?_
  rw [Section.sq_norm_polynomial, cos_turn, stopped, mul_pow, Real.sin_sq]
  field_simp
  ring

end Sections

/-! ## Poles -/

/-- The angle of the `k`-th pair of poles of a filter of order `n`. -/
noncomputable def poleAngle (n k : ℕ) : ℝ := Real.pi * (2 * k + 1 : ℕ) / (2 * n : ℕ)

theorem poleAngle_bounds {n k : ℕ} (pair : k < n / 2) :
    0 < poleAngle n k ∧ poleAngle n k < Real.pi := by
  have below : ((2 * k + 1 : ℕ) : ℝ) < (2 * n : ℕ) := by exact_mod_cast (by omega)
  have positive : (0 : ℝ) < (2 * n : ℕ) := by exact_mod_cast (by omega)
  have above : (0 : ℝ) < (2 * k + 1 : ℕ) := by exact_mod_cast (by omega)
  refine ⟨div_pos (mul_pos Real.pi_pos above) positive, ?_⟩
  rw [poleAngle, div_lt_iff₀ positive]
  exact mul_lt_mul_of_pos_left below Real.pi_pos

/-- The `k`-th of the numbers whose `n`-th power is -1. -/
noncomputable def negRoot (n k : ℕ) : ℂ := Complex.exp (poleAngle n k * Complex.I) ^ 2

theorem negRoot_eq (n k : ℕ) : negRoot n k = Complex.exp (2 * poleAngle n k * Complex.I) := by
  rw [negRoot, ← Complex.exp_nat_mul, Nat.cast_ofNat, mul_assoc]

theorem two_mul_poleAngle (n k : ℕ) : (2 * poleAngle n k : ℂ) = Real.pi * (2 * k + 1) / n := by
  rw [poleAngle]
  push_cast
  rw [← mul_div_assoc, mul_div_mul_left _ _ two_ne_zero]

theorem negRoot_reflect {n k : ℕ} (pair : k < n / 2) :
    negRoot n (n - 1 - k) = Complex.exp (-(2 * poleAngle n k * Complex.I)) := by
  have size_ne : (n : ℂ) ≠ 0 := by exact_mod_cast (by omega)
  have angle : (Real.pi * (2 * (n - 1 - k : ℕ) + 1) / n * Complex.I : ℂ) =
      -(Real.pi * (2 * k + 1) / n * Complex.I) + 2 * Real.pi * Complex.I := by
    rw [Nat.sub_sub, Nat.cast_sub (by omega)]
    push_cast
    field_simp
    ring
  rw [negRoot_eq, two_mul_poleAngle, two_mul_poleAngle, angle, Complex.exp_periodic]

theorem negRoot_middle {n : ℕ} (odd : n % 2 = 1) : negRoot n (n / 2) = -1 := by
  have size_ne : (n : ℂ) ≠ 0 := by exact_mod_cast (by omega)
  have size : (n : ℂ) = 2 * (n / 2 : ℕ) + 1 := by exact_mod_cast (by omega)
  rw [negRoot_eq, two_mul_poleAngle, ← size, mul_div_cancel_right₀ _ size_ne,
    Complex.exp_pi_mul_I]

theorem pow_add_pow_eq_prod {n : ℕ} (positive : 0 < n) (x y : ℂ) :
    x ^ n + y ^ n = ∏ k ∈ Finset.range n, (x - negRoot n k * y) := by
  have size_ne : (n : ℂ) ≠ 0 := by exact_mod_cast positive.ne'
  have first : (negRoot n 0 * y) ^ n = -y ^ n := by
    have turn : (n : ℂ) * (Real.pi * (2 * (0 : ℕ) + 1) / n * Complex.I) =
        Real.pi * Complex.I := by
      push_cast
      field_simp
      ring
    rw [negRoot_eq, two_mul_poleAngle, mul_pow, ← Complex.exp_nat_mul, turn, Complex.exp_pi_mul_I,
      neg_one_mul]
  have factors := congrArg (Polynomial.eval x)
    (X_pow_sub_C_eq_prod (Complex.isPrimitiveRoot_exp n positive.ne') positive first)
  rw [Polynomial.eval_prod] at factors
  simp only [Polynomial.eval_sub, Polynomial.eval_pow, Polynomial.eval_X, Polynomial.eval_C,
    sub_neg_eq_add] at factors
  rw [factors]
  refine Finset.prod_congr rfl fun k _ => ?_
  rw [negRoot_eq, negRoot_eq, two_mul_poleAngle, two_mul_poleAngle, ← mul_assoc,
    ← Complex.exp_nat_mul, ← Complex.exp_add]
  congr 4
  push_cast
  ring

/-- The factors of two conjugate roots. -/
theorem mul_conj_factor {n k : ℕ} (pair : k < n / 2) (x y : ℝ) :
    ((x : ℂ) - negRoot n k * y) * (x - negRoot n (n - 1 - k) * y) =
      (((x - y) ^ 2 + 4 * (x * y) * Real.sin (poleAngle n k) ^ 2 : ℝ) : ℂ) := by
  have point := negRoot_eq n k
  have point' := negRoot_reflect pair
  generalize negRoot n k = w at point
  generalize negRoot n (n - 1 - k) = w' at point'
  have product : w * w' = 1 := by
    rw [point, point', ← Complex.exp_add, add_neg_cancel, Complex.exp_zero]
  have sum : w + w' = 2 - 4 * Complex.sin (poleAngle n k) ^ 2 := by
    have double := Complex.two_cos (2 * poleAngle n k : ℂ)
    rw [Complex.cos_two_mul, Complex.cos_sq'] at double
    rw [point, point', ← neg_mul, ← double]
    ring
  push_cast
  linear_combination (y : ℂ) ^ 2 * product - x * y * sum

/-- The powers of two numbers add up to a product over the pairs of poles. -/
theorem prod_poles {n : ℕ} (positive : 0 < n) (x y : ℝ) :
    (∏ k ∈ Finset.range (n / 2), ((x - y) ^ 2 + 4 * (x * y) * Real.sin (poleAngle n k) ^ 2)) *
      (if n % 2 = 1 then x + y else 1) = x ^ n + y ^ n := by
  have pairs (k : ℕ) (member : k ∈ Finset.range (n / 2)) :=
    mul_conj_factor (Finset.mem_range.mp member) x y
  rw [← Complex.ofReal_inj, Complex.ofReal_mul, Complex.ofReal_prod, ← Finset.prod_congr rfl pairs]
  push_cast
  rw [pow_add_pow_eq_prod positive, prod_range_eq_prod_pairs (fun k => (x : ℂ) - negRoot n k * y) n]
  refine congrArg _ ?_
  split
  · rename_i odd
    rw [negRoot_middle odd, neg_one_mul, sub_neg_eq_add]
    push_cast
    rfl
  · exact Complex.ofReal_one

/-! ## Filters -/

theorem pairQuality_real {n k : ℕ} (pair : k < n / 2) :
    pairQuality n k = real (1 / (2 * Real.sin (poleAngle n k))) := by
  have size : ((2 * n : ℕ) : ℝ) ≠ 0 := by exact_mod_cast (by omega)
  have sin_pos := Real.sin_pos_of_pos_of_lt_pi (poleAngle_bounds pair).1 (poleAngle_bounds pair).2
  have angle : Real.pi * ((2 * k + 1 : ℕ) : ℝ) / (2 * n : ℕ) = poleAngle n k := rfl
  rw [pairQuality, real_pi, real_ofNat, real_ofNat, real_mul, real_div size, real_sin, real_two,
    real_mul, real_one, angle, real_div (mul_pos two_pos sin_pos).ne']

/-- A pair of poles weakens by one of the factors of a sum of powers. -/
theorem resonance_quality {n k : ℕ} (pair : k < n / 2) (fc f : ℝ) :
    resonance fc (1 / (2 * Real.sin (poleAngle n k))) f =
      (passed fc f - stopped fc f) ^ 2 +
        4 * (passed fc f * stopped fc f) * Real.sin (poleAngle n k) ^ 2 := by
  have sin_pos := Real.sin_pos_of_pos_of_lt_pi (poleAngle_bounds pair).1 (poleAngle_bounds pair).2
  rw [resonance]
  field_simp
  ring

section Filters

variable {n : ℕ} {fc : ℝ}

/-- A cascade of a resonant section for each pair of poles and, if the order is odd, one more. -/
theorem passes_cascade (positive : 0 < n) {pair : Exact → Section Exact} {single : Section Exact}
    {part f : ℝ}
    (pairs : ∀ q, 0 < q →
      Passes ((pair (real q)).frequencyResponse (real f)) (part ^ 2 / resonance fc q f))
    (alone : Passes (single.frequencyResponse (real f)) (part / (passed fc f + stopped fc f))) :
    Passes ((cascade pair single n).frequencyResponse (real f))
      (part ^ n / (passed fc f ^ n + stopped fc f ^ n)) := by
  let weight (k : ℕ) : ℝ := (passed fc f - stopped fc f) ^ 2 +
    4 * (passed fc f * stopped fc f) * Real.sin (poleAngle n k) ^ 2
  have resonant : List.Forall₂ (fun s p => Passes (s.frequencyResponse (real f)) p)
      ((pairQualities n).map pair) ((List.range (n / 2)).map fun k => part ^ 2 / weight k) := by
    rw [pairQualities, List.map_map, List.forall₂_map_left_iff, List.forall₂_map_right_iff,
      List.forall₂_same]
    intro k member
    have below := List.mem_range.mp member
    have sin_pos := Real.sin_pos_of_pos_of_lt_pi (poleAngle_bounds below).1
      (poleAngle_bounds below).2
    have passes := pairs _ (one_div_pos.mpr (mul_pos two_pos sin_pos))
    rwa [resonance_quality below, ← pairQuality_real below] at passes
  have product : ((List.range (n / 2)).map fun k => part ^ 2 / weight k).prod =
      (part ^ 2) ^ (n / 2) / ∏ k ∈ Finset.range (n / 2), weight k := by
    calc ((List.range (n / 2)).map fun k => part ^ 2 / weight k).prod
        = ∏ k ∈ Finset.range (n / 2), part ^ 2 / weight k := rfl
      _ = (part ^ 2) ^ (n / 2) / ∏ k ∈ Finset.range (n / 2), weight k := by
        rw [Finset.prod_div_distrib, Finset.prod_const, Finset.card_range]
  have weights := prod_poles positive (passed fc f) (stopped fc f)
  rw [cascade]
  by_cases odd : n % 2 = 1
  · rw [if_pos odd] at weights ⊢
    have all := Cascade.passes_of_sections (List.rel_append resonant (.cons alone .nil))
    have parts : (part ^ 2) ^ (n / 2) * part = part ^ n := by
      rw [← pow_mul, ← pow_succ]
      congr 1
      omega
    rwa [List.prod_append, product, List.prod_singleton, div_mul_div_comm, parts, weights] at all
  · rw [if_neg odd] at weights ⊢
    have all := Cascade.passes_of_sections resonant
    have parts : (part ^ 2) ^ (n / 2) = part ^ n := by
      rw [← pow_mul]
      congr 1
      omega
    rw [mul_one] at weights
    rwa [product, parts, weights] at all

/-- Without a fault, the order is positive and the cutoff is a number in the range. -/
theorem inside_of_cutoffFault? {cutoff : Exact} (accepted : cutoffFault? n cutoff = none) :
    0 < n ∧ ∃ fc, cutoff = real fc ∧ 0 < fc ∧ fc < nyquist := by
  obtain ⟨nonzero, above, below⟩ := cutoffFault?_eq_none_iff.mp accepted
  obtain ⟨fc, rfl⟩ := exists_real_of_lt above
  rw [real_zero] at above
  exact ⟨Nat.pos_of_ne_zero nonzero, fc, rfl, above, below⟩

variable (above : 0 < fc) (below : fc < nyquist)
include above below

theorem cutoffFault?_real (positive : 0 < n) : cutoffFault? n (real fc) = none :=
  cutoffFault?_eq_none_iff.mpr ⟨positive.ne', by rwa [real_zero, real_lt], below⟩

/-- There is a lowpass of every order, and it passes its share of the power at every frequency. -/
theorem exists_lowpass (positive : 0 < n) : ∃ low, lowpass n (real fc) = .ok low ∧
    ∀ f, Passes (low.frequencyResponse (real f))
      (passed fc f ^ n / (passed fc f ^ n + stopped fc f ^ n)) := by
  refine ⟨_, by rw [lowpass, cutoffFault?_real above below positive], fun f => ?_⟩
  exact passes_cascade positive (fun q q_pos => passes_lowpass f above below q_pos)
    (passes_firstOrderLowpass f above below)

/-- There is a highpass of every order, and it passes its share of the power at every frequency. -/
theorem exists_highpass (positive : 0 < n) : ∃ high, highpass n (real fc) = .ok high ∧
    ∀ f, Passes (high.frequencyResponse (real f))
      (stopped fc f ^ n / (passed fc f ^ n + stopped fc f ^ n)) := by
  refine ⟨_, by rw [highpass, cutoffFault?_real above below positive], fun f => ?_⟩
  exact passes_cascade positive (fun q q_pos => passes_highpass f above below q_pos)
    (passes_firstOrderHighpass f above below)

end Filters

/-! ## The law of the magnitudes -/

/-- How far a frequency is from a corner once both are warped to analog frequencies. -/
noncomputable def relative (fc f : ℝ) : ℝ := Real.tan (halfAngle f) / Real.tan (halfAngle fc)

section Law

variable {fc f : ℝ} (n : ℕ) (above : 0 < fc) (below : fc < nyquist)
include above below

theorem stopped_eq (inside : Real.cos (halfAngle f) ≠ 0) :
    stopped fc f = relative fc f ^ 2 * passed fc f := by
  have sin_ne := (sin_halfAngle_pos above below).ne'
  have cos_ne := (cos_halfAngle_pos above below).ne'
  rw [stopped, relative, passed, Real.tan_eq_sin_div_cos, Real.tan_eq_sin_div_cos]
  field_simp

/-- The shares of the power below the highest frequency. -/
theorem shares_eq (inside : Real.cos (halfAngle f) ≠ 0) :
    passed fc f ^ n / (passed fc f ^ n + stopped fc f ^ n) = 1 / (1 + relative fc f ^ (2 * n)) ∧
      stopped fc f ^ n / (passed fc f ^ n + stopped fc f ^ n) =
        relative fc f ^ (2 * n) / (1 + relative fc f ^ (2 * n)) := by
  have passed_ne : passed fc f ^ n ≠ 0 :=
    pow_ne_zero n (pow_ne_zero 2 (mul_ne_zero inside (sin_halfAngle_pos above below).ne'))
  have whole : passed fc f ^ n + stopped fc f ^ n =
      (1 + relative fc f ^ (2 * n)) * passed fc f ^ n := by
    rw [stopped_eq above below inside, mul_pow, ← pow_mul]
    ring
  constructor
  · rw [whole, div_mul_cancel_right₀ passed_ne, one_div]
  · rw [whole, stopped_eq above below inside, mul_pow, ← pow_mul, mul_div_mul_right _ _ passed_ne]

end Law

theorem cos_halfAngle_ne_zero {f : ℝ} (nonneg : 0 ≤ f) (small : f < nyquist) :
    Real.cos (halfAngle f) ≠ 0 := by
  rcases nonneg.eq_or_lt with rfl | positive
  · rw [halfAngle, mul_zero, zero_div, Real.cos_zero]
    exact one_ne_zero
  · exact (cos_halfAngle_pos positive small).ne'

theorem halfAngle_nyquist : halfAngle nyquist = Real.pi / 2 := by
  norm_num [halfAngle, nyquist, sampleRate]
  ring

theorem passed_nyquist (fc : ℝ) : passed fc nyquist = 0 := by
  rw [passed, halfAngle_nyquist, Real.cos_pi_div_two, zero_mul, sq, zero_mul]

theorem stopped_nyquist_pos {fc : ℝ} (above : 0 < fc) (below : fc < nyquist) :
    0 < stopped fc nyquist := by
  have cos_pos := cos_halfAngle_pos above below
  rw [stopped, halfAngle_nyquist, Real.sin_pi_div_two, one_mul]
  positivity

/-- A corner is where as much of the power is passed as is stopped. -/
theorem stopped_corner (fc : ℝ) : stopped fc fc = passed fc fc := by
  rw [stopped, passed, mul_comm]

theorem sqrt_share_corner {fc : ℝ} (n : ℕ) (above : 0 < fc) (below : fc < nyquist) :
    Real.sqrt (passed fc fc ^ n / (passed fc fc ^ n + stopped fc fc ^ n)) = 1 / Real.sqrt 2 := by
  have sin_pos := sin_halfAngle_pos above below
  have cos_pos := cos_halfAngle_pos above below
  have passed_pos : 0 < passed fc fc ^ n := pow_pos (pow_pos (mul_pos cos_pos sin_pos) 2) n
  rw [stopped_corner, ← two_mul, div_mul_cancel_right₀ passed_pos.ne', Real.sqrt_inv, one_div]

/-- A Butterworth filter of any order exists at every corner, and its magnitudes follow one law. -/
theorem magnitudes_of_order {n : ℕ} (positive : 0 < n) {fc : ℝ} (above : 0 < fc)
    (below : fc < nyquist) :
    ∃ low high : Cascade Exact,
      lowpass n (real fc) = .ok low ∧ highpass n (real fc) = .ok high ∧
      (∀ f : ℝ, 0 ≤ f → f < nyquist →
        (low.frequencyResponse (real f)).normSq = real (1 / (1 + relative fc f ^ (2 * n))) ∧
        (high.frequencyResponse (real f)).normSq =
          real (relative fc f ^ (2 * n) / (1 + relative fc f ^ (2 * n)))) ∧
      (low.frequencyResponse (real nyquist)).normSq = real 0 ∧
      (high.frequencyResponse (real nyquist)).normSq = real 1 ∧
      (low.frequencyResponse (real fc)).norm = real (1 / Real.sqrt 2) ∧
      (high.frequencyResponse (real fc)).norm = real (1 / Real.sqrt 2) := by
  obtain ⟨low, lowMade, lowPasses⟩ := exists_lowpass above below positive
  obtain ⟨high, highMade, highPasses⟩ := exists_highpass above below positive
  refine ⟨low, high, lowMade, highMade, fun f nonneg small => ?_, ?_, ?_, ?_, ?_⟩
  · obtain ⟨lowShare, highShare⟩ := shares_eq n above below (cos_halfAngle_ne_zero nonneg small)
    rw [(lowPasses f).normSq_eq, (highPasses f).normSq_eq, lowShare, highShare]
    exact ⟨rfl, rfl⟩
  · rw [(lowPasses nyquist).normSq_eq, passed_nyquist, zero_pow positive.ne', zero_div]
  · rw [(highPasses nyquist).normSq_eq, passed_nyquist, zero_pow positive.ne', zero_add,
      div_self (pow_ne_zero n (stopped_nyquist_pos above below).ne')]
  · rw [(lowPasses fc).norm_eq, sqrt_share_corner n above below]
  · have share := sqrt_share_corner n above below
    rw [stopped_corner] at share
    rw [(highPasses fc).norm_eq, stopped_corner, share]

/-- Order 3 with the corner at a quarter of the sample rate; at a third of it, the square of the
relative frequency is 3. -/
theorem magnitudes_of_order_three :
    0 < 3 ∧ (0 : ℝ) < 11025 ∧ (11025 : ℝ) < nyquist ∧
      ∃ low high : Cascade Exact,
        lowpass 3 (real 11025) = .ok low ∧ highpass 3 (real 11025) = .ok high ∧
        (low.frequencyResponse (real 14700)).normSq = real (1 / 28) ∧
        (high.frequencyResponse (real 14700)).normSq = real (27 / 28) ∧
        (low.frequencyResponse (real 11025)).norm = real (1 / Real.sqrt 2) := by
  have bounds : (0 : ℝ) < 11025 ∧ (11025 : ℝ) < nyquist ∧ (14700 : ℝ) < nyquist := by
    norm_num [nyquist, sampleRate]
  obtain ⟨above, below, small⟩ := bounds
  have quarter : halfAngle 11025 = Real.pi / 4 := by
    norm_num [halfAngle, sampleRate]
    ring
  have third : halfAngle 14700 = Real.pi / 3 := by
    norm_num [halfAngle, sampleRate]
    ring
  have distance : relative 11025 14700 ^ (2 * 3) = 27 := by
    rw [relative, quarter, third, Real.tan_pi_div_three, Real.tan_pi_div_four, div_one, pow_mul,
      Real.sq_sqrt (by norm_num)]
    norm_num
  obtain ⟨low, high, lowMade, highMade, law, -, -, corner, -⟩ :=
    magnitudes_of_order (show 0 < 3 by decide) above below
  obtain ⟨lowShare, highShare⟩ := law 14700 (by norm_num) small
  rw [distance] at lowShare highShare
  refine ⟨by decide, above, below, low, high, lowMade, highMade, ?_, ?_, corner⟩
  · rw [lowShare]
    norm_num
  · rw [highShare]
    norm_num

end Butterworth

end Binaural
