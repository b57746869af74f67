import Binaural.Filter.Cascade
import Binaural.Proofs.Exact

/-!
Frequency responses in exact arithmetic.

A frequency stands for a point of the unit circle (`Section.turn`). A section responds with the
quotient of its two polynomials there (`Section.frequencyResponse_ofCoefficients`), and a cascade
with the product of what its sections respond. `Passes` is what remains of a response without its
phase: the part of the power that comes through. Parts multiply along a cascade
(`Cascade.passes_of_sections`).
-/

namespace Binaural

open Exact

namespace Section

/-- The point of the unit circle, as `z⁻¹`, that a frequency stands for. -/
noncomputable def turn (f : ℝ) : ℂ := Real.fourierChar (-(f / sampleRate))

theorem turn_eq (f : ℝ) :
    turn f = Complex.exp ((-(2 * Real.pi * f / sampleRate) : ℝ) * Complex.I) := by
  have angle : 2 * Real.pi * -(f / sampleRate) = -(2 * Real.pi * f / sampleRate) := by ring
  rw [turn, Real.fourierChar_apply, angle]

theorem turn_re (f : ℝ) : (turn f).re = Real.cos (2 * Real.pi * f / sampleRate) := by
  rw [turn_eq, Complex.exp_ofReal_mul_I_re, Real.cos_neg]

theorem turn_im (f : ℝ) : (turn f).im = -Real.sin (2 * Real.pi * f / sampleRate) := by
  rw [turn_eq, Complex.exp_ofReal_mul_I_im, Real.sin_neg]

theorem angularFrequency_real (f : ℝ) :
    angularFrequency (real f) = real (2 * Real.pi * f / sampleRate) := by
  have nonzero : (sampleRate : ℝ) ≠ 0 := by norm_num [sampleRate]
  rw [angularFrequency, real_two, real_pi, real_ofNat, real_mul, real_mul, real_div nonzero]

theorem delayAt_real (f : ℝ) : delayAt (real f) = ofComplex (turn f) := by
  have polar : Complex.polar 1 (angularFrequency (real f)) = ofComplex (turn f)⁻¹ := by
    rw [angularFrequency_real, Complex.polar, real_cos, real_sin, real_one, real_mul, real_mul,
      one_mul, one_mul, turn_eq, ← Complex.exp_neg, ← neg_mul, ← Complex.ofReal_neg, neg_neg,
      ofComplex, Complex.exp_ofReal_mul_I_re, Complex.exp_ofReal_mul_I_im]
  have nonzero : (turn f)⁻¹ ≠ 0 := inv_ne_zero (Circle.coe_ne_zero _)
  rw [delayAt, polar, real_one, ← ofComplex_real, ofComplex_div _ nonzero, Complex.ofReal_one,
    one_div, inv_inv]

/-! ## Sections -/

theorem turn_on_circle (f : ℝ) : (turn f).re ^ 2 + (turn f).im ^ 2 = 1 := by
  rw [turn_re, turn_im, neg_sq, Real.cos_sq_add_sin_sq]

/-- The distance from 0 of a polynomial of degree two at a point of the unit circle. -/
theorem sq_norm_polynomial (p q r f : ℝ) :
    ‖(p : ℂ) + q * turn f + r * turn f ^ 2‖ ^ 2 =
      p ^ 2 + q ^ 2 + r ^ 2 + 2 * q * (p + r) * Real.cos (2 * Real.pi * f / sampleRate)
        + 2 * p * r * (2 * Real.cos (2 * Real.pi * f / sampleRate) ^ 2 - 1) := by
  have circle := turn_on_circle f
  rw [← turn_re, Complex.sq_norm, Complex.normSq_apply]
  generalize turn f = z at circle
  simp only [Complex.add_re, Complex.add_im, Complex.mul_re, Complex.mul_im, Complex.ofReal_re,
    Complex.ofReal_im, sq, zero_mul, sub_zero, add_zero, zero_add]
  linear_combination
    (q ^ 2 + r ^ 2 * (z.re ^ 2 + z.im ^ 2 + 1) + 2 * q * r * z.re - 2 * p * r) * circle

/-- A section responds with its gain times the quotient of its two polynomials. -/
theorem frequencyResponse_real (gain b1 b2 : ℝ) {a1 a2 f : ℝ}
    (nonzero : (1 : ℂ) + a1 * turn f + a2 * turn f ^ 2 ≠ 0) :
    (⟨real gain, real b1, real b2, real a1, real a2⟩ : Section Exact).frequencyResponse (real f) =
      ofComplex (gain * (1 + b1 * turn f + b2 * turn f ^ 2) /
        (1 + a1 * turn f + a2 * turn f ^ 2)) := by
  have polynomial (p q : ℝ) : (1 : ℂ) + turn f * p + turn f * turn f * q =
      1 + p * turn f + q * turn f ^ 2 := by
    ring
  rw [frequencyResponse, delayAt_real, transfer]
  dsimp only
  rw [real_one, ← ofComplex_real, ofComplex_mul, ofComplex_scale, ofComplex_scale, ofComplex_scale,
    ofComplex_scale, ofComplex_add, ofComplex_add, ofComplex_add, ofComplex_add, ofComplex_scale,
    Complex.ofReal_one, polynomial, polynomial, ofComplex_div _ nonzero, mul_comm (gain : ℂ)]

/-- A section responds with the quotient of the polynomials that it is made of. -/
theorem frequencyResponse_ofCoefficients {b0 a0 : ℝ} (b1 b2 a1 a2 f : ℝ) (b0_ne : b0 ≠ 0)
    (a0_ne : a0 ≠ 0) (nonzero : (a0 : ℂ) + a1 * turn f + a2 * turn f ^ 2 ≠ 0) :
    (ofCoefficients (real b0) (real b1) (real b2) (real a0) (real a1) (real a2)).frequencyResponse
        (real f) =
      ofComplex ((b0 + b1 * turn f + b2 * turn f ^ 2) / (a0 + a1 * turn f + a2 * turn f ^ 2)) := by
  have b0_ne' : (b0 : ℂ) ≠ 0 := Complex.ofReal_ne_zero.mpr b0_ne
  have a0_ne' : (a0 : ℂ) ≠ 0 := Complex.ofReal_ne_zero.mpr a0_ne
  have lower : (1 : ℂ) + (a1 / a0 : ℝ) * turn f + (a2 / a0 : ℝ) * turn f ^ 2 =
      (a0 + a1 * turn f + a2 * turn f ^ 2) / a0 := by
    push_cast
    field_simp
  have upper : ((b0 / a0 : ℝ) : ℂ) * (1 + (b1 / b0 : ℝ) * turn f + (b2 / b0 : ℝ) * turn f ^ 2) =
      (b0 + b1 * turn f + b2 * turn f ^ 2) / a0 := by
    push_cast
    field_simp
  have nonzero' : (1 : ℂ) + (a1 / a0 : ℝ) * turn f + (a2 / a0 : ℝ) * turn f ^ 2 ≠ 0 := by
    rw [lower]
    exact div_ne_zero nonzero a0_ne'
  rw [ofCoefficients, real_div a0_ne, real_div b0_ne, real_div b0_ne, real_div a0_ne,
    real_div a0_ne, frequencyResponse_real _ _ _ nonzero', upper, lower,
    div_div_div_cancel_right₀ a0_ne']

end Section

/-! ## Power -/

/-- A response that passes a part of the power. -/
def Passes (z : Complex Exact) (p : ℝ) : Prop := ∃ h : ℂ, z = ofComplex h ∧ ‖h‖ ^ 2 = p

namespace Passes

variable {z w : Complex Exact} {p q : ℝ}

theorem mul (passes : Passes z p) (passes' : Passes w q) : Passes (z * w) (p * q) := by
  obtain ⟨h, rfl, rfl⟩ := passes
  obtain ⟨h', rfl, rfl⟩ := passes'
  exact ⟨h * h', ofComplex_mul h h', by rw [norm_mul, mul_pow]⟩

theorem normSq_eq (passes : Passes z p) : z.normSq = real p := by
  obtain ⟨h, rfl, rfl⟩ := passes
  exact normSq_ofComplex h

theorem norm_eq (passes : Passes z p) : z.norm = real (Real.sqrt p) := by
  obtain ⟨h, rfl, rfl⟩ := passes
  rw [norm_ofComplex, Real.sqrt_sq (norm_nonneg h)]

end Passes

/-- The responses of sections that follow each other multiply. -/
theorem Cascade.passes_of_sections {f : ℝ} {sections : List (Section Exact)} {parts : List ℝ}
    (passes : List.Forall₂ (fun s p => Passes (s.frequencyResponse (real f)) p) sections parts) :
    Passes ((⟨sections⟩ : Cascade Exact).frequencyResponse (real f)) parts.prod := by
  have onto {z : Complex Exact} {p : ℝ} (before : Passes z p) :
      Passes (sections.foldl (fun product s => product * s.frequencyResponse (real f)) z)
        (p * parts.prod) := by
    induction passes generalizing z p with
    | nil => simpa using before
    | cons head _ ih =>
        rw [List.foldl_cons, List.prod_cons, ← mul_assoc]
        exact ih (before.mul head)
  have unit : Passes (Complex.ofReal (1 : Exact)) 1 := by
    refine ⟨1, ?_, ?_⟩
    · rw [real_one, ← ofComplex_real, Complex.ofReal_one]
    · rw [norm_one, one_pow]
  have all := onto unit
  rwa [one_mul] at all

end Binaural
