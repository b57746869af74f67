import Binaural.Proofs.LeastOrder

/-!
The stability of Butterworth filters.

The recursion of a section dies out if the poles of its transfer function lie inside of the unit
circle, and that is so if its two coefficients lie inside of a triangle
(`Section.norm_lt_one_of_pole`). Damping keeps the coefficients of a resonant section there, at
every corner inside of the range and at every quality (`Butterworth.stable_lowpass`,
`Butterworth.stable_highpass`). So all filters that are designed are stable
(`Butterworth.sections_of_designs`), and they have as few sections as their order allows.
-/

namespace Binaural

open Exact

namespace Section

/-- Neither of the two polynomials of a section reaches back by two samples. -/
def isFirstOrder {α : Type} [Scalar α] (s : Section α) : Bool := s.b2 == 0 && s.a2 == 0

/-- The poles of a section lie inside of the unit circle, as its coefficients lie inside of a
triangle. -/
structure Stable (s : Section Exact) (a1 a2 : ℝ) : Prop where
  a1_eq : s.a1 = real a1
  a2_eq : s.a2 = real a2
  a2_bound : |a2| < 1
  a1_bound : |a1| < 1 + a2
  poles : ∀ z : ℂ, z ^ 2 + a1 * z + a2 = 0 → ‖z‖ < 1

/-! ## Poles -/

/-- Real poles of the triangle lie between -1 and 1. -/
theorem abs_lt_one_of_pole {a1 a2 x : ℝ} (a2_bound : |a2| < 1) (a1_bound : |a1| < 1 + a2)
    (pole : x ^ 2 + a1 * x + a2 = 0) : |x| < 1 := by
  by_contra outside
  have far : 1 ≤ |x| := not_lt.mp outside
  have below := (abs_lt.mp a2_bound).2
  have product : -(a1 * x) ≤ |a1| * |x| := by
    rw [← abs_mul]
    exact neg_le_abs _
  have square : |x| ^ 2 = x ^ 2 := sq_abs x
  have less : |a1| * |x| < (1 + a2) * |x| := mul_lt_mul_of_pos_right a1_bound (by linarith)
  -- the polynomial is positive there: it is more than the product of the distances to 1 and `a2`
  nlinarith [mul_nonneg (sub_nonneg.mpr far) (show 0 ≤ |x| - a2 by linarith)]

theorem norm_lt_one_of_pole {a1 a2 : ℝ} (a2_bound : |a2| < 1) (a1_bound : |a1| < 1 + a2) {z : ℂ}
    (pole : z ^ 2 + a1 * z + a2 = 0) : ‖z‖ < 1 := by
  obtain ⟨real_part, imaginary_part⟩ := Complex.ext_iff.mp pole
  simp only [sq, Complex.add_re, Complex.mul_re, Complex.ofReal_re, Complex.ofReal_im,
    Complex.zero_re, zero_mul, sub_zero] at real_part
  simp only [sq, Complex.add_im, Complex.mul_im, Complex.ofReal_re, Complex.ofReal_im,
    Complex.zero_im, zero_mul, add_zero] at imaginary_part
  rcases eq_or_ne z.im 0 with on_axis | off_axis
  · rw [on_axis, mul_zero, sub_zero, ← sq] at real_part
    have inside := abs_lt_one_of_pole a2_bound a1_bound real_part
    rwa [← Complex.abs_re_eq_norm.mpr on_axis]
  · -- the other pole is the conjugate one, so `a2` is the square of the distance from 0
    have middle : a1 = -2 * z.re := by
      have factor : z.im * (2 * z.re + a1) = 0 := by linarith
      rcases mul_eq_zero.mp factor with zero | sum
      · exact absurd zero off_axis
      · linarith
    have distance : ‖z‖ ^ 2 = a2 := by
      rw [Complex.sq_norm, Complex.normSq_apply]
      rw [middle] at real_part
      linarith
    have less : ‖z‖ ^ 2 < 1 := distance ▸ (abs_lt.mp a2_bound).2
    exact (sq_lt_one_iff₀ (norm_nonneg z)).mp less

theorem stable_of_bounds {s : Section Exact} {a1 a2 : ℝ} (a1_eq : s.a1 = real a1)
    (a2_eq : s.a2 = real a2) (a2_bound : |a2| < 1) (a1_bound : |a1| < 1 + a2) : s.Stable a1 a2 :=
  ⟨a1_eq, a2_eq, a2_bound, a1_bound, fun _ => norm_lt_one_of_pole a2_bound a1_bound⟩

end Section

namespace Butterworth

/-! ## Sections -/

section Sections

variable {fc q : ℝ}

/-- A section with any damping and any angle between its poles, and any zeros. -/
theorem exists_stable_of_damping {b0 b1 b2 d c : ℝ} (damped : 0 < d) (angle : |c| < 1) :
    ∃ a1 a2, (Section.ofCoefficients (real b0) (real b1) (real b2) (real (1 + d)) (real (-2 * c))
      (real (1 - d))).Stable a1 a2 := by
  have positive : 0 < 1 + d := by linarith
  refine ⟨_, _, Section.stable_of_bounds (real_div positive.ne') (real_div positive.ne') ?_ ?_⟩
  · rw [abs_div, abs_of_pos positive, div_lt_one positive, abs_lt]
    constructor
    · linarith
    · linarith
  · have whole : 1 + (1 - d) / (1 + d) = 2 / (1 + d) := by
      field_simp
      ring
    have size : |(-2 : ℝ)| = 2 := by norm_num
    rw [whole, abs_div, abs_of_pos positive, div_lt_div_iff_of_pos_right positive, abs_mul, size]
    linarith

/-- A section with one pole between -1 and 1, and any zero. -/
theorem exists_stable_of_pole {b0 b1 k : ℝ} (positive : 0 < k) :
    ∃ a1 a2, (Section.ofCoefficients (real b0) (real b1) (real 0) (real (1 + k)) (real (k - 1))
      (real 0)).Stable a1 a2 := by
  have above : 0 < 1 + k := by linarith
  refine ⟨_, _, Section.stable_of_bounds (real_div above.ne') (real_div above.ne') ?_ ?_⟩
  · rw [zero_div, abs_zero]
    exact one_pos
  · rw [zero_div, add_zero, abs_div, abs_of_pos above, div_lt_one above, abs_lt]
    constructor
    · linarith
    · linarith

/-- A section has no second delay if both of its polynomials have none. -/
theorem isFirstOrder_ofCoefficients {b0 b1 b2 a0 a1 a2 : ℝ} (b0_ne : b0 ≠ 0) (a0_ne : a0 ≠ 0) :
    (Section.ofCoefficients (real b0) (real b1) (real b2) (real a0) (real a1)
      (real a2)).isFirstOrder = true ↔ b2 = 0 ∧ a2 = 0 := by
  rw [Section.isFirstOrder, Section.ofCoefficients, Bool.and_eq_true, real_zero]
  dsimp only
  rw [real_div b0_ne, real_div a0_ne, real_beq, real_beq, div_eq_zero_iff, div_eq_zero_iff,
    or_iff_left b0_ne, or_iff_left a0_ne]

variable (above : 0 < fc) (below : fc < nyquist)
include above below

theorem abs_cos_turn_lt_one : |2 * Real.cos (halfAngle fc) ^ 2 - 1| < 1 := by
  have sin_pos := sin_halfAngle_pos above below
  have cos_pos := cos_halfAngle_pos above below
  have circle := Real.sin_sq_add_cos_sq (halfAngle fc)
  rw [abs_lt]
  constructor
  · nlinarith
  · nlinarith

theorem stable_lowpass (q_pos : 0 < q) :
    (∃ a1 a2, (Section.lowpass (real fc) (real q)).Stable a1 a2) ∧
      ¬ (Section.lowpass (real fc) (real q)).isFirstOrder = true := by
  have damped := damping_pos above below q_pos
  have gain := (pow_pos (sin_halfAngle_pos above below) 2).ne'
  rw [lowpass_real q_pos, isFirstOrder_ofCoefficients gain (by linarith)]
  exact ⟨exists_stable_of_damping damped (abs_cos_turn_lt_one above below), fun none => gain none.1⟩

theorem stable_highpass (q_pos : 0 < q) :
    (∃ a1 a2, (Section.highpass (real fc) (real q)).Stable a1 a2) ∧
      ¬ (Section.highpass (real fc) (real q)).isFirstOrder = true := by
  have damped := damping_pos above below q_pos
  have gain := (pow_pos (cos_halfAngle_pos above below) 2).ne'
  rw [highpass_real q_pos, isFirstOrder_ofCoefficients gain (by linarith)]
  exact ⟨exists_stable_of_damping damped (abs_cos_turn_lt_one above below), fun none => gain none.1⟩

theorem stable_firstOrderLowpass :
    (∃ a1 a2, (Section.firstOrderLowpass (real fc)).Stable a1 a2) ∧
      (Section.firstOrderLowpass (real fc)).isFirstOrder = true := by
  have tan_pos := tan_halfAngle_pos above below
  rw [firstOrderLowpass_real above below,
    isFirstOrder_ofCoefficients tan_pos.ne' (add_pos one_pos tan_pos).ne']
  exact ⟨exists_stable_of_pole tan_pos, rfl, rfl⟩

theorem stable_firstOrderHighpass :
    (∃ a1 a2, (Section.firstOrderHighpass (real fc)).Stable a1 a2) ∧
      (Section.firstOrderHighpass (real fc)).isFirstOrder = true := by
  have tan_pos := tan_halfAngle_pos above below
  rw [firstOrderHighpass_real above below,
    isFirstOrder_ofCoefficients one_ne_zero (add_pos one_pos tan_pos).ne']
  exact ⟨exists_stable_of_pole tan_pos, rfl, rfl⟩

end Sections

/-! ## Cascades -/

/-- A cascade with a section for each pair of poles and one more if the order is odd, all of them
stable. -/
structure Sound (order : ℕ) (c : Cascade Exact) : Prop where
  length : c.sections.length = (order + 1) / 2
  firstOrder : c.sections.countP Section.isFirstOrder = order - 2 * (order / 2)
  stable : ∀ s ∈ c.sections, ∃ a1 a2, s.Stable a1 a2

theorem sections_cascade {α : Type} [Scalar α] (pair : α → Section α) (single : Section α)
    (n : ℕ) : (cascade pair single n).sections =
      (pairQualities n).map pair ++ List.replicate (n % 2) single := by
  rw [cascade]
  rcases Nat.mod_two_eq_zero_or_one n with even | odd
  · rw [even, if_neg Nat.zero_ne_one, List.replicate_zero, List.append_nil]
  · rw [odd, if_pos rfl, List.replicate_one]

/-- Qualities of pairs of poles are positive. -/
theorem exists_of_mem_pairQualities {n : ℕ} {x : Exact} (member : x ∈ pairQualities n) :
    ∃ q, x = real q ∧ 0 < q := by
  rw [pairQualities, List.mem_map] at member
  obtain ⟨k, inside, rfl⟩ := member
  have pair := List.mem_range.mp inside
  have sin_pos := Real.sin_pos_of_pos_of_lt_pi (poleAngle_bounds pair).1 (poleAngle_bounds pair).2
  exact ⟨_, pairQuality_real pair, one_div_pos.mpr (mul_pos two_pos sin_pos)⟩

theorem sound_cascade {pair : Exact → Section Exact} {single : Section Exact}
    (pairs : ∀ q, 0 < q → (∃ a1 a2, (pair (real q)).Stable a1 a2) ∧
      ¬ (pair (real q)).isFirstOrder = true)
    (alone : (∃ a1 a2, single.Stable a1 a2) ∧ single.isFirstOrder = true) (n : ℕ) :
    Sound n (cascade pair single n) := by
  have resonant : ∀ s ∈ (pairQualities n).map pair,
      (∃ a1 a2, s.Stable a1 a2) ∧ ¬ s.isFirstOrder = true := by
    intro s member
    obtain ⟨x, quality, rfl⟩ := List.mem_map.mp member
    obtain ⟨q, rfl, positive⟩ := exists_of_mem_pairQualities quality
    exact pairs q positive
  constructor
  case length =>
    rw [sections_cascade, List.length_append, List.length_map, pairQualities, List.length_map,
      List.length_range, List.length_replicate]
    omega
  case firstOrder =>
    rw [sections_cascade, List.countP_append, List.countP_replicate, if_pos alone.2,
      List.countP_eq_zero.mpr fun s member => (resonant s member).2]
    omega
  case stable =>
    intro s member
    rw [sections_cascade, List.mem_append] at member
    rcases member with here | there
    · exact (resonant s here).1
    · rw [List.eq_of_mem_replicate there]
      exact alone.1

section Designs

variable {n : ℕ} {cutoff : Exact} {c : Cascade Exact}

theorem sound_of_lowpass (made : lowpass n cutoff = .ok c) : Sound n c := by
  unfold lowpass at made
  split at made
  · cases made
  · rename_i accepted
    obtain ⟨-, fc, rfl, above, below⟩ := inside_of_cutoffFault? accepted
    cases made
    exact sound_cascade (fun q => stable_lowpass above below) (stable_firstOrderLowpass above below)
      n

theorem sound_of_highpass (made : highpass n cutoff = .ok c) : Sound n c := by
  unfold highpass at made
  split at made
  · cases made
  · rename_i accepted
    obtain ⟨-, fc, rfl, above, below⟩ := inside_of_cutoffFault? accepted
    cases made
    exact sound_cascade (fun q => stable_highpass above below)
      (stable_firstOrderHighpass above below) n

theorem lowpass_of_designLowpass {α : Type} [Scalar α] {passband stopband loss attenuation : α}
    {design : Design α}
    (made : designLowpass passband stopband loss attenuation = .ok design) :
    lowpass design.order design.cutoff = .ok design.filter := by
  unfold designLowpass at made
  split at made
  · cases made
  · split at made
    · cases made
    · dsimp only at made
      generalize leastOrder (Section.prewarp passband) (Section.prewarp stopband) loss
        attenuation = order at made
      generalize cutoffFor order (Section.prewarp passband) loss = cutoff at made
      cases given : lowpass order cutoff with
      | error e =>
          rw [given] at made
          cases made
      | ok filter =>
          rw [given] at made
          cases made
          exact given

end Designs

/-- There are a lowpass and a highpass of every order at every corner, with as few sections as the
order allows, all stable. The same holds of every filter that removes rumble, and of every lowpass
of least order. -/
theorem sections_of_designs :
    (∀ {n : ℕ} {fc : ℝ}, 0 < n → 0 < fc → fc < nyquist →
      ∃ low high, lowpass n (real fc) = .ok low ∧ highpass n (real fc) = .ok high ∧
        Sound n low ∧ Sound n high) ∧
      (∀ {order : ℕ} {cutoff : Exact} {c : Cascade Exact},
        Impulse.rumbleFilter order cutoff = .ok c → Sound order c) ∧
      ∀ {passband stopband loss attenuation : Exact} {design : Design Exact},
        designLowpass passband stopband loss attenuation = .ok design →
          Sound design.order design.filter := by
  refine ⟨fun {n fc} positive above below => ?_, fun {order cutoff c} made => ?_, fun made => ?_⟩
  · obtain ⟨low, lowMade, -⟩ := exists_lowpass above below positive
    obtain ⟨high, highMade, -⟩ := exists_highpass above below positive
    exact ⟨low, high, lowMade, highMade, sound_of_lowpass lowMade, sound_of_highpass highMade⟩
  · rw [Impulse.rumbleFilter] at made
    cases given : highpass order cutoff with
    | error e =>
        rw [given] at made
        cases made
    | ok high =>
        rw [given] at made
        cases made
        exact sound_of_highpass given
  · exact sound_of_lowpass (lowpass_of_designLowpass made)

/-- Order 3 at a quarter of the sample rate, the rumble filter of the shipped dataset, and a lowpass
that loses one decibel at both of its edges. -/
theorem sections_of_designs_three :
    0 < 3 ∧ (0 : ℝ) < 11025 ∧ (11025 : ℝ) < nyquist ∧
      (∃ low high, lowpass 3 (real 11025) = .ok low ∧ highpass 3 (real 11025) = .ok high ∧
        low.sections.length = 2 ∧ low.sections.countP Section.isFirstOrder = 1 ∧
        ∀ s ∈ high.sections, ∃ a1 a2, s.Stable a1 a2) ∧
      (∃ rumble, Impulse.rumbleFilter 2 (real 100) = .ok rumble ∧ Sound 2 rumble) ∧
      ∃ design, designLowpass (real 7350) (real 14700) (real 1) (real 1) = .ok design ∧
        Sound design.order design.filter := by
  obtain ⟨filters, rumble, designs⟩ := sections_of_designs
  have bounds : (0 : ℝ) < 11025 ∧ (11025 : ℝ) < nyquist := by norm_num [nyquist, sampleRate]
  refine ⟨by decide, bounds.1, bounds.2, ?_, ?_, ?_⟩
  · obtain ⟨low, high, lowMade, highMade, lowSound, highSound⟩ :=
      filters (show 0 < 3 by decide) bounds.1 bounds.2
    exact ⟨low, high, lowMade, highMade, lowSound.length, lowSound.firstOrder, highSound.stable⟩
  · have inside : (0 : ℝ) < 100 ∧ (100 : ℝ) < nyquist := by norm_num [nyquist, sampleRate]
    obtain ⟨high, made, -⟩ := exists_highpass inside.1 inside.2 (show 0 < 2 by decide)
    have removes : Impulse.rumbleFilter 2 (real 100) = .ok high := by
      rw [Impulse.rumbleFilter, made]
      rfl
    exact ⟨high, removes, rumble removes⟩
  · have edges : (0 : ℝ) < 7350 ∧ (7350 : ℝ) < 14700 ∧ (14700 : ℝ) < nyquist := by
      norm_num [nyquist, sampleRate]
    obtain ⟨low_pos, less, high_lt⟩ := edges
    have tan_pos := tan_halfAngle_pos low_pos (less.trans high_lt)
    have tan_lt := tan_lt_tan low_pos less high_lt
    have same : (power 1 - 1) / (power 1 - 1) = 1 :=
      div_self (sub_pos.mpr (one_lt_power one_pos)).ne'
    have order : leastOrder (Section.prewarp (real 7350)) (Section.prewarp (real 14700)) (real 1)
        (real 1) = 1 := by
      rw [prewarp_real low_pos (less.trans high_lt), prewarp_real (low_pos.trans less) high_lt,
        leastOrder_real tan_pos tan_lt one_pos one_pos, exactOrder, same, Real.logb_one,
        Nat.ceil_zero]
      rfl
    obtain ⟨design, made, -⟩ := designLowpass_meets low_pos less high_lt one_pos one_pos
      (by rw [order]; norm_num)
    exact ⟨design, made, designs made⟩

end Butterworth

end Binaural
