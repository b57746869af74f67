import Binaural.Proofs.Butterworth

/-!
The lowpass of least order.

* `Butterworth.exactOrder` is the order at which a lowpass would lose just what it should at both
  edges; an order is enough if it is not below that (`Butterworth.exactOrder_le_iff`).
* `Butterworth.cornerFor` is the corner at which a lowpass loses just what it should at the edge of
  the passband. It always lies in the range (`Butterworth.cornerFor_bounds`).
* `Butterworth.designLowpass_least` says what a design is, and for what demands there is none.
-/

namespace Binaural

open Exact

namespace Exact

theorem real_ten : (10 : Exact) = real 10 := congrArg real (Nat.cast_ofNat (n := 10))

theorem real_tenth : (0.1 : Exact) = real 0.1 := rfl

end Exact

namespace Butterworth

/-- The ratio of powers that a number of decibels stands for. -/
noncomputable def power (level : ℝ) : ℝ := (10 : ℕ) ^ (level / (10 : ℕ))

theorem power_eq (level : ℝ) : power level = 10 ^ (level / 10) := by
  rw [power, Nat.cast_ofNat]

theorem pow_tenth (level : ℝ) : Scalar.pow 10 (0.1 * real level) = real (power level) := by
  have tenth : (0.1 : ℝ) * level = level / 10 := by ring
  rw [real_ten, real_tenth, real_mul, real_pow (by norm_num), tenth, power_eq]

theorem one_lt_power {level : ℝ} (positive : 0 < level) : 1 < power level := by
  rw [power_eq]
  exact Real.one_lt_rpow (by norm_num) (by positivity)

/-- The order, before rounding, at which a lowpass that loses `loss` decibels at one edge loses
`attenuation` decibels at the other, `ratio` times as high. -/
noncomputable def exactOrder (ratio loss attenuation : ℝ) : ℝ :=
  Real.logb (ratio ^ 2) ((power attenuation - 1) / (power loss - 1))

theorem exactOrder_eq (ratio loss attenuation : ℝ) : exactOrder ratio loss attenuation =
    Real.logb 10 ((power attenuation - 1) / (power loss - 1)) / (2 * Real.logb 10 ratio) := by
  have base : Real.log 10 ≠ 0 := (Real.log_pos (by norm_num)).ne'
  have square : 2 * Real.logb 10 ratio = Real.logb 10 (ratio ^ 2) := by
    rw [Real.logb_pow, Nat.cast_ofNat]
  rw [exactOrder, square, Real.logb, Real.logb, Real.logb, div_div_div_cancel_right₀ base]

section Order

variable {low high loss attenuation : ℝ} (low_pos : 0 < low) (less : low < high)
  (loss_pos : 0 < loss) (attenuation_pos : 0 < attenuation)
include low_pos less loss_pos attenuation_pos

theorem leastOrder_real : leastOrder (real low) (real high) (real loss) (real attenuation) =
    max (min ⌈exactOrder (high / low) loss attenuation⌉₊ greatestOrder) 1 := by
  have above := one_lt_power loss_pos
  have above' := one_lt_power attenuation_pos
  have larger : 1 < high / low := (one_lt_div low_pos).mpr less
  have quotient : 0 < (power attenuation - 1) / (power loss - 1) :=
    div_pos (sub_pos.mpr above') (sub_pos.mpr above)
  have logarithm : 2 * Real.logb 10 (high / low) ≠ 0 :=
    mul_ne_zero two_ne_zero (Real.logb_pos (by norm_num) larger).ne'
  rw [leastOrder, pow_tenth, pow_tenth, real_one, real_sub, real_sub,
    real_div (sub_pos.mpr above).ne', real_log10 quotient, real_div low_pos.ne',
    real_log10 (zero_lt_one.trans larger), real_two, real_mul, real_div logarithm,
    ← exactOrder_eq]
  rfl

/-- An order that is not the greatest one is rounded up only. -/
theorem leastOrder_of_lt
    (small : leastOrder (real low) (real high) (real loss) (real attenuation) < 2 ^ 31) :
    leastOrder (real low) (real high) (real loss) (real attenuation) =
      max ⌈exactOrder (high / low) loss attenuation⌉₊ 1 := by
  rw [leastOrder_real low_pos less loss_pos attenuation_pos, greatestOrder] at small ⊢
  omega

/-- A lowpass that loses `loss` at one edge attenuates the other enough if its order is not too
small. -/
theorem exactOrder_le_iff (m : ℕ) :
    exactOrder (high / low) loss attenuation ≤ m ↔
      1 / (1 + (power loss - 1) * (high / low) ^ (2 * m)) ≤ 1 / power attenuation := by
  have above : 0 < power loss - 1 := sub_pos.mpr (one_lt_power loss_pos)
  have above' : 0 < power attenuation - 1 := sub_pos.mpr (one_lt_power attenuation_pos)
  have larger : 1 < high / low := (one_lt_div low_pos).mpr less
  have square : 1 < (high / low) ^ 2 := one_lt_pow₀ larger two_ne_zero
  have growth : 0 < (high / low) ^ (2 * m) := pow_pos (zero_lt_one.trans larger) _
  rw [exactOrder, Real.logb_le_iff_le_rpow square (div_pos above' above), Real.rpow_natCast,
    ← pow_mul, div_le_iff₀ above, one_div_le_one_div (by positivity) (by linarith)]
  constructor
  · intro bound
    linarith
  · intro bound
    linarith

end Order

/-! ## The cutoff -/

/-- The corner of the lowpass of an order that loses `loss` at an edge. -/
noncomputable def cornerFor (order : ℕ) (passband loss : ℝ) : ℝ :=
  Real.arctan ((power loss - 1) ^ (-1 / (2 * order : ℕ) : ℝ) * Real.tan (halfAngle passband)) *
    sampleRate / Real.pi

section Corner

variable {n : ℕ} {passband loss : ℝ} (positive : 0 < n) (above : 0 < passband)
  (below : passband < nyquist) (loss_pos : 0 < loss)

theorem halfAngle_cornerFor : halfAngle (cornerFor n passband loss) =
    Real.arctan ((power loss - 1) ^ (-1 / (2 * n : ℕ) : ℝ) * Real.tan (halfAngle passband)) := by
  have rate : (sampleRate : ℝ) ≠ 0 := by norm_num [sampleRate]
  have pi_ne := Real.pi_ne_zero
  rw [halfAngle, cornerFor]
  field_simp

include loss_pos in
theorem cutoffFor_real (positive : 0 < n) :
    cutoffFor n (real (Real.tan (halfAngle passband))) (real loss) =
      real (cornerFor n passband loss) := by
  have size : ((2 * n : ℕ) : ℝ) ≠ 0 := by exact_mod_cast (by omega)
  have double : 2 * (n : ℝ) = (2 * n : ℕ) := by rw [Nat.cast_mul, Nat.cast_ofNat]
  have more : 0 < power loss - 1 := sub_pos.mpr (one_lt_power loss_pos)
  rw [cutoffFor, pow_tenth, real_one, real_sub, real_neg, real_two, real_ofNat, real_mul, double,
    real_div size, real_pow more, real_mul]
  exact real_div Real.pi_ne_zero

include above below loss_pos in
/-- The corner is inside of the range. -/
theorem cornerFor_bounds :
    0 < cornerFor n passband loss ∧ cornerFor n passband loss < nyquist := by
  have more : 0 < power loss - 1 := sub_pos.mpr (one_lt_power loss_pos)
  have rate : (0 : ℝ) < sampleRate := by norm_num [sampleRate]
  have angle_pos := Real.arctan_pos.mpr (mul_pos (Real.rpow_pos_of_pos more (-1 / (2 * n : ℕ) : ℝ))
    (tan_halfAngle_pos above below))
  have angle_lt := Real.arctan_lt_pi_div_two
    ((power loss - 1) ^ (-1 / (2 * n : ℕ) : ℝ) * Real.tan (halfAngle passband))
  refine ⟨div_pos (mul_pos angle_pos rate) Real.pi_pos, ?_⟩
  have half : (nyquist : ℝ) = sampleRate / 2 := by norm_num [nyquist, sampleRate]
  rw [cornerFor, half, div_lt_iff₀ Real.pi_pos]
  nlinarith

include above below loss_pos in
/-- At the passband edge a lowpass with this corner loses exactly what it should. -/
theorem relative_cornerFor (positive : 0 < n) :
    relative (cornerFor n passband loss) passband ^ (2 * n) = power loss - 1 := by
  have more : 0 < power loss - 1 := sub_pos.mpr (one_lt_power loss_pos)
  have tan_ne := (tan_halfAngle_pos above below).ne'
  have size : ((2 * n : ℕ) : ℝ) ≠ 0 := by exact_mod_cast (by omega)
  have quotient : relative (cornerFor n passband loss) passband =
      (power loss - 1) ^ (1 / (2 * n : ℕ) : ℝ) := by
    rw [relative, halfAngle_cornerFor, Real.tan_arctan, ← div_div, div_right_comm, div_self tan_ne,
      neg_div, Real.rpow_neg more.le, one_div, inv_inv]
  rw [quotient, ← Real.rpow_natCast, ← Real.rpow_mul more.le, one_div_mul_cancel size,
    Real.rpow_one]

end Corner

/-! ## What a lowpass loses at the edges -/

theorem power_neg (level : ℝ) : power (-level) = 1 / power level := by
  rw [power_eq, power_eq, neg_div, Real.rpow_neg (by norm_num), one_div]

section Edges

variable {m : ℕ} {c : Exact} {low : Cascade Exact} {fc passband stopband loss attenuation : ℝ}

theorem of_lowpass (made : lowpass m c = .ok low) :
    0 < m ∧ ∃ fc, c = real fc ∧ 0 < fc ∧ fc < nyquist := by
  unfold lowpass at made
  split at made
  · cases made
  · rename_i accepted
    exact inside_of_cutoffFault? accepted

theorem normSq_lowpass (made : lowpass m (real fc) = .ok low) {f : ℝ} (nonneg : 0 ≤ f)
    (small : f < nyquist) :
    (low.frequencyResponse (real f)).normSq = real (1 / (1 + relative fc f ^ (2 * m))) := by
  obtain ⟨positive, _, same, above, below⟩ := of_lowpass made
  cases same
  obtain ⟨low', made', passes⟩ := exists_lowpass above below positive
  cases made.symm.trans made'
  rw [(passes f).normSq_eq, (shares_eq m above below (cos_halfAngle_ne_zero nonneg small)).1]

/-- How far two frequencies are from each other does not depend on a corner. -/
theorem relative_eq_mul (fc : ℝ) (tan_ne : Real.tan (halfAngle passband) ≠ 0) :
    relative fc stopband =
      relative fc passband * (Real.tan (halfAngle stopband) / Real.tan (halfAngle passband)) := by
  rw [relative, relative]
  field_simp

variable (passband_pos : 0 < passband) (less : passband < stopband)
  (stopband_lt : stopband < nyquist)
include passband_pos less stopband_lt

theorem tan_lt_tan : Real.tan (halfAngle passband) < Real.tan (halfAngle stopband) := by
  have half_pi := Real.pi_pos
  obtain ⟨low, -⟩ := halfAngle_bounds passband_pos (less.trans stopband_lt)
  obtain ⟨-, high⟩ := halfAngle_bounds (passband_pos.trans less) stopband_lt
  refine Real.tan_lt_tan_of_lt_of_lt_pi_div_two (by linarith) high ?_
  have rate : (0 : ℝ) < sampleRate := by norm_num [sampleRate]
  rw [halfAngle, halfAngle, div_lt_div_iff_of_pos_right rate]
  exact mul_lt_mul_of_pos_left less half_pi

/-- What a lowpass loses at one edge tells what it loses at the other. -/
theorem normSq_stopband (made : lowpass m c = .ok low)
    (loses : (low.frequencyResponse (real passband)).normSq = real (power (-loss))) :
    (low.frequencyResponse (real stopband)).normSq =
      real (1 / (1 + (power loss - 1) *
        (Real.tan (halfAngle stopband) / Real.tan (halfAngle passband)) ^ (2 * m))) := by
  obtain ⟨positive, fc, rfl, above, below⟩ := of_lowpass made
  have tan_pos := tan_halfAngle_pos passband_pos (less.trans stopband_lt)
  rw [normSq_lowpass made passband_pos.le (less.trans stopband_lt), power_neg] at loses
  have weights : 1 + relative fc passband ^ (2 * m) = power loss := by
    have same := real.inj loses
    rwa [one_div, one_div, inv_inj] at same
  rw [normSq_lowpass made (passband_pos.trans less).le stopband_lt,
    relative_eq_mul fc tan_pos.ne', mul_pow, ← weights, add_sub_cancel_left]

/-- A lowpass that loses `loss` at one edge attenuates the other enough exactly if its order is not
below the exact one. -/
theorem exists_normSq_stopband (loss_pos : 0 < loss) (attenuation_pos : 0 < attenuation)
    (made : lowpass m c = .ok low)
    (loses : (low.frequencyResponse (real passband)).normSq = real (power (-loss))) :
    ∃ p, (low.frequencyResponse (real stopband)).normSq = real p ∧
      (p ≤ power (-attenuation) ↔
        exactOrder (Real.tan (halfAngle stopband) / Real.tan (halfAngle passband)) loss attenuation
          ≤ m) := by
  have tan_pos := tan_halfAngle_pos passband_pos (less.trans stopband_lt)
  refine ⟨_, normSq_stopband passband_pos less stopband_lt made loses, ?_⟩
  rw [power_neg, exactOrder_le_iff tan_pos (tan_lt_tan passband_pos less stopband_lt) loss_pos
    attenuation_pos]

end Edges

/-! ## Designs -/

/-- What a design is asked for: a lowpass with its corner at the reported cutoff, that loses `loss`
decibels at the edge of the passband and at least `attenuation` at that of the stopband, and of the
least order of which there is one. -/
structure Design.Meets (design : Design Exact) (passband stopband loss attenuation : ℝ) : Prop where
  made : lowpass design.order design.cutoff = .ok design.filter
  inside : ∃ fc, design.cutoff = real fc ∧ 0 < fc ∧ fc < nyquist
  corner : (design.filter.frequencyResponse design.cutoff).norm = real (1 / Real.sqrt 2)
  atPassband : (design.filter.frequencyResponse (real passband)).normSq = real (power (-loss))
  atStopband : ∃ p, (design.filter.frequencyResponse (real stopband)).normSq = real p ∧
    p ≤ power (-attenuation)
  least : ∀ m, 0 < m → m < design.order →
    (∃ c low, lowpass m c = .ok low ∧
      (low.frequencyResponse (real passband)).normSq = real (power (-loss))) ∧
    ∀ c low, lowpass m c = .ok low →
      (low.frequencyResponse (real passband)).normSq = real (power (-loss)) →
        ∃ p, (low.frequencyResponse (real stopband)).normSq = real p ∧ power (-attenuation) < p

section Demands

variable {passband stopband loss attenuation : ℝ}

/-- There is a lowpass of every order that loses exactly what it should at the passband edge. -/
theorem exists_lowpass_of_loss {n : ℕ} (positive : 0 < n) (above : 0 < passband)
    (below : passband < nyquist) (loss_pos : 0 < loss) :
    ∃ low, lowpass n (real (cornerFor n passband loss)) = .ok low ∧
      (low.frequencyResponse (real passband)).normSq = real (power (-loss)) := by
  obtain ⟨corner_pos, corner_lt⟩ := cornerFor_bounds (n := n) above below loss_pos
  obtain ⟨low, made, -⟩ := exists_lowpass corner_pos corner_lt positive
  refine ⟨low, made, ?_⟩
  rw [normSq_lowpass made above.le below, relative_cornerFor above below loss_pos positive,
    add_sub_cancel, power_neg]

theorem designLowpass_meets (passband_pos : 0 < passband) (less : passband < stopband)
    (stopband_lt : stopband < nyquist) (loss_pos : 0 < loss) (attenuation_pos : 0 < attenuation)
    (small : leastOrder (Section.prewarp (real passband)) (Section.prewarp (real stopband))
      (real loss) (real attenuation) < 2 ^ 31) :
    ∃ design, designLowpass (real passband) (real stopband) (real loss) (real attenuation) =
      .ok design ∧ design.Meets passband stopband loss attenuation := by
  have passband_lt := less.trans stopband_lt
  have stopband_pos := passband_pos.trans less
  have tan_pos := tan_halfAngle_pos passband_pos passband_lt
  have tan_lt := tan_lt_tan passband_pos less stopband_lt
  have edges : (0 : Exact) < real passband ∧ real passband < real stopband ∧
      real stopband ≤ Scalar.ofNat nyquist := ⟨by rwa [real_zero], less, stopband_lt.le⟩
  have losses : (0 : Exact) < real loss ∧ (0 : Exact) < real attenuation :=
    ⟨by rwa [real_zero], by rwa [real_zero]⟩
  rw [prewarp_real passband_pos passband_lt, prewarp_real stopband_pos stopband_lt] at small
  have unsaturated := leastOrder_of_lt tan_pos tan_lt loss_pos attenuation_pos small
  generalize order_eq : leastOrder (real (Real.tan (halfAngle passband)))
    (real (Real.tan (halfAngle stopband))) (real loss) (real attenuation) = n at unsaturated
  have positive : 0 < n := by omega
  obtain ⟨corner_pos, corner_lt⟩ := cornerFor_bounds (n := n) passband_pos passband_lt loss_pos
  obtain ⟨low, made, loses⟩ := exists_lowpass_of_loss positive passband_pos passband_lt loss_pos
  refine ⟨⟨n, real (cornerFor n passband loss), low⟩, ?_, made, ⟨_, rfl, corner_pos, corner_lt⟩, ?_,
    loses, ?_, ?_⟩
  · rw [designLowpass, if_neg (not_not_intro edges), if_neg (not_not_intro losses),
      prewarp_real passband_pos passband_lt, prewarp_real stopband_pos stopband_lt]
    dsimp only
    rw [order_eq, cutoffFor_real loss_pos positive, made]
    rfl
  · obtain ⟨low', made', passes⟩ := exists_lowpass corner_pos corner_lt positive
    cases made.symm.trans made'
    exact (passes _).norm_eq.trans (congrArg real (sqrt_share_corner n corner_pos corner_lt))
  · obtain ⟨p, response, enough⟩ := exists_normSq_stopband passband_pos less stopband_lt loss_pos
      attenuation_pos made loses
    refine ⟨p, response, enough.mpr ?_⟩
    refine (Nat.le_ceil _).trans ?_
    exact_mod_cast unsaturated ▸ le_max_left _ _
  · intro m m_pos smaller
    obtain ⟨other, made', loses'⟩ :=
      exists_lowpass_of_loss m_pos passband_pos passband_lt loss_pos
    refine ⟨⟨_, other, made', loses'⟩, fun c low made loses => ?_⟩
    obtain ⟨p, response, enough⟩ := exists_normSq_stopband passband_pos less stopband_lt loss_pos
      attenuation_pos made loses
    refine ⟨p, response, not_le.mp (mt enough.mp (not_le.mpr (Nat.lt_ceil.mp ?_)))⟩
    have below : m < n := smaller
    omega

end Demands

/-! ## What is refused -/

section Refusals

variable {α : Type} [Scalar α] {passband stopband loss attenuation : α}

theorem lowpass_error {n : ℕ} {cutoff : α} {e : DesignError α}
    (refused : lowpass n cutoff = .error e) : e = .zeroOrder ∨ e = .badCutoff cutoff := by
  unfold lowpass cutoffFault? at refused
  split at refused
  · rename_i fault
    cases refused
    split at fault
    · exact .inl (Option.some.inj fault).symm
    · split at fault
      · cases fault
      · exact .inr (Option.some.inj fault).symm
  · cases refused

/-- Edges out of order are refused first, then losses that are not positive; the cutoff that comes
of accepted ones is never blamed on either. -/
theorem designLowpass_cases :
    ¬ (0 < passband ∧ passband < stopband ∧ stopband ≤ Scalar.ofNat nyquist) ∧
        designLowpass passband stopband loss attenuation = .error (.badEdges passband stopband) ∨
      (0 < passband ∧ passband < stopband ∧ stopband ≤ Scalar.ofNat nyquist) ∧
        (¬ (0 < loss ∧ 0 < attenuation) ∧
            designLowpass passband stopband loss attenuation =
              .error (.badLosses loss attenuation) ∨
          (0 < loss ∧ 0 < attenuation) ∧
            ∀ e, designLowpass passband stopband loss attenuation = .error e →
              e = .zeroOrder ∨ ∃ cutoff, e = .badCutoff cutoff) := by
  unfold designLowpass
  split
  · rename_i refused
    exact .inl ⟨refused, rfl⟩
  · rename_i edges
    refine .inr ⟨not_not.mp edges, ?_⟩
    split
    · rename_i refused
      exact .inl ⟨refused, rfl⟩
    · rename_i losses
      refine .inr ⟨not_not.mp losses, fun e failed => ?_⟩
      dsimp only at failed
      generalize leastOrder (Section.prewarp passband) (Section.prewarp stopband) loss
        attenuation = n at failed
      generalize cutoffFor n (Section.prewarp passband) loss = cutoff at failed
      cases made : lowpass n cutoff with
      | ok low =>
          rw [made] at failed
          cases failed
      | error fault =>
          rw [made] at failed
          cases failed
          exact (lowpass_error made).imp_right fun wrong => ⟨cutoff, wrong⟩

end Refusals

/-- A lowpass is designed for all edges in order and all positive losses, and meets what it is asked
for with the least order; edges out of order are refused before losses that are not positive, and
nothing else is refused as such. -/
theorem designLowpass_least :
    (∀ {α : Type} [Scalar α] (passband stopband loss attenuation : α),
      ((∃ p s, designLowpass passband stopband loss attenuation = .error (.badEdges p s)) ↔
        ¬ (0 < passband ∧ passband < stopband ∧ stopband ≤ Scalar.ofNat nyquist)) ∧
      (0 < passband ∧ passband < stopband ∧ stopband ≤ Scalar.ofNat nyquist →
        ((∃ l a, designLowpass passband stopband loss attenuation = .error (.badLosses l a)) ↔
          ¬ (0 < loss ∧ 0 < attenuation)))) ∧
    ∀ {passband stopband loss attenuation : ℝ}, 0 < passband → passband < stopband →
      stopband < nyquist → 0 < loss → 0 < attenuation →
      leastOrder (Section.prewarp (real passband)) (Section.prewarp (real stopband))
        (real loss) (real attenuation) < 2 ^ 31 →
      ∃ design, designLowpass (real passband) (real stopband) (real loss) (real attenuation) =
        .ok design ∧ design.Meets passband stopband loss attenuation := by
  refine ⟨fun passband stopband loss attenuation => ?_, designLowpass_meets⟩
  rcases @designLowpass_cases _ _ passband stopband loss attenuation with
    ⟨disordered, refused⟩ | ⟨edges, ⟨negative, refused⟩ | ⟨losses, errors⟩⟩
  · exact ⟨⟨fun _ => disordered, fun _ => ⟨_, _, refused⟩⟩, fun edges => absurd edges disordered⟩
  · refine ⟨⟨?_, fun disordered => absurd edges disordered⟩,
      fun _ => ⟨fun _ => negative, fun _ => ⟨_, _, refused⟩⟩⟩
    rintro ⟨p, s, other⟩
    cases refused.symm.trans other
  · refine ⟨⟨?_, fun disordered => absurd edges disordered⟩,
      fun _ => ⟨?_, fun negative => absurd losses negative⟩⟩
    · rintro ⟨p, s, failed⟩
      simpa using errors _ failed
    · rintro ⟨l, a, failed⟩
      simpa using errors _ failed

/-- A third of the range may lose half of the power, and twice that must lose 20 decibels. The
warped edges are at a ratio of 3, so the order is 3: it divides the power by 730, and the order 2
would divide it by 82 only. -/
theorem designLowpass_least_third :
    let loss : ℝ := 10 * Real.logb 10 2
    (0 : ℝ) < 7350 ∧ (7350 : ℝ) < 14700 ∧ (14700 : ℝ) < nyquist ∧ 0 < loss ∧ (0 : ℝ) < 20 ∧
      leastOrder (Section.prewarp (real 7350)) (Section.prewarp (real 14700)) (real loss)
        (real 20) = 3 ∧
      ∃ design, designLowpass (real 7350) (real 14700) (real loss) (real 20) = .ok design ∧
        design.Meets 7350 14700 loss 20 := by
  intro loss
  have edges : (0 : ℝ) < 7350 ∧ (7350 : ℝ) < 14700 ∧ (14700 : ℝ) < nyquist := by
    norm_num [nyquist, sampleRate]
  obtain ⟨low_pos, less, high_lt⟩ := edges
  have loss_pos : 0 < loss := mul_pos (by norm_num) (Real.logb_pos (by norm_num) (by norm_num))
  have attenuation_pos : (0 : ℝ) < 20 := by norm_num
  have lossPower : power loss = 2 := by
    rw [power_eq, mul_div_cancel_left₀ _ (by norm_num), Real.rpow_logb (by norm_num) (by norm_num)
      (by norm_num)]
  have attenuationPower : power 20 = 100 := by norm_num [power_eq]
  have third : halfAngle 7350 = Real.pi / 6 := by
    norm_num [halfAngle, sampleRate]
    ring
  have twoThirds : halfAngle 14700 = Real.pi / 3 := by
    norm_num [halfAngle, sampleRate]
    ring
  have tan_pos := tan_halfAngle_pos low_pos (less.trans high_lt)
  have tan_lt := tan_lt_tan low_pos less high_lt
  have ratio : Real.tan (halfAngle 14700) / Real.tan (halfAngle 7350) = 3 := by
    rw [third, twoThirds, Real.tan_pi_div_three, Real.tan_pi_div_six]
    field_simp
    norm_num
  have order : leastOrder (Section.prewarp (real 7350)) (Section.prewarp (real 14700)) (real loss)
      (real 20) = 3 := by
    have enough := (exactOrder_le_iff tan_pos tan_lt loss_pos attenuation_pos 3).mpr (by
      rw [ratio, lossPower, attenuationPower]
      norm_num)
    have tooLittle := mt (exactOrder_le_iff tan_pos tan_lt loss_pos attenuation_pos 2).mp (by
      rw [ratio, lossPower, attenuationPower]
      norm_num)
    rw [prewarp_real low_pos (less.trans high_lt), prewarp_real (low_pos.trans less) high_lt,
      leastOrder_real tan_pos tan_lt loss_pos attenuation_pos]
    have ceiling := (Nat.ceil_le (a := exactOrder (Real.tan (halfAngle 14700) /
      Real.tan (halfAngle 7350)) loss 20) (n := 3)).mpr enough
    have floor := Nat.lt_ceil.mpr (not_le.mp tooLittle)
    rw [greatestOrder]
    omega
  exact ⟨low_pos, less, high_lt, loss_pos, attenuation_pos, order,
    designLowpass_least.2 low_pos less high_lt loss_pos attenuation_pos (by rw [order]; norm_num)⟩

end Butterworth

end Binaural
