import Binaural.Proofs.Exact
import Binaural.Proofs.Lengths

/-!
The transform in exact arithmetic is the discrete Fourier transform.

Bin `k` of a transform of size `n` is the sum of the points, the `j`-th of them turned by `j * k`
`n`-th parts of a circle (`dft`). The transform does not compute these sums, but puts them together
out of those of its parts. `Roots.transform_eq` is the induction on the size: a part with remainder
`r` modulo the least factor turns its points by multiples of that factor, and weighing it by a root
turns them all by the rest. Roots that are powers of any one number give the sums turned by that
number (`Roots.apply_complexes`), so both directions of a transform are such sums. Magnitudes are
the absolute values of those of the signal (`Transform.magnitudes_eq`).
-/

namespace Binaural

open Exact

/-! ## Least factors -/

theorem leastFactorFrom_dvd (n d : Nat) : leastFactorFrom n d ∣ n := by
  fun_induction leastFactorFrom n d with
  | case1 => exact dvd_rfl
  | case2 d _ divides => exact Nat.dvd_of_mod_eq_zero divides
  | case3 d _ _ ih => exact ih

theorem leastFactor_dvd (n : Nat) : leastFactor n ∣ n := leastFactorFrom_dvd n 2

/-! ## Sums over the parts of a range -/

/-- The numbers below a product are those with each remainder, one after the other. -/
theorem sum_range_mul {β : Type} [AddCommMonoid β] (f : ℕ → β) (p m : ℕ) :
    ∑ i ∈ Finset.range (m * p), f i =
      ∑ r ∈ Finset.range p, ∑ j ∈ Finset.range m, f (r + j * p) := by
  induction m with
  | zero => simp
  | succ m ih =>
      rw [Nat.succ_mul, Finset.sum_range_add, ih, ← Finset.sum_add_distrib]
      refine Finset.sum_congr rfl fun r _ => ?_
      rw [Finset.sum_range_succ, Nat.add_comm r]

/-! ## Roots -/

namespace Roots

/-- The sum of numbers, the `j`-th of them turned `j * k` times. -/
noncomputable def turned (ζ : ℂ) (size : ℕ) (x : ℕ → ℂ) (k : ℕ) : ℂ :=
  ∑ j ∈ Finset.range size, x j * ζ ^ (j * k)

/-- The points of a turn are the powers of one number, of which the power with the size is 1. -/
structure PowersOf (w : Roots Exact) (ζ : ℂ) : Prop where
  positive : 0 < w.size
  points : ∀ t < w.size, w.points.getD t ⟨0, 0⟩ = ofComplex (ζ ^ t)
  turn : ζ ^ w.size = 1

variable {w : Roots Exact} {ζ : ℂ}

/-- The first of the points that divide a turn, against the direction in which angles grow. -/
noncomputable def root (size : ℕ) : ℂ := Complex.exp (-(2 * Real.pi / size : ℝ) * Complex.I)

theorem root_pow (size j : ℕ) :
    root size ^ j = Complex.exp (-(2 * Real.pi * j / size : ℝ) * Complex.I) := by
  rw [root, ← Complex.exp_nat_mul]
  congr 1
  push_cast
  ring

theorem angle_real {size : ℕ} (positive : 0 < size) (j : ℕ) :
    (angle size j : Exact) = real (2 * Real.pi * j / size) := by
  have nonzero : (size : ℝ) ≠ 0 := by exact_mod_cast positive.ne'
  rw [angle, real_two, real_pi, real_ofNat, real_ofNat, real_mul, real_mul, real_div nonzero]

theorem root_pow_size {size : ℕ} (positive : 0 < size) : root size ^ size = 1 := by
  have nonzero : (size : ℝ) ≠ 0 := by exact_mod_cast positive.ne'
  rw [root_pow, mul_div_cancel_right₀ _ nonzero, Complex.ofReal_mul, Complex.ofReal_ofNat,
    neg_mul, Complex.exp_neg, Complex.exp_two_pi_mul_I, inv_one]

/-- A table of the powers of a number. -/
theorem powersOf_ofFn {size : ℕ} (positive : 0 < size) {f : Fin size → Complex Exact}
    (points : ∀ j, f j = ofComplex (ζ ^ j.val)) (turn : ζ ^ size = 1) :
    (⟨size, Array.ofFn f⟩ : Roots Exact).PowersOf ζ where
  positive := positive
  points t small := by
    rw [Array.getD_eq_getD_getElem?, Array.getElem?_ofFn, dif_pos small, Option.getD_some, points]
  turn := turn

theorem powersOf_backward {size : ℕ} (positive : 0 < size) :
    (backward size : Roots Exact).PowersOf (root size) := by
  refine powersOf_ofFn positive (fun j => ?_) (root_pow_size positive)
  rw [angle_real positive, root_pow, ← Complex.ofReal_neg, ofComplex_exp, real_cos, real_sin,
    real_neg, Real.cos_neg, Real.sin_neg]

theorem powersOf_onward {size : ℕ} (positive : 0 < size) :
    (onward size : Roots Exact).PowersOf (root size)⁻¹ := by
  refine powersOf_ofFn positive (fun j => ?_) (by rw [inv_pow, root_pow_size positive, inv_one])
  rw [angle_real positive, inv_pow, root_pow, neg_mul, Complex.exp_neg, inv_inv, ofComplex_exp,
    real_cos, real_sin]

section Powers

variable (powers : w.PowersOf ζ)
include powers

/-- Whole turns make no difference. -/
theorem PowersOf.pow_mod (n : ℕ) : ζ ^ (n % w.size) = ζ ^ n := by
  conv_rhs => rw [← Nat.mod_add_div n w.size, pow_add, pow_mul, powers.turn, one_pow, mul_one]

/-! ## Weighing -/

/-- Bins of parts are added up, each turned by its root. -/
theorem weigh_eq {part : ℕ → Array (Complex Exact)} {bin : ℕ → ℂ} {k : ℕ}
    (bins : ∀ r, (part r).getD k ⟨0, 0⟩ = ofComplex (bin r)) (step first count : ℕ)
    {turn : ℕ} (small : turn < w.size) (z : ℂ) :
    w.weigh k step ((List.range' first count).map part) turn (real z.re) (real z.im) =
      ofComplex (z + ∑ i ∈ Finset.range count, ζ ^ (turn + i * step) * bin (first + i)) := by
  induction count generalizing first turn z with
  | zero =>
      rw [Finset.sum_range_zero, add_zero]
      rfl
  | succ count ih =>
      have next := ih (first + 1) (Nat.mod_lt (turn + step) powers.positive)
        (z + ζ ^ turn * bin first)
      have turned (i : ℕ) :
          ζ ^ ((turn + step) % w.size + i * step) = ζ ^ (turn + (i + 1) * step) := by
        rw [pow_add, powers.pow_mod, ← pow_add]
        congr 1
        ring
      rw [List.range'_succ, List.map_cons, weigh, bins, powers.points turn small]
      change w.weigh k step _ _ (real (z + ζ ^ turn * bin first).re)
        (real (z + ζ ^ turn * bin first).im) = _
      rw [next, Finset.sum_range_succ']
      simp only [turned, Nat.zero_mul, Nat.add_zero, Nat.add_right_comm first 1, Nat.add_assoc]
      rw [add_assoc z, add_comm (ζ ^ turn * bin first)]

/-- A part sees only the remainder of a bin, since further turns of the part are whole ones. -/
theorem PowersOf.pow_part {m stride : ℕ} (whole : m * stride = w.size) (j k : ℕ) :
    ζ ^ (j * (k % m) * stride) = ζ ^ (j * k * stride) := by
  have split : j * k * stride = j * (k % m) * stride + w.size * (j * (k / m)) := by
    conv_lhs => rw [← Nat.mod_add_div k m]
    rw [← whole]
    ring
  rw [split, pow_add, pow_mul ζ w.size, powers.turn, one_pow, mul_one]

/-! ## Transforms -/

/-- What the parts of one transform add up to. -/
theorem sum_parts {p m stride : ℕ} (whole : m * p * stride = w.size) (point : ℕ → ℂ)
    (offset k : ℕ) :
    ∑ r ∈ Finset.range p, ζ ^ (r * (k * stride % w.size)) *
        ∑ j ∈ Finset.range m, point (offset + r * stride + j * (stride * p)) *
          ζ ^ (j * (k % m) * (stride * p)) =
      ∑ i ∈ Finset.range (m * p), point (offset + i * stride) * ζ ^ (i * k * stride) := by
  have whole' : m * (stride * p) = w.size := by
    rw [← whole]
    ring
  rw [sum_range_mul]
  refine Finset.sum_congr rfl fun r _ => ?_
  rw [Finset.mul_sum]
  refine Finset.sum_congr rfl fun j _ => ?_
  have place : offset + r * stride + j * (stride * p) = offset + (r + j * p) * stride := by ring
  have turns : (r + j * p) * k * stride = r * (k * stride) + j * k * (stride * p) := by ring
  have turned : ζ ^ (r * (k * stride % w.size)) = ζ ^ (r * (k * stride)) := by
    rw [Nat.mul_comm r, pow_mul, powers.pow_mod, ← pow_mul, Nat.mul_comm r]
  rw [place, turns, turned, powers.pow_part whole', pow_add]
  ring

/-- The transform gives the sums of the turned points. -/
theorem transform_eq {x : Array (Complex Exact)} {point : ℕ → ℂ}
    (points : ∀ i, x.getD i ⟨0, 0⟩ = ofComplex (point i)) {n stride : ℕ} (positive : 0 < n)
    (whole : n * stride = w.size) (offset : ℕ) {k : ℕ} (small : k < n) :
    (w.transform x n stride offset).getD k ⟨0, 0⟩ =
      ofComplex (∑ j ∈ Finset.range n, point (offset + j * stride) * ζ ^ (j * k * stride)) := by
  induction n using Nat.strongRecOn generalizing stride offset k with
  | ind n ih =>
      rw [transform]
      by_cases single : n ≤ 1
      · obtain rfl : n = 1 := by omega
        obtain rfl : k = 0 := by omega
        rw [if_pos single]
        simpa using points offset
      · have two : 2 ≤ n := by omega
        obtain ⟨m, split⟩ := leastFactor_dvd n
        have factor := two_le_leastFactor two
        have less := div_leastFactor_lt two
        generalize leastFactor n = p at split factor less ⊢
        obtain rfl : n = m * p := by rw [split, Nat.mul_comm]
        have quotient : m * p / p = m := Nat.mul_div_cancel m (by omega)
        have some : 0 < m := Nat.pos_of_mul_pos_right positive
        rw [quotient] at less ⊢
        have inner : m * (stride * p) = w.size := by
          rw [← whole]
          ring
        have bins (r : ℕ) := ih m less some inner (offset + r * stride) (Nat.mod_lt k some)
        have weighed := weigh_eq powers bins (k * stride % w.size) 0 p powers.positive 0
        rw [if_neg single, Array.getD_eq_getD_getElem?, Array.getElem?_ofFn, dif_pos small,
          Option.getD_some, List.range_eq_range']
        dsimp only
        rw [real_zero]
        refine weighed.trans ?_
        simp only [zero_add]
        rw [sum_parts powers whole]

/-- The transform of a list gives the list of the sums of its turned numbers. -/
theorem apply_complexes (x : ℕ → ℂ) :
    w.apply (complexes w.size x) = complexes w.size (turned ζ w.size x) := by
  have points (i : ℕ) : (complexes w.size x).toArray.getD i ⟨0, 0⟩ =
      ofComplex (if i < w.size then x i else 0) := by
    rw [Array.getD_eq_getD_getElem?, List.getElem?_toArray, ← List.getD_eq_getElem?_getD,
      getD_complexes]
  have sums {k : ℕ} : ∑ j ∈ Finset.range w.size,
      (if 0 + j * 1 < w.size then x (0 + j * 1) else 0) * ζ ^ (j * k * 1) =
        turned ζ w.size x k := by
    refine Finset.sum_congr rfl fun j member => ?_
    rw [Nat.zero_add, Nat.mul_one, Nat.mul_one, if_pos (Finset.mem_range.mp member)]
  have length : (w.apply (complexes w.size x)).length = w.size := by
    rw [apply, Array.length_toList, size_transform _ _ _ _ powers.positive]
  refine eq_complexes length fun k small => ?_
  have bin := transform_eq powers points powers.positive (Nat.mul_one w.size) 0 small
  rw [sums] at bin
  rw [apply, List.getD_eq_getElem?_getD, Array.getElem?_toList, ← Array.getD_eq_getD_getElem?]
  exact bin

end Powers

end Roots

/-! ## Signals -/

/-- A sample of a signal that is continued by zeros. -/
def sample {α : Type} [Scalar α] (signal : List α) (k : Nat) : α := signal.getD k 0

theorem exists_samples {signal : List Exact} (numbers : ∀ x ∈ signal, ∃ y, x = real y) :
    ∃ x : ℕ → ℝ, ∀ k, sample signal k = real (x k) := by
  have known (k : ℕ) : ∃ y, sample signal k = real y := by
    rw [sample, List.getD_eq_getElem?_getD]
    cases found : signal[k]? with
    | none => exact ⟨0, real_zero⟩
    | some x => exact numbers x (List.mem_of_getElem? found)
  choose x samples using known
  exact ⟨x, samples⟩

theorem sample_reals {size : ℕ} (x : ℕ → ℝ) (k : ℕ) :
    sample (reals size x) k = real (if k < size then x k else 0) :=
  getD_reals x k

/-- The discrete Fourier transform of the first `size` samples. -/
noncomputable def dft (size : ℕ) (x : ℕ → ℝ) (k : ℕ) : ℂ :=
  ∑ j ∈ Finset.range size, x j * Roots.root size ^ (j * k)

theorem dft_congr {size : ℕ} {x y : ℕ → ℝ} (same : ∀ j < size, x j = y j) :
    dft size x = dft size y :=
  funext fun k => Finset.sum_congr rfl fun j member => by rw [same j (Finset.mem_range.mp member)]

namespace Transform

variable {t : Transform Exact}

/-- A signal that is fitted to a size is continued by zeros up to there. -/
theorem getD_fit (signal : List Exact) (k : ℕ) :
    (t.fit signal).getD k 0 = if k < t.size then sample signal k else 0 := by
  unfold fit sample
  rw [List.getD_eq_getElem?_getD, List.getD_eq_getElem?_getD]
  by_cases inside : k < t.size
  · by_cases known : k < signal.length
    · rw [if_pos inside, List.getElem?_append_left (by rw [List.length_take]; omega),
        List.getElem?_take_of_lt inside]
    · rw [if_pos inside, List.getElem?_append_right (by rw [List.length_take]; omega),
        List.getElem?_replicate, List.getElem?_eq_none (not_lt.mp known)]
      split
      · rfl
      · rfl
  · rw [if_neg inside, List.getElem?_eq_none]
    · rfl
    · have length := length_fit (t := t) signal
      unfold fit at length
      omega

theorem fit_eq {signal : List Exact} {x : ℕ → ℝ} (samples : ∀ k, sample signal k = real (x k)) :
    t.fit signal = reals t.size x := by
  refine List.ext_getElem (by rw [length_fit, length_reals]) fun k here _ => ?_
  have inside : k < t.size := length_fit (t := t) signal ▸ here
  rw [← List.getD_eq_getElem _ 0 here, getD_fit, if_pos inside, samples, getElem_reals]

theorem bins_complexes (x : ℕ → ℂ) :
    t.bins (complexes t.size x) =
      complexes t.size (Roots.turned (Roots.root t.size) t.size x) := by
  rw [bins, t.forwardRoots_eq]
  exact Roots.apply_complexes (Roots.powersOf_backward t.size_pos) x

/-- The bins of a signal are its discrete Fourier transform. -/
theorem forwardReal_eq {signal : List Exact} {x : ℕ → ℝ}
    (samples : ∀ k, sample signal k = real (x k)) :
    t.forwardReal signal = complexes t.size (dft t.size x) := by
  rw [forwardReal, fit_eq samples, map_ofReal_reals]
  exact bins_complexes fun k => x k

/-- Magnitudes are the absolute values of the discrete Fourier transform. -/
theorem magnitudes_eq {signal : List Exact} {x : ℕ → ℝ}
    (samples : ∀ k, sample signal k = real (x k)) :
    t.magnitudes signal = (List.range t.size).map fun k => real ‖dft t.size x k‖ := by
  rw [magnitudes, forwardReal_eq samples, map_norm_complexes]
  rfl

end Transform

end Binaural
