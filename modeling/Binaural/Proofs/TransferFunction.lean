import Binaural.Proofs.FrequencyResponse
import Binaural.Proofs.Streaming

/-!
Filters and their transfer functions.

A section computes its samples by a recursion over a hidden state; its response to a frequency is a
quotient of two polynomials in `z⁻¹`. Over a field the two describe one filter. The samples of a
signal are the first coefficients of a power series, and what comes out of a section times its
denominator is what went in times its numerator, up to as many coefficients as there are samples
(`Section.exists_response`). The invariant of the run is `Section.echo`: what still comes out for
the state that has been reached. For a cascade the numerators and the denominators multiply
(`Cascade.exists_response`), so it is linear, and its sections may stand in any order.

The field is read into the scalar that filters are written over by a `Reading`.
-/

namespace Binaural

open Exact
open Polynomial (C X aeval aeval_C aeval_X)
open scoped Polynomial

/-- The numbers of a field among those of a scalar; on them, the operations of filters are those of
the field. -/
structure Reading (K α : Type) [Field K] [Scalar α] where
  number : K → α
  zero : number 0 = 0
  add : ∀ x y, number x + number y = number (x + y)
  sub : ∀ x y, number x - number y = number (x - y)
  mul : ∀ x y, number x * number y = number (x * y)
  div : ∀ x y, y ≠ 0 → number x / number y = number (x / y)

/-- The real numbers among the exact ones. -/
noncomputable def Exact.reading : Reading ℝ Exact where
  number := real
  zero := real_zero.symm
  add := real_add
  sub := real_sub
  mul := real_mul
  div _ _ := real_div

/-! ## Signals as power series -/

/-- The power series that begins with the samples of a signal and goes on with zeros. -/
noncomputable def series {K : Type} [Field K] (xs : List K) : PowerSeries K :=
  PowerSeries.mk fun k => xs.getD k 0

section Series

variable {K : Type} [Field K]

theorem series_nil : series ([] : List K) = 0 := by
  ext k
  simp [series]

theorem series_cons (x : K) (xs : List K) :
    series (x :: xs) = PowerSeries.C x + PowerSeries.X * series xs := by
  ext k
  cases k with
  | zero => simp [series]
  | succ k => simp [series]

theorem series_zipWith (p q : K) {xs ys : List K} (length : xs.length = ys.length) :
    series (List.zipWith (fun x y => p * x + q * y) xs ys) =
      PowerSeries.C p * series xs + PowerSeries.C q * series ys := by
  induction xs generalizing ys with
  | nil =>
      obtain rfl : ys = [] := List.eq_nil_of_length_eq_zero length.symm
      simp [series_nil]
  | cons x xs ih =>
      cases ys with
      | nil => cases length
      | cons y ys =>
          rw [List.zipWith_cons_cons, series_cons, series_cons, series_cons,
            ih (Nat.succ.inj length), map_add, map_mul, map_mul]
          ring

/-- Samples are determined by as many coefficients of their product with a power series that begins
with 1. -/
theorem eq_of_dvd_series {xs ys : List K} {d t : PowerSeries K}
    (length : xs.length = ys.length) (first : PowerSeries.constantCoeff d = 1)
    (dvd : PowerSeries.X ^ xs.length ∣ series xs * d - t)
    (dvd' : PowerSeries.X ^ ys.length ∣ series ys * d - t) : xs = ys := by
  have unit : IsUnit d := PowerSeries.isUnit_iff_constantCoeff.mpr (first ▸ isUnit_one)
  have difference : PowerSeries.X ^ xs.length ∣ series xs - series ys := by
    rw [← unit.dvd_mul_right, sub_mul, ← sub_sub_sub_cancel_right _ _ t]
    exact dvd_sub dvd (length ▸ dvd')
  refine List.ext_getElem length fun k here there => ?_
  have coefficient := PowerSeries.X_pow_dvd_iff.mp difference k here
  rw [map_sub, sub_eq_zero, series, series, PowerSeries.coeff_mk, PowerSeries.coeff_mk,
    List.getD_eq_getElem _ _ here, List.getD_eq_getElem _ _ there] at coefficient
  exact coefficient

/-- Of one filter after another the denominators and the numerators multiply. -/
theorem dvd_chain {m x y z d n d' n' : PowerSeries K} (first : m ∣ y * d - x * n)
    (second : m ∣ z * d' - y * n') : m ∣ z * (d * d') - x * (n * n') := by
  have split : z * (d * d') - x * (n * n') = d * (z * d' - y * n') + n' * (y * d - x * n) := by
    ring
  rw [split]
  exact dvd_add (dvd_mul_of_dvd_right second _) (dvd_mul_of_dvd_right first _)

end Series

/-! ## Sections -/

namespace Section

/-- A section with its coefficients written as other numbers. -/
def map {K α : Type} (f : K → α) (s : Section K) : Section α :=
  ⟨f s.gain, f s.b1, f s.b2, f s.a1, f s.a2⟩

variable {K : Type} [Field K] (s : Section K)

/-- The polynomial in `z⁻¹` that a section multiplies by. -/
noncomputable def numerator : K[X] := C s.gain * (1 + C s.b1 * X + C s.b2 * X ^ 2)

/-- The polynomial in `z⁻¹` that a section divides by. -/
noncomputable def denominator : K[X] := 1 + C s.a1 * X + C s.a2 * X ^ 2

/-- What still comes out of a section for the state that it is in, times its denominator. -/
noncomputable def echo (recent earlier : K) : K[X] :=
  s.denominator * (C (s.b1 * recent + s.b2 * earlier) + C (s.b2 * recent) * X) -
    (1 + C s.b1 * X + C s.b2 * X ^ 2) *
      (C (s.a1 * recent + s.a2 * earlier) + C (s.a2 * recent) * X)

theorem echo_rest : s.echo 0 0 = 0 := by simp [echo]

/-- One sample: what comes out for it and for the next state is what it adds to the echo of the
state before. -/
theorem echo_tick (recent earlier x : K) :
    let recursive := x * s.gain - s.a1 * recent - s.a2 * earlier
    C (recursive + s.b1 * recent + s.b2 * earlier) * s.denominator + X * s.echo recursive recent =
      C x * s.numerator + s.echo recent earlier := by
  simp only [echo, numerator, denominator, map_add, map_sub, map_mul]
  ring

variable {α : Type} [Scalar α] (r : Reading K α)

theorem tick_number (recent earlier x : K) :
    (s.map r.number).tick ⟨r.number recent, r.number earlier⟩ (r.number x) =
      (r.number (x * s.gain - s.a1 * recent - s.a2 * earlier + s.b1 * recent + s.b2 * earlier),
        ⟨r.number (x * s.gain - s.a1 * recent - s.a2 * earlier), r.number recent⟩) := by
  simp only [tick, map, r.add, r.sub, r.mul]

/-- From any state on, the samples that come out satisfy the equation of the transfer function, up
to the echo of the state. -/
theorem exists_response (recent earlier : K) (xs : List K) :
    ∃ ys : List K,
      ((s.map r.number).runFrom ⟨r.number recent, r.number earlier⟩ (xs.map r.number)).1 =
          ys.map r.number ∧
        ys.length = xs.length ∧
        PowerSeries.X ^ xs.length ∣ series ys * (s.denominator : PowerSeries K) -
          (series xs * (s.numerator : PowerSeries K) +
            (s.echo recent earlier : PowerSeries K)) := by
  induction xs generalizing recent earlier with
  | nil => exact ⟨[], rfl, rfl, by simp⟩
  | cons x xs ih =>
      have step := congrArg (fun p : K[X] => (p : PowerSeries K)) (s.echo_tick recent earlier x)
      have ticked := s.tick_number r recent earlier x
      generalize x * s.gain - s.a1 * recent - s.a2 * earlier = recursive at step ticked
      generalize recursive + s.b1 * recent + s.b2 * earlier = y at step ticked
      obtain ⟨ys, runs, length, dvd⟩ := ih recursive recent
      refine ⟨y :: ys, ?_, congrArg (· + 1) length, ?_⟩
      · rw [List.map_cons, runFrom_cons, ticked]
        dsimp only
        rw [runs, List.map_cons]
      · simp only [Polynomial.coe_add, Polynomial.coe_mul, Polynomial.coe_C, Polynomial.coe_X]
          at step
        have shifted : series (y :: ys) * (s.denominator : PowerSeries K) -
            (series (x :: xs) * (s.numerator : PowerSeries K) +
              (s.echo recent earlier : PowerSeries K)) =
            PowerSeries.X * (series ys * (s.denominator : PowerSeries K) -
              (series xs * (s.numerator : PowerSeries K) +
                (s.echo recursive recent : PowerSeries K))) := by
          rw [series_cons, series_cons]
          linear_combination step
        rw [shifted, List.length_cons, pow_succ']
        exact mul_dvd_mul_left _ dvd

theorem constantCoeff_denominator :
    PowerSeries.constantCoeff (s.denominator : PowerSeries K) = 1 := by
  simp [denominator]

/-- A section is the quotient of the polynomials that it is made of. -/
theorem exists_ofCoefficients {b0 a0 : K} (b1 b2 a1 a2 : K) (b0_ne : b0 ≠ 0) (a0_ne : a0 ≠ 0) :
    ∃ s : Section K,
      ofCoefficients (r.number b0) (r.number b1) (r.number b2) (r.number a0) (r.number a1)
          (r.number a2) = s.map r.number ∧
        ∀ {L : Type} [Field L] [Algebra K L] (w : L),
          aeval w s.numerator / aeval w s.denominator =
            (algebraMap K L b0 + algebraMap K L b1 * w + algebraMap K L b2 * w ^ 2) /
              (algebraMap K L a0 + algebraMap K L a1 * w + algebraMap K L a2 * w ^ 2) := by
  refine ⟨⟨b0 / a0, b1 / b0, b2 / b0, a1 / a0, a2 / a0⟩, ?_, fun {L} _ _ w => ?_⟩
  · rw [ofCoefficients, r.div _ _ a0_ne, r.div _ _ b0_ne, r.div _ _ b0_ne, r.div _ _ a0_ne,
      r.div _ _ a0_ne, map]
  · have b0_ne' : algebraMap K L b0 ≠ 0 := (map_ne_zero _).mpr b0_ne
    have a0_ne' : algebraMap K L a0 ≠ 0 := (map_ne_zero _).mpr a0_ne
    have upper : aeval w (numerator ⟨b0 / a0, b1 / b0, b2 / b0, a1 / a0, a2 / a0⟩) =
        (algebraMap K L b0 + algebraMap K L b1 * w + algebraMap K L b2 * w ^ 2) /
          algebraMap K L a0 := by
      simp only [numerator, map_mul, map_add, map_one, map_pow, aeval_C, aeval_X, map_div₀]
      field_simp
    have lower : aeval w (denominator ⟨b0 / a0, b1 / b0, b2 / b0, a1 / a0, a2 / a0⟩) =
        (algebraMap K L a0 + algebraMap K L a1 * w + algebraMap K L a2 * w ^ 2) /
          algebraMap K L a0 := by
      simp only [denominator, map_mul, map_add, map_one, map_pow, aeval_C, aeval_X, map_div₀]
      field_simp
    rw [upper, lower, div_div_div_cancel_right₀ a0_ne']

/-- The response of a section is the value of its transfer function. -/
theorem frequencyResponse_map (s : Section ℝ) {f : ℝ}
    (nonzero : aeval (turn f) s.denominator ≠ 0) :
    (s.map real).frequencyResponse (real f) =
      ofComplex (aeval (turn f) s.numerator / aeval (turn f) s.denominator) := by
  have upper : aeval (turn f) s.numerator =
      s.gain * (1 + s.b1 * turn f + s.b2 * turn f ^ 2) := by
    simp [numerator]
  have lower : aeval (turn f) s.denominator = 1 + s.a1 * turn f + s.a2 * turn f ^ 2 := by
    simp [denominator]
  rw [lower] at nonzero
  rw [upper, lower]
  exact frequencyResponse_real s.gain s.b1 s.b2 nonzero

end Section

/-! ## Cascades -/

namespace Cascade

/-- A cascade with its coefficients written as other numbers. -/
def map {K α : Type} (f : K → α) (c : Cascade K) : Cascade α := ⟨c.sections.map (Section.map f)⟩

section Field

variable {K : Type} [Field K]

/-- The product of what the sections multiply by. -/
noncomputable def numerator (c : Cascade K) : K[X] := (c.sections.map Section.numerator).prod

/-- The product of what the sections divide by. -/
noncomputable def denominator (c : Cascade K) : K[X] := (c.sections.map Section.denominator).prod

theorem constantCoeff_denominator (c : Cascade K) :
    PowerSeries.constantCoeff (c.denominator : PowerSeries K) = 1 := by
  obtain ⟨sections⟩ := c
  rw [denominator]
  dsimp only
  induction sections with
  | nil => simp
  | cons s rest ih =>
      rw [List.map_cons, List.prod_cons, Polynomial.coe_mul, map_mul, ih,
        s.constantCoeff_denominator, mul_one]

theorem numerator_of_perm {c c' : Cascade K} (perm : c'.sections.Perm c.sections) :
    c'.numerator = c.numerator :=
  (perm.map _).prod_eq

theorem denominator_of_perm {c c' : Cascade K} (perm : c'.sections.Perm c.sections) :
    c'.denominator = c.denominator :=
  (perm.map _).prod_eq

variable {α : Type} [Scalar α] (r : Reading K α)

/-- The samples that come out satisfy the equation of the transfer function. -/
theorem exists_response (c : Cascade K) (xs : List K) :
    ∃ ys : List K, (c.map r.number).filter (xs.map r.number) = ys.map r.number ∧
      ys.length = xs.length ∧
      PowerSeries.X ^ xs.length ∣ series ys * (c.denominator : PowerSeries K) -
        series xs * (c.numerator : PowerSeries K) := by
  obtain ⟨sections⟩ := c
  rw [map, filter, numerator, denominator]
  dsimp only
  induction sections generalizing xs with
  | nil => exact ⟨xs, rfl, rfl, by simp⟩
  | cons s rest ih =>
      obtain ⟨ys, runs, length, dvd⟩ := s.exists_response r 0 0 xs
      obtain ⟨zs, filters, length', dvd'⟩ := ih ys
      have first : (s.map r.number).filter (xs.map r.number) = ys.map r.number := by
        rw [Section.filter, ← runs, r.zero]
        rfl
      refine ⟨zs, ?_, length'.trans length, ?_⟩
      · rw [List.map_cons, List.foldl_cons, first, filters]
      · rw [s.echo_rest, Polynomial.coe_zero, add_zero] at dvd
        rw [length] at dvd'
        rw [List.map_cons, List.map_cons, List.prod_cons, List.prod_cons, Polynomial.coe_mul,
          Polynomial.coe_mul]
        exact dvd_chain dvd dvd'

/-- A function of signals is what a cascade does to the numbers of a field, and it is given by the
transfer function of the cascade. -/
structure Realizes (c : Cascade K) (respond : List K → List K) : Prop where
  filters : ∀ xs, (c.map r.number).filter (xs.map r.number) = (respond xs).map r.number
  length : ∀ xs, (respond xs).length = xs.length
  transfer : ∀ xs, PowerSeries.X ^ xs.length ∣
    series (respond xs) * (c.denominator : PowerSeries K) -
      series xs * (c.numerator : PowerSeries K)
  linear : ∀ (p q : K) (xs ys : List K), xs.length = ys.length →
    respond (List.zipWith (fun x y => p * x + q * y) xs ys) =
      List.zipWith (fun x y => p * x + q * y) (respond xs) (respond ys)
  unordered : ∀ c' : Cascade K, c'.sections.Perm c.sections → ∀ xs,
    (c'.map r.number).filter (xs.map r.number) = (respond xs).map r.number

theorem exists_realizes (c : Cascade K) : ∃ respond, c.Realizes r respond := by
  choose respond filters length transfer using c.exists_response r
  have first := c.constantCoeff_denominator
  refine ⟨respond, filters, length, transfer, fun p q xs ys same => ?_, fun c' perm xs => ?_⟩
  · have dvd := transfer (List.zipWith (fun x y => p * x + q * y) xs ys)
    have count : (List.zipWith (fun x y => p * x + q * y) xs ys).length = xs.length := by
      rw [List.length_zipWith, same, Nat.min_self]
    have count' : (List.zipWith (fun x y => p * x + q * y) (respond xs) (respond ys)).length =
        xs.length := by
      rw [List.length_zipWith, length, length, same, Nat.min_self]
    refine eq_of_dvd_series (by rw [length, count, count']) first (by rwa [length]) ?_
    have both := dvd_add (dvd_mul_of_dvd_right (transfer xs) (PowerSeries.C p))
      (dvd_mul_of_dvd_right (same ▸ transfer ys) (PowerSeries.C q))
    rw [count', series_zipWith p q (by rw [length, length, same]), series_zipWith p q same]
    refine both.trans (dvd_of_eq ?_)
    ring
  · obtain ⟨ys, filters', length', transfer'⟩ := c'.exists_response r xs
    rw [numerator_of_perm perm, denominator_of_perm perm, ← length'] at transfer'
    have dvd := transfer xs
    rw [← length] at dvd
    rw [filters', eq_of_dvd_series (length'.trans (length xs).symm) first transfer' dvd]

end Field

/-- The response of a cascade is the value of its transfer function. -/
theorem frequencyResponse_map (c : Cascade ℝ) {f : ℝ}
    (nonzero : aeval (Section.turn f) c.denominator ≠ 0) :
    (c.map real).frequencyResponse (real f) =
      ofComplex (aeval (Section.turn f) c.numerator / aeval (Section.turn f) c.denominator) := by
  obtain ⟨sections⟩ := c
  have onto (z : ℂ) : (sections.map (Section.map real)).foldl
      (fun product s => product * s.frequencyResponse (real f)) (ofComplex z) =
        ofComplex (z * (aeval (Section.turn f) (⟨sections⟩ : Cascade ℝ).numerator /
          aeval (Section.turn f) (⟨sections⟩ : Cascade ℝ).denominator)) := by
    induction sections generalizing z with
    | nil => simp [numerator, denominator]
    | cons s rest ih =>
        rw [denominator, List.map_cons, List.prod_cons, map_mul] at nonzero
        obtain ⟨here, later⟩ := mul_ne_zero_iff.mp nonzero
        rw [List.map_cons, List.foldl_cons, s.frequencyResponse_map here, ofComplex_mul, ih later,
          numerator, numerator, denominator, denominator, List.map_cons, List.map_cons,
          List.prod_cons, List.prod_cons, map_mul, map_mul, mul_assoc, div_mul_div_comm]
  have all := onto 1
  rw [one_mul, ← Complex.ofReal_one, ofComplex_real, ← real_one] at all
  exact all

/-- Over every field a cascade is its transfer function: it is linear, its sections may stand in any
order, and what comes out for a signal is the quotient of two polynomials times the signal, up to as
many coefficients as there are samples. Its response to a frequency is the value of the same
quotient at a point of the unit circle. A section has the quotient that it is made of. -/
theorem filter_transfer :
    (∀ {K α : Type} [Field K] [Scalar α] (r : Reading K α),
      (∀ c : Cascade K, ∃ respond, c.Realizes r respond) ∧
        ∀ {b0 a0 : K} (b1 b2 a1 a2 : K), b0 ≠ 0 → a0 ≠ 0 →
          ∃ s : Section K,
            Section.ofCoefficients (r.number b0) (r.number b1) (r.number b2) (r.number a0)
                (r.number a1) (r.number a2) = s.map r.number ∧
              ∀ {L : Type} [Field L] [Algebra K L] (w : L),
                aeval w s.numerator / aeval w s.denominator =
                  (algebraMap K L b0 + algebraMap K L b1 * w + algebraMap K L b2 * w ^ 2) /
                    (algebraMap K L a0 + algebraMap K L a1 * w + algebraMap K L a2 * w ^ 2)) ∧
      ∀ (c : Cascade ℝ) {f : ℝ}, aeval (Section.turn f) c.denominator ≠ 0 →
        (c.map real).frequencyResponse (real f) =
          ofComplex (aeval (Section.turn f) c.numerator / aeval (Section.turn f) c.denominator) :=
  ⟨fun r => ⟨fun c => c.exists_realizes r, Section.exists_ofCoefficients r⟩,
    frequencyResponse_map⟩

/-- A pole at one half, and a zero at minus one with a gain of 2. At 0 Hz the pole makes twice as
much of a signal, and the zero with its gain four times as much. -/
theorem filter_transfer_pole :
    let c : Cascade ℝ := ⟨[⟨1, 0, 0, -1 / 2, 0⟩, ⟨2, 1, 0, 0, 0⟩]⟩
    (∃ respond, c.Realizes Exact.reading respond) ∧
      (c.map real).frequencyResponse (real 0) = ofComplex 8 ∧
      (2 : ℝ) ≠ 0 ∧ (1 : ℝ) ≠ 0 ∧ ∃ s : Section ℝ,
        Section.ofCoefficients (real 2) (real 2) (real 0) (real 1) (real 0) (real 0) =
            s.map real ∧
          ∀ w : ℂ, aeval w s.numerator / aeval w s.denominator = 2 + 2 * w := by
  intro c
  obtain ⟨realizes, sections⟩ := filter_transfer.1 Exact.reading
  have start : Section.turn 0 = 1 := by
    rw [Section.turn_eq]
    simp
  have upper : aeval (Section.turn 0) c.numerator = 4 := by
    rw [start]
    norm_num [c, numerator, Section.numerator]
  have lower : aeval (Section.turn 0) c.denominator = 1 / 2 := by
    rw [start]
    norm_num [c, denominator, Section.denominator]
  refine ⟨realizes c, ?_, two_ne_zero, one_ne_zero, ?_⟩
  · rw [filter_transfer.2 c (by rw [lower]; norm_num), upper, lower]
    norm_num
  · obtain ⟨s, made, quotient⟩ := sections 2 0 0 0 (two_ne_zero (α := ℝ)) (one_ne_zero (α := ℝ))
    refine ⟨s, made, fun w => (quotient w).trans ?_⟩
    norm_num

end Cascade

end Binaural
