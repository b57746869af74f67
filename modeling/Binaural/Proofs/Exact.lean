import Mathlib
import Binaural.Complex

/-!
Exact arithmetic.

`Exact` is the real numbers with one more value, for what has no real result: a quotient by 0, a
root of a negative number, a logarithm of a number that is not positive. So the signal processing
can be read without rounding, and still tell where it fails. All operations on an undefined value
are undefined, and it compares to nothing, as a number that is no number does.

Lists of such numbers are written as functions of the index (`reals`, `complexes`), so that sums over
them are sums in a field.
-/

namespace Binaural

/-- A real number, or no number at all. -/
inductive Exact
  | real (x : ℝ)
  | undefined

namespace Exact

open scoped Classical in
/-- A number that is defined under a condition. -/
noncomputable def only (condition : Prop) (x : ℝ) : Exact :=
  if condition then real x else undefined

/-- A function of a number. -/
noncomputable def apply (f : ℝ → Exact) : Exact → Exact
  | real x => f x
  | undefined => undefined

/-- A function of two numbers. -/
noncomputable def apply₂ (f : ℝ → ℝ → Exact) : Exact → Exact → Exact
  | real x, real y => f x y
  | _, _ => undefined

/-- Whether two numbers are related. -/
def Related (r : ℝ → ℝ → Prop) : Exact → Exact → Prop
  | real x, real y => r x y
  | _, _ => False

end Exact

open Exact in
open scoped Classical in
noncomputable instance : Scalar Exact where
  add := apply₂ fun x y => real (x + y)
  sub := apply₂ fun x y => real (x - y)
  mul := apply₂ fun x y => real (x * y)
  div := apply₂ fun x y => only (y ≠ 0) (x / y)
  neg := apply fun x => real (-x)
  lt := Related (· < ·)
  le := Related (· ≤ ·)
  beq x y := decide (Related (· = ·) x y)
  ofScientific mantissa negative exponent :=
    real (OfScientific.ofScientific mantissa negative exponent)
  ofNat n := real n
  decidableLT _ _ := Classical.propDecidable _
  decidableLE _ _ := Classical.propDecidable _
  pi := real Real.pi
  abs := apply fun x => real |x|
  sqrt := apply fun x => only (0 ≤ x) (Real.sqrt x)
  exp := apply fun x => real (Real.exp x)
  ln := apply fun x => only (0 < x) (Real.log x)
  log10 := apply fun x => only (0 < x) (Real.logb 10 x)
  sin := apply fun x => real (Real.sin x)
  cos := apply fun x => real (Real.cos x)
  tan := apply fun x => only (Real.cos x ≠ 0) (Real.tan x)
  atan := apply fun x => real (Real.arctan x)
  pow := apply₂ fun x y => only (0 < x ∨ x = 0 ∧ 0 < y) (x ^ y)
  isFinite
    | real _ => true
    | undefined => false
  ceilNat
    | real x => ⌈x⌉₊
    | undefined => 0

namespace Exact

/-! ## Operations on real numbers -/

section Operations

variable (x y : ℝ)

@[simp] theorem real_add : real x + real y = real (x + y) := rfl

@[simp] theorem real_sub : real x - real y = real (x - y) := rfl

@[simp] theorem real_mul : real x * real y = real (x * y) := rfl

@[simp] theorem real_neg : -real x = real (-x) := rfl

@[simp] theorem real_pi : (Scalar.pi : Exact) = real Real.pi := rfl

@[simp] theorem real_ofNat (n : ℕ) : (Scalar.ofNat n : Exact) = real n := rfl

@[simp] theorem real_zero : (0 : Exact) = real 0 := congrArg real Nat.cast_zero

@[simp] theorem real_one : (1 : Exact) = real 1 := congrArg real Nat.cast_one

@[simp] theorem real_two : (2 : Exact) = real 2 := congrArg real Nat.cast_two

theorem real_numeral (n : ℕ) [n.AtLeastTwo] :
    (OfNat.ofNat n : Exact) = real (OfNat.ofNat n) :=
  congrArg real Nat.cast_ofNat

@[simp] theorem real_abs : Scalar.abs (real x) = real |x| := rfl

@[simp] theorem real_cos : Scalar.cos (real x) = real (Real.cos x) := rfl

@[simp] theorem real_sin : Scalar.sin (real x) = real (Real.sin x) := rfl

@[simp] theorem real_isFinite : Scalar.isFinite (real x) = true := rfl

@[simp] theorem real_lt : real x < real y ↔ x < y := Iff.rfl

@[simp] theorem real_le : real x ≤ real y ↔ x ≤ y := Iff.rfl

@[simp] theorem real_beq : (real x == real y) = true ↔ x = y :=
  @decide_eq_true_iff _ (Classical.propDecidable _)

variable {x y}

theorem real_div (nonzero : y ≠ 0) : real x / real y = real (x / y) := if_pos nonzero

theorem real_sqrt (nonneg : 0 ≤ x) : Scalar.sqrt (real x) = real (Real.sqrt x) := if_pos nonneg

theorem real_tan (nonzero : Real.cos x ≠ 0) : Scalar.tan (real x) = real (Real.tan x) :=
  if_pos nonzero

theorem real_log10 (positive : 0 < x) : Scalar.log10 (real x) = real (Real.logb 10 x) :=
  if_pos positive

theorem real_ln {x : ℝ} (positive : 0 < x) : Scalar.ln (real x) = real (Real.log x) :=
  if_pos positive

theorem real_pow (positive : 0 < x) (y : ℝ) :
    Scalar.pow (real x) (real y) = real (x ^ y) :=
  if_pos (.inl positive)

end Operations

theorem atLeast_real (floor x : ℝ) : Scalar.atLeast (real floor) (real x) = real (max x floor) := by
  unfold Scalar.atLeast
  by_cases above : floor ≤ x
  · rw [if_pos ((real_le _ _).mpr above), max_eq_left above]
  · rw [if_neg (mt (real_le _ _).mp above), max_eq_right (not_le.mp above).le]

/-- What lies between two bounds is a number. -/
theorem exists_real_of_le {low x : Exact} (above : low ≤ x) : ∃ y, x = real y := by
  cases low with
  | undefined => cases above
  | real _ =>
      cases x with
      | undefined => cases above
      | real y => exact ⟨y, rfl⟩

/-- What lies above a bound is a number. -/
theorem exists_real_of_lt {low x : Exact} (above : low < x) : ∃ y, x = real y := by
  cases low with
  | undefined => cases above
  | real _ =>
      cases x with
      | undefined => cases above
      | real y => exact ⟨y, rfl⟩

theorem exists_real_le {x : Exact} {bound : ℝ} (below : x ≤ real bound) :
    ∃ y, x = real y ∧ y ≤ bound := by
  cases x with
  | undefined => cases below
  | real y => exact ⟨y, rfl, below⟩

theorem exists_real_lt {x : Exact} {bound : ℝ} (below : x < real bound) :
    ∃ y, x = real y ∧ y < bound := by
  cases x with
  | undefined => cases below
  | real y => exact ⟨y, rfl, below⟩

/-! ## Complex numbers -/

/-- A complex number by its exact parts. -/
noncomputable def ofComplex (z : ℂ) : Complex Exact := ⟨real z.re, real z.im⟩

theorem ofComplex_real (x : ℝ) : ofComplex x = Complex.ofReal (real x) := by
  rw [Complex.ofReal, real_zero]
  rfl

/-- The number of length 1 at an angle. -/
theorem ofComplex_exp (angle : ℝ) :
    ofComplex (Complex.exp (angle * Complex.I)) =
      ⟨real (Real.cos angle), real (Real.sin angle)⟩ := by
  rw [ofComplex, Complex.exp_ofReal_mul_I_re, Complex.exp_ofReal_mul_I_im]

theorem polar_real (length angle : ℝ) :
    Complex.polar (real length) (real angle) =
      ofComplex (length * Complex.exp (angle * Complex.I)) := by
  rw [ofComplex, Complex.re_ofReal_mul, Complex.im_ofReal_mul, Complex.exp_ofReal_mul_I_re,
    Complex.exp_ofReal_mul_I_im]
  rfl

section Arithmetic

variable (z w : ℂ) (x : ℝ)

theorem ofComplex_add : ofComplex z + ofComplex w = ofComplex (z + w) := rfl

theorem ofComplex_mul : ofComplex z * ofComplex w = ofComplex (z * w) := rfl

theorem ofComplex_scale : (ofComplex z).scale (real x) = ofComplex (z * x) := by
  rw [Complex.scale, ofComplex, ofComplex, real_mul, real_mul, Complex.re_mul_ofReal,
    Complex.im_mul_ofReal]

theorem normSq_ofComplex : (ofComplex z).normSq = real (‖z‖ ^ 2) := by
  rw [Complex.sq_norm, Complex.normSq_apply]
  rfl

variable {w}

theorem ofComplex_div (nonzero : w ≠ 0) : ofComplex z / ofComplex w = ofComplex (z / w) := by
  have positive : w.re * w.re + w.im * w.im ≠ 0 := by
    rw [← Complex.normSq_apply]
    exact mt Complex.normSq_eq_zero.mp nonzero
  change (⟨real (z.re * w.re + z.im * w.im) / real (w.re * w.re + w.im * w.im),
    real (z.im * w.re - z.re * w.im) / real (w.re * w.re + w.im * w.im)⟩ : Complex Exact) = _
  rw [real_div positive, real_div positive, ofComplex, Complex.div_re, Complex.div_im,
    Complex.normSq_apply, ← add_div, ← sub_div]

end Arithmetic

theorem isInfinite_real (x : ℝ) : Scalar.isInfinite (real x) = false := by
  rw [Scalar.isInfinite, real_isFinite, Bool.not_true, Bool.and_false]

/-- The larger part times a root is the distance from zero. -/
theorem mul_sqrt_eq {large small : ℝ} (positive : 0 < large) :
    large * Real.sqrt (1 + small / large * (small / large)) =
      Real.sqrt (large * large + small * small) := by
  have inside : large * large + small * small =
      large ^ 2 * (1 + small / large * (small / large)) := by
    field_simp
  rw [inside, Real.sqrt_mul (sq_nonneg large), Real.sqrt_sq positive.le]

/-- The distance from zero out of the two parts without their signs, the larger one first. -/
theorem norm_of_parts {large small : ℝ} (nonneg : 0 ≤ small) (below : small ≤ large) :
    (if real large == (0 : Exact) then real small
      else real large *
        Scalar.sqrt ((1 : Exact) + real small / real large * (real small / real large))) =
      real (Real.sqrt (large * large + small * small)) := by
  rw [real_zero]
  by_cases vanishes : large = 0
  · have both : small = 0 := le_antisymm (vanishes ▸ below) nonneg
    rw [if_pos ((real_beq _ _).mpr vanishes), vanishes, both]
    simp
  · have positive : 0 < large := lt_of_le_of_ne (nonneg.trans below) (Ne.symm vanishes)
    have inside : 0 ≤ 1 + small / large * (small / large) := by positivity
    rw [if_neg (mt (real_beq _ _).mp vanishes), real_div vanishes, real_one, real_mul, real_add,
      real_sqrt inside, real_mul, mul_sqrt_eq positive]

/-- The distance from zero is that of the complex number. -/
theorem norm_ofComplex (z : ℂ) : (ofComplex z).norm = real ‖z‖ := by
  have distance : ‖z‖ = Real.sqrt (|z.re| * |z.re| + |z.im| * |z.im|) := by
    rw [Complex.norm_eq_sqrt_sq_add_sq, abs_mul_abs_self, abs_mul_abs_self, sq, sq]
  unfold Complex.norm ofComplex
  dsimp only
  rw [real_abs, real_abs, isInfinite_real, isInfinite_real, if_neg Bool.false_ne_true,
    if_neg Bool.false_ne_true, distance]
  by_cases less : |z.re| < |z.im|
  · have less' : real |z.re| < real |z.im| := less
    rw [if_pos less', if_pos less', norm_of_parts (abs_nonneg _) less.le, add_comm]
  · have less' : ¬ real |z.re| < real |z.im| := less
    rw [if_neg less', if_neg less', norm_of_parts (abs_nonneg _) (not_lt.mp less)]

/-! ## Lists of numbers -/

/-- A list of real numbers. -/
noncomputable def reals (size : ℕ) (x : ℕ → ℝ) : List Exact :=
  (List.range size).map fun k => real (x k)

/-- A list of complex numbers. -/
noncomputable def complexes (size : ℕ) (x : ℕ → ℂ) : List (Complex Exact) :=
  (List.range size).map fun k => ofComplex (x k)

section Lists

variable {size : ℕ}

@[simp] theorem length_reals (x : ℕ → ℝ) : (reals size x).length = size := by simp [reals]

@[simp] theorem length_complexes (x : ℕ → ℂ) : (complexes size x).length = size := by
  simp [complexes]

@[simp] theorem getElem_reals {x : ℕ → ℝ} {k : ℕ} (inside : k < (reals size x).length) :
    (reals size x)[k] = real (x k) := by
  simp [reals]

@[simp] theorem getElem_complexes {x : ℕ → ℂ} {k : ℕ} (inside : k < (complexes size x).length) :
    (complexes size x)[k] = ofComplex (x k) := by
  simp [complexes]

theorem getD_reals (x : ℕ → ℝ) (k : ℕ) :
    (reals size x).getD k 0 = real (if k < size then x k else 0) := by
  by_cases inside : k < size
  · rw [if_pos inside, List.getD_eq_getElem _ _ (by rwa [length_reals]), getElem_reals]
  · rw [if_neg inside, List.getD_eq_default _ _ (by rw [length_reals]; omega), real_zero]

theorem getD_complexes (x : ℕ → ℂ) (k : ℕ) :
    (complexes size x).getD k ⟨0, 0⟩ = ofComplex (if k < size then x k else 0) := by
  by_cases inside : k < size
  · rw [if_pos inside, List.getD_eq_getElem _ _ (by rwa [length_complexes]), getElem_complexes]
  · rw [if_neg inside, List.getD_eq_default _ _ (by rw [length_complexes]; omega), real_zero]
    rfl

theorem reals_congr {x y : ℕ → ℝ} (same : ∀ k < size, x k = y k) :
    reals size x = reals size y :=
  List.map_congr_left fun k member => by rw [same k (List.mem_range.mp member)]

theorem complexes_congr {x y : ℕ → ℂ} (same : ∀ k < size, x k = y k) :
    complexes size x = complexes size y :=
  List.map_congr_left fun k member => by rw [same k (List.mem_range.mp member)]

theorem map_reals {x y : ℕ → ℝ} {f : Exact → Exact} (given : ∀ k, f (real (x k)) = real (y k)) :
    (reals size x).map f = reals size y := by
  rw [reals, reals, List.map_map]
  exact List.map_congr_left fun k _ => given k

theorem map_real_comp (m : List ℝ) (f : ℝ → ℝ) :
    (m.map fun x => real (f x)) = reals m.length fun k => f (m.getD k 0) := by
  refine List.ext_getElem (by simp) fun k here _ => ?_
  rw [List.length_map] at here
  rw [getElem_reals, List.getElem_map, List.getD_eq_getElem _ _ here]

theorem map_real_eq (m : List ℝ) : m.map real = reals m.length fun k => m.getD k 0 :=
  map_real_comp m id

theorem map_ofReal_reals (x : ℕ → ℝ) :
    (reals size x).map Complex.ofReal = complexes size fun k => x k := by
  rw [reals, complexes, List.map_map]
  exact List.map_congr_left fun k _ => (ofComplex_real (x k)).symm

theorem map_re_complexes (x : ℕ → ℂ) :
    (complexes size x).map Complex.re = reals size fun k => (x k).re := by
  rw [reals, complexes, List.map_map]
  rfl

theorem map_im_complexes (x : ℕ → ℂ) :
    (complexes size x).map Complex.im = reals size fun k => (x k).im := by
  rw [reals, complexes, List.map_map]
  rfl

theorem map_norm_complexes (x : ℕ → ℂ) :
    (complexes size x).map Complex.norm = reals size fun k => ‖x k‖ := by
  rw [reals, complexes, List.map_map]
  exact List.map_congr_left fun k _ => norm_ofComplex (x k)

/-- A list is known by its numbers, whatever stands for those that it lacks. -/
theorem eq_complexes {xs : List (Complex Exact)} {x : ℕ → ℂ} (length : xs.length = size)
    (numbers : ∀ k < size, xs.getD k ⟨0, 0⟩ = ofComplex (x k)) : xs = complexes size x := by
  refine List.ext_getElem (by rw [length, length_complexes]) fun k here _ => ?_
  rw [← List.getD_eq_getElem xs ⟨0, 0⟩ here, numbers k (length ▸ here), getElem_complexes]

/-- Finite numbers are real ones. -/
theorem exists_map_real {xs : List Exact} (finite : ∀ x ∈ xs, Scalar.isFinite x = true) :
    ∃ m : List ℝ, xs = m.map real := by
  induction xs with
  | nil => exact ⟨[], rfl⟩
  | cons x xs ih =>
      rcases List.forall_mem_cons.mp finite with ⟨head, tail⟩
      rcases ih tail with ⟨m, rfl⟩
      cases x with
      | undefined => cases head
      | real y => exact ⟨y :: m, rfl⟩

theorem finite_map_real (m : List ℝ) : ∀ x ∈ m.map real, Scalar.isFinite x = true := by
  intro x member
  rcases List.mem_map.mp member with ⟨y, -, rfl⟩
  rfl

end Lists

end Exact

end Binaural
