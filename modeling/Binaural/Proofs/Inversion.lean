import Binaural.Proofs.DiscreteFourier

/-!
The two directions of the transform.

Bins are sums of samples turned by the powers of a root, and the way back turns the bins by those of
its inverse and divides by their number (`idft`). Over a turn the powers of a root other than 1
cancel, so each way undoes the other (`turned_idft`, `idft_turned`).

The place of the opposite frequency is `mirror`. Numbers are `Hermitian` if those at opposite places
are conjugate. The transform takes real numbers to such and such to real numbers, in either
direction, since both its roots lie on the unit circle.
-/

namespace Binaural

open Exact
open Roots (turned root)
open scoped ComplexConjugate

/-! ## Inversion -/

namespace Roots

theorem root_primitive {size : ℕ} (positive : 0 < size) : IsPrimitiveRoot (root size) size := by
  have inverse : root size = (Complex.exp (2 * Real.pi * Complex.I / size))⁻¹ := by
    rw [root, ← Complex.exp_neg]
    congr 1
    push_cast
    ring
  rw [inverse]
  exact (Complex.isPrimitiveRoot_exp size positive.ne').inv

section Primitive

variable {ζ : ℂ} {size : ℕ} (primitive : IsPrimitiveRoot ζ size)
include primitive

/-- Over a whole turn, powers of a root cancel unless all of them are 1. -/
theorem sum_pow_mul_inv_pow {j k : ℕ} (inside : j < size) (inside' : k < size) :
    ∑ l ∈ Finset.range size, ζ ^ (j * l) * ζ⁻¹ ^ (l * k) = if j = k then (size : ℂ) else 0 := by
  have positive : size ≠ 0 := by omega
  have nonzero : ζ ≠ 0 := primitive.ne_zero positive
  have powers (l : ℕ) : ζ ^ (j * l) * ζ⁻¹ ^ (l * k) = (ζ ^ j * ζ⁻¹ ^ k) ^ l := by
    rw [mul_pow, ← pow_mul, ← pow_mul, Nat.mul_comm l k]
  simp only [powers]
  -- a geometric sum, whose ratio is either 1 or another number with whole turns
  by_cases same : j = k
  · have one : ζ ^ j * ζ⁻¹ ^ k = 1 := by
      rw [same, ← mul_pow, mul_inv_cancel₀ nonzero, one_pow]
    rw [if_pos same, one]
    simp
  · have other : ζ ^ j * ζ⁻¹ ^ k - 1 ≠ 0 := by
      intro vanishes
      rw [inv_pow, ← div_eq_mul_inv, sub_eq_zero,
        div_eq_one_iff_eq (pow_ne_zero k nonzero)] at vanishes
      exact same (primitive.pow_inj inside inside' vanishes)
    have turn : (ζ ^ j * ζ⁻¹ ^ k) ^ size = 1 := by
      rw [mul_pow, ← pow_mul, ← pow_mul, Nat.mul_comm j, Nat.mul_comm k, pow_mul, pow_mul,
        inv_pow, primitive.pow_eq_one, inv_one, one_pow, one_pow, one_mul]
    have sum := mul_geom_sum (ζ ^ j * ζ⁻¹ ^ k) size
    rw [turn, sub_self] at sum
    rw [if_neg same]
    exact (mul_eq_zero.mp sum).resolve_left other

/-- Turned one way and then the other way, numbers come back as often as there are numbers. -/
theorem turned_turned (x : ℕ → ℂ) {k : ℕ} (inside : k < size) :
    turned ζ⁻¹ size (turned ζ size x) k = size * x k := by
  calc turned ζ⁻¹ size (turned ζ size x) k
      = ∑ l ∈ Finset.range size, ∑ j ∈ Finset.range size,
          x j * (ζ ^ (j * l) * ζ⁻¹ ^ (l * k)) := by
        refine Finset.sum_congr rfl fun l _ => ?_
        rw [turned, Finset.sum_mul]
        exact Finset.sum_congr rfl fun j _ => mul_assoc _ _ _
    _ = ∑ j ∈ Finset.range size, x j * if j = k then (size : ℂ) else 0 := by
        rw [Finset.sum_comm]
        refine Finset.sum_congr rfl fun j member => ?_
        rw [← Finset.mul_sum, sum_pow_mul_inv_pow primitive (Finset.mem_range.mp member) inside]
    _ = size * x k := by
        simp [inside, mul_comm]

end Primitive

theorem turned_congr {ζ : ℂ} {size : ℕ} {x y : ℕ → ℂ} (same : ∀ j < size, x j = y j) :
    turned ζ size x = turned ζ size y :=
  funext fun k => Finset.sum_congr rfl fun j member => by rw [same j (Finset.mem_range.mp member)]

end Roots

/-- The samples that have the given bins. -/
noncomputable def idft (size : ℕ) (x : ℕ → ℂ) (k : ℕ) : ℂ :=
  turned (root size)⁻¹ size x k / size

section Linear

variable {ζ : ℂ} {size : ℕ} (x y : ℕ → ℂ) (k : ℕ)

theorem Roots.turned_add :
    turned ζ size (fun j => x j + y j) k = turned ζ size x k + turned ζ size y k := by
  simp only [turned, add_mul, Finset.sum_add_distrib]

theorem Roots.turned_const_mul (c : ℂ) :
    turned ζ size (fun j => c * x j) k = c * turned ζ size x k := by
  simp only [turned, mul_assoc, Finset.mul_sum]

theorem idft_zero : idft size (fun _ => 0) k = 0 := by
  simp only [idft, turned, zero_mul, Finset.sum_const_zero, zero_div]

theorem idft_add : idft size (fun j => x j + y j) k = idft size x k + idft size y k := by
  rw [idft, Roots.turned_add, add_div, idft, idft]

theorem idft_const_mul (c : ℂ) : idft size (fun j => c * x j) k = c * idft size x k := by
  rw [idft, Roots.turned_const_mul, mul_div_assoc, idft]

end Linear

theorem idft_congr {size : ℕ} {x y : ℕ → ℂ} (same : ∀ j < size, x j = y j) :
    idft size x = idft size y :=
  funext fun k => by rw [idft, idft, Roots.turned_congr same]

section Inversion

variable {size k : ℕ} (x : ℕ → ℂ) (inside : k < size)
include inside

theorem idft_turned : idft size (turned (root size) size x) k = x k := by
  have nonzero : (size : ℂ) ≠ 0 := Nat.cast_ne_zero.mpr (by omega)
  rw [idft, Roots.turned_turned (Roots.root_primitive (by omega)) x inside,
    mul_div_cancel_left₀ _ nonzero]

theorem turned_idft : turned (root size) size (idft size x) k = x k := by
  have nonzero : (size : ℂ) ≠ 0 := Nat.cast_ne_zero.mpr (by omega)
  have back := Roots.turned_turned (Roots.root_primitive (show 0 < size by omega)).inv x inside
  have divided : turned (root size) size (idft size x) k =
      turned (root size) size (turned (root size)⁻¹ size x) k / size := by
    rw [turned, turned, Finset.sum_div]
    exact Finset.sum_congr rfl fun j _ => div_mul_eq_mul_div _ _ _
  rw [inv_inv] at back
  rw [divided, back, mul_div_cancel_left₀ _ nonzero]

end Inversion

/-- The points that have given bins. -/
theorem Transform.points_complexes {t : Transform Exact} (x : ℕ → ℂ) :
    t.points (complexes t.size x) = complexes t.size (idft t.size x) := by
  have nonzero : (t.size : ℝ) ≠ 0 := by exact_mod_cast t.size_pos.ne'
  have turns : t.inverseRoots.apply (complexes t.size x) =
      complexes t.size (turned (root t.size)⁻¹ t.size x) := by
    rw [t.inverseRoots_eq]
    exact Roots.apply_complexes (Roots.powersOf_onward t.size_pos) x
  rw [points, turns, real_one, real_ofNat, real_div nonzero, complexes, complexes, List.map_map]
  refine List.map_congr_left fun k _ => ?_
  rw [Function.comp_apply, ofComplex_scale, idft, Complex.ofReal_div, Complex.ofReal_one,
    Complex.ofReal_natCast, mul_one_div]

/-! ## Opposite frequencies -/

/-- The place of the opposite frequency. -/
def mirror (size k : ℕ) : ℕ := if k = 0 then 0 else size - k

section Mirror

variable {size k : ℕ}

theorem mirror_lt (inside : k < size) : mirror size k < size := by
  unfold mirror
  split
  · omega
  · omega

theorem mirror_mirror (inside : k < size) : mirror size (mirror size k) = k := by
  unfold mirror
  by_cases zero : k = 0
  · rw [if_pos zero, if_pos rfl, zero]
  · rw [if_neg zero, if_neg (by omega)]
    omega

/-- A sum does not depend on which of two opposite places comes first. -/
theorem sum_mirror (f : ℕ → ℂ) :
    ∑ j ∈ Finset.range size, f (mirror size j) = ∑ j ∈ Finset.range size, f j := by
  refine Finset.sum_nbij' (mirror size) (mirror size) ?_ ?_ ?_ ?_ ?_
  · exact fun j member => Finset.mem_range.mpr (mirror_lt (Finset.mem_range.mp member))
  · exact fun j member => Finset.mem_range.mpr (mirror_lt (Finset.mem_range.mp member))
  · exact fun j member => mirror_mirror (Finset.mem_range.mp member)
  · exact fun j member => mirror_mirror (Finset.mem_range.mp member)
  · exact fun _ _ => rfl

theorem pow_mirror {ζ : ℂ} (turn : ζ ^ size = 1) (inside : k < size) :
    ζ ^ mirror size k = ζ⁻¹ ^ k := by
  by_cases zero : k = 0
  · rw [zero, mirror, if_pos rfl, pow_zero, pow_zero]
  · rw [mirror, if_neg zero, inv_pow]
    refine eq_inv_of_mul_eq_one_left ?_
    rw [← pow_add, Nat.sub_add_cancel inside.le, turn]

/-- Numbers at opposite places are conjugate. -/
def Hermitian (size : ℕ) (x : ℕ → ℂ) : Prop := ∀ k < size, x (mirror size k) = conj (x k)

/-- Real numbers that are alike at opposite places. -/
theorem hermitian_of_mirror {x : ℕ → ℝ} (alike : ∀ k < size, x (mirror size k) = x k) :
    Hermitian size fun k => x k := by
  intro k inside
  change (x (mirror size k) : ℂ) = conj (x k : ℂ)
  rw [Complex.conj_ofReal, alike k inside]

section Turned

variable {ζ : ℂ} (primitive : IsPrimitiveRoot ζ size)
include primitive

theorem conj_turned {k : ℕ} (inside : k < size) (x : ℕ → ℂ) :
    conj (turned ζ size x k) = turned ζ⁻¹ size (fun j => conj (x j)) k := by
  have circle : conj ζ = ζ⁻¹ :=
    (Complex.inv_eq_conj (primitive.norm'_eq_one (by omega))).symm
  rw [turned, turned, map_sum]
  refine Finset.sum_congr rfl fun j _ => ?_
  rw [map_mul, map_pow, circle]

/-- The bins of the opposite frequencies are turned the other way. -/
theorem turned_mirror (x : ℕ → ℂ) {k : ℕ} (inside : k < size) :
    turned ζ size x (mirror size k) = turned ζ⁻¹ size x k := by
  refine Finset.sum_congr rfl fun j _ => ?_
  rw [Nat.mul_comm j, Nat.mul_comm j, pow_mul, pow_mul, pow_mirror primitive.pow_eq_one inside]

/-- Numbers in the opposite order are turned the other way. -/
theorem turned_comp_mirror (x : ℕ → ℂ) (k : ℕ) :
    turned ζ⁻¹ size (fun j => x (mirror size j)) k = turned ζ size x k := by
  rw [turned, turned, ← sum_mirror fun j => x j * ζ ^ (j * k)]
  refine Finset.sum_congr rfl fun j member => ?_
  rw [pow_mul, pow_mul, pow_mirror primitive.pow_eq_one (Finset.mem_range.mp member)]

/-- Real numbers have conjugate bins at opposite frequencies. -/
theorem hermitian_turned (x : ℕ → ℝ) : Hermitian size (turned ζ size fun j => x j) := by
  intro k inside
  simp only [conj_turned primitive inside, turned_mirror primitive _ inside, Complex.conj_ofReal]

/-- Numbers that are conjugate at opposite places have real bins. -/
theorem Hermitian.turned_eq_re {x : ℕ → ℂ} (hermitian : Hermitian size x) {k : ℕ}
    (inside : k < size) : turned ζ size x k = (turned ζ size x k).re := by
  refine (Complex.conj_eq_iff_re.mp ?_).symm
  have opposite : turned ζ⁻¹ size (fun j => conj (x j)) =
      turned ζ⁻¹ size fun j => x (mirror size j) :=
    Roots.turned_congr fun j small => (hermitian j small).symm
  -- conjugation turns the sum the other way, and so does the opposite order
  rw [conj_turned primitive inside, opposite, turned_comp_mirror primitive]

end Turned

theorem hermitian_idft (x : ℕ → ℝ) : Hermitian size (idft size fun j => x j) := by
  intro k inside
  have primitive := (Roots.root_primitive (show 0 < size by omega)).inv
  rw [idft, idft, hermitian_turned primitive x k inside, map_div₀, Complex.conj_natCast]

theorem Hermitian.idft_eq_re {x : ℕ → ℂ} (hermitian : Hermitian size x) {k : ℕ}
    (inside : k < size) : idft size x k = (idft size x k).re := by
  have primitive := (Roots.root_primitive (show 0 < size by omega)).inv
  rw [idft, hermitian.turned_eq_re primitive inside, ← Complex.ofReal_natCast,
    ← Complex.ofReal_div, Complex.ofReal_re]

end Mirror

end Binaural
