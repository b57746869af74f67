import Binaural.Proofs.HilbertTransform

/-!
Products of magnitudes and convolutions of impulses.

The logarithm makes a sum of a product, and all that follows it is additive: the Hilbert transform
(`quadrature_add`) and the removal of phases (`pinned_add`). So bins of minimum phase multiply with
the magnitudes (`response_mul`). A product of bins is a circular convolution of points (`idft_mul`),
which is what becomes of the impulses. Equal magnitudes have no phase (`quadrature_const`), so a
factor of the magnitudes is one of the impulse (`response_smul`).
-/

namespace Binaural

open Exact
open Roots (turned root)

/-! ## Circular convolution -/

/-- The convolution of two sequences that go on in circles. -/
def convolved {R : Type} [Semiring R] (size : ℕ) (x y : ℕ → R) (n : ℕ) : R :=
  ∑ j ∈ Finset.range size, x j * y ((size + n - j) % size)

theorem convolved_congr {R : Type} [Semiring R] {size n : ℕ} {x x' y y' : ℕ → R}
    (same : ∀ j < size, x j = x' j) (same' : ∀ j < size, y j = y' j) :
    convolved size x y n = convolved size x' y' n := by
  refine Finset.sum_congr rfl fun j member => ?_
  have inside := Finset.mem_range.mp member
  rw [same j inside, same' _ (Nat.mod_lt _ (by omega))]

theorem ofReal_convolved (size : ℕ) (x y : ℕ → ℝ) (n : ℕ) :
    ((convolved size x y n : ℝ) : ℂ) =
      convolved size (fun j => (x j : ℂ)) (fun j => (y j : ℂ)) n := by
  simp [convolved]

section Circle

variable {size j n : ℕ} (inside : j < size) (inside' : n < size)
include inside inside'

theorem rotate_back : (size + (n + j) % size - j) % size = n := by
  by_cases within : n + j < size
  · rw [Nat.mod_eq_of_lt within, show size + (n + j) - j = n + size by omega, Nat.add_mod_right,
      Nat.mod_eq_of_lt inside']
  · have around : (n + j) % size = n + j - size := by
      rw [Nat.mod_eq_sub_mod (by omega), Nat.mod_eq_of_lt (by omega)]
    rw [around, show size + (n + j - size) - j = n by omega, Nat.mod_eq_of_lt inside']

theorem rotate_on : ((size + n - j) % size + j) % size = n := by
  rw [Nat.mod_add_mod, Nat.sub_add_cancel (by omega), Nat.add_mod_left, Nat.mod_eq_of_lt inside']

end Circle

/-- A sum over a circle does not depend on where it begins. -/
theorem sum_rotate {size j : ℕ} (inside : j < size) (f : ℕ → ℂ) :
    ∑ n ∈ Finset.range size, f ((n + j) % size) = ∑ n ∈ Finset.range size, f n := by
  have positive : 0 < size := by omega
  refine Finset.sum_nbij' (fun n => (n + j) % size) (fun n => (size + n - j) % size) ?_ ?_ ?_ ?_ ?_
  · exact fun n _ => Finset.mem_range.mpr (Nat.mod_lt _ positive)
  · exact fun n _ => Finset.mem_range.mpr (Nat.mod_lt _ positive)
  · exact fun n member => rotate_back inside (Finset.mem_range.mp member)
  · exact fun n member => rotate_on inside (Finset.mem_range.mp member)
  · exact fun _ _ => rfl

/-- A sequence that is rotated by `j` places has bins that are turned `j * k` times. -/
theorem Roots.turned_rotate {ζ : ℂ} {size j : ℕ} (turn : ζ ^ size = 1) (inside : j < size)
    (x : ℕ → ℂ) (k : ℕ) :
    turned ζ size (fun n => x ((size + n - j) % size)) k = ζ ^ (j * k) * turned ζ size x k := by
  rw [turned, turned, ← sum_rotate inside, Finset.mul_sum]
  refine Finset.sum_congr rfl fun n member => ?_
  rw [rotate_back inside (Finset.mem_range.mp member), pow_mul, ← pow_eq_pow_mod _ turn, ← pow_mul,
    add_mul, pow_add]
  ring

/-- The bins of a convolution are the products of the bins. -/
theorem Roots.turned_convolved {ζ : ℂ} {size : ℕ} (turn : ζ ^ size = 1) (x y : ℕ → ℂ) (k : ℕ) :
    turned ζ size (convolved size x y) k = turned ζ size x k * turned ζ size y k := by
  calc turned ζ size (convolved size x y) k
      = ∑ j ∈ Finset.range size,
          x j * turned ζ size (fun n => y ((size + n - j) % size)) k := by
        simp only [turned, convolved, Finset.sum_mul, Finset.mul_sum, mul_assoc]
        exact Finset.sum_comm
    _ = ∑ j ∈ Finset.range size, x j * ζ ^ (j * k) * turned ζ size y k := by
        refine Finset.sum_congr rfl fun j member => ?_
        rw [turned_rotate turn (Finset.mem_range.mp member), mul_assoc]
    _ = turned ζ size x k * turned ζ size y k := by
        rw [← Finset.sum_mul]
        rfl

/-- Products of bins have the convolution of the points. -/
theorem idft_mul {size n : ℕ} (x y : ℕ → ℂ) (inside : n < size) :
    idft size (fun k => x k * y k) n = convolved size (idft size x) (idft size y) n := by
  have turn := Roots.root_pow_size (show 0 < size by omega)
  have bins : ∀ k < size, x k * y k =
      turned (root size) size (convolved size (idft size x) (idft size y)) k := by
    intro k small
    rw [Roots.turned_convolved turn, turned_idft x small, turned_idft y small]
  rw [idft_congr bins, idft_turned _ inside]

/-! ## Additivity behind the logarithm -/

theorem dft_add (size : ℕ) (x y : ℕ → ℝ) (k : ℕ) :
    dft size (fun j => x j + y j) k = dft size x k + dft size y k := by
  simp only [dft, Complex.ofReal_add, add_mul, Finset.sum_add_distrib]

/-- A constant has no bin but the one at zero. -/
theorem dft_const {size k : ℕ} (c : ℝ) (inside : k < size) (nonzero : k ≠ 0) :
    dft size (fun _ => c) k = 0 := by
  have primitive := Roots.root_primitive (show 0 < size by omega)
  have whole := Roots.sum_pow_mul_inv_pow primitive inside (show 0 < size by omega)
  simp only [Nat.mul_zero, pow_zero, mul_one, if_neg nonzero, Nat.mul_comm k] at whole
  rw [dft, ← Finset.mul_sum, whole, mul_zero]

namespace MinimumPhase

section Additive

variable (size : ℕ) (x y : ℕ → ℝ) (k : ℕ)

theorem quadrature_add :
    quadrature size (fun j => x j + y j) k = quadrature size x k + quadrature size y k := by
  simp only [quadrature, dft_add, mul_add, idft_add, Complex.add_im]

theorem pinned_add :
    pinned size (fun j => x j + y j) k = pinned size x k + pinned size y k := by
  unfold pinned
  split
  · rw [add_zero]
  · rfl

end Additive

theorem quadrature_congr {size : ℕ} {x y : ℕ → ℝ} (same : ∀ j < size, x j = y j) :
    quadrature size x = quadrature size y :=
  funext fun k => by rw [quadrature, quadrature, dft_congr same]

/-- The bin of a constant at zero has no quarter turn, and there is no other. -/
theorem quadrature_const {size k : ℕ} (c : ℝ) (inside : k < size) :
    quadrature size (fun _ => c) k = 0 := by
  have vanishes : ∀ j < size, quarterTurn size j * dft size (fun _ => c) j = 0 := by
    intro j small
    by_cases zero : j = 0
    · rw [quarterTurn, if_pos (.inl zero), zero_mul]
    · rw [dft_const c small zero, mul_zero]
  have value := quadrature_eq (fun _ => c) inside
  rw [idft_congr vanishes, idft_zero] at value
  exact Complex.ofReal_eq_zero.mp value

/-! ## Products of bins -/

section Bins

variable {size k : ℕ} {floor : ℝ}

theorem logResponse_congr {x y : ℕ → ℝ} (same : ∀ j < size, x j = y j) (inside : k < size) :
    logResponse size x k = logResponse size y k := by
  rw [logResponse, logResponse, same k inside, quadrature_congr same]

theorem logResponse_add (x y : ℕ → ℝ) :
    logResponse size (fun j => x j + y j) k = logResponse size x k + logResponse size y k := by
  have phases : quadrature size (fun j => x j + y j) = fun j =>
      quadrature size x j + quadrature size y j := funext fun j => quadrature_add size x y j
  rw [logResponse, phases, pinned_add, logResponse, logResponse]
  push_cast
  ring

theorem logResponse_const (c : ℝ) (inside : k < size) : logResponse size (fun _ => c) k = c := by
  have none : pinned size (quadrature size fun _ => c) k = 0 := by
    unfold pinned
    split
    · rfl
    · exact quadrature_const c inside
  rw [logResponse, none, Complex.ofReal_zero, zero_mul, sub_zero]

variable (positive : 0 < floor) {m m' : ℕ → ℝ} (above : ∀ j < size, floor ≤ m j)
include positive above

theorem logarithms_mul (above' : ∀ j < size, floor ≤ m' j)
    (product : ∀ j < size, floor ≤ m j * m' j) :
    ∀ j < size, logarithms floor (fun j => m j * m' j) j =
      logarithms floor m j + logarithms floor m' j := by
  intro j small
  have first := above j small
  have second := above' j small
  rw [logarithms, logarithms, logarithms, max_eq_left (product j small), max_eq_left first,
    max_eq_left second, Real.log_mul (positive.trans_le first).ne' (positive.trans_le second).ne']

/-- Bins of minimum phase multiply with the magnitudes. -/
theorem response_mul (above' : ∀ j < size, floor ≤ m' j)
    (product : ∀ j < size, floor ≤ m j * m' j) (inside : k < size) :
    response size floor (fun j => m j * m' j) k =
      response size floor m k * response size floor m' k := by
  rw [response_eq_exp positive, response_eq_exp positive, response_eq_exp positive,
    ← Complex.exp_add, ← logResponse_add,
    logResponse_congr (logarithms_mul positive above above' product) inside]

theorem logarithms_smul {c : ℝ} (factor : 0 < c) (scaled : ∀ j < size, floor ≤ c * m j) :
    ∀ j < size, logarithms floor (fun j => c * m j) j = Real.log c + logarithms floor m j := by
  intro j small
  have first := above j small
  rw [logarithms, logarithms, max_eq_left (scaled j small), max_eq_left first,
    Real.log_mul factor.ne' (positive.trans_le first).ne']

/-- A factor of the magnitudes is one of the bins. -/
theorem response_smul {c : ℝ} (scaled : ∀ j < size, floor ≤ c * m j) (inside : k < size) :
    response size floor (fun j => c * m j) k = c * response size floor m k := by
  have factor : 0 < c := (mul_pos_iff_of_pos_right (positive.trans_le (above k inside))).mp
    (positive.trans_le (scaled k inside))
  have sum : logResponse size (fun j => Real.log c + logarithms floor m j) k =
      Real.log c + logResponse size (logarithms floor m) k := by
    rw [← logResponse_const (Real.log c) inside]
    exact logResponse_add (fun _ => Real.log c) (logarithms floor m)
  rw [response_eq_exp positive, response_eq_exp positive,
    logResponse_congr (logarithms_smul positive above factor scaled) inside, sum, Complex.exp_add,
    ← Complex.ofReal_exp, Real.exp_log factor]

end Bins

/-! ## Convolutions of impulses -/

section Impulses

variable {size : ℕ} {floor : ℝ} (positive : 0 < floor) {m m' : ℕ → ℝ}
  (above : ∀ j < size, floor ≤ m j)
include positive above

theorem impulseAt_mul (above' : ∀ j < size, floor ≤ m' j)
    (product : ∀ j < size, floor ≤ m j * m' j)
    (alike : ∀ k < size, m (mirror size k) = m k)
    (alike' : ∀ k < size, m' (mirror size k) = m' k) {n : ℕ} (inside : n < size) :
    impulseAt size floor (fun j => m j * m' j) n =
      convolved size (impulseAt size floor m) (impulseAt size floor m') n := by
  have bins : ∀ k < size, response size floor (fun j => m j * m' j) k =
      response size floor m k * response size floor m' k :=
    fun k small => response_mul positive above above' product small
  -- all of what comes back from either spectrum is real
  have whole := convolved_congr (n := n) (impulseAt_eq floor alike) (impulseAt_eq floor alike')
  rw [impulseAt, idft_congr bins, idft_mul _ _ inside, ← whole, ← ofReal_convolved,
    Complex.ofReal_re]

theorem impulseAt_smul {c : ℝ} (scaled : ∀ j < size, floor ≤ c * m j) (n : ℕ) :
    impulseAt size floor (fun j => c * m j) n = c * impulseAt size floor m n := by
  have bins : ∀ k < size, response size floor (fun j => c * m j) k =
      c * response size floor m k := fun k small => response_smul positive above scaled small
  rw [impulseAt, idft_congr bins, idft_const_mul, Complex.re_ofReal_mul, impulseAt]

end Impulses

/-! ## Products of lists -/

theorem getD_zipWith_mul (m m' : List ℝ) (k : ℕ) :
    (List.zipWith (· * ·) m m').getD k 0 = m.getD k 0 * m'.getD k 0 := by
  simp only [List.getD_eq_getElem?_getD, List.getElem?_zipWith]
  cases m[k]? with
  | none => simp
  | some x =>
      cases m'[k]? with
      | none => simp
      | some y => simp

theorem getD_map_mul (c : ℝ) (m : List ℝ) (k : ℕ) :
    (m.map (c * ·)).getD k 0 = c * m.getD k 0 := by
  simp only [List.getD_eq_getElem?_getD, List.getElem?_map]
  cases m[k]? with
  | none => simp
  | some x => simp

/-- How minimum phase treats two lists of magnitudes and their products: bins multiply, and if both
lists are mirrored, impulses convolve. -/
structure Multiplies (mp : MinimumPhase Exact) (m m' : List ℝ) : Prop where
  spectrum : ∃ bins bins' : ℕ → ℂ,
    mp.spectrum (m.map real) = .ok (complexes mp.transform.size bins) ∧
    mp.spectrum (m'.map real) = .ok (complexes mp.transform.size bins') ∧
    mp.spectrum ((List.zipWith (· * ·) m m').map real) =
      .ok (complexes mp.transform.size fun k => bins k * bins' k)
  reconstruct : Mirrored m → Mirrored m' → ∃ impulse impulse' : ℕ → ℝ,
    mp.reconstruct (m.map real) = .ok (reals mp.transform.size impulse) ∧
    mp.reconstruct (m'.map real) = .ok (reals mp.transform.size impulse') ∧
    mp.reconstruct ((List.zipWith (· * ·) m m').map real) =
      .ok (reals mp.transform.size (convolved mp.transform.size impulse impulse'))

section Lists

variable {mp : MinimumPhase Exact} {floor : ℝ} {m m' : List ℝ}
  (known : mp.floor = real floor) (length : m.length = mp.transform.size)
  (above : ∀ x ∈ m, floor ≤ x)
include known length above

theorem multiplies (length' : m'.length = mp.transform.size) (above' : ∀ x ∈ m', floor ≤ x)
    (product : ∀ x ∈ List.zipWith (· * ·) m m', floor ≤ x) : mp.Multiplies m m' := by
  have positive := floor_pos_of_known known
  have count : (List.zipWith (· * ·) m m').length = mp.transform.size := by
    rw [List.length_zipWith, length, length', Nat.min_self]
  have above := le_getD above
  have above' := le_getD above'
  have product := le_getD product
  simp only [getD_zipWith_mul] at product
  rw [length] at above
  rw [length'] at above'
  rw [count] at product
  constructor
  case spectrum =>
    refine ⟨_, _, spectrum_map_real known length, spectrum_map_real known length', ?_⟩
    rw [spectrum_map_real known count]
    simp only [getD_zipWith_mul]
    exact congrArg Except.ok (complexes_congr fun k inside =>
      response_mul positive above above' product inside)
  case reconstruct =>
    intro mirrored mirrored'
    have alike := getD_mirror mirrored
    have alike' := getD_mirror mirrored'
    rw [length] at alike
    rw [length'] at alike'
    refine ⟨_, _, reconstruct_map_real known length, reconstruct_map_real known length', ?_⟩
    rw [reconstruct_map_real known count]
    simp only [getD_zipWith_mul]
    exact congrArg Except.ok (reals_congr fun n inside =>
      impulseAt_mul positive above above' product alike alike' inside)

/-- A factor of the magnitudes is one of the impulse. -/
theorem exists_scaled {c : ℝ} (scaled : ∀ x ∈ m, floor ≤ c * x) :
    ∃ impulse : ℕ → ℝ, mp.reconstruct (m.map real) = .ok (reals mp.transform.size impulse) ∧
      mp.reconstruct ((m.map (c * ·)).map real) =
        .ok (reals mp.transform.size fun n => c * impulse n) := by
  have positive := floor_pos_of_known known
  have count : (m.map (c * ·)).length = mp.transform.size := by rw [List.length_map, length]
  have above := le_getD above
  have scaled := le_getD (List.forall_mem_map.mpr scaled)
  simp only [getD_map_mul] at scaled
  rw [length] at above
  rw [count] at scaled
  refine ⟨_, reconstruct_map_real known length, ?_⟩
  rw [reconstruct_map_real known count]
  simp only [getD_map_mul]
  exact congrArg Except.ok (reals_congr fun n _ => impulseAt_smul positive above scaled n)

end Lists

/-- Magnitudes of any number whose products stay over the floor multiply as bins and convolve as
impulses, and a factor of them is one of the impulse. -/
theorem products_of_magnitudes {size : ℕ} {floor : ℝ} (positive : 0 < size)
    (floor_pos : 0 < floor) :
    ∃ mp : MinimumPhase Exact, ofSize size (real floor) = .ok mp ∧ mp.transform.size = size ∧
      (∀ m m' : List ℝ, m.length = size → m'.length = size →
        (∀ x ∈ m, floor ≤ x) → (∀ x ∈ m', floor ≤ x) →
        (∀ x ∈ List.zipWith (· * ·) m m', floor ≤ x) → mp.Multiplies m m') ∧
      ∀ (c : ℝ) (m : List ℝ), m.length = size →
        (∀ x ∈ m, floor ≤ x) → (∀ x ∈ m, floor ≤ c * x) →
        ∃ impulse : ℕ → ℝ, mp.reconstruct (m.map real) = .ok (reals size impulse) ∧
          mp.reconstruct ((m.map (c * ·)).map real) = .ok (reals size fun n => c * impulse n) := by
  rcases exists_ofSize positive floor_pos with ⟨mp, made, known, transform⟩
  have size_eq := Transform.size_of_ofSize transform
  refine ⟨mp, made, size_eq, ?_, ?_⟩
  · intro m m' length length' above above' product
    exact multiplies known (length.trans size_eq.symm) above (length'.trans size_eq.symm) above'
      product
  · intro c m length above scaled
    rw [← size_eq]
    exact exists_scaled known (length.trans size_eq.symm) above scaled

/-- Three magnitudes, of which the products are over the floor as well. -/
theorem products_of_magnitudes_three :
    Mirrored [(2 : ℝ), 1, 1] ∧ Mirrored [(1 : ℝ), 3, 3] ∧
      ∃ mp : MinimumPhase Exact, ofSize 3 (real 1) = .ok mp ∧
        mp.Multiplies [2, 1, 1] [1, 3, 3] ∧
        ∃ impulse : ℕ → ℝ, mp.reconstruct ([2, 1, 1].map real) = .ok (reals 3 impulse) ∧
          mp.reconstruct (([2, 1, 1].map ((5 : ℝ) * ·)).map real) =
            .ok (reals 3 fun n => 5 * impulse n) := by
  rcases products_of_magnitudes (show 0 < 3 by decide) one_pos with
    ⟨mp, made, -, products, scaled⟩
  exact ⟨.of_reverse rfl, .of_reverse rfl, mp, made,
    products [2, 1, 1] [1, 3, 3] rfl rfl (by norm_num) (by norm_num) (by norm_num),
    scaled 5 [2, 1, 1] rfl (by norm_num) (by norm_num)⟩

end MinimumPhase

end Binaural
