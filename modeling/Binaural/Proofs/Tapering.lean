import Binaural.Impulse
import Binaural.Proofs.FlatPower

/-!
The window that fades impulses out, in exact arithmetic.

Its value depends on the cosine of the angle alone, as a polynomial that falls from 1 to a small
positive number while the cosine rises from -1 to 1 (`Window.weight_lt`). So the window is
symmetric, and from its peak on it falls (`Window.fade_lt`). Nothing gets larger by it, the first
sample does not change, and what is beyond the end of an impulse stays 0
(`Impulse.shortens_faded`).
-/

namespace Binaural

open Exact

namespace Window

/-! ## The value at an angle -/

/-- The value of the window where the cosine of the angle is `c`. -/
noncomputable def weight (c : ℝ) : ℝ :=
  0.21747 - 0.45325 * c + 0.28256 * c ^ 2 - 0.04672 * c ^ 3

theorem weight_cos (x : ℝ) : weight (Real.cos x) =
    0.35875 - 0.48829 * Real.cos x + 0.14128 * Real.cos (2 * x) - 0.01168 * Real.cos (3 * x) := by
  rw [weight, Real.cos_two_mul, Real.cos_three_mul]
  ring

theorem taper_exact (x : ℝ) : taper (real x) = real (weight (Real.cos x)) := by
  rw [weight_cos, taper, real_two, real_numeral 3]
  rfl

/-- The larger the cosine, the smaller the value. -/
theorem weight_lt {c d : ℝ} (less : c < d) (high : d ≤ 1) : weight d < weight c := by
  have slope : 0 < 0.45325 - 0.28256 * (c + d) + 0.04672 * (c ^ 2 + c * d + d ^ 2) := by
    nlinarith [sq_nonneg (c - d), sq_nonneg (c + d), mul_nonneg (sub_nonneg.mpr high)
      (sub_nonneg.mpr (less.le.trans high))]
  have difference : weight c - weight d =
      (d - c) * (0.45325 - 0.28256 * (c + d) + 0.04672 * (c ^ 2 + c * d + d ^ 2)) := by
    unfold weight
    ring
  have := mul_pos (sub_pos.mpr less) slope
  linarith

theorem weight_neg_one : weight (-1) = 1 := by norm_num [weight]

theorem weight_one_pos : 0 < weight 1 := by norm_num [weight]

theorem weight_mem {c : ℝ} (low : -1 ≤ c) (high : c ≤ 1) : weight c ∈ Set.Ioc (0 : ℝ) 1 := by
  constructor
  · rcases high.eq_or_lt with same | below
    · rw [same]
      exact weight_one_pos
    · exact weight_one_pos.trans (weight_lt below le_rfl)
  · rcases low.eq_or_lt with same | above
    · rw [← same, weight_neg_one]
    · exact weight_neg_one ▸ (weight_lt above high).le

/-! ## The whole window -/

/-- The coefficients of a window of more than one point. -/
noncomputable def coefficient (length i : ℕ) : ℝ :=
  weight (Real.cos (Real.pi * (2 * i : ℕ) / (length - 1 : ℕ)))

theorem coefficient_eq (length i : ℕ) :
    coefficient length i = weight (Real.cos (2 * Real.pi * i / (length - 1 : ℕ))) := by
  rw [coefficient, Nat.cast_mul, Nat.cast_ofNat, ← mul_assoc, mul_comm Real.pi]

theorem full_exact {length : ℕ} (several : 1 < length) :
    full length = reals length (coefficient length) := by
  have turns : ((length - 1 : ℕ) : ℝ) ≠ 0 := Nat.cast_ne_zero.mpr (by omega)
  rw [full, if_neg several.ne', reals]
  refine List.map_congr_left fun i _ => ?_
  rw [real_two, real_pi, real_ofNat, real_ofNat, real_mul, real_mul, real_div turns, taper_exact,
    coefficient_eq]

theorem coefficient_mirror {length i : ℕ} (inside : i < length) (several : 1 < length) :
    coefficient length (length - 1 - i) = coefficient length i := by
  have turns : ((length - 1 : ℕ) : ℝ) ≠ 0 := Nat.cast_ne_zero.mpr (by omega)
  have angle : 2 * Real.pi * ((length - 1 - i : ℕ) : ℝ) / (length - 1 : ℕ) =
      2 * Real.pi - 2 * Real.pi * i / (length - 1 : ℕ) := by
    rw [Nat.cast_sub (by omega)]
    field_simp
  rw [coefficient_eq, angle, Real.cos_two_pi_sub, coefficient_eq]

/-- A window is symmetric. -/
theorem exists_full {length : ℕ} (positive : 0 < length) :
    ∃ w : ℕ → ℝ, full length = reals length w ∧ ∀ i < length, w (length - 1 - i) = w i := by
  rcases Nat.eq_or_lt_of_le (Nat.succ_le_of_lt positive) with single | several
  · refine ⟨fun _ => 1, ?_, fun _ _ => rfl⟩
    rw [← single, full, if_pos rfl, reals, List.range_one, List.map_singleton, real_one]
  · exact ⟨coefficient length, full_exact several, fun i inside =>
      coefficient_mirror inside several⟩

/-! ## From the peak on -/

/-- The coefficients from the peak of a window on. -/
noncomputable def fade (length i : ℕ) : ℝ :=
  weight (-Real.cos (Real.pi * i / (length - 1 : ℕ)))

section Fade

variable {length i j : ℕ}

theorem fade_zero : fade length 0 = 1 := by
  rw [fade, Nat.cast_zero, mul_zero, zero_div, Real.cos_zero, weight_neg_one]

theorem fade_mem (length i : ℕ) : fade length i ∈ Set.Ioc (0 : ℝ) 1 :=
  weight_mem (neg_le_neg (Real.cos_le_one _)) (neg_le.mp (Real.neg_one_le_cos _))

theorem fade_lt (less : i < j) (inside : j < length) : fade length j < fade length i := by
  have turns : (0 : ℝ) < (length - 1 : ℕ) := Nat.cast_pos.mpr (by omega)
  have later : (i : ℝ) < j := Nat.cast_lt.mpr less
  have last : (j : ℝ) ≤ (length - 1 : ℕ) := Nat.cast_le.mpr (by omega)
  have nonneg : 0 ≤ Real.pi * i / (length - 1 : ℕ) := by positivity
  have below : Real.pi * j / (length - 1 : ℕ) ≤ Real.pi := by
    rw [div_le_iff₀ turns]
    exact mul_le_mul_of_nonneg_left last Real.pi_pos.le
  have angles : Real.pi * i / (length - 1 : ℕ) < Real.pi * j / (length - 1 : ℕ) :=
    (div_lt_div_iff_of_pos_right turns).mpr (mul_lt_mul_of_pos_left later Real.pi_pos)
  have cosines := Real.cos_lt_cos_of_nonneg_of_le_pi nonneg below angles
  exact weight_lt (neg_lt_neg cosines) (neg_le.mp (Real.neg_one_le_cos _))

/-- Half a turn further the cosine has the other sign. -/
theorem coefficient_add (several : 1 < length) :
    coefficient (2 * length - 1) (length - 1 + i) = fade length i := by
  have turns : ((length - 1 : ℕ) : ℝ) ≠ 0 := Nat.cast_ne_zero.mpr (by omega)
  have twice : ((2 * length - 1 - 1 : ℕ) : ℝ) = 2 * (length - 1 : ℕ) := by
    have size : 2 * length - 1 - 1 = 2 * (length - 1) := by omega
    rw [size, Nat.cast_mul, Nat.cast_ofNat]
  have angle : 2 * Real.pi * ((length - 1 + i : ℕ) : ℝ) / (2 * length - 1 - 1 : ℕ) =
      Real.pi * i / (length - 1 : ℕ) + Real.pi := by
    rw [twice, Nat.cast_add]
    field_simp
    ring
  rw [coefficient_eq, angle, Real.cos_add_pi, fade]

theorem drop_full (positive : 0 < length) :
    (full (2 * length - 1)).drop (length - 1) = reals length (fade length) := by
  rcases Nat.eq_or_lt_of_le (Nat.succ_le_of_lt positive) with single | several
  · rw [← single, full, if_pos rfl, reals, List.range_one, List.map_singleton, fade_zero, real_one]
    rfl
  · rw [full_exact (by omega)]
    refine List.ext_getElem (by simp; omega) fun k here there => ?_
    rw [List.getElem_drop, getElem_reals, getElem_reals, coefficient_add several]

/-- Setting the peak to 1 changes nothing. -/
theorem tail_eq_drop (positive : 0 < length) :
    (tail length : List Exact) = (full (2 * length - 1)).drop (length - 1) := by
  rw [tail, drop_full positive]
  refine List.ext_getElem (List.length_set ..) fun k here there => ?_
  rw [List.getElem_set, getElem_reals]
  split
  · rename_i first
    rw [← first, fade_zero, real_one]
  · rfl

theorem tail_exact (positive : 0 < length) : tail length = reals length (fade length) :=
  (tail_eq_drop positive).trans (drop_full positive)

end Fade

end Window

/-! ## Shortened impulses -/

namespace Impulse

/-- An impulse that is shortened to a length, or continued by zeros, and only ever made smaller. -/
structure Shortens (length : ℕ) (impulse short : List ℝ) : Prop where
  length_eq : short.length = length
  /-- The first sample is kept; an impulse without samples gets 0. -/
  first : short[0]? = some (impulse.getD 0 0)
  bounded : ∀ i, |short.getD i 0| ≤ |impulse.getD i 0|
  silent : ∀ i, impulse.length ≤ i → i < length → short[i]? = some 0

/-- An impulse under the window, by its samples. -/
noncomputable def faded (length : ℕ) (impulse : List ℝ) : List ℝ :=
  (List.range length).map fun i => impulse.getD i 0 * Window.fade length i

section Faded

variable {length : ℕ} {impulse : List ℝ}

theorem getElem?_faded {i : ℕ} (inside : i < length) :
    (faded length impulse)[i]? = some (impulse.getD i 0 * Window.fade length i) := by
  rw [faded, List.getElem?_map, List.getElem?_range inside, Option.map_some]

theorem shortens_faded (positive : 0 < length) :
    Shortens length impulse (faded length impulse) := by
  have count : (faded length impulse).length = length := by
    rw [faded, List.length_map, List.length_range]
  refine ⟨count, ?_, fun i => ?_, fun i ended inside => ?_⟩
  · rw [getElem?_faded positive, Window.fade_zero, mul_one]
  · rw [List.getD_eq_getElem?_getD]
    rcases Nat.lt_or_ge i length with inside | outside
    · have fade := Window.fade_mem length i
      rw [getElem?_faded inside, Option.getD_some, abs_mul, abs_of_pos fade.1]
      exact mul_le_of_le_one_right (abs_nonneg _) fade.2
    · rw [List.getElem?_eq_none (count.trans_le outside), Option.getD_none, abs_zero]
      exact abs_nonneg _
  · rw [getElem?_faded inside, List.getD_eq_default _ _ ended, zero_mul]

theorem truncateOne_exact (positive : 0 < length) :
    truncateOne (impulse.map real) (Window.tail length) = (faded length impulse).map real := by
  refine List.ext_getElem? fun i => ?_
  rw [truncateOne, Window.tail_exact positive, length_reals, List.length_map, List.getElem?_map]
  rcases Nat.lt_or_ge i length with inside | outside
  · rw [getElem?_faded inside, Option.map_some]
    rcases Nat.lt_or_ge i impulse.length with given | ended
    · rw [List.getElem?_append_left (by simp; omega), List.getElem?_zipWith, List.getElem?_map,
        List.getElem?_eq_getElem given, List.getElem?_eq_getElem (by simpa), getElem_reals,
        List.getD_eq_getElem _ _ given]
      rfl
    · rw [List.getElem?_append_right (by simp; omega),
        List.getElem?_replicate_of_lt (by simp; omega), List.getD_eq_default _ _ ended, zero_mul,
        real_zero]
  · rw [List.getElem?_eq_none (by simp; omega), List.getElem?_eq_none (by simp [faded]; omega)]
    rfl

/-- A grid of numbers can always be shortened. -/
theorem truncate_exact (positive : 0 < length) (g : Grid (List ℝ)) :
    truncate length g.exact = .ok (g.map (faded length)).exact := by
  have shortened : ∀ m ∈ g.values, truncateOne (m.map real) (Window.tail length) =
      (faded length m).map real := fun m _ => truncateOne_exact positive
  rw [truncate, Grid.exact, Grid.exact, Grid.mapSignals_of_finite, Grid.map_map, Grid.map_map]
  · exact congrArg Except.ok (Grid.map_congr shortened)
  · intro signal member
    rw [Grid.values_map] at member
    rcases List.mem_map.mp member with ⟨m, value, same⟩
    rw [← same, shortened m value]
    exact finite_map_real _

end Faded

end Impulse

/-- A window of any length is symmetric, and from its peak on it falls from exactly 1, which need
not be set, and stays positive. So every grid of numbers can be shortened to any length, and each of
its impulses is only ever made smaller. -/
theorem Window.tapers {length : ℕ} (positive : 0 < length) :
    (∃ w : ℕ → ℝ, full length = reals length w ∧ ∀ i < length, w (length - 1 - i) = w i) ∧
      (tail length : List Exact) = (full (2 * length - 1)).drop (length - 1) ∧
      (∃ w : ℕ → ℝ, tail length = reals length w ∧ w 0 = 1 ∧
        StrictAntiOn w (Set.Iio length) ∧ ∀ i < length, w i ∈ Set.Ioc (0 : ℝ) 1) ∧
      ∀ g : Grid (List ℝ), ∃ h : Grid (List ℝ),
        Impulse.truncate length g.exact = .ok h.exact ∧ h.outline = g.outline ∧
          List.Forall₂ (fun entry image =>
            image.1 = entry.1 ∧ Impulse.Shortens length entry.2 image.2)
            g.positioned h.positioned := by
  refine ⟨exists_full positive, tail_eq_drop positive,
    ⟨fade length, tail_exact positive, fade_zero, fun i _ j inside less => fade_lt less inside,
      fun i _ => fade_mem length i⟩, fun g => ⟨g.map (Impulse.faded length),
      Impulse.truncate_exact positive g, g.outline_map _, ?_⟩⟩
  rw [Grid.positioned_map, List.forall₂_map_right_iff, List.forall₂_same]
  exact fun entry _ => ⟨rfl, Impulse.shortens_faded positive⟩

/-- Three points, and impulses that are shorter: one of two samples and one of none. -/
theorem Window.tapers_three :
    let g : Grid (List ℝ) := ⟨[⟨0, [(0, [1, -2]), (90, [])]⟩]⟩
    0 < 3 ∧
      (∃ w : ℕ → ℝ, full 3 = reals 3 w ∧ ∀ i < 3, w (3 - 1 - i) = w i) ∧
      (tail 3 : List Exact) = (full 5).drop 2 ∧
      (∃ peak next last : ℝ, tail 3 = [real peak, real next, real last] ∧
        peak = 1 ∧ next < peak ∧ last < next ∧ 0 < last) ∧
      ∃ h : Grid (List ℝ), Impulse.truncate 3 g.exact = .ok h.exact ∧ h.outline = g.outline ∧
        List.Forall₂ (fun entry image =>
          image.1 = entry.1 ∧ Impulse.Shortens 3 entry.2 image.2) g.positioned h.positioned := by
  intro g
  rcases tapers (show 0 < 3 by decide) with
    ⟨symmetric, unset, ⟨w, coefficients, peak, falls, bounds⟩, shortened⟩
  have values : tail 3 = [real (w 0), real (w 1), real (w 2)] := coefficients
  have before : w 1 < w 0 := falls (by decide) (by decide) (by decide)
  have after : w 2 < w 1 := falls (by decide) (by decide) (by decide)
  exact ⟨by decide, symmetric, unset,
    ⟨w 0, w 1, w 2, values, peak, before, after, (bounds 2 (by decide)).1⟩, shortened g⟩

end Binaural
