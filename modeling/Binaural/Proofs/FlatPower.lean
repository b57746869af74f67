import Binaural.Proofs.Bins
import Binaural.Proofs.Exact

/-!
Equalization makes the average power flat.

In exact arithmetic, the level of a bin below the cutoff is brought to the mean level, and the mean
of levels is the level of the geometric mean. So the gain of such a bin is the root of the quotient
of the geometric mean of the average powers by its own (`Equalizer.ofGrid_exact`): once in power,
twice in decibels of amplitude. What follows of the spectra that are multiplied by the gains, and of
spectra that are scaled, is gathered in `Equalizer.Flattens`.
-/

namespace Binaural

open Exact

/-- A grid of real numbers, to be computed with exactly. -/
def Grid.exact (g : Grid (List ℝ)) : Grid (List Exact) :=
  g.map fun m => m.map real

namespace Equalizer

/-! ## Real powers and gains -/

/-- The mean over all entries of the squared magnitude in a bin. -/
noncomputable def meanPower (g : Grid (List ℝ)) (bin : ℕ) : ℝ :=
  (g.values.map fun m => m.getD bin 0 ^ 2).sum / g.values.length

/-- The bins of a spectrum that are below a cutoff, in both halves. -/
noncomputable def equalizedBins (size cutoff : ℕ) : Finset ℕ :=
  (Finset.range size).filter fun bin => isPreservedBin Exact bin size cutoff = false

/-- The geometric mean over some bins. -/
noncomputable def geometricMean (bins : Finset ℕ) (x : ℕ → ℝ) : ℝ :=
  (∏ bin ∈ bins, x bin) ^ (bins.card : ℝ)⁻¹

/-- The geometric mean of the average powers of all bins that are equalized. -/
noncomputable def commonPower (g : Grid (List ℝ)) (cutoff : ℕ) : ℝ :=
  geometricMean (equalizedBins g.entryLength cutoff) (meanPower g)

/-- The gain that brings a bin to the common power, if it is equalized. -/
noncomputable def flatGain (g : Grid (List ℝ)) (cutoff bin : ℕ) : ℝ :=
  if bin ∈ equalizedBins g.entryLength cutoff then
    Real.sqrt (commonPower g cutoff / meanPower g bin)
  else 1

/-- The spectra multiplied by gains, bin by bin. -/
noncomputable def times (gains : List ℝ) (g : Grid (List ℝ)) : Grid (List ℝ) :=
  g.map fun m => List.zipWith (· * ·) m gains

/-- All magnitudes multiplied by one factor. -/
noncomputable def scaled (factor : ℝ) (g : Grid (List ℝ)) : Grid (List ℝ) :=
  g.map fun m => m.map (factor * ·)

theorem mem_equalizedBins {bin size cutoff : ℕ} :
    bin ∈ equalizedBins size cutoff ↔
      bin < size ∧ isPreservedBin Exact bin size cutoff = false := by
  rw [equalizedBins, Finset.mem_filter, Finset.mem_range]

/-- In whole numbers: the frequency of a bin is its share of the sample rate. -/
theorem isPreservedBin_exact {size : ℕ} (positive : 0 < size) (bin cutoff : ℕ) :
    isPreservedBin Exact bin size cutoff = true ↔
      cutoff * size ≤ min bin (size - bin) * sampleRate := by
  have nonzero : (0 : ℝ) < size := Nat.cast_pos.mpr positive
  have frequency : (Scalar.ofNat (min bin (size - bin)) : Exact) * Scalar.ofNat sampleRate /
      Scalar.ofNat size = real ((min bin (size - bin) : ℕ) * (sampleRate : ℕ) / size) := by
    rw [real_ofNat, real_ofNat, real_ofNat, real_mul, real_div nonzero.ne']
  unfold isPreservedBin
  dsimp only
  rw [decide_eq_true_iff, frequency, real_ofNat, real_le, le_div_iff₀ nonzero]
  exact_mod_cast Iff.rfl

/-! ## The geometric mean -/

section GeometricMean

variable {bins : Finset ℕ} {x : ℕ → ℝ}

theorem geometricMean_pos (positive : ∀ bin ∈ bins, 0 < x bin) : 0 < geometricMean bins x :=
  Real.rpow_pos_of_pos (Finset.prod_pos positive) _

theorem geometricMean_pow (positive : ∀ bin ∈ bins, 0 < x bin) (nonempty : bins.Nonempty) :
    geometricMean bins x ^ bins.card = ∏ bin ∈ bins, x bin :=
  Real.rpow_inv_natCast_pow (Finset.prod_pos positive).le nonempty.card_ne_zero

/-- The geometric mean is the gain of the mean of the levels. -/
theorem ten_rpow_mean_logb (positive : ∀ bin ∈ bins, 0 < x bin) :
    (10 : ℝ) ^ ((∑ bin ∈ bins, Real.logb 10 (x bin)) / bins.card) = geometricMean bins x := by
  have ten : (0 : ℝ) < 10 := by norm_num
  have powers : ∏ bin ∈ bins, (10 : ℝ) ^ Real.logb 10 (x bin) = ∏ bin ∈ bins, x bin :=
    Finset.prod_congr rfl fun bin member =>
      Real.rpow_logb ten (by norm_num) (positive bin member)
  rw [div_eq_mul_inv, Real.rpow_mul ten.le, Real.rpow_sum_of_pos ten, powers, geometricMean]

theorem geometricMean_mul {factor : ℝ} (factor_pos : 0 < factor)
    (positive : ∀ bin ∈ bins, 0 < x bin) (nonempty : bins.Nonempty) :
    geometricMean bins (fun bin => factor * x bin) = factor * geometricMean bins x := by
  have count : bins.card ≠ 0 := nonempty.card_ne_zero
  rw [geometricMean, Finset.prod_mul_distrib, Finset.prod_const,
    Real.mul_rpow (pow_pos factor_pos _).le (Finset.prod_pos positive).le,
    Real.pow_rpow_inv_natCast factor_pos.le count, geometricMean]

theorem geometricMean_const {value : ℝ} (positive : 0 < value) (nonempty : bins.Nonempty)
    (equal : ∀ bin ∈ bins, x bin = value) : geometricMean bins x = value := by
  rw [geometricMean, Finset.prod_congr rfl equal, Finset.prod_const,
    Real.pow_rpow_inv_natCast positive.le nonempty.card_ne_zero]

end GeometricMean

/-! ## The powers of real spectra -/

section Exactly

variable {g : Grid (List ℝ)} {bin cutoff : ℕ}

theorem sum_map_real (xs : List ℝ) : Scalar.sum (xs.map real) = real xs.sum := by
  have from_start : ∀ start : ℝ,
      (xs.map real).foldl (· + ·) (real start) = real (start + xs.sum) := by
    induction xs with
    | nil => simp
    | cons x xs ih =>
        intro start
        rw [List.map_cons, List.foldl_cons, real_add, ih, List.sum_cons, add_assoc]
  rw [Scalar.sum, real_zero, from_start, zero_add]

theorem entryLength_exact (g : Grid (List ℝ)) : g.exact.entryLength = g.entryLength :=
  Grid.entryLength_map fun _ _ => List.length_map _

theorem average_exact (uniform : ∀ m ∈ g.values, m.length = g.entryLength)
    (inside : bin < g.entryLength) : average g.exact bin = real (meanPower g bin) := by
  have values : g.exact.values = g.values.map fun m => m.map real := Grid.values_map _ g
  have column : g.exact.values.filterMap (·[bin]?) =
      g.values.map fun m => real (m.getD bin 0) := by
    rw [values, List.filterMap_map, List.filterMap_eq_map_iff_forall_eq_some]
    intro m member
    have here : bin < m.length := by rw [uniform m member]; exact inside
    rw [Function.comp_apply, List.getElem?_map, List.getElem?_eq_getElem here,
      List.getD_eq_getElem _ _ here]
    rfl
  have nonempty : (g.values.length : ℝ) ≠ 0 := by
    rw [Nat.cast_ne_zero]
    intro empty
    rw [Grid.entryLength, List.length_eq_zero_iff.mp empty] at inside
    exact absurd inside (Nat.not_lt_zero bin)
  have squares : (g.values.map fun m => real (m.getD bin 0)).map (fun m => m * m) =
      (g.values.map fun m => m.getD bin 0 ^ 2).map real := by
    rw [List.map_map, List.map_map]
    refine List.map_congr_left fun m _ => ?_
    rw [Function.comp_apply, Function.comp_apply, real_mul, sq]
  rw [average, power, column, squares, sum_map_real, Grid.size, values, List.length_map,
    real_ofNat, real_div nonempty, meanPower]

theorem ofGain_real {x : ℝ} (positive : 0 < x) :
    Decibel.ofGain (real x) = real (20 * Real.logb 10 x) := by
  have twenty : (20 : Exact) = real 20 := congrArg real (Nat.cast_ofNat)
  rw [Decibel.ofGain, real_log10 positive, twenty, real_mul]

theorem correction_real (level : ℝ) :
    correction (real level) = real (Real.sqrt (10 ^ (-level / 20))) := by
  have ten : (10 : Exact) = real 10 := congrArg real (Nat.cast_ofNat)
  have twenty : (20 : Exact) = real 20 := congrArg real (Nat.cast_ofNat)
  rw [correction, Decibel.toGain, real_neg, ten, twenty, real_div (by norm_num),
    real_pow (by norm_num), real_sqrt (Real.rpow_nonneg (by norm_num) _)]

/-- The mean level is the mean over the bins that are equalized. -/
theorem meanLevel_exact (uniform : ∀ m ∈ g.values, m.length = g.entryLength)
    (positive : ∀ bin ∈ equalizedBins g.entryLength cutoff, 0 < meanPower g bin)
    (nonempty : (equalizedBins g.entryLength cutoff).Nonempty) :
    meanLevel (averagePower g.exact cutoff) =
      real ((∑ bin ∈ equalizedBins g.entryLength cutoff, 20 * Real.logb 10 (meanPower g bin)) /
        (equalizedBins g.entryLength cutoff).card) := by
  generalize listed : (List.range g.entryLength).filter
    (fun bin => !isPreservedBin Exact bin g.entryLength cutoff) = bins
  have distinct : bins.Nodup := listed ▸ List.nodup_range.filter _
  have mem_bins {bin : ℕ} : bin ∈ bins ↔ bin ∈ equalizedBins g.entryLength cutoff := by
    rw [← listed, List.mem_filter, List.mem_range, mem_equalizedBins, Bool.not_eq_true']
  have same : equalizedBins g.entryLength cutoff = bins.toFinset := by
    ext bin
    rw [List.mem_toFinset, mem_bins]
  have levels : ((averagePower g.exact cutoff).filter Prod.fst).map
      (fun p => Decibel.ofGain p.2) =
        (bins.map fun bin => 20 * Real.logb 10 (meanPower g bin)).map real := by
    have chosen : Prod.fst ∘ (fun bin =>
        (!isPreservedBin Exact bin g.entryLength cutoff, average g.exact bin)) =
          fun bin => !isPreservedBin Exact bin g.entryLength cutoff := rfl
    rw [averagePower_eq, entryLength_exact, List.filter_map, chosen, listed, List.map_map,
      List.map_map]
    refine List.map_congr_left fun bin member => ?_
    have equalized := mem_bins.mp member
    rw [Function.comp_apply, Function.comp_apply,
      average_exact uniform (mem_equalizedBins.mp equalized).1,
      ofGain_real (positive bin equalized)]
  have some_left : bins ≠ [] := by
    rintro rfl
    rw [same] at nonempty
    exact Finset.not_nonempty_empty nonempty
  have count : (bins.length : ℝ) ≠ 0 :=
    Nat.cast_ne_zero.mpr (mt List.length_eq_zero_iff.mp some_left)
  rw [same, List.sum_toFinset _ distinct, List.toFinset_card_of_nodup distinct]
  unfold meanLevel
  dsimp only
  rw [levels, List.isEmpty_map, List.isEmpty_map, if_neg (by simpa using some_left), sum_map_real,
    List.length_map, List.length_map, real_ofNat, real_div count]

theorem gain_exact (uniform : ∀ m ∈ g.values, m.length = g.entryLength)
    (positive : ∀ bin ∈ equalizedBins g.entryLength cutoff, 0 < meanPower g bin)
    (inside : bin < g.entryLength) :
    gain g.exact cutoff bin = real (flatGain g cutoff bin) := by
  have ten : (0 : ℝ) < 10 := by norm_num
  rw [gain, excess, entryLength_exact]
  by_cases equalized : bin ∈ equalizedBins g.entryLength cutoff
  · have below := (mem_equalizedBins.mp equalized).2
    have power_pos := positive bin equalized
    rw [below, if_neg Bool.false_ne_true, average_exact uniform inside, ofGain_real power_pos,
      meanLevel_exact uniform positive ⟨bin, equalized⟩, real_sub, correction_real, flatGain,
      if_pos equalized]
    generalize bins_eq : equalizedBins g.entryLength cutoff = bins at positive
    -- the mean level less that of the bin, in tens
    have exponent : -(20 * Real.logb 10 (meanPower g bin) -
        (∑ k ∈ bins, 20 * Real.logb 10 (meanPower g k)) / bins.card) / 20 =
          (∑ k ∈ bins, Real.logb 10 (meanPower g k)) / bins.card -
            Real.logb 10 (meanPower g bin) := by
      rw [← Finset.mul_sum]
      ring
    rw [exponent, Real.rpow_sub ten, ten_rpow_mean_logb positive,
      Real.rpow_logb ten (by norm_num) power_pos, commonPower, bins_eq]
  · have above : isPreservedBin Exact bin g.entryLength cutoff = true := by
      by_contra below
      exact equalized (mem_equalizedBins.mpr ⟨inside, Bool.eq_false_iff.mpr below⟩)
    rw [above, if_pos rfl, real_zero, correction_real, flatGain, if_neg equalized]
    norm_num

/-- The equalizer of real spectra brings each bin below the cutoff to the geometric mean of the
average powers. -/
theorem ofGrid_exact (uniform : ∀ m ∈ g.values, m.length = g.entryLength)
    (positive : ∀ bin ∈ equalizedBins g.entryLength cutoff, 0 < meanPower g bin) :
    ofGrid g.exact cutoff =
      .ok ⟨((List.range g.entryLength).map (flatGain g cutoff)).map real⟩ := by
  have levelled : ∀ bin, ¬ Unlevelled g.exact cutoff bin := by
    rintro bin ⟨⟨inside, below⟩, none⟩
    rw [entryLength_exact] at inside below
    have finite : Decibel.ofGain? (real (meanPower g bin)) ≠ Option.none := by
      rw [Decibel.ofGain?, ofGain_real (positive bin (mem_equalizedBins.mpr ⟨inside, below⟩))]
      exact Option.some_ne_none _
    rw [average_exact uniform inside] at none
    exact finite none
  have bounded : ∀ bin, ¬ Unbounded g.exact cutoff bin := by
    rintro bin ⟨inside, infinite⟩
    rw [entryLength_exact] at inside
    rw [gain_exact uniform positive inside] at infinite
    cases infinite
  rw [ofGrid_of_bounded levelled bounded, entryLength_exact, List.map_map]
  refine congrArg (fun gains => Except.ok (Equalizer.mk gains)) ?_
  exact List.map_congr_left fun bin member =>
    gain_exact uniform positive (List.mem_range.mp member)

end Exactly

/-! ## Spectra multiplied by gains -/

section Multiplied

variable {g : Grid (List ℝ)} {gains : List ℝ} {factor : ℝ} {bin cutoff : ℕ}

/-- What multiplies the magnitudes in a bin multiplies their power by its square. -/
theorem meanPower_map {k : List ℝ → List ℝ}
    (multiplied : ∀ m, (k m).getD bin 0 = factor * m.getD bin 0) :
    meanPower (g.map k) bin = factor ^ 2 * meanPower g bin := by
  have squares : g.values.map (fun m => (k m).getD bin 0 ^ 2) =
      g.values.map fun m => factor ^ 2 * m.getD bin 0 ^ 2 :=
    List.map_congr_left fun m _ => by rw [multiplied, mul_pow]
  rw [meanPower, meanPower, Grid.values_map, List.map_map, List.length_map]
  change (g.values.map fun m => (k m).getD bin 0 ^ 2).sum / _ = _
  rw [squares, List.sum_map_mul_left, mul_div_assoc]

theorem meanPower_times :
    meanPower (times gains g) bin = gains.getD bin 0 ^ 2 * meanPower g bin := by
  refine meanPower_map fun m => ?_
  rw [List.getD_eq_getElem?_getD, List.getD_eq_getElem?_getD, List.getD_eq_getElem?_getD,
    List.getElem?_zipWith]
  cases m[bin]? with
  | none => exact (mul_zero _).symm
  | some x =>
      cases gains[bin]? with
      | none => exact (zero_mul _).symm
      | some y => exact mul_comm x y

theorem meanPower_scaled : meanPower (scaled factor g) bin = factor ^ 2 * meanPower g bin := by
  refine meanPower_map fun m => ?_
  rw [List.getD_eq_getElem?_getD, List.getD_eq_getElem?_getD, List.getElem?_map]
  cases m[bin]? with
  | none => exact (mul_zero _).symm
  | some x => rfl

theorem entryLength_scaled : (scaled factor g).entryLength = g.entryLength :=
  Grid.entryLength_map fun _ _ => List.length_map _

theorem uniform_scaled (uniform : ∀ m ∈ g.values, m.length = g.entryLength) :
    ∀ m ∈ (scaled factor g).values, m.length = (scaled factor g).entryLength := by
  rw [entryLength_scaled, scaled, Grid.values_map]
  intro m member
  rcases List.mem_map.mp member with ⟨original, place, rfl⟩
  rw [List.length_map, uniform original place]

theorem length_zipWith_gains (length : gains.length = g.entryLength) {m : List ℝ}
    (here : m.length = g.entryLength) :
    (List.zipWith (· * ·) m gains).length = g.entryLength := by
  rw [List.length_zipWith, here, length, Nat.min_self]

theorem entryLength_times (uniform : ∀ m ∈ g.values, m.length = g.entryLength)
    (length : gains.length = g.entryLength) : (times gains g).entryLength = g.entryLength :=
  Grid.entryLength_map fun m member => by
    rw [length_zipWith_gains length (uniform m member), uniform m member]

theorem uniform_times (uniform : ∀ m ∈ g.values, m.length = g.entryLength)
    (length : gains.length = g.entryLength) :
    ∀ m ∈ (times gains g).values, m.length = (times gains g).entryLength := by
  rw [entryLength_times uniform length, times, Grid.values_map]
  intro m member
  rcases List.mem_map.mp member with ⟨original, place, rfl⟩
  exact length_zipWith_gains length (uniform original place)

/-- To apply an equalizer is to multiply by its gains and to set the bin at zero. -/
theorem apply_exact : apply ⟨gains.map real⟩ g.exact =
    .ok ((times gains g).exact.map fun m => m.set 0 1) := by
  have one : (1 : Exact) = real 1 := real_one
  have spectrum (m : List ℝ) : applyTo ⟨gains.map real⟩ (m.map real) =
      ((List.zipWith (· * ·) m gains).set 0 1).map real := by
    rw [applyTo, List.zipWith_map, one, List.map_set, List.map_zipWith]
    rfl
  have products : g.exact.map (applyTo ⟨gains.map real⟩) =
      (times gains g).exact.map fun m => m.set 0 1 := by
    rw [Grid.exact, Grid.exact, times, Grid.map_map, Grid.map_map, Grid.map_map]
    refine Grid.map_congr fun m _ => ?_
    change applyTo ⟨gains.map real⟩ (m.map real) = _
    rw [spectrum, List.map_set, one]
    rfl
  rw [← products, apply]
  refine Grid.mapSignals_of_finite fun m member => ?_
  rw [Grid.exact, Grid.values_map] at member
  rcases List.mem_map.mp member with ⟨numbers, -, rfl⟩
  rw [spectrum]
  exact finite_map_real _

end Multiplied

/-! ## Flat power -/

/-- What the gains of an equalizer do to the average power of spectra. -/
structure Flattens (g : Grid (List ℝ)) (cutoff : ℕ) (gains : List ℝ) : Prop where
  length : gains.length = g.entryLength
  positive : ∀ x ∈ gains, 0 < x
  squares : ∀ bin ∈ equalizedBins g.entryLength cutoff,
    gains.getD bin 0 ^ 2 = commonPower g cutoff / meanPower g bin
  ones : ∀ bin < g.entryLength, bin ∉ equalizedBins g.entryLength cutoff → gains.getD bin 0 = 1
  /-- All bins that are equalized come to the common power. -/
  flat : ∀ bin ∈ equalizedBins g.entryLength cutoff,
    meanPower (times gains g) bin = commonPower g cutoff
  product : ∏ bin ∈ equalizedBins g.entryLength cutoff, gains.getD bin 0 = 1
  /-- How loud all spectra are together makes no difference. -/
  scaled : ∀ factor > 0, ofGrid (scaled factor g).exact cutoff = .ok ⟨gains.map real⟩
  /-- There is nothing left to equalize. -/
  again : ofGrid (times gains g).exact cutoff =
    .ok ⟨(List.replicate g.entryLength 1).map real⟩
  applied : apply ⟨gains.map real⟩ g.exact =
    .ok ((times gains g).exact.map fun m => m.set 0 1)

section Flat

variable {g : Grid (List ℝ)} {cutoff bin : ℕ}

/-- The gains of all bins. -/
noncomputable def flatGains (g : Grid (List ℝ)) (cutoff : ℕ) : List ℝ :=
  (List.range g.entryLength).map (flatGain g cutoff)

theorem length_flatGains : (flatGains g cutoff).length = g.entryLength := by
  rw [flatGains, List.length_map, List.length_range]

theorem getD_flatGains (inside : bin < g.entryLength) :
    (flatGains g cutoff).getD bin 0 = flatGain g cutoff bin := by
  rw [flatGains, List.getD_eq_getElem?_getD, List.getElem?_map, List.getElem?_range inside]
  rfl

variable (positive : ∀ bin ∈ equalizedBins g.entryLength cutoff, 0 < meanPower g bin)

include positive

theorem commonPower_pos : 0 < commonPower g cutoff :=
  geometricMean_pos positive

theorem flatGain_sq (equalized : bin ∈ equalizedBins g.entryLength cutoff) :
    flatGain g cutoff bin ^ 2 = commonPower g cutoff / meanPower g bin := by
  have quotient := div_pos (commonPower_pos positive) (positive bin equalized)
  rw [flatGain, if_pos equalized, Real.sq_sqrt quotient.le]

theorem flatGain_pos : 0 < flatGain g cutoff bin := by
  unfold flatGain
  by_cases equalized : bin ∈ equalizedBins g.entryLength cutoff
  · rw [if_pos equalized]
    exact Real.sqrt_pos.mpr (div_pos (commonPower_pos positive) (positive bin equalized))
  · rw [if_neg equalized]
    exact one_pos

/-- The bins that are equalized keep their level in the mean. -/
theorem prod_flatGain : ∏ bin ∈ equalizedBins g.entryLength cutoff, flatGain g cutoff bin = 1 := by
  have square : (∏ bin ∈ equalizedBins g.entryLength cutoff, flatGain g cutoff bin) ^ 2 = 1 := by
    rw [← Finset.prod_pow, Finset.prod_congr rfl fun bin member => flatGain_sq positive member,
      Finset.prod_div_distrib, Finset.prod_const]
    by_cases nonempty : (equalizedBins g.entryLength cutoff).Nonempty
    · rw [commonPower, geometricMean_pow positive nonempty]
      exact div_self (Finset.prod_pos positive).ne'
    · rw [Finset.not_nonempty_iff_eq_empty.mp nonempty]
      simp
  have nonneg : 0 ≤ ∏ bin ∈ equalizedBins g.entryLength cutoff, flatGain g cutoff bin :=
    Finset.prod_nonneg fun bin _ => (flatGain_pos positive).le
  exact (pow_eq_one_iff_of_nonneg nonneg two_ne_zero).mp square

theorem flatGain_scaled {factor : ℝ} (factor_pos : 0 < factor) :
    flatGain (scaled factor g) cutoff bin = flatGain g cutoff bin := by
  unfold flatGain
  rw [entryLength_scaled]
  by_cases equalized : bin ∈ equalizedBins g.entryLength cutoff
  · have square := pow_pos factor_pos 2
    have powers : meanPower (scaled factor g) = fun bin => factor ^ 2 * meanPower g bin :=
      funext fun bin => meanPower_scaled
    rw [if_pos equalized, if_pos equalized, commonPower, entryLength_scaled, powers,
      geometricMean_mul square positive ⟨bin, equalized⟩, mul_div_mul_left _ _ square.ne',
      commonPower]
  · rw [if_neg equalized, if_neg equalized]

theorem meanPower_times_flatGains (equalized : bin ∈ equalizedBins g.entryLength cutoff) :
    meanPower (times (flatGains g cutoff) g) bin = commonPower g cutoff := by
  rw [meanPower_times, getD_flatGains (mem_equalizedBins.mp equalized).1,
    flatGain_sq positive equalized, div_mul_cancel₀ _ (positive bin equalized).ne']

theorem flatGain_times (uniform : ∀ m ∈ g.values, m.length = g.entryLength) :
    flatGain (times (flatGains g cutoff) g) cutoff bin = 1 := by
  unfold flatGain
  rw [entryLength_times uniform length_flatGains]
  by_cases equalized : bin ∈ equalizedBins g.entryLength cutoff
  · have power_pos := commonPower_pos positive
    have common : commonPower (times (flatGains g cutoff) g) cutoff = commonPower g cutoff := by
      rw [commonPower, entryLength_times uniform length_flatGains]
      exact geometricMean_const power_pos ⟨bin, equalized⟩ fun _ member =>
        meanPower_times_flatGains positive member
    rw [if_pos equalized, common, meanPower_times_flatGains positive equalized,
      div_self power_pos.ne', Real.sqrt_one]
  · rw [if_neg equalized]

/-- How loud all spectra are together makes no difference to their equalizer. -/
theorem ofGrid_scaled (uniform : ∀ m ∈ g.values, m.length = g.entryLength) {factor : ℝ}
    (factor_pos : 0 < factor) :
    ofGrid (scaled factor g).exact cutoff = .ok ⟨(flatGains g cutoff).map real⟩ := by
  have powers : ∀ bin ∈ equalizedBins (scaled factor g).entryLength cutoff,
      0 < meanPower (scaled factor g) bin := by
    rw [entryLength_scaled]
    intro bin equalized
    rw [meanPower_scaled]
    exact mul_pos (pow_pos factor_pos 2) (positive bin equalized)
  have gains : flatGain (scaled factor g) cutoff = flatGain g cutoff :=
    funext fun bin => flatGain_scaled positive factor_pos
  rw [ofGrid_exact (uniform_scaled uniform) powers, entryLength_scaled, gains, flatGains]

/-- Spectra that are equalized have nothing left to equalize. -/
theorem ofGrid_times (uniform : ∀ m ∈ g.values, m.length = g.entryLength) :
    ofGrid (times (flatGains g cutoff) g).exact cutoff =
      .ok ⟨(List.replicate g.entryLength 1).map real⟩ := by
  have count := entryLength_times uniform (@length_flatGains g cutoff)
  have powers : ∀ bin ∈ equalizedBins (times (flatGains g cutoff) g).entryLength cutoff,
      0 < meanPower (times (flatGains g cutoff) g) bin := by
    rw [count]
    intro bin equalized
    rw [meanPower_times_flatGains positive equalized]
    exact commonPower_pos positive
  have gains : flatGain (times (flatGains g cutoff) g) cutoff = fun _ => 1 :=
    funext fun bin => flatGain_times positive uniform
  rw [ofGrid_exact (uniform_times uniform length_flatGains) powers, count, gains,
    List.map_const', List.length_range]

end Flat

/-- The equalizer of spectra whose average power is positive in all bins below the cutoff gives all
these bins one power, the geometric mean of what they have, and changes nothing else. -/
theorem flattens_power {g : Grid (List ℝ)} {cutoff : ℕ}
    (uniform : ∀ m ∈ g.values, m.length = g.entryLength)
    (positive : ∀ bin ∈ equalizedBins g.entryLength cutoff, 0 < meanPower g bin) :
    ∃ gains : List ℝ,
      ofGrid g.exact cutoff = .ok ⟨gains.map real⟩ ∧ Flattens g cutoff gains := by
  refine ⟨flatGains g cutoff, ofGrid_exact uniform positive, ?_⟩
  constructor
  case length => exact length_flatGains
  case positive =>
    intro x member
    rcases List.mem_map.mp member with ⟨bin, -, rfl⟩
    exact flatGain_pos positive
  case squares =>
    intro bin equalized
    rw [getD_flatGains (mem_equalizedBins.mp equalized).1, flatGain_sq positive equalized]
  case ones =>
    intro bin inside preserved
    rw [getD_flatGains inside, flatGain, if_neg preserved]
  case flat => exact fun bin => meanPower_times_flatGains positive
  case product =>
    rw [← prod_flatGain positive]
    exact Finset.prod_congr rfl fun bin member =>
      getD_flatGains (mem_equalizedBins.mp member).1
  case scaled => exact fun factor => ofGrid_scaled positive uniform
  case again => exact ofGrid_times positive uniform
  case applied => exact apply_exact

/-- Three bins below the cutoff, of which the first is louder than the others. -/
theorem flattens_power_three :
    let g : Grid (List ℝ) := ⟨[⟨0, [(0, [2, 1, 1]), (90, [0, 1, 1])]⟩]⟩
    equalizedBins g.entryLength 20000 = Finset.range 3 ∧
      ∃ gains : List ℝ, ofGrid g.exact 20000 = .ok ⟨gains.map real⟩ ∧
        Flattens g 20000 gains := by
  intro g
  have width : g.entryLength = 3 := rfl
  have values : g.values = [[2, 1, 1], [0, 1, 1]] := rfl
  have equalized : equalizedBins 3 20000 = Finset.range 3 := by
    refine Finset.filter_true_of_mem fun bin member => Bool.eq_false_iff.mpr ?_
    have rate : sampleRate = 44100 := rfl
    rw [Ne, isPreservedBin_exact (by decide), rate]
    have inside := Finset.mem_range.mp member
    omega
  have uniform : ∀ m ∈ g.values, m.length = g.entryLength := by
    simp [width, values]
  have positive : ∀ bin ∈ equalizedBins g.entryLength 20000, 0 < meanPower g bin := by
    rw [width, equalized]
    intro bin member
    have inside := Finset.mem_range.mp member
    obtain rfl | rfl | rfl : bin = 0 ∨ bin = 1 ∨ bin = 2 := by omega
    · norm_num [meanPower, values]
    · norm_num [meanPower, values]
    · norm_num [meanPower, values]
  exact ⟨width ▸ equalized, flattens_power uniform positive⟩

end Equalizer

end Binaural
