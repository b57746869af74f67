import Binaural.Proofs.Lengths
import Binaural.Proofs.Stages
import Mathlib.Order.Bounds.Basic

/-!
The equalizer of a grid, bin by bin.

The equalizer is made list after list. In one bin it comes to a sum of squares over the entries
(`Equalizer.power`), their average (`Equalizer.average`) and a gain (`Equalizer.gain`), which sees
the other bins only through their mean level.

* `Equalizer.averagePower_eq` and `Equalizer.gainsOf_averagePower`: the lists hold these numbers,
  whatever the lengths of the entries are.
* `Equalizer.ofGrid_cases`: an equalizer is refused at the first bin without a level, or else at the
  first gain that is not finite.
* `Equalizer.ofGrid_congr`: what stands in bins at or above the cutoff is never looked at.
-/

namespace Binaural.Equalizer

variable {α : Type} [Scalar α] {g g' : Grid (List α)} {cutoff : Nat}

/-! ## Numbers of one bin -/

/-- The power in a bin, summed over the entries that have it in the order of the grid. -/
def power (g : Grid (List α)) (bin : Nat) : α :=
  Scalar.sum ((g.values.filterMap (·[bin]?)).map fun m => m * m)

/-- The average power in a bin over all entries. -/
def average (g : Grid (List α)) (bin : Nat) : α :=
  power g bin / Scalar.ofNat g.size

/-- What a bin is above the mean level; nothing for bins at or above the cutoff. -/
def excess (g : Grid (List α)) (cutoff bin : Nat) : α :=
  if isPreservedBin α bin g.entryLength cutoff then 0
  else Decibel.ofGain (average g bin) - meanLevel (averagePower g cutoff)

/-- The gain of a bin. -/
def gain (g : Grid (List α)) (cutoff bin : Nat) : α :=
  correction (excess g cutoff bin)

/-- A bin that is equalized: one of the spectra, and below the cutoff. -/
def Equalized (g : Grid (List α)) (cutoff bin : Nat) : Prop :=
  bin < g.entryLength ∧ isPreservedBin α bin g.entryLength cutoff = false

/-- A bin that is to be equalized and has no finite level. -/
def Unlevelled (g : Grid (List α)) (cutoff bin : Nat) : Prop :=
  Equalized g cutoff bin ∧ Decibel.ofGain? (average g bin) = none

/-- A bin whose gain is not finite. -/
def Unbounded (g : Grid (List α)) (cutoff bin : Nat) : Prop :=
  bin < g.entryLength ∧ Scalar.isFinite (gain g cutoff bin) = false

/-! ## Lists of powers and gains -/

/-- A spectrum adds to a bin what it has there. -/
theorem getElem?_addPower (power magnitudes : List α) (bin : Nat) :
    (addPower power magnitudes)[bin]? =
      power[bin]?.map fun p => magnitudes[bin]?.elim p fun m => p + m * m := by
  induction power generalizing magnitudes bin with
  | nil =>
      have empty : addPower [] magnitudes = [] := by
        rw [addPower, List.zipWith_nil_left, List.drop_nil, List.append_nil]
      rw [empty]
      rfl
  | cons p ps ih =>
      cases magnitudes with
      | nil => exact Option.map_id'.symm
      | cons m ms =>
          have split : addPower (p :: ps) (m :: ms) = (p + m * m) :: addPower ps ms := rfl
          rw [split]
          cases bin with
          | zero => rfl
          | succ bin => exact ih ms bin

/-- The powers of spectra add up in each bin by itself. -/
theorem getElem?_foldl_addPower (spectra : List (List α)) (power : List α) (bin : Nat) :
    (spectra.foldl addPower power)[bin]? = power[bin]?.map fun p =>
      ((spectra.filterMap (·[bin]?)).map fun m => m * m).foldl (· + ·) p := by
  induction spectra generalizing power with
  | nil => exact Option.map_id'.symm
  | cons magnitudes rest ih =>
      rw [List.foldl_cons, ih, getElem?_addPower, Option.map_map]
      refine congrArg (Option.map · power[bin]?) (funext fun p => ?_)
      rw [Function.comp_apply, List.filterMap_cons]
      cases magnitudes[bin]? with
      | none => rfl
      | some m => rfl

theorem getElem?_totalPower {bin : Nat} (inside : bin < g.entryLength) :
    (totalPower g)[bin]? = some (power g bin) := by
  rw [totalPower, getElem?_foldl_addPower, List.getElem?_replicate_of_lt inside]
  rfl

theorem averagePower_eq (g : Grid (List α)) (cutoff : Nat) :
    averagePower g cutoff = (List.range g.entryLength).map fun bin =>
      (!isPreservedBin α bin g.entryLength cutoff, average g bin) := by
  have length : (averagePower g cutoff).length = g.entryLength := by
    rw [averagePower, List.length_mapIdx, length_totalPower]
  refine List.ext_getElem? fun bin => ?_
  by_cases inside : bin < g.entryLength
  · rw [averagePower, List.getElem?_mapIdx, getElem?_totalPower inside, List.getElem?_map,
      List.getElem?_range inside]
    rfl
  · rw [List.getElem?_eq_none (by omega), List.getElem?_eq_none]
    rw [List.length_map, List.length_range]
    omega

theorem gainsOf_averagePower (g : Grid (List α)) (cutoff : Nat) :
    gainsOf (averagePower g cutoff) = (List.range g.entryLength).map (gain g cutoff) := by
  unfold gainsOf gain excess
  generalize meanLevel (averagePower g cutoff) = mean
  rw [averagePower_eq, List.map_map]
  refine List.map_congr_left fun bin _ => ?_
  rw [Function.comp_apply]
  cases isPreservedBin α bin g.entryLength cutoff with
  | false => rfl
  | true => rfl

/-! ## When there is an equalizer -/

theorem firstWithoutLevel?_range' (f : Nat → Bool × α) (start n : Nat) :
    firstWithoutLevel? start ((List.range' start n).map f) =
      ((List.range' start n).find? fun bin =>
        (f bin).1 && !Scalar.isFinite (Decibel.ofGain (f bin).2)).map fun bin =>
          (bin, (f bin).2) := by
  induction n generalizing start with
  | zero => rfl
  | succ n ih =>
      rw [List.range'_succ, List.map_cons, firstWithoutLevel?, List.find?_cons, ih]
      cases (f start).1 && !Scalar.isFinite (Decibel.ofGain (f start).2) with
      | false => rfl
      | true => rfl

theorem firstNonFinite_range' (f : Nat → α) (start n : Nat) :
    Scalar.firstNonFinite ((List.range' start n).map f) start =
      ((List.range' start n).find? fun bin => !Scalar.isFinite (f bin)).map fun bin =>
        (bin, f bin) := by
  induction n generalizing start with
  | zero => rfl
  | succ n ih =>
      rw [List.range'_succ, List.map_cons, Scalar.firstNonFinite, List.find?_cons, ih]
      cases Scalar.isFinite (f start) with
      | false => rfl
      | true => rfl

theorem find?_range_eq_some_iff {n bin : Nat} {p : Nat → Bool} :
    (List.range n).find? p = some bin ↔ IsLeast {k | k < n ∧ p k = true} bin := by
  rw [List.find?_range_eq_some]
  constructor
  · rintro ⟨found, inside, earlier⟩
    refine ⟨⟨List.mem_range.mp inside, found⟩, fun k member => ?_⟩
    by_contra before
    have absent := earlier k (by omega)
    rw [member.2] at absent
    cases absent
  · rintro ⟨⟨inside, found⟩, least⟩
    refine ⟨found, List.mem_range.mpr inside, fun k before => ?_⟩
    cases other : p k with
    | false => rfl
    | true =>
        have := least ⟨Nat.lt_trans before inside, other⟩
        omega

theorem find?_range_eq_none_iff {n : Nat} {p : Nat → Bool} :
    (List.range n).find? p = none ↔ ∀ k, ¬ (k < n ∧ p k = true) := by
  simp [List.find?_eq_none]

theorem unlevelled_iff {bin : Nat} :
    Unlevelled g cutoff bin ↔ bin < g.entryLength ∧
      (!isPreservedBin α bin g.entryLength cutoff &&
        !Scalar.isFinite (Decibel.ofGain (average g bin))) = true := by
  simp [Unlevelled, Equalized, Decibel.ofGain?, and_assoc]

theorem unbounded_iff {bin : Nat} :
    Unbounded g cutoff bin ↔
      bin < g.entryLength ∧ (!Scalar.isFinite (gain g cutoff bin)) = true := by
  simp [Unbounded]

/-- The first bin that has no level, with its average power. -/
theorem firstWithoutLevel?_eq (g : Grid (List α)) (cutoff : Nat) :
    firstWithoutLevel? 0 (averagePower g cutoff) =
      ((List.range g.entryLength).find? fun bin =>
        !isPreservedBin α bin g.entryLength cutoff &&
          !Scalar.isFinite (Decibel.ofGain (average g bin))).map fun bin =>
            (bin, average g bin) := by
  rw [averagePower_eq, List.range_eq_range', firstWithoutLevel?_range']

/-- The first gain that is not finite, with its bin. -/
theorem firstNonFinite_gains (g : Grid (List α)) (cutoff : Nat) :
    Scalar.firstNonFinite (gainsOf (averagePower g cutoff)) 0 =
      ((List.range g.entryLength).find? fun bin =>
        !Scalar.isFinite (gain g cutoff bin)).map fun bin => (bin, gain g cutoff bin) := by
  rw [gainsOf_averagePower, List.range_eq_range', firstNonFinite_range']

/-- A grid is refused for the first bin without a level, or else for the first gain that is not
finite; otherwise its equalizer has the gains of all bins. -/
theorem ofGrid_cases (g : Grid (List α)) (cutoff : Nat) :
    (∃ bin, IsLeast {k | Unlevelled g cutoff k} bin ∧ ofGrid g cutoff =
      .error (.numerical .equalize .everywhere bin (average g bin))) ∨
    (∀ k, ¬ Unlevelled g cutoff k) ∧
      ((∃ bin, IsLeast {k | Unbounded g cutoff k} bin ∧ ofGrid g cutoff =
        .error (.numerical .equalize .everywhere bin (gain g cutoff bin))) ∨
      (∀ k, ¬ Unbounded g cutoff k) ∧ ofGrid g cutoff =
        .ok ⟨(List.range g.entryLength).map (gain g cutoff)⟩) := by
  simp only [unlevelled_iff, unbounded_iff]
  unfold ofGrid Grid.checkFinite
  dsimp only
  rw [firstWithoutLevel?_eq, firstNonFinite_gains, gainsOf_averagePower]
  cases unlevelled : (List.range g.entryLength).find? fun bin =>
      !isPreservedBin α bin g.entryLength cutoff &&
        !Scalar.isFinite (Decibel.ofGain (average g bin)) with
  | some bin => exact .inl ⟨bin, find?_range_eq_some_iff.mp unlevelled, rfl⟩
  | none =>
      refine .inr ⟨find?_range_eq_none_iff.mp unlevelled, ?_⟩
      cases unbounded : (List.range g.entryLength).find? fun bin =>
          !Scalar.isFinite (gain g cutoff bin) with
      | some bin => exact .inl ⟨bin, find?_range_eq_some_iff.mp unbounded, rfl⟩
      | none => exact .inr ⟨find?_range_eq_none_iff.mp unbounded, rfl⟩

theorem ofGrid_of_unlevelled {bin : Nat} (least : IsLeast {k | Unlevelled g cutoff k} bin) :
    ofGrid g cutoff = .error (.numerical .equalize .everywhere bin (average g bin)) := by
  rcases ofGrid_cases g cutoff with ⟨found, least', refused⟩ | ⟨levelled, -⟩
  · rw [refused, least.unique least']
  · exact absurd least.1 (levelled bin)

theorem ofGrid_of_unbounded {bin : Nat} (levelled : ∀ k, ¬ Unlevelled g cutoff k)
    (least : IsLeast {k | Unbounded g cutoff k} bin) :
    ofGrid g cutoff = .error (.numerical .equalize .everywhere bin (gain g cutoff bin)) := by
  rcases ofGrid_cases g cutoff with
    ⟨found, ⟨unlevelled, -⟩, -⟩ | ⟨-, ⟨found, least', refused⟩ | rest⟩
  · exact absurd unlevelled (levelled found)
  · rw [refused, least.unique least']
  · exact absurd least.1 (rest.1 bin)

theorem ofGrid_of_bounded (levelled : ∀ k, ¬ Unlevelled g cutoff k)
    (bounded : ∀ k, ¬ Unbounded g cutoff k) :
    ofGrid g cutoff = .ok ⟨(List.range g.entryLength).map (gain g cutoff)⟩ := by
  rcases ofGrid_cases g cutoff with
    ⟨found, ⟨unlevelled, -⟩, -⟩ | ⟨-, ⟨found, ⟨unbounded, -⟩, -⟩ | rest⟩
  · exact absurd unlevelled (levelled found)
  · exact absurd unbounded (bounded found)
  · exact rest.2

theorem gains_of_made {eq : Equalizer α} (made : ofGrid g cutoff = .ok eq) :
    eq.gains = (List.range g.entryLength).map (gain g cutoff) := by
  rw [gains_of_ofGrid made, gainsOf_averagePower]

theorem getElem?_gains {eq : Equalizer α} {bin : Nat} (made : ofGrid g cutoff = .ok eq)
    (inside : bin < g.entryLength) : eq.gains[bin]? = some (gain g cutoff bin) := by
  rw [gains_of_made made, List.getElem?_map, List.getElem?_range inside]
  rfl

/-! ## What is looked at -/

/-- Two powers that are alike where the bin is equalized. -/
def AlikeIfEqualized (p q : Bool × α) : Prop :=
  p.1 = q.1 ∧ (p.1 = true → p.2 = q.2)

section Alike

variable {p q : Bool × α} {ps qs : List (Bool × α)}

omit [Scalar α] in
theorem AlikeIfEqualized.cases (alike : AlikeIfEqualized p q) :
    (∃ x y, p = (false, x) ∧ q = (false, y)) ∨ ∃ x, p = (true, x) ∧ q = (true, x) := by
  obtain ⟨equalized, x⟩ := p
  obtain ⟨equalized', y⟩ := q
  obtain ⟨rfl, value⟩ := alike
  cases equalized with
  | false => exact .inl ⟨x, y, rfl, rfl⟩
  | true =>
      obtain rfl : x = y := value rfl
      exact .inr ⟨x, rfl, rfl⟩

theorem firstWithoutLevel?_congr (alike : List.Forall₂ AlikeIfEqualized ps qs) (start : Nat) :
    firstWithoutLevel? start ps = firstWithoutLevel? start qs := by
  induction alike generalizing start with
  | nil => rfl
  | cons head _ ih =>
      rcases head.cases with ⟨x, y, rfl, rfl⟩ | ⟨x, rfl, rfl⟩
      · exact ih (start + 1)
      · rw [firstWithoutLevel?, firstWithoutLevel?, ih (start + 1)]

omit [Scalar α] in
theorem filter_congr (alike : List.Forall₂ AlikeIfEqualized ps qs) :
    ps.filter Prod.fst = qs.filter Prod.fst := by
  induction alike with
  | nil => rfl
  | cons head _ ih =>
      rcases head.cases with ⟨x, y, rfl, rfl⟩ | ⟨x, rfl, rfl⟩
      · exact ih
      · exact congrArg ((true, x) :: ·) ih

theorem gainsOf_congr (alike : List.Forall₂ AlikeIfEqualized ps qs) :
    gainsOf ps = gainsOf qs := by
  have mean : meanLevel ps = meanLevel qs := by
    rw [meanLevel, meanLevel, filter_congr alike]
  unfold gainsOf
  rw [mean]
  generalize meanLevel qs = level
  dsimp only
  clear mean
  induction alike with
  | nil => rfl
  | cons head _ ih =>
      rw [List.map_cons, List.map_cons, ih]
      rcases head.cases with ⟨x, y, rfl, rfl⟩ | ⟨x, rfl, rfl⟩
      · rfl
      · rfl

end Alike

/-- Two spectra of one length that hold the same in each bin below a cutoff. -/
def AlikeBelow (size cutoff : Nat) (m m' : List α) : Prop :=
  m'.length = m.length ∧ ∀ bin, isPreservedBin α bin size cutoff = false → m'[bin]? = m[bin]?

theorem entryLength_congr {size : Nat}
    (alike : List.Forall₂ (AlikeBelow size cutoff) g.values g'.values) :
    g'.entryLength = g.entryLength := by
  unfold Grid.entryLength
  revert alike
  generalize g.values = ms
  generalize g'.values = ms'
  intro alike
  cases alike with
  | nil => rfl
  | cons head _ => exact head.1

omit [Scalar α] in
theorem column_congr {ms ms' : List (List α)} {bin : Nat}
    (alike : List.Forall₂ (fun m m' => m'[bin]? = m[bin]?) ms ms') :
    ms'.filterMap (·[bin]?) = ms.filterMap (·[bin]?) := by
  induction alike with
  | nil => rfl
  | cons head _ ih => rw [List.filterMap_cons, List.filterMap_cons, head, ih]

theorem average_congr {size bin : Nat}
    (alike : List.Forall₂ (AlikeBelow size cutoff) g.values g'.values)
    (below : isPreservedBin α bin size cutoff = false) : average g' bin = average g bin := by
  have count : g'.size = g.size := alike.length_eq.symm
  have column := column_congr (alike.imp fun m m' same => same.2 bin below)
  rw [average, average, power, power, count, column]

/-- Two grids that hold the same below the cutoff have the same equalizer, or the same error. -/
theorem ofGrid_congr
    (alike : List.Forall₂ (AlikeBelow g.entryLength cutoff) g.values g'.values) :
    ofGrid g' cutoff = ofGrid g cutoff := by
  have powers : List.Forall₂ AlikeIfEqualized (averagePower g' cutoff) (averagePower g cutoff) := by
    rw [averagePower_eq, averagePower_eq, entryLength_congr alike]
    rw [List.forall₂_map_left_iff, List.forall₂_map_right_iff, List.forall₂_same]
    intro bin _
    refine ⟨rfl, fun equalized => average_congr alike ?_⟩
    simpa using equalized
  unfold ofGrid
  dsimp only
  rw [firstWithoutLevel?_congr powers, gainsOf_congr powers]

/-- Bins at or above the cutoff are corrected by a level of 0. -/
theorem gain_of_preserved {bin : Nat}
    (preserved : isPreservedBin α bin g.entryLength cutoff = true) :
    gain g cutoff bin = correction 0 := by
  rw [gain, excess, if_pos preserved]

end Binaural.Equalizer
