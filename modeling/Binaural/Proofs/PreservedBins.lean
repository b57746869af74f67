import Binaural.Proofs.Elementary

/-!
Frequencies at and above the cutoff.

Nothing is done there, and nothing is read there. In one direction: a bin at or above the cutoff is
corrected by a level of 0, hence multiplied by exactly 1 (`Equalizer.keeps_of_unit`). In the other:
grids that differ only there have one equalizer (`Equalizer.ofGrid_congr`).
`Equalizer.preserved_bins` says both of 64-bit numbers, with every library in which ten to the power
of zero is 1.
-/

namespace Binaural.Equalizer

section Scalar

variable {α : Type} [Scalar α]

/-- A spectrum before and after its equalization. -/
structure Corrects (eq : Equalizer α) (size cutoff : ℕ) (magnitudes corrected : List α) : Prop where
  length : corrected.length = size
  zero : corrected[0]? = some 1
  preserved : ∀ bin, 0 < bin → bin < size → isPreservedBin α bin size cutoff = true →
    corrected[bin]? = magnitudes[bin]?
  /-- In all other bins the gain depends on the bin alone. -/
  multiplied : ∀ bin, 0 < bin → bin < size → ∃ m gain, magnitudes[bin]? = some m ∧
    eq.gains[bin]? = some gain ∧ corrected[bin]? = some (m * gain)

/-- An equalizer leaves alone what is at or above the cutoff. -/
structure Keeps (eq : Equalizer α) (size cutoff : ℕ) (g : Grid (List α)) : Prop where
  length : eq.gains.length = size
  unit : ∀ bin < size, isPreservedBin α bin size cutoff = true → eq.gains[bin]? = some 1
  /-- Where the equalizer is applied, all entries stay at their angles. -/
  applied : ∀ h, eq.apply g = .ok h → h.outline = g.outline ∧
    List.Forall₂ (fun entry image => image.1 = entry.1 ∧ eq.Corrects size cutoff entry.2 image.2)
      g.positioned h.positioned

theorem getElem?_applyTo {eq : Equalizer α} {magnitudes : List α} {bin : ℕ} (positive : 0 < bin) :
    (eq.applyTo magnitudes)[bin]? =
      (magnitudes[bin]?).bind fun m => eq.gains[bin]?.map fun gain => m * gain := by
  rw [applyTo, List.getElem?_set_ne (by omega), List.getElem?_zipWith]
  cases magnitudes[bin]? with
  | none => rfl
  | some m =>
      cases eq.gains[bin]? with
      | none => rfl
      | some gain => rfl

theorem getElem?_zero_applyTo {eq : Equalizer α} {magnitudes : List α}
    (nonempty : 0 < (eq.applyTo magnitudes).length) : (eq.applyTo magnitudes)[0]? = some 1 := by
  rw [length_applyTo] at nonempty
  rw [applyTo, List.getElem?_set_self]
  rwa [List.length_zipWith]

section Unit

variable {g : Grid (List α)} {eq : Equalizer α} {size cutoff : ℕ}

/-- A spectrum is left alone where the gains are 1. -/
theorem corrects_applyTo (neutral : ∀ x : α, x * 1 = x) (positive : 0 < size)
    (count : eq.gains.length = size)
    (unit : ∀ bin < size, isPreservedBin α bin size cutoff = true → eq.gains[bin]? = some 1)
    {magnitudes : List α} (long : magnitudes.length = size) :
    eq.Corrects size cutoff magnitudes (eq.applyTo magnitudes) := by
  have length : (eq.applyTo magnitudes).length = size := by
    rw [length_applyTo, long, count, Nat.min_self]
  have multiplied : ∀ bin, 0 < bin → bin < size → ∃ m gain, magnitudes[bin]? = some m ∧
      eq.gains[bin]? = some gain ∧ (eq.applyTo magnitudes)[bin]? = some (m * gain) := by
    intro bin above inside
    have m := List.getElem?_eq_getElem (l := magnitudes) (i := bin) (by omega)
    have gain := List.getElem?_eq_getElem (l := eq.gains) (i := bin) (by omega)
    refine ⟨_, _, m, gain, ?_⟩
    rw [getElem?_applyTo above, m, gain]
    rfl
  refine ⟨length, getElem?_zero_applyTo (by omega), fun bin above inside preserved => ?_,
    multiplied⟩
  rcases multiplied bin above inside with ⟨m, gain, value, factor, product⟩
  rw [unit bin inside preserved] at factor
  rw [product, value, ← Option.some.inj factor, neutral]

/-- If a level of 0 is corrected by 1 and a product with 1 changes nothing, then an equalizer leaves
alone what is at or above the cutoff. -/
theorem keeps_of_unit (unit : correction (0 : α) = 1) (neutral : ∀ x : α, x * 1 = x)
    (positive : 0 < size) (uniform : g.Uniform size) (made : ofGrid g cutoff = .ok eq) :
    eq.Keeps size cutoff g := by
  have width : g.entryLength = size := uniform.entryLength
  have count : eq.gains.length = size := by rw [length_gains made, width]
  have ones : ∀ bin < size, isPreservedBin α bin size cutoff = true →
      eq.gains[bin]? = some 1 := by
    intro bin inside preserved
    rw [← width] at inside preserved
    rw [getElem?_gains made inside, gain_of_preserved preserved, unit]
  refine ⟨count, ones, fun h applied => ?_⟩
  rw [apply, Grid.mapSignals, Grid.tryMap_eq_ok_iff] at applied
  rcases applied with ⟨outline, images⟩
  refine ⟨outline, ((List.forall₂_and_left _ _).mpr ⟨uniform.length, images⟩).imp ?_⟩
  rintro entry image ⟨long, place, given⟩
  have result : eq.applyTo entry.2 = image.2 := Except.ok.inj (Grid.settled_eq_ok_iff.mp given).1
  exact ⟨place, result ▸ corrects_applyTo neutral positive count ones long⟩

end Unit

end Scalar

/-- Bins at or above the cutoff have a gain of exactly 1 and are not changed, apart from the bin at
zero, which becomes 1; all others are multiplied by one gain for all angles. And what stands at or
above the cutoff, be it no number at all, makes no difference to the equalizer or its error. -/
theorem preserved_bins {f : Elementary} (zeroth : f.ZerothPower) (cutoff : ℕ) :
    (∀ (g : Grid (List f.Number)) (size : ℕ), 0 < size → g.Uniform size →
      ∀ eq, ofGrid g cutoff = .ok eq → eq.Keeps size cutoff g) ∧
    ∀ g g' : Grid (List f.Number),
      List.Forall₂ (AlikeBelow g.entryLength cutoff) g.values g'.values →
        ofGrid g' cutoff = ofGrid g cutoff := by
  constructor
  · intro g size positive uniform eq made
    exact keeps_of_unit (Elementary.correction_zero zeroth) Elementary.mul_one positive uniform made
  · exact fun g g' => ofGrid_congr

/-- Four bins, of which only the first is below the cutoff. -/
theorem preserved_bins_four :
    let g : Grid (List Elementary.sparse.Number) :=
      ⟨[⟨0, [(0, [1, 0.5, 2, 0.25]), (90, [-1, 3, 0, 5])]⟩]⟩
    let g' : Grid (List Elementary.sparse.Number) :=
      ⟨[⟨0, [(0, [1, 0 / 0, 1 / 0, 0]), (90, [-1, -1 / 0, 7, 0 / 0])]⟩]⟩
    Elementary.sparse.ZerothPower ∧
      (∃ eq h, ofGrid g 5000 = .ok eq ∧ eq.apply g = .ok h ∧ eq.Keeps 4 5000 g) ∧
      ofGrid g' 5000 = ofGrid g 5000 := by
  intro g g'
  rcases preserved_bins Elementary.zerothPower_sparse 5000 with ⟨keeps, unseen⟩
  have entries : g.positioned =
      [(⟨0, 0, 0, 0, 2⟩, [1, 0.5, 2, 0.25]), (⟨0, 90, 0, 1, 2⟩, [-1, 3, 0, 5])] := rfl
  have uniform : g.Uniform 4 := by
    constructor
    · simp [entries]
    · simp [entries]
  have made : (ofGrid g 5000).toOption.map gains = some [1, 1, 1, 1] := by decide +kernel
  have applied : (apply ⟨[1, 1, 1, 1]⟩ g).toOption.isSome = true := by decide +kernel
  have above {x y : List Elementary.sparse.Number} (length : y.length = 4 ∧ x.length = 4)
      (first : y[0]? = x[0]?) : AlikeBelow 4 5000 x y := by
    have only_first : ∀ bin < 4,
        isPreservedBin Elementary.sparse.Number bin 4 5000 = false → bin = 0 := by decide +kernel
    refine ⟨length.1.trans length.2.symm, fun bin below => ?_⟩
    by_cases inside : bin < 4
    · rw [only_first bin inside below, first]
    · rw [List.getElem?_eq_none (by omega), List.getElem?_eq_none (by omega)]
  refine ⟨Elementary.zerothPower_sparse, ?_, unseen g g' ?_⟩
  · cases result : ofGrid g 5000 with
    | error e =>
        rw [result] at made
        cases made
    | ok eq =>
        rw [result] at made
        obtain ⟨gains⟩ := eq
        obtain rfl : gains = [1, 1, 1, 1] := Option.some.inj made
        cases corrected : apply ⟨[1, 1, 1, 1]⟩ g with
        | error e =>
            rw [corrected] at applied
            cases applied
        | ok h => exact ⟨_, h, rfl, corrected, keeps g 4 (by decide) uniform _ result⟩
  · exact .cons (above ⟨rfl, rfl⟩ rfl) (.cons (above ⟨rfl, rfl⟩ rfl) .nil)

end Binaural.Equalizer
