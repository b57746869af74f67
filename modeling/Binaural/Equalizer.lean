import Binaural.Decibel
import Binaural.Grid

/-!
The equalization of what all measurements have in common.

The colour of the measurement setup is in every spectrum, so one correction is derived from the
average power over all angles and applied to each. Below the cutoff it makes the average power flat
and leaves its mean level alone; at and above the cutoff it is exactly 1.
-/

namespace Binaural

/-- Whether a bin of a spectrum of `size` bins is at or above a cutoff in Hz. Bins beyond the middle
stand for negative frequencies. -/
@[specialize] def isPreservedBin (α : Type) [Scalar α] (bin size cutoff : Nat) : Bool :=
  let folded : α := Scalar.ofNat (min bin (size - bin))
  Scalar.ofNat cutoff ≤ folded * Scalar.ofNat sampleRate / Scalar.ofNat size

/-- One gain for each bin. -/
structure Equalizer (α : Type) where
  gains : List α

namespace Equalizer

variable {α : Type} [Scalar α]

/-- The squares of magnitudes added to powers, bin by bin. Bins that one side lacks are left
alone. -/
@[specialize] def addPower (power magnitudes : List α) : List α :=
  List.zipWith (fun p m => p + m * m) power magnitudes ++ power.drop magnitudes.length

/-- The sum over all entries of the power in each bin, in the order of the grid. -/
@[specialize] def totalPower (g : Grid (List α)) : List α :=
  g.values.foldl addPower (List.replicate g.entryLength 0)

/-- The average power over all entries of each bin, with whether the bin is equalized. -/
@[specialize] def averagePower (g : Grid (List α)) (cutoff : Nat) : List (Bool × α) :=
  let count := Scalar.ofNat g.size
  let size := g.entryLength
  (totalPower g).mapIdx fun bin p => (!isPreservedBin α bin size cutoff, p / count)

/-- The first equalized bin, with its power, whose level is not finite. -/
@[specialize] def firstWithoutLevel? (start : Nat) : List (Bool × α) → Option (Nat × α)
  | [] => none
  | (equalized, p) :: rest =>
    if equalized && !Scalar.isFinite (Decibel.ofGain p) then some (start, p)
    else firstWithoutLevel? (start + 1) rest

/-- The mean level over the equalized bins, which all of them are brought to; 0 without any. -/
@[specialize] def meanLevel (powers : List (Bool × α)) : α :=
  let levels := (powers.filter Prod.fst).map fun p => Decibel.ofGain p.2
  if levels.isEmpty then 0 else Scalar.sum levels / Scalar.ofNat levels.length

/-- The gain that undoes a level of power. -/
@[specialize] def correction (level : α) : α :=
  Scalar.sqrt (Decibel.toGain (-level))

/-- The gain of each bin: bins that are not equalized are corrected by a level of 0. -/
@[specialize] def gainsOf (powers : List (Bool × α)) : List α :=
  let mean := meanLevel powers
  powers.map fun p => correction (if p.1 then Decibel.ofGain p.2 - mean else 0)

/-- The equalizer of a grid of spectra. -/
@[specialize] def ofGrid (g : Grid (List α)) (cutoff : Nat) :
    Except (CompileError α) (Equalizer α) :=
  let powers := averagePower g cutoff
  match firstWithoutLevel? 0 powers with
  | some (bin, p) => .error (.numerical .equalize .everywhere bin p)
  | none =>
    let gains := gainsOf powers
    (Grid.checkFinite .equalize .everywhere gains).map fun _ => ⟨gains⟩

/-- A spectrum times the gains, its bin at zero set to 1. -/
@[specialize] def applyTo (eq : Equalizer α) (magnitudes : List α) : List α :=
  (List.zipWith (fun m g => m * g) magnitudes eq.gains).set 0 1

/-- All spectra times the gains. -/
@[specialize] def apply (eq : Equalizer α) (g : Grid (List α)) :
    Except (Failure α) (Grid (List α)) :=
  g.mapSignals .equalize eq.applyTo

end Equalizer

/-- The equalizer of a grid applied to the grid itself. -/
@[specialize] def equalize {α : Type} [Scalar α] (cutoff : Nat) (g : Grid (List α)) :
    Except (Failure α) (Grid (List α)) := do
  let eq ← Failure.ofError (Equalizer.ofGrid g cutoff)
  eq.apply g

end Binaural
