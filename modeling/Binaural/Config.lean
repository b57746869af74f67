import Binaural.Decibel
import Binaural.Failure

/-!
The settings of a compilation, their defaults, and the demands on them.

The defaults are those of the shipped dataset. The emphasis curve was tuned by ear and not derived,
so all of it can be set.
-/

namespace Binaural

/-- Whether sources behind the listener are darkened before or after the impulses are shortened. -/
inductive EmphasisPlacement
  | beforeTruncation
  | afterTruncation
  deriving DecidableEq, Repr

/-- The curve of the lowpass that darkens sources behind the listener. -/
structure EmphasisConfig (α : Type) where
  /-- Edge of the passband in Hz. -/
  passband : α
  /-- Edge of the stopband in Hz. -/
  stopband : α
  /-- The most that the passband edge may lose, in positive decibels. -/
  passbandLoss : α
  /-- The gain of the stopband directly behind the listener, in negative decibels, on top of the
  offset. -/
  maxStopband : α
  /-- The gain of the stopband next to the angles that are left alone, in negative decibels. -/
  stopbandOffset : α
  /-- Angles at least this far from the back are left alone. -/
  frontThreshold : α

/-- All settings. -/
structure Config (α : Type) where
  finalLength : Nat
  /-- Frequencies from this one on, in Hz, are not equalized. -/
  equalizationCutoff : Nat
  /-- The least gain of a bin after equalization. -/
  minGain : α
  /-- The greatest gain of a bin after equalization. -/
  maxGain : α
  /-- The floor under magnitudes whose logarithm is taken. -/
  minPhaseFloor : α
  /-- The corner, in Hz, of the highpass that removes rumble. -/
  rumbleCutoff : α
  rumbleOrder : Nat
  emphasis : EmphasisConfig α
  placement : EmphasisPlacement

variable {α : Type} [Scalar α]

/-- The emphasis curve of the shipped dataset. The threshold is slightly below one half, so that the
sides are left alone in spite of rounding. -/
def EmphasisConfig.default : EmphasisConfig α where
  passband := 2000
  stopband := Scalar.ofNat nyquist
  passbandLoss := 0.1
  maxStopband := -1.5
  stopbandOffset := -0.1
  frontThreshold := 0.49

namespace Config

/-- The settings of the shipped dataset. -/
def default : Config α where
  finalLength := 32
  equalizationCutoff := 5000
  minGain := 0
  maxGain := Decibel.toGain 6
  minPhaseFloor := 1e-6
  rumbleCutoff := 100
  rumbleOrder := 2
  emphasis := .default
  placement := .afterTruncation

/-- The first demand that the settings do not meet. A setting that is not a number meets none. -/
def fault? (c : Config α) : Option (ConfigFault α) :=
  let e := c.emphasis
  if c.finalLength = 0 ∨ sampleRate < c.finalLength then some (.finalLength c.finalLength)
  else if c.equalizationCutoff = 0 ∨ nyquist < c.equalizationCutoff then
    some (.equalizationCutoff c.equalizationCutoff)
  else if ¬ (0 ≤ c.minGain ∧ c.minGain ≤ c.maxGain ∧ Scalar.isFinite c.maxGain) then
    some (.gains c.minGain c.maxGain)
  else if ¬ 0 < c.minPhaseFloor then some .minPhaseFloor
  else if ¬ (0 < c.rumbleCutoff ∧ c.rumbleCutoff < Scalar.ofNat nyquist) then
    some (.rumbleCutoff c.rumbleCutoff)
  else if c.rumbleOrder = 0 then some .rumbleOrder
  else if ¬ (0 < e.passband ∧ e.passband < e.stopband ∧ e.stopband ≤ Scalar.ofNat nyquist) then
    some (.emphasisEdges e.passband e.stopband)
  else if ¬ 0 < e.passbandLoss then some .passbandLoss
  else if ¬ (e.stopbandOffset < 0 ∧ e.maxStopband ≤ 0) then some .stopbandGains
  else if ¬ (0 < e.frontThreshold ∧ e.frontThreshold ≤ 1) then some .frontThreshold
  else none

/-- Whether the pipeline can run with the settings at all. -/
def validate (c : Config α) : Except (ConfigError α) Unit :=
  match c.fault? with
  | some fault => .error (.invalid fault)
  | none => .ok ()

end Config

end Binaural
