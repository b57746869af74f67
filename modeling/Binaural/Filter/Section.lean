import Binaural.Complex
import Binaural.SampleRate

/-!
Second-order sections: the building block of every filter.

A section is the transfer function `gain * (1 + b1 z⁻¹ + b2 z⁻²) / (1 + a1 z⁻¹ + a2 z⁻²)`. It is run
one sample at a time over a state of two values, and it can be evaluated at a frequency.
-/

namespace Binaural

/-- A second-order section with the first coefficients of both polynomials taken out. -/
structure Section (α : Type) where
  gain : α
  b1 : α
  b2 : α
  a1 : α
  a2 : α
  deriving BEq

namespace Section

variable {α : Type} [Scalar α]

/-- The section `(b0 + b1 z⁻¹ + b2 z⁻²) / (a0 + a1 z⁻¹ + a2 z⁻²)`. -/
@[specialize] def ofCoefficients (b0 b1 b2 a0 a1 a2 : α) : Section α where
  gain := b0 / a0
  b1 := b1 / b0
  b2 := b2 / b0
  a1 := a1 / a0
  a2 := a2 / a0

/-- The angle by which a frequency turns from one sample to the next. -/
@[specialize] def angularFrequency (frequency : α) : α :=
  2 * Scalar.pi * frequency / Scalar.ofNat sampleRate

/-- The analog frequency that the bilinear transform maps to a frequency. -/
@[specialize] def prewarp (frequency : α) : α :=
  Scalar.tan (Scalar.pi * frequency / Scalar.ofNat sampleRate)

/-- A resonant lowpass with its corner at `frequency` and quality `q`. -/
@[specialize] def lowpass (frequency q : α) : Section α :=
  let omega := angularFrequency frequency
  let b1 := 1 - Scalar.cos omega
  let b0 := b1 / 2
  let alpha := Scalar.sin omega / (2 * q)
  ofCoefficients b0 b1 b0 (1 + alpha) (-2 * Scalar.cos omega) (1 - alpha)

/-- A resonant highpass with its corner at `frequency` and quality `q`. -/
@[specialize] def highpass (frequency q : α) : Section α :=
  let omega := angularFrequency frequency
  let shared := 1 + Scalar.cos omega
  let b0 := shared / 2
  let alpha := Scalar.sin omega / (2 * q)
  ofCoefficients b0 (-shared) b0 (1 + alpha) (-2 * Scalar.cos omega) (1 - alpha)

/-- The lowpass of first order: the bilinear transform of `1 / (s + 1)`. -/
@[specialize] def firstOrderLowpass (frequency : α) : Section α :=
  let k := prewarp frequency
  ofCoefficients k k 0 (1 + k) (k - 1) 0

/-- The highpass of first order: the bilinear transform of `s / (s + 1)`. -/
@[specialize] def firstOrderHighpass (frequency : α) : Section α :=
  let k := prewarp frequency
  ofCoefficients 1 (-1) 0 (1 + k) (k - 1) 0

/-- What a section remembers: the last two outputs of its recursive part. -/
structure State (α : Type) where
  recent : α
  earlier : α

/-- The state before the first sample. -/
@[specialize] def State.zero : State α := ⟨0, 0⟩

/-- One sample through the section: the recursive part first, then the other polynomial over the
same history. -/
@[specialize] def tick (s : Section α) (state : State α) (x : α) : α × State α :=
  let recursive := x * s.gain - s.a1 * state.recent - s.a2 * state.earlier
  (recursive + s.b1 * state.recent + s.b2 * state.earlier, ⟨recursive, state.recent⟩)

/-- All samples through the section, from a state on; `done` holds the samples that came out
before, the last one first. -/
@[specialize] def runOnto (s : Section α) (state : State α) (done : List α) :
    List α → List α × State α
  | [] => (done.reverse, state)
  | x :: xs =>
    let (y, next) := s.tick state x
    s.runOnto next (y :: done) xs

/-- All samples through the section, from a state on. -/
@[specialize] def runFrom (s : Section α) (state : State α) (xs : List α) : List α × State α :=
  s.runOnto state [] xs

/-- The samples that come out of the section at rest. -/
@[specialize] def filter (s : Section α) (xs : List α) : List α :=
  (s.runFrom .zero xs).1

/-- The transfer function at a point, given as `z⁻¹`. -/
def transfer (s : Section α) (zInv : Complex α) : Complex α :=
  let one := Complex.ofReal (1 : α)
  let square := zInv * zInv
  (one + zInv.scale s.b1 + square.scale s.b2).scale s.gain
    / (one + zInv.scale s.a1 + square.scale s.a2)

/-- The point of the unit circle that a frequency stands for, as `z⁻¹`. -/
def delayAt (frequency : α) : Complex α :=
  Complex.ofReal 1 / Complex.polar 1 (angularFrequency frequency)

/-- The response of the section to a frequency. -/
def frequencyResponse (s : Section α) (frequency : α) : Complex α :=
  s.transfer (delayAt frequency)

end Section

end Binaural
