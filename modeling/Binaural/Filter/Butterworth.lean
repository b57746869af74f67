import Binaural.Decimal.Notation
import Binaural.Filter.Cascade

/-!
Butterworth filters: maximally flat lowpasses and highpasses of any order, and the choice of the
least order that meets the demands at two band edges.

A filter of order `n` is one section for each pair of conjugate poles and, if `n` is odd, one of
first order. All sections have the same corner, so the cascade is the bilinear transform of the
analog prototype.
-/

namespace Binaural

/-- Why no filter can be designed. -/
inductive DesignError (α : Type)
  | badEdges (passband stopband : α)
  | badLosses (loss attenuation : α)
  | zeroOrder
  | badCutoff (cutoff : α)

/-- The report of a design error. -/
def DesignError.message : DesignError Float → String
  | .badEdges passband stopband =>
    "Passband edge " ++ Notation.plain.ofFloat passband ++ " Hz must be below the stopband edge "
      ++ Notation.plain.ofFloat stopband ++ " Hz, and both must be in (0, " ++ toString nyquist
      ++ "]"
  | .badLosses loss attenuation =>
    "Passband loss " ++ Notation.plain.ofFloat loss ++ " dB and stopband attenuation "
      ++ Notation.plain.ofFloat attenuation ++ " dB must both be positive"
  | .zeroOrder => "Filter order must be at least 1"
  | .badCutoff cutoff =>
    "Cutoff " ++ Notation.plain.ofFloat cutoff ++ " Hz must be in (0, " ++ toString nyquist ++ ")"

namespace Butterworth

variable {α : Type} [Scalar α]

/-- The quality of the `k`-th pair of conjugate poles of the prototype. -/
@[specialize] def pairQuality (order k : Nat) : α :=
  let theta := Scalar.pi * Scalar.ofNat (2 * k + 1) / Scalar.ofNat (2 * order)
  1 / (2 * Scalar.sin theta)

/-- The qualities of all pairs of conjugate poles. -/
@[specialize] def pairQualities (order : Nat) : List α :=
  (List.range (order / 2)).map (pairQuality order)

/-- Nothing, if there is a filter of this order and cutoff. -/
def cutoffFault? (order : Nat) (cutoff : α) : Option (DesignError α) :=
  if order = 0 then some .zeroOrder
  else if 0 < cutoff ∧ cutoff < Scalar.ofNat nyquist then none
  else some (.badCutoff cutoff)

/-- A filter out of a kind of second-order and a kind of first-order section. -/
@[specialize] def cascade (pair : α → Section α) (single : Section α) (order : Nat) : Cascade α :=
  let pairs := (pairQualities order).map pair
  ⟨if order % 2 = 1 then pairs ++ [single] else pairs⟩

/-- The lowpass of an order that loses half of the power at `cutoff`. -/
@[specialize] def lowpass (order : Nat) (cutoff : α) : Except (DesignError α) (Cascade α) :=
  match cutoffFault? order cutoff with
  | some e => .error e
  | none => .ok (cascade (Section.lowpass cutoff) (Section.firstOrderLowpass cutoff) order)

/-- The highpass of an order that loses half of the power at `cutoff`. -/
@[specialize] def highpass (order : Nat) (cutoff : α) : Except (DesignError α) (Cascade α) :=
  match cutoffFault? order cutoff with
  | some e => .error e
  | none => .ok (cascade (Section.highpass cutoff) (Section.firstOrderHighpass cutoff) order)

/-- A lowpass with what was chosen for it. -/
structure Design (α : Type) where
  order : Nat
  /-- The frequency at which the filter loses half of the power. -/
  cutoff : α
  filter : Cascade α

/-- Orders are numbers of 32 bits; a demand for a larger one gets the largest. -/
def greatestOrder : Nat := 4294967295

/-- The least order of which the filter that loses `loss` decibels at the passband edge loses
`attenuation` at the stopband edge; at least 1. The edges are prewarped. -/
@[specialize] def leastOrder (passband stopband loss attenuation : α) : Nat :=
  let lossPower : α := Scalar.pow 10 (0.1 * loss)
  let attenuationPower : α := Scalar.pow 10 (0.1 * attenuation)
  let ratio := Scalar.log10 ((attenuationPower - 1) / (lossPower - 1))
    / (2 * Scalar.log10 (stopband / passband))
  max (min (Scalar.ceilNat ratio) greatestOrder) 1

/-- The cutoff for which a filter of the order loses exactly `loss` decibels at a prewarped
passband edge. -/
@[specialize] def cutoffFor (order : Nat) (passband loss : α) : α :=
  let lossPower : α := Scalar.pow 10 (0.1 * loss)
  let scale := Scalar.pow (lossPower - 1) (-1 / (2 * Scalar.ofNat order))
  Scalar.atan (scale * passband) * Scalar.ofNat sampleRate / Scalar.pi

/-- The lowpass of least order that loses at most `loss` decibels up to the passband edge and at
least `attenuation` decibels from the stopband edge on. -/
@[specialize] def designLowpass (passband stopband loss attenuation : α) :
    Except (DesignError α) (Design α) :=
  if ¬ (0 < passband ∧ passband < stopband ∧ stopband ≤ Scalar.ofNat nyquist) then
    .error (.badEdges passband stopband)
  else if ¬ (0 < loss ∧ 0 < attenuation) then
    .error (.badLosses loss attenuation)
  else
    let warped := Section.prewarp passband
    let order := leastOrder warped (Section.prewarp stopband) loss attenuation
    let cutoff := cutoffFor order warped loss
    (lowpass order cutoff).map fun filter => ⟨order, cutoff, filter⟩

end Butterworth

end Binaural
