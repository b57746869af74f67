import Binaural.Grid
import Binaural.Transform.Fourier

/-!
Magnitude spectra of recordings, one bin for each Hz.
-/

namespace Binaural.Spectrum

variable {α : Type} [Scalar α]

/-- The size of the analysis: a second, so that bins are a Hz apart. -/
def analysisSize : Nat := sampleRate

/-- Every recording replaced by the magnitudes of its spectrum, whatever its length. -/
@[specialize] def analyze (g : Grid (List α)) : Except (Failure α) (Grid (List α)) := do
  let transform ← Failure.ofViolation (Transform.ofSize analysisSize)
  g.mapSignals .analyze transform.magnitudes

/-- All values of a list brought between two bounds. The bounds matter only if there is a value. -/
@[specialize] def clampAll (low high : α) (xs : List α) : Except Violation (List α) :=
  if low ≤ high ∨ xs.isEmpty then .ok (xs.map (Scalar.clamp low high))
  else .error .unorderedBounds

/-- Every magnitude brought between two gains. -/
@[specialize] def clamp (low high : α) (g : Grid (List α)) :
    Except (Failure α) (Grid (List α)) :=
  g.tryMap .clamp fun _ magnitudes => Failure.ofViolation (clampAll low high magnitudes)

end Binaural.Spectrum
