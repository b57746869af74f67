import Binaural.Dataset
import Binaural.Emphasis
import Binaural.Equalizer
import Binaural.ImpulseTable
import Binaural.Impulse
import Binaural.Spectrum

/-!
The compilation of a dataset: all stages in order.
-/

namespace Binaural

variable {α : Type} [Scalar α]

/-- The last two stages in the order that the settings ask for. -/
@[specialize] def Config.finish (c : Config α) (g : Grid (List α)) :
    Except (Failure α) (Grid (List α)) :=
  match c.placement with
  | .beforeTruncation => do Impulse.truncate c.finalLength (← Emphasis.emphasize c.emphasis g)
  | .afterTruncation => do Emphasis.emphasize c.emphasis (← Impulse.truncate c.finalLength g)

/-- All stages in order, from the recordings to the impulses. -/
@[specialize] def Config.process (c : Config α) (recordings : Grid (List α)) :
    Except (Failure α) (Grid (List α)) := do
  let spectra ← Spectrum.analyze recordings
  let equalized ← equalize c.equalizationCutoff spectra
  let clamped ← Spectrum.clamp c.minGain c.maxGain equalized
  let impulses ← Impulse.synthesize c.minPhaseFloor clamped
  let filtered ← Impulse.removeRumble c.rumbleOrder c.rumbleCutoff impulses
  c.finish filtered

/-- The impulses of a dataset. Nothing is computed with settings that do not meet all demands. -/
@[specialize] def compile (d : Dataset α) (c : Config α) :
    Except (Failure α) (ImpulseTable α) :=
  match c.validate with
  | .error e => .error (.error (.config e))
  | .ok () => (c.process d.grid).map fun grid => ⟨d.layout, grid⟩

end Binaural
