import Binaural.Grid
import Binaural.Transform.MinimumPhase
import Binaural.Window

/-!
Impulse responses out of magnitude spectra: causal by minimum phase, without rumble, and short.
-/

namespace Binaural.Impulse

variable {α : Type} [Scalar α]

/-- Every spectrum replaced by the impulse response of minimum phase with these magnitudes, which
is as long as the spectrum. -/
@[specialize] def synthesize (floor : α) (g : Grid (List α)) :
    Except (Failure α) (Grid (List α)) := do
  let mp ← Failure.ofViolation (MinimumPhase.ofSize g.entryLength floor)
  g.tryMap .minimumPhase fun _ magnitudes => Failure.ofViolation (mp.reconstruct magnitudes)

/-- The highpass that removes rumble, the same for all angles. -/
@[specialize] def rumbleFilter (order : Nat) (cutoff : α) :
    Except (CompileError α) (Cascade α) :=
  Failure.ofDesign .rumble (Butterworth.highpass order cutoff)

/-- Every impulse without its rumble. -/
@[specialize] def removeRumble (order : Nat) (cutoff : α) (g : Grid (List α)) :
    Except (Failure α) (Grid (List α)) := do
  let highpass ← Failure.ofError (rumbleFilter order cutoff)
  g.mapSignals .rumble highpass.filter

/-- An impulse times a window and as long as it; a shorter one is continued by zeros. -/
@[specialize] def truncateOne (impulse window : List α) : List α :=
  List.zipWith (fun x w => x * w) impulse window
    ++ List.replicate (window.length - impulse.length) 0

/-- Every impulse shortened to a length, fading out. -/
@[specialize] def truncate (length : Nat) (g : Grid (List α)) :
    Except (Failure α) (Grid (List α)) :=
  let window : List α := Window.tail length
  g.mapSignals .truncate fun impulse => truncateOne impulse window

end Binaural.Impulse
