import Binaural.Config
import Binaural.Grid

/-!
Directional emphasis: sources behind the listener are darkened.

Heads shadow high frequencies from behind more than short impulses tell, so angles behind the
listener get a gentle lowpass that deepens toward directly behind.
-/

namespace Binaural.Emphasis

variable {α : Type} [Scalar α]

/-- The distance of an azimuth from directly behind the listener, by its rank among equally spaced
ones: 0 is behind, 1 in front, and one half at the sides. -/
@[specialize] def backRelative (index count : Nat) : α :=
  2 * Scalar.abs (0.5 - Scalar.ofNat index / Scalar.ofNat count)

/-- What is done to an angle. -/
inductive Treatment (α : Type)
  /-- The angle is far enough from the back. -/
  | unchanged
  /-- A lowpass, with the gain of the stopband in decibels that it was designed for. -/
  | lowpass (stopbandGain : α) (design : Butterworth.Design α)

/-- The gain of the stopband, in decibels, at a distance from the back. -/
@[specialize] def stopbandGain (back : α) (c : EmphasisConfig α) : α :=
  c.stopbandOffset + (1 - back / 0.5) * c.maxStopband

/-- What is done to an angle at a distance from the back. -/
@[specialize] def treatment (back : α) (c : EmphasisConfig α) :
    Except (DesignError α) (Treatment α) :=
  if c.frontThreshold ≤ back then .ok .unchanged
  else
    let gain := stopbandGain back c
    (Butterworth.designLowpass c.passband c.stopband c.passbandLoss (-gain)).map (.lowpass gain)

/-- A treatment of an impulse. -/
@[specialize] def Treatment.apply : Treatment α → List α → List α
  | .unchanged, impulse => impulse
  | .lowpass _ design, impulse => design.filter.filter impulse

/-- Every impulse treated as its azimuth demands. -/
@[specialize] def emphasize (c : EmphasisConfig α) (g : Grid (List α)) :
    Except (Failure α) (Grid (List α)) :=
  g.tryMap .emphasis fun position impulse =>
    let back := backRelative position.azimuthIndex position.azimuthCount
    match treatment back c with
    | .error e => .error (.error (.design .emphasis e))
    | .ok t => .ok (t.apply impulse)

end Binaural.Emphasis
