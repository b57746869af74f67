import Binaural.Scalar

/-!
Decibels: a gain of ten is twenty decibels.
-/

namespace Binaural.Decibel

variable {α : Type} [Scalar α]

/-- The gain that a level in decibels stands for. -/
@[specialize] def toGain (level : α) : α :=
  Scalar.pow 10 (level / 20)

/-- The level of a gain in decibels; not finite for gains that are not positive and finite. -/
@[specialize] def ofGain (gain : α) : α :=
  20 * Scalar.log10 gain

/-- The level of a gain, where it is a finite number. -/
@[specialize] def ofGain? (gain : α) : Option α :=
  let level := ofGain gain
  if Scalar.isFinite level then some level else none

end Binaural.Decibel
