import Binaural.Scalar

/-!
The four-term window that fades an impulse response out.
-/

namespace Binaural.Window

variable {α : Type} [Scalar α]

/-- The value of the window at an angle; a whole window is one turn. -/
@[specialize] def taper (x : α) : α :=
  0.35875 - 0.48829 * Scalar.cos x + 0.14128 * Scalar.cos (2 * x) - 0.01168 * Scalar.cos (3 * x)

/-- The symmetric window of a length. -/
@[specialize] def full (length : Nat) : List α :=
  if length = 1 then [1]
  else
    (List.range length).map fun i =>
      taper (2 * Scalar.pi * Scalar.ofNat i / Scalar.ofNat (length - 1))

/-- The second half of the window of length `2 * length - 1`, from its peak on. The peak is 1 up
to rounding and is set to 1, so that the window never touches the first sample. -/
@[specialize] def tail (length : Nat) : List α :=
  ((full (2 * length - 1)).drop (length - 1)).set 0 1

end Binaural.Window
