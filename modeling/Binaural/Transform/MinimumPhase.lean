import Binaural.Transform.Fourier

/-!
Impulse responses of minimum phase from magnitudes alone.

The phase of such a response is the negated Hilbert transform of the logarithm of its magnitudes.
The Hilbert transform of a periodic sequence is the imaginary part of its analytic signal: the bins
of the positive half are doubled and those of the negative half dropped. The spectrum of these
magnitudes and phases is conjugate-symmetric, and the response is the real part of its inverse
transform.
-/

namespace Binaural

/-- What is needed to reconstruct responses of one length: the transforms of that size, and a
positive floor under the magnitudes, whose logarithms are taken. -/
structure MinimumPhase (α : Type) [Scalar α] where
  transform : Transform α
  floor : α
  floor_pos : 0 < floor

namespace MinimumPhase

variable {α : Type} [Scalar α]

/-- The reconstruction of responses of a length. The floor is checked before the length. -/
@[specialize] def ofSize (size : Nat) (floor : α) : Except Violation (MinimumPhase α) :=
  if floor_pos : 0 < floor then
    (Transform.ofSize size).map fun transform => { transform, floor, floor_pos }
  else .error .nonpositiveFloor

/-- A bin of the analytic signal: the bins at zero and at the highest frequency stay, those between
them double, and those of negative frequencies vanish. -/
@[specialize] def analyticBin (size k : Nat) (z : Complex α) : Complex α :=
  if k = 0 ∨ 2 * k = size then z
  else if 2 * k < size then z.scale 2
  else ⟨0, 0⟩

/-- The analytic signal of a real sequence. -/
@[specialize] def analyticSignal (t : Transform α) (x : List α) : List (Complex α) :=
  let bins := t.bins (x.map Complex.ofReal)
  t.points (bins.mapIdx fun k z => analyticBin t.size k z)

/-- The Hilbert transform of a periodic sequence, for a sequence of the right length. -/
@[specialize] def hilbertOf (mp : MinimumPhase α) (x : List α) : List α :=
  (analyticSignal mp.transform x).map Complex.im

/-- The Hilbert transform of a periodic sequence. -/
@[specialize] def hilbert (mp : MinimumPhase α) (x : List α) : Except Violation (List α) :=
  if x.length = mp.transform.size then .ok (mp.hilbertOf x)
  else .error (.wrongLength mp.transform.size x.length)

/-- The phases with those at zero and at the highest frequency removed. -/
@[specialize] def pinPhase (size : Nat) (phases : List α) : List α :=
  let pinned := phases.set 0 0
  if size % 2 = 0 then pinned.set (size / 2) 0 else pinned

/-- The spectrum of minimum phase with the given magnitudes, for a list of the right length. -/
@[specialize] def spectrumOf (mp : MinimumPhase α) (magnitudes : List α) : List (Complex α) :=
  let floored := magnitudes.map (Scalar.atLeast mp.floor)
  let phases := pinPhase mp.transform.size (mp.hilbertOf (floored.map Scalar.ln))
  List.zipWith (fun m p => Complex.polar m (-p)) floored phases

/-- The spectrum of minimum phase with the given magnitudes. -/
@[specialize] def spectrum (mp : MinimumPhase α) (magnitudes : List α) :
    Except Violation (List (Complex α)) :=
  if magnitudes.length = mp.transform.size then .ok (mp.spectrumOf magnitudes)
  else .error (.wrongLength mp.transform.size magnitudes.length)

/-- The impulse response of minimum phase with the given magnitudes. -/
@[specialize] def reconstruct (mp : MinimumPhase α) (magnitudes : List α) :
    Except Violation (List α) :=
  (mp.spectrum magnitudes).map fun bins => (mp.transform.points bins).map Complex.re

end MinimumPhase

end Binaural
