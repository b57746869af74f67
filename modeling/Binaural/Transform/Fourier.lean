import Binaural.Complex
import Binaural.LeastFactor
import Binaural.Violation

/-!
The discrete Fourier transform of any size.

A transform of size `n` is put together from `p` transforms of size `n / p`, where `p` is the least
factor of `n`: the points with equal remainder modulo `p` are transformed on their own, and each
bin is the sum of one bin of each part, turned by a root of unity. The roots of the whole size
serve all parts, so they are tabulated once for a size.
-/

namespace Binaural

/-- The points of the unit circle at equal angles, in the order in which one turn passes them. -/
structure Roots (α : Type) where
  size : Nat
  points : Array (Complex α)

namespace Roots

variable {α : Type} [Scalar α]

/-- The angle of the `j`-th of `size` points. -/
@[specialize] def angle (size j : Nat) : α :=
  2 * Scalar.pi * Scalar.ofNat j / Scalar.ofNat size

/-- The points of a turn against the direction in which angles grow. -/
@[specialize] def backward (size : Nat) : Roots α where
  size := size
  points := Array.ofFn fun j : Fin size =>
    ⟨Scalar.cos (angle size j.val), -Scalar.sin (angle size j.val)⟩

/-- The points of a turn in the direction in which angles grow. -/
@[specialize] def onward (size : Nat) : Roots α where
  size := size
  points := Array.ofFn fun j : Fin size =>
    ⟨Scalar.cos (angle size j.val), Scalar.sin (angle size j.val)⟩

/-- The sum of bin `k` of all parts, the first turned by the root `turn`, each further one by
`step` roots more than the one before, added to `re + im i`. -/
@[specialize] def weigh (w : Roots α) (k step : Nat) :
    List (Array (Complex α)) → (turn : Nat) → (re im : α) → Complex α
  | [], _, re, im => ⟨re, im⟩
  | part :: parts, turn, re, im =>
    let c := w.points.getD turn ⟨0, 0⟩
    let x := part.getD k ⟨0, 0⟩
    w.weigh k step parts ((turn + step) % w.size)
      (re + (c.re * x.re - c.im * x.im)) (im + (c.re * x.im + c.im * x.re))

/-- The transform of the `n` points `x[offset]`, `x[offset + stride]`, and so on, where `stride`
times `n` is the number of roots. -/
@[specialize] def transform (w : Roots α) (x : Array (Complex α)) (n stride offset : Nat) :
    Array (Complex α) :=
  if n ≤ 1 then #[x.getD offset ⟨0, 0⟩]
  else
    let parts := (List.range (leastFactor n)).map fun r =>
      w.transform x (n / leastFactor n) (stride * leastFactor n) (offset + r * stride)
    Array.ofFn fun k : Fin n =>
      w.weigh (k.val % (n / leastFactor n)) (k.val * stride % w.size) parts 0 0 0
termination_by n
decreasing_by exact div_leastFactor_lt (by omega)

/-- The transform of as many points as there are roots. -/
@[specialize] def apply (w : Roots α) (x : List (Complex α)) : List (Complex α) :=
  (w.transform x.toArray w.size 1 0).toList

end Roots

/-- The transforms of one size in both directions. -/
structure Transform (α : Type) [Scalar α] where
  size : Nat
  size_pos : 0 < size
  /-- The roots of the direction from samples to bins. -/
  forwardRoots : Roots α
  /-- The roots of the direction from bins to samples. -/
  inverseRoots : Roots α
  forwardRoots_eq : forwardRoots = Roots.backward size
  inverseRoots_eq : inverseRoots = Roots.onward size

namespace Transform

variable {α : Type} [Scalar α]

/-- The transforms of a size, which must not be 0. -/
@[specialize] def ofSize (size : Nat) : Except Violation (Transform α) :=
  if size_pos : 0 < size then
    .ok
      { size, size_pos
        forwardRoots := Roots.backward size
        inverseRoots := Roots.onward size
        forwardRoots_eq := rfl
        inverseRoots_eq := rfl }
  else .error .emptyTransform

/-- The bins of as many points as the transform is large. -/
@[specialize] def bins (t : Transform α) (x : List (Complex α)) : List (Complex α) :=
  t.forwardRoots.apply x

/-- The points that have the given bins. -/
@[specialize] def points (t : Transform α) (x : List (Complex α)) : List (Complex α) :=
  let norm := 1 / Scalar.ofNat t.size
  (t.inverseRoots.apply x).map fun z => z.scale norm

/-- From samples to bins. The list must be as long as the transform is large. -/
@[specialize] def forward (t : Transform α) (x : List (Complex α)) :
    Except Violation (List (Complex α)) :=
  if x.length = t.size then .ok (t.bins x) else .error (.wrongLength t.size x.length)

/-- From bins to samples, undoing `forward`. The list must be as long as the transform is large. -/
@[specialize] def inverse (t : Transform α) (x : List (Complex α)) :
    Except Violation (List (Complex α)) :=
  if x.length = t.size then .ok (t.points x) else .error (.wrongLength t.size x.length)

/-- The first samples of a signal, as many as the transform is large; a shorter signal is continued
by zeros. -/
@[specialize] def fit (t : Transform α) (signal : List α) : List α :=
  signal.take t.size ++ List.replicate (t.size - signal.length) 0

/-- The bins of a real signal of any length. -/
@[specialize] def forwardReal (t : Transform α) (signal : List α) : List (Complex α) :=
  t.bins ((t.fit signal).map Complex.ofReal)

/-- The magnitudes of the bins of a real signal, those of negative frequencies included. -/
@[specialize] def magnitudes (t : Transform α) (signal : List α) : List α :=
  (t.forwardReal signal).map Complex.norm

end Transform

end Binaural
