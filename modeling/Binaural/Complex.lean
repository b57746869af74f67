import Binaural.Scalar

/-!
Complex numbers over a scalar, with exactly the operations that frequency responses and
transforms need.
-/

namespace Binaural

/-- A complex number by its real and imaginary part. -/
structure Complex (α : Type) where
  re : α
  im : α

namespace Complex

variable {α : Type} [Scalar α]

/-- A real number as a complex one. -/
@[specialize] def ofReal (x : α) : Complex α := ⟨x, 0⟩

instance : Add (Complex α) := ⟨fun z w => ⟨z.re + w.re, z.im + w.im⟩⟩

instance : Mul (Complex α) :=
  ⟨fun z w => ⟨z.re * w.re - z.im * w.im, z.re * w.im + z.im * w.re⟩⟩

/-- Both parts times a real number. -/
@[specialize] def scale (z : Complex α) (x : α) : Complex α := ⟨z.re * x, z.im * x⟩

/-- The square of the distance from zero. -/
@[specialize] def normSq (z : Complex α) : α := z.re * z.re + z.im * z.im

instance : Div (Complex α) :=
  ⟨fun z w =>
    ⟨(z.re * w.re + z.im * w.im) / w.normSq, (z.im * w.re - z.re * w.im) / w.normSq⟩⟩

/-- The number of the given length and angle. -/
@[specialize] def polar (length angle : α) : Complex α :=
  ⟨length * Scalar.cos angle, length * Scalar.sin angle⟩

/-- The distance from zero. The larger part is taken out first, so that the squares neither
overflow nor vanish; a number with an infinite part is infinitely far from zero. -/
@[specialize] def norm (z : Complex α) : α :=
  let x := Scalar.abs z.re
  let y := Scalar.abs z.im
  let large := if x < y then y else x
  let small := if x < y then x else y
  if Scalar.isInfinite x then x
  else if Scalar.isInfinite y then y
  else if large == 0 then small
  else large * Scalar.sqrt (1 + small / large * (small / large))

end Complex

end Binaural
