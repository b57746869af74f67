/-!
The numbers that all signal processing here is written over.

`Scalar` lists the operations that the processing uses and nothing else, so one definition of a
filter or a transform has two readings: at `Float` it is the program that runs, and at an exact
field it is the mathematics that the program approximates. No law is assumed of the operations.
-/

namespace Binaural

/-- The arithmetic of signal processing. Comparison and equality are those of the numbers
themselves, so at `Float` a number that is not a number is below, above and equal to nothing. -/
class Scalar (α : Type) extends
    Add α, Sub α, Mul α, Div α, Neg α, LT α, LE α, BEq α, OfScientific α where
  /-- The number nearest to a natural number. -/
  ofNat : Nat → α
  decidableLT : DecidableLT α
  decidableLE : DecidableLE α
  /-- Half of the circumference of the unit circle. -/
  pi : α
  abs : α → α
  sqrt : α → α
  exp : α → α
  ln : α → α
  log10 : α → α
  sin : α → α
  cos : α → α
  tan : α → α
  atan : α → α
  pow : α → α → α
  /-- Whether this is a number at all, and not an infinite one. -/
  isFinite : α → Bool
  /-- The least natural number that is not below this one; 0 if there is no such comparison. -/
  ceilNat : α → Nat

namespace Scalar

variable {α : Type} [Scalar α]

instance : DecidableLT α := decidableLT

instance : DecidableLE α := decidableLE

instance (priority := low) {n : Nat} : OfNat α n := ⟨ofNat n⟩

/-- Whether this is an infinite number: one that equals itself and yet is not finite. -/
@[specialize] def isInfinite (x : α) : Bool :=
  x == x && !isFinite x

/-- The larger of a floor and a value; the floor also where the two cannot be compared. -/
@[specialize] def atLeast (floor x : α) : α :=
  if floor ≤ x then x else floor

/-- The value brought into `[low, high]`; a value that cannot be compared stays as it is. -/
@[specialize] def clamp (low high x : α) : α :=
  if x < low then low else if high < x then high else x

/-- Sum from left to right. -/
@[specialize] def sum (xs : List α) : α :=
  xs.foldl (· + ·) 0

/-- The first value that is not finite, with its index. -/
@[specialize] def firstNonFinite (xs : List α) (start : Nat) : Option (Nat × α) :=
  match xs with
  | [] => none
  | x :: rest => if isFinite x then firstNonFinite rest (start + 1) else some (start, x)

end Scalar

instance : Scalar Float where
  ofNat := Float.ofNat
  decidableLT := Float.decLt
  decidableLE := Float.decLe
  pi := 3.14159265358979323846
  abs := Float.abs
  sqrt := Float.sqrt
  exp := Float.exp
  ln := Float.log
  log10 := Float.log10
  sin := Float.sin
  cos := Float.cos
  tan := Float.tan
  atan := Float.atan
  pow := Float.pow
  isFinite := Float.isFinite
  ceilNat x := x.ceil.toUInt64.toNat

instance : Scalar Float32 where
  ofNat := Float32.ofNat
  decidableLT := Float32.decLt
  decidableLE := Float32.decLe
  pi := 3.14159265358979323846
  abs := Float32.abs
  sqrt := Float32.sqrt
  exp := Float32.exp
  ln := Float32.log
  log10 := Float32.log10
  sin := Float32.sin
  cos := Float32.cos
  tan := Float32.tan
  atan := Float32.atan
  pow := Float32.pow
  isFinite := Float32.isFinite
  ceilNat x := x.ceil.toUInt64.toNat

end Binaural
