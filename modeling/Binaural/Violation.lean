/-!
What callers of the transforms and stages promise, by the ways in which the promise can be broken.
-/

namespace Binaural

/-- A promise to a function that its caller did not keep. No result is computed then. -/
inductive Violation
  /-- A transform over no points. -/
  | emptyTransform
  /-- A magnitude floor that is not above zero. -/
  | nonpositiveFloor
  /-- A list that is not as long as the transform is large. -/
  | wrongLength (expected found : Nat)
  /-- Bounds of which the lower is not at most the upper. -/
  | unorderedBounds
  deriving DecidableEq, Repr

/-- The report of a violation, for those that have one. -/
def Violation.message? : Violation → Option String
  | .emptyTransform => some "Transforms must have at least one point"
  | .nonpositiveFloor => some "The magnitude floor must be positive"
  | .wrongLength _ _ => none
  | .unorderedBounds => none

end Binaural
