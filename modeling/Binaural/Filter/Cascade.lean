import Binaural.Filter.Section

/-!
Sections run one after the other. One long transfer function is numerically fragile; a product of
second-order ones is not.
-/

namespace Binaural

/-- A filter as a chain of sections. -/
structure Cascade (α : Type) where
  sections : List (Section α)
  deriving BEq

namespace Cascade

variable {α : Type} [Scalar α]

/-- The samples that come out of the last section, every section starting at rest. -/
@[specialize] def filter (c : Cascade α) (xs : List α) : List α :=
  c.sections.foldl (fun samples s => s.filter samples) xs

/-- The response of the whole chain to a frequency: the product of those of its sections. -/
def frequencyResponse (c : Cascade α) (frequency : α) : Complex α :=
  c.sections.foldl (fun product s => product * s.frequencyResponse frequency) (Complex.ofReal 1)

end Cascade

end Binaural
