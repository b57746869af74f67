import Binaural.Failure

/-!
The layout of the elevations of a dataset: equally spaced, and at least two.
-/

namespace Binaural

/-- The elevations of a dataset in ascending order. The `k`-th is `least + k * increment`. -/
structure ElevationLayout where
  angles : List Int
  increment : Int
  least : Int
  greatest : Int
  deriving DecidableEq, Repr

namespace ElevationLayout

/-- The number of elevations. -/
def count (layout : ElevationLayout) : Nat := layout.angles.length

/-- The first two neighbours in a list that are not `increment` apart. -/
def firstBreak? (increment : Int) : List Int → Option (Int × Int)
  | lower :: upper :: rest =>
    if upper - lower = increment then firstBreak? increment (upper :: rest)
    else some (lower, upper)
  | _ => none

/-- The layout of ascending angles. -/
def ofAngles {α : Type} : List Int → Except (IntegrityError α) ElevationLayout
  | first :: second :: rest =>
    let angles := first :: second :: rest
    let increment := second - first
    match firstBreak? increment angles with
    | some (lower, upper) => .error (.unevenElevations increment lower upper)
    | none => .ok ⟨angles, increment, first, angles.getLastD first⟩
  | short => .error (.tooFewElevations short.length)

end ElevationLayout

end Binaural
