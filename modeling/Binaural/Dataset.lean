import Binaural.Elevation
import Binaural.Grid

/-!
Measured datasets: one recording for each angle, all of one length, over equally spaced elevations.
-/

namespace Binaural

/-- One recording at one angle, with samples between -1 and 1. -/
structure Measurement (α : Type) where
  elevation : Int
  azimuth : Int
  samples : List α

/-! ## Ascending grids -/

/-- An entry put among ascending ones; nothing if there is one of its azimuth. -/
def Row.insertAzimuth? {β : Type} (azimuth : Int) (x : β) :
    List (Int × β) → Option (List (Int × β))
  | [] => some [(azimuth, x)]
  | (a, y) :: rest =>
    if azimuth < a then some ((azimuth, x) :: (a, y) :: rest)
    else if azimuth = a then none
    else (insertAzimuth? azimuth x rest).map ((a, y) :: ·)

/-- An entry put into ascending rows; nothing if there is one at its angle. -/
def Grid.insertAngle? {β : Type} (elevation azimuth : Int) (x : β) :
    List (Row β) → Option (List (Row β))
  | [] => some [⟨elevation, [(azimuth, x)]⟩]
  | row :: rest =>
    if elevation < row.elevation then some (⟨elevation, [(azimuth, x)]⟩ :: row :: rest)
    else if elevation = row.elevation then
      (Row.insertAzimuth? azimuth x row.entries).map fun entries => ⟨elevation, entries⟩ :: rest
    else (insertAngle? elevation azimuth x rest).map (row :: ·)

/-- An entry put into an ascending grid; nothing if there is one at its angle. -/
def Grid.insert? {β : Type} (g : Grid β) (elevation azimuth : Int) (x : β) : Option (Grid β) :=
  (Grid.insertAngle? elevation azimuth x g.rows).map Grid.mk

/-- The entry at an angle. -/
def Grid.find? {β : Type} (g : Grid β) (elevation azimuth : Int) : Option β :=
  (g.rows.find? fun row => row.elevation == elevation).bind fun row =>
    (row.entries.find? fun entry => entry.1 == azimuth).map Prod.snd

/-! ## Datasets -/

/-- A dataset that can be compiled. -/
structure Dataset (α : Type) where
  /-- The samples at all angles, elevations and azimuths ascending. -/
  grid : Grid (List α)
  layout : ElevationLayout
  /-- The number of samples of every measurement. -/
  measurementLength : Nat

namespace Dataset

variable {α : Type} [Scalar α]

/-- The first sample that is not in `[-1, 1]`, with its index. -/
def firstOutOfRange? (start : Nat) : List α → Option (Nat × α)
  | [] => none
  | x :: rest => if -1 ≤ x ∧ x ≤ 1 then firstOutOfRange? (start + 1) rest else some (start, x)

/-- One more measurement, which must be as long as the first and at an angle of its own. -/
def add (length : Nat) (g : Grid (List α)) (m : Measurement α) :
    Except (IntegrityError α) (Grid (List α)) :=
  if m.samples.isEmpty then .error (.emptyMeasurement m.elevation m.azimuth)
  else if m.samples.length ≠ length then
    .error (.lengthMismatch m.elevation m.azimuth length m.samples.length)
  else
    match firstOutOfRange? 0 m.samples with
    | some (index, value) => .error (.sampleOutOfRange m.elevation m.azimuth index value)
    | none =>
      match g.insert? m.elevation m.azimuth m.samples with
      | some g => .ok g
      | none => .error (.duplicateAngle m.elevation m.azimuth)

/-- All measurements in turn; the first that does not fit ends it. -/
def addAll (length : Nat) (g : Grid (List α)) :
    List (Measurement α) → Except (IntegrityError α) (Grid (List α))
  | [] => .ok g
  | m :: rest =>
    match add length g m with
    | .error e => .error e
    | .ok g => addAll length g rest

/-- The number of samples of the first measurement, which all others must have. -/
def commonLength : List (Measurement α) → Nat
  | [] => 0
  | m :: _ => m.samples.length

/-- The dataset of measurements in any order. -/
def ofMeasurements (ms : List (Measurement α)) : Except (IntegrityError α) (Dataset α) :=
  let length := commonLength ms
  match addAll length ⟨[]⟩ ms with
  | .error e => .error e
  | .ok grid =>
    match ElevationLayout.ofAngles grid.elevations with
    | .error e => .error e
    | .ok layout => .ok ⟨grid, layout, length⟩

def size (d : Dataset α) : Nat := d.grid.size

def find? (d : Dataset α) (elevation azimuth : Int) : Option (List α) :=
  d.grid.find? elevation azimuth

end Dataset

end Binaural
