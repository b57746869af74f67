import Binaural.Failure

/-!
The grid of angles, with one value at each.

Every stage of a compilation takes a grid of signals and gives a new one over the same angles. What
the signals are changes from stage to stage: samples, then magnitudes, then samples again.
-/

namespace Binaural

/-- The place of an entry. -/
structure Position where
  elevation : Int
  azimuth : Int
  elevationIndex : Nat
  /-- The rank of the azimuth within its elevation. -/
  azimuthIndex : Nat
  azimuthCount : Nat
  deriving DecidableEq, Repr

/-- The place as errors give it. -/
def Position.location (p : Position) : Location := .angle p.elevation p.azimuth

/-- The entries at one elevation, each with its azimuth. -/
structure Row (β : Type) where
  elevation : Int
  entries : List (Int × β)

/-- The entries at all elevations. -/
structure Grid (β : Type) where
  rows : List (Row β)

namespace Row

variable {β γ : Type}

/-- The entries of a row with their places. -/
def positioned (elevationIndex : Nat) (row : Row β) : List (Position × β) :=
  row.entries.mapIdx fun azimuthIndex entry =>
    ⟨⟨row.elevation, entry.1, elevationIndex, azimuthIndex, row.entries.length⟩, entry.2⟩

/-- The row with other values at its azimuths. -/
def refill (row : Row β) (values : List γ) : Row γ :=
  ⟨row.elevation, (row.entries.map Prod.fst).zip values⟩

end Row

namespace Grid

variable {α β γ ε : Type}

def elevations (g : Grid β) : List Int := g.rows.map (·.elevation)

def azimuthCounts (g : Grid β) : List Nat := g.rows.map (·.entries.length)

/-- All entries with their places, row after row. -/
def positioned (g : Grid β) : List (Position × β) :=
  (g.rows.mapIdx fun elevationIndex row => row.positioned elevationIndex).flatten

/-- All entries, row after row. -/
def values (g : Grid β) : List β := g.rows.flatMap fun row => row.entries.map Prod.snd

def size (g : Grid β) : Nat := g.values.length

/-- The length of the first entry, which in a dataset is that of all; 0 without any entry. -/
def entryLength (g : Grid (List α)) : Nat :=
  match g.values with
  | [] => 0
  | first :: _ => first.length

/-- Rows with other values, of which each row takes as many as it has azimuths. -/
def refillRows : List (Row β) → List γ → List (Row γ)
  | [], _ => []
  | row :: rest, values =>
    row.refill (values.take row.entries.length) ::
      refillRows rest (values.drop row.entries.length)

/-- The grid with other values, row after row. -/
def refill (g : Grid β) (values : List γ) : Grid γ := ⟨refillRows g.rows values⟩

/-- What a function gives at each of some places in order; the first error ends it. -/
@[specialize] def collect (f : Position → β → Except ε γ) :
    List (Position × β) → Except ε (List γ)
  | [] => .ok []
  | (position, x) :: rest =>
    match f position x with
    | .error e => .error e
    | .ok y =>
      match collect f rest with
      | .error e => .error e
      | .ok ys => .ok (y :: ys)

/-- A function over all entries: what it gives is collected in one list, and the rows are filled
from it again. -/
@[specialize] def traverse (g : Grid β) (f : Position → β → Except ε γ) : Except ε (Grid γ) :=
  (collect f g.positioned).map g.refill

variable [Scalar α]

/-- Nothing, if all values are finite. -/
@[specialize] def checkFinite (stage : Stage) (location : Location) (xs : List α) :
    Except (CompileError α) Unit :=
  match Scalar.firstNonFinite xs 0 with
  | some (index, value) => .error (.numerical stage location index value)
  | none => .ok ()

/-- A function over all signals of a grid; what it gives must be finite. -/
@[specialize] def tryMap (g : Grid (List α)) (stage : Stage)
    (f : Position → List α → Except (Failure α) (List α)) : Except (Failure α) (Grid (List α)) :=
  g.traverse fun position signal =>
    match f position signal with
    | .error e => .error e
    | .ok result =>
      match checkFinite stage position.location result with
      | .error e => .error (.error e)
      | .ok () => .ok result

/-- A function that cannot fail over all signals of a grid; what it gives must be finite. -/
@[specialize] def mapSignals (g : Grid (List α)) (stage : Stage) (f : List α → List α) :
    Except (Failure α) (Grid (List α)) :=
  g.tryMap stage fun _ signal => .ok (f signal)

/-- The larger of two numbers; one that is not a number loses. -/
def larger (x y : Float) : Float :=
  if x < y || !(x == x) then y else x

/-- The largest sum of an entry; minus infinity without any entry. -/
def largestSum (g : Grid (List Float)) : Float :=
  (g.values.map Scalar.sum).foldl larger (-1.0 / 0.0)

end Grid

end Binaural
