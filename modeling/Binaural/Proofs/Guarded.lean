import Binaural.Compile

/-!
Compilation with every partial operation performed as such.

The definitions of a compilation are total: a subtraction stops at 0, a range that leaves a list is
cut off, and a list of another length is taken as it is. A machine does none of this. Here each
operation that can be undefined is guarded by its condition and gives a `Panic` where that is not
met: subtractions of sizes, ranges and indices, bounds of a clamp, sizes of buffers, and the
assertions on the way. The order of the operations is that of the machine.
-/

namespace Binaural

/-- An operation that is not defined for what it was given. -/
inductive Panic
  | assertion (v : Violation)
  | underflow (minuend subtrahend : Nat)
  | outOfRange (start stop length : Nat)
  | outOfBounds (index length : Nat)
  /-- The elevations of the impulses are not those of the dataset. -/
  | elevations (expected found : List Int)

/-- Why a guarded computation gives no result. -/
inductive Stop (α : Type)
  | error (e : CompileError α)
  | panic (p : Panic)

namespace Stop

variable {α β : Type}

/-- A guarded operation, in the presence of errors. -/
def ofPanic : Except Panic β → Except (Stop α) β
  | .ok x => .ok x
  | .error p => .error (.panic p)

/-- An operation that may fail but cannot panic. -/
def ofError : Except (CompileError α) β → Except (Stop α) β
  | .ok x => .ok x
  | .error e => .error (.error e)

end Stop

namespace Guarded

/-! ## Partial operations -/

section Operations

variable {β : Type}

/-- An assertion of a function about what it is given. -/
def asserted : Except Violation β → Except Panic β
  | .ok x => .ok x
  | .error v => .error (.assertion v)

/-- A difference of sizes, which are never negative. -/
def subtract (m n : Nat) : Except Panic Nat :=
  if n ≤ m then .ok (m - n) else .error (.underflow m n)

/-- The elements from a place on, which may be the end but not beyond. -/
def sliceFrom (start : Nat) (xs : List β) : Except Panic (List β) :=
  if start ≤ xs.length then .ok (xs.drop start)
  else .error (.outOfRange start xs.length xs.length)

/-- A function at the places from `start` up to `stop`, which are both within the list. -/
def updateRange (start stop : Nat) (f : β → β) (xs : List β) : Except Panic (List β) :=
  if start ≤ stop ∧ stop ≤ xs.length then
    .ok (xs.mapIdx fun k x => if start ≤ k ∧ k < stop then f x else x)
  else .error (.outOfRange start stop xs.length)

/-- An element written at a place of the list. -/
def put (index : Nat) (x : β) (xs : List β) : Except Panic (List β) :=
  if index < xs.length then .ok (xs.set index x) else .error (.outOfBounds index xs.length)

end Operations

variable {α : Type} [Scalar α]

/-! ## Transforms and windows -/

/-- The magnitudes of a signal that was made as long as the transform is large. -/
def magnitudes (t : Transform α) (signal : List α) : Except Panic (List α) := do
  let bins ← asserted (t.forward ((t.fit signal).map Complex.ofReal))
  .ok (bins.map Complex.norm)

/-- The Hilbert transform, with the bins of either half written in place. -/
def hilbert (mp : MinimumPhase α) (x : List α) : Except Panic (List α) := do
  let size := mp.transform.size
  if x.length ≠ size then .error (.assertion (.wrongLength size x.length))
  else
    let bins ← asserted (mp.transform.forward (x.map Complex.ofReal))
    let doubled ← updateRange 1 ((size + 1) / 2) (fun z => z.scale 2) bins
    let halved ← updateRange (size / 2 + 1) doubled.length (fun _ => ⟨0, 0⟩) doubled
    let points ← asserted (mp.transform.inverse halved)
    .ok (points.map Complex.im)

/-- The spectrum of minimum phase, with the phases at zero and at the highest frequency written in
place. -/
def spectrum (mp : MinimumPhase α) (magnitudes : List α) : Except Panic (List (Complex α)) := do
  let size := mp.transform.size
  if magnitudes.length ≠ size then .error (.assertion (.wrongLength size magnitudes.length))
  else
    let floored := magnitudes.map (Scalar.atLeast mp.floor)
    let phases ← hilbert mp (floored.map Scalar.ln)
    let pinned ← put 0 0 phases
    let pinned ← if size % 2 = 0 then put (size / 2) 0 pinned else .ok pinned
    .ok (List.zipWith (fun m p => Complex.polar m (-p)) floored pinned)

/-- The impulse response of minimum phase. -/
def reconstruct (mp : MinimumPhase α) (magnitudes : List α) : Except Panic (List α) := do
  let bins ← spectrum mp magnitudes
  let points ← asserted (mp.transform.inverse bins)
  .ok (points.map Complex.re)

/-- The symmetric window. -/
def fullWindow (length : Nat) : Except Panic (List α) :=
  if length = 1 then .ok [1]
  else do
    let last ← subtract length 1
    .ok ((List.range length).map fun i =>
      Window.taper (2 * Scalar.pi * Scalar.ofNat i / Scalar.ofNat last))

/-- The second half of a window, cut out of the whole. -/
def tailWindow (length : Nat) : Except Panic (List α) :=
  if length = 0 then .ok []
  else do
    let whole ← subtract (2 * length) 1
    let full ← fullWindow whole
    let start ← subtract length 1
    let tail ← sliceFrom start full
    put 0 1 tail

/-! ## Equalization and bounds -/

/-- Whether a bin is at or above a cutoff. -/
def isPreservedBin (bin size cutoff : Nat) : Except Panic Bool := do
  let mirrored ← subtract size bin
  let folded : α := Scalar.ofNat (min bin mirrored)
  .ok (Scalar.ofNat cutoff ≤ folded * Scalar.ofNat sampleRate / Scalar.ofNat size)

/-- The average powers, the first of which has the index `bin`. -/
def averagesFrom (size cutoff : Nat) (count : α) :
    (bin : Nat) → List α → Except Panic (List (Bool × α))
  | _, [] => .ok []
  | bin, p :: rest => do
    let preserved ← isPreservedBin (α := α) bin size cutoff
    let averages ← averagesFrom size cutoff count (bin + 1) rest
    .ok ((!preserved, p / count) :: averages)

/-- The equalizer of a grid of spectra. -/
def equalizer (g : Grid (List α)) (cutoff : Nat) : Except (Stop α) (Equalizer α) := do
  let powers ← Stop.ofPanic (averagesFrom g.entryLength cutoff (Scalar.ofNat g.size) 0
    (Equalizer.totalPower g))
  match Equalizer.firstWithoutLevel? 0 powers with
  | some (bin, p) => .error (.error (.numerical .equalize .everywhere bin p))
  | none =>
    let gains := Equalizer.gainsOf powers
    (Stop.ofError (Grid.checkFinite .equalize .everywhere gains)).map fun _ => ⟨gains⟩

/-- A value between two bounds, of which the lower must be at most the upper. -/
def clampValue (low high x : α) : Except Panic α :=
  if low ≤ high then .ok (Scalar.clamp low high x) else .error (.assertion .unorderedBounds)

/-- All values of a list between two bounds. -/
def clampAll (low high : α) : List α → Except Panic (List α)
  | [] => .ok []
  | x :: rest => do
    let y ← clampValue low high x
    let ys ← clampAll low high rest
    .ok (y :: ys)

/-! ## Stages -/

/-- A function over all signals of a grid; what it gives must be finite. -/
def tryMap (g : Grid (List α)) (stage : Stage)
    (f : Position → List α → Except (Stop α) (List α)) : Except (Stop α) (Grid (List α)) :=
  g.traverse fun position signal => do
    let result ← f position signal
    let () ← Stop.ofError (Grid.checkFinite stage position.location result)
    .ok result

def analyze (g : Grid (List α)) : Except (Stop α) (Grid (List α)) := do
  let transform ← Stop.ofPanic (asserted (Transform.ofSize Spectrum.analysisSize))
  tryMap g .analyze fun _ signal => Stop.ofPanic (magnitudes transform signal)

def equalize (cutoff : Nat) (g : Grid (List α)) : Except (Stop α) (Grid (List α)) := do
  let eq ← equalizer g cutoff
  tryMap g .equalize fun _ spectrum => .ok (eq.applyTo spectrum)

def clamp (low high : α) (g : Grid (List α)) : Except (Stop α) (Grid (List α)) :=
  tryMap g .clamp fun _ spectrum => Stop.ofPanic (clampAll low high spectrum)

def synthesize (floor : α) (g : Grid (List α)) : Except (Stop α) (Grid (List α)) := do
  let mp ← Stop.ofPanic (asserted (MinimumPhase.ofSize g.entryLength floor))
  tryMap g .minimumPhase fun _ spectrum => Stop.ofPanic (reconstruct mp spectrum)

def removeRumble (order : Nat) (cutoff : α) (g : Grid (List α)) :
    Except (Stop α) (Grid (List α)) := do
  let highpass ← Stop.ofError (Impulse.rumbleFilter order cutoff)
  tryMap g .rumble fun _ impulse => .ok (highpass.filter impulse)

def truncate (length : Nat) (g : Grid (List α)) : Except (Stop α) (Grid (List α)) := do
  let window ← Stop.ofPanic (tailWindow length)
  tryMap g .truncate fun _ impulse => .ok (Impulse.truncateOne impulse window)

def emphasize (c : EmphasisConfig α) (g : Grid (List α)) : Except (Stop α) (Grid (List α)) :=
  tryMap g .emphasis fun position impulse =>
    let back := Emphasis.backRelative position.azimuthIndex position.azimuthCount
    match Emphasis.treatment back c with
    | .error e => .error (.error (.design .emphasis e))
    | .ok t => .ok (t.apply impulse)

/-- The last two stages in the order that the settings ask for. -/
def finish (c : Config α) (g : Grid (List α)) : Except (Stop α) (Grid (List α)) :=
  match c.placement with
  | .beforeTruncation => do truncate c.finalLength (← emphasize c.emphasis g)
  | .afterTruncation => do emphasize c.emphasis (← truncate c.finalLength g)

/-- All stages in order, from the recordings to the impulses. -/
def process (c : Config α) (recordings : Grid (List α)) : Except (Stop α) (Grid (List α)) := do
  let spectra ← analyze recordings
  let equalized ← equalize c.equalizationCutoff spectra
  let clamped ← clamp c.minGain c.maxGain equalized
  let impulses ← synthesize c.minPhaseFloor clamped
  let filtered ← removeRumble c.rumbleOrder c.rumbleCutoff impulses
  finish c filtered

/-- The impulses put together with the layout of their dataset, whose elevations they must have. -/
def assemble (layout : ElevationLayout) (g : Grid (List α)) : Except Panic (ImpulseTable α) :=
  if layout.angles = g.elevations then .ok ⟨layout, g⟩
  else .error (.elevations layout.angles g.elevations)

/-- The impulses of a dataset. -/
def compile (d : Dataset α) (c : Config α) : Except (Stop α) (ImpulseTable α) :=
  match c.validate with
  | .error e => .error (.error (.config e))
  | .ok () => do Stop.ofPanic (assemble d.layout (← process c d.grid))

end Guarded

end Binaural
