import Binaural.Arrays.Table
import Binaural.Elevation
import Binaural.Grid

/-!
Compiled datasets, and the seven arrays in which a renderer reads them.

Azimuth `i` of elevation `e` is the stretch of the impulses that starts at
`(starts[e] + i) * impulseLength` and is `impulseLength` long.
-/

namespace Binaural

/-- A compiled dataset: the impulses at all angles. -/
structure ImpulseTable (α : Type) where
  layout : ElevationLayout
  grid : Grid (List α)

namespace ImpulseTable

variable {α : Type}

/-- The number of azimuths of each elevation. -/
def azimuthCounts (t : ImpulseTable α) : List Nat := t.grid.azimuthCounts

/-- The sums of all shorter beginnings of a list, added to `start`. -/
def startsFrom (start : Nat) : List Nat → List Nat
  | [] => []
  | count :: rest => start :: startsFrom (start + count) rest

/-- The number of impulses before the first of each elevation. -/
def azimuthStarts (t : ImpulseTable α) : List Nat := startsFrom 0 t.azimuthCounts

/-- The length of every impulse. -/
def impulseLength (t : ImpulseTable α) : Nat := t.grid.entryLength

/-- All impulses one after the other, in 32 bits. -/
def impulses (t : ImpulseTable Float) : List Float32 := t.grid.values.flatten.map narrow

/-- Naturals as an array; they are taken modulo 2^32. -/
def unsigned (values : List Nat) : ArrayValues := .unsignedInt (values.map UInt32.ofNat)

/-- The arrays of a compiled dataset, in the order in which they are written. -/
def arrays (t : ImpulseTable Float) : List (String × ArrayValues) :=
  [("hrtf_num_elevs", unsigned [t.layout.count]),
   ("hrtf_elev_increment", .int [Int32.ofInt t.layout.increment]),
   ("hrtf_elev_min", .int [Int32.ofInt t.layout.least]),
   ("hrtf_num_azimuths", unsigned t.azimuthCounts),
   ("hrtf_azimuth_starts", unsigned t.azimuthStarts),
   ("hrtf_impulse_length", unsigned [t.impulseLength]),
   ("hrtf_impulses", .float t.impulses)]

/-- All arrays handed to a sink in turn. If one is refused, those before it stay. -/
def writeTo {σ : Type} [ArraySink σ] (t : ImpulseTable Float) (sink : σ) :
    Except (CompileError Float) Unit × σ :=
  match ArraySink.addAll sink t.arrays with
  | (.ok (), sink) => (.ok (), sink)
  | (.error e, sink) => (.error (.sink .assemble e), sink)

end ImpulseTable

end Binaural
