import Binaural.Arrays.JsonText
import Binaural.Arrays.RustSource
import Binaural.ImpulseTable
import Binaural.Primes

/-!
The text of an artifact: a compiled dataset and what is asked for besides it, in one format.
-/

namespace Binaural

/-- The formats of artifacts. -/
inductive OutputFormat
  /-- Rust source with one static item for each array. -/
  | rust
  /-- One JSON object of named arrays. -/
  | json
  deriving DecidableEq, Repr

/-- What goes into an artifact besides a dataset. -/
structure Extras where
  /-- The limit of the table of primes, if it is wanted. -/
  primesLimit : Option Nat
  deriving DecidableEq, Repr

namespace Artifact

/-- The array of the primes. -/
def primes (limit : Nat) : ArrayValues := ImpulseTable.unsigned (Primes.table limit)

/-- The dataset put into an empty sink, if there is one. -/
def dataInto (σ : Type) [ArraySink σ] :
    Option (ImpulseTable Float) → Except (CompileError Float) σ
  | none => .ok ArraySink.empty
  | some data =>
    match data.writeTo (ArraySink.empty : σ) with
    | (.error e, _) => .error e
    | (.ok (), sink) => .ok sink

/-- What a sink gives for a dataset, if there is one, and the extras. -/
def fill (σ : Type) [ArraySink σ] (data : Option (ImpulseTable Float)) (extras : Extras) :
    Except (CompileError Float) (ArraySink.Output σ) :=
  match dataInto σ data with
  | .error e => .error e
  | .ok sink =>
    match extras.primesLimit with
    | none => .ok (ArraySink.finish sink)
    | some limit =>
      match ArraySink.add sink "primes" (primes limit) with
      | .error e => .error (.sink .write e)
      | .ok sink => .ok (ArraySink.finish sink)

/-- The text of an artifact. -/
def render (data : Option (ImpulseTable Float)) (extras : Extras) :
    OutputFormat → Except (CompileError Float) String
  | .rust => fill RustSource data extras
  | .json => fill JsonText data extras

end Artifact

end Binaural
