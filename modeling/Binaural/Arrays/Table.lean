import Binaural.Arrays.Values
import Binaural.Failure

/-!
Where arrays go: sinks that take named arrays one at a time and give something once all are there.

The table is the sink that just holds its arrays. Every other sink is a table with a form of its
own at the end, so all sinks accept and refuse the same arrays.
-/

namespace Binaural

/-- Named arrays in the order in which they were added. -/
structure ArrayTable where
  arrays : List (String × ArrayValues)
  deriving DecidableEq

namespace ArrayTable

/-- The table without arrays. -/
def empty : ArrayTable := ⟨[]⟩

/-- The names of the arrays, in order. -/
def names (t : ArrayTable) : List String := t.arrays.map Prod.fst

/-- The array of a name. -/
def find? (t : ArrayTable) (name : String) : Option ArrayValues :=
  (t.arrays.find? fun entry => entry.1 == name).map Prod.snd

/-- One more array, whose name must be new. -/
def add (t : ArrayTable) (name : String) (values : ArrayValues) :
    Except SinkError ArrayTable :=
  match t.find? name with
  | some _ => .error (.duplicateArray name)
  | none => .ok ⟨t.arrays ++ [(name, values)]⟩

end ArrayTable

/-- Something that takes named arrays. A refused array leaves the sink as it is. -/
class ArraySink (σ : Type) where
  /-- What the sink gives in the end. -/
  Output : Type
  empty : σ
  add : σ → String → ArrayValues → Except SinkError σ
  finish : σ → Output

instance : ArraySink ArrayTable where
  Output := ArrayTable
  empty := ArrayTable.empty
  add := ArrayTable.add
  finish t := t

/-- Arrays added in turn until one is refused. The arrays before that one stay. -/
def ArraySink.addAll {σ : Type} [ArraySink σ] (sink : σ) :
    List (String × ArrayValues) → Except SinkError Unit × σ
  | [] => (.ok (), sink)
  | (name, values) :: rest =>
    match ArraySink.add sink name values with
    | .error e => (.error e, sink)
    | .ok sink => addAll sink rest

end Binaural
