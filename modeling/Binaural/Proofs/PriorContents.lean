import Binaural.Proofs.Reader
import Binaural.Proofs.Sinks

/-!
Arrays handed to a table that is not empty.

A compiled dataset hands over seven arrays, one at a time (`ImpulseTable.HandsOver` says what each
holds), and the table refuses every name that it has. So what it holds before decides how far the
dataset comes: to the end if it has none of the seven names, and else to the first one that it has
(`ImpulseTable.writesOnto`). Whatever happens, nothing that was there is lost or moved.
-/

namespace Binaural

namespace ArraySink

variable {t : ArrayTable} {entry : String × ArrayValues}
  {entries before later : List (String × ArrayValues)}

theorem add_of_taken (taken : entry.1 ∈ t.names) :
    add t entry.1 entry.2 = .error (.duplicateArray entry.1) := by
  have known : t.find? entry.1 ≠ none := mt ArrayTable.find?_eq_none_iff.mp (not_not.mpr taken)
  rcases Option.ne_none_iff_exists'.mp known with ⟨values, found⟩
  change t.add entry.1 entry.2 = _
  rw [ArrayTable.add, found]

/-- Arrays are added up to the first one whose name is taken. -/
theorem addAll_of_taken (new : ∀ e ∈ before, e.1 ∉ t.names)
    (distinct : (before.map Prod.fst).Nodup) (taken : entry.1 ∈ t.names) :
    addAll t (before ++ entry :: later) =
      (.error (.duplicateArray entry.1), ⟨t.arrays ++ before⟩) := by
  have still : entry.1 ∈ (⟨t.arrays ++ before⟩ : ArrayTable).names := by
    rw [ArrayTable.names, List.map_append]
    exact List.mem_append_left _ taken
  rw [addAll_append (addAll_of_new new distinct), addAll, add_of_taken still]

/-- Among arrays there is a first one whose name is taken, unless all names are new. -/
theorem new_or_taken (t : ArrayTable) (entries : List (String × ArrayValues)) :
    (∀ e ∈ entries, e.1 ∉ t.names) ∨
      ∃ before entry later, entries = before ++ entry :: later ∧
        (∀ e ∈ before, e.1 ∉ t.names) ∧ entry.1 ∈ t.names := by
  cases found : entries.find? fun e => decide (e.1 ∈ t.names) with
  | none =>
      left
      intro e member taken
      exact List.find?_eq_none.mp found e member (decide_eq_true taken)
  | some entry =>
      right
      rcases List.find?_eq_some_iff_append.mp found with ⟨taken, before, later, split, free⟩
      refine ⟨before, entry, later, split, fun e member old => ?_, of_decide_eq_true taken⟩
      have := free e member
      rw [decide_eq_true old] at this
      cases this

end ArraySink

namespace ImpulseTable

open ArraySink

/-- The names of the arrays of every compiled dataset, in the order in which they are written. -/
def arrayNames : List String :=
  ["hrtf_num_elevs", "hrtf_elev_increment", "hrtf_elev_min", "hrtf_num_azimuths",
    "hrtf_azimuth_starts", "hrtf_impulse_length", "hrtf_impulses"]

theorem map_fst_arrays (t : ImpulseTable Float) : t.arrays.map Prod.fst = arrayNames := rfl

theorem nodup_arrayNames : arrayNames.Nodup := by decide

/-- What the arrays of a compiled dataset hold, by its layout and its rows alone. Naturals are taken
modulo 2^32. -/
structure HandsOver (t : ImpulseTable Float) (arrays : List (String × ArrayValues)) : Prop where
  length : arrays.length = 7
  elevationCount : arrays[0]? =
    some ("hrtf_num_elevs", .unsignedInt [UInt32.ofNat t.layout.angles.length])
  increment : arrays[1]? =
    some ("hrtf_elev_increment", .int [Int32.ofInt t.layout.increment])
  least : arrays[2]? = some ("hrtf_elev_min", .int [Int32.ofInt t.layout.least])
  azimuthCounts : arrays[3]? = some ("hrtf_num_azimuths",
    .unsignedInt (t.grid.rows.map fun row => UInt32.ofNat row.entries.length))
  /-- A row starts after all entries of the rows before it. -/
  azimuthStarts : arrays[4]? = some ("hrtf_azimuth_starts",
    .unsignedInt ((List.range t.grid.rows.length).map fun e =>
      UInt32.ofNat ((t.grid.rows.take e).map fun row => row.entries.length).sum))
  /-- The length is that of the first impulse, and 0 without any. -/
  impulseLength : arrays[5]? = some ("hrtf_impulse_length",
    .unsignedInt [UInt32.ofNat
      ((t.grid.rows.flatMap Row.entries).head?.elim 0 fun entry => entry.2.length)])
  impulses : arrays[6]? = some ("hrtf_impulses",
    .float (t.grid.rows.flatMap fun row => row.entries.flatMap fun entry => entry.2.map narrow))

theorem azimuthStarts_eq (t : ImpulseTable Float) :
    t.azimuthStarts = (List.range t.grid.rows.length).map fun e =>
      ((t.grid.rows.take e).map fun row => row.entries.length).sum := by
  rw [azimuthStarts, azimuthCounts, Grid.azimuthCounts, startsFrom_eq_map, List.length_map]
  apply List.map_congr_left
  intro e _
  rw [Nat.zero_add, List.map_take]

theorem impulseLength_eq (t : ImpulseTable Float) :
    t.impulseLength =
      (t.grid.rows.flatMap Row.entries).head?.elim 0 fun entry => entry.2.length := by
  have values : t.grid.values = (t.grid.rows.flatMap Row.entries).map Prod.snd :=
    List.map_flatMap.symm
  rw [impulseLength, Grid.entryLength, values]
  cases t.grid.rows.flatMap Row.entries with
  | nil => rfl
  | cons entry rest => rfl

theorem impulses_eq (t : ImpulseTable Float) :
    t.impulses =
      t.grid.rows.flatMap fun row => row.entries.flatMap fun entry => entry.2.map narrow := by
  rw [impulses, Grid.values, ← List.flatMap_id, List.flatMap_assoc, List.map_flatMap]
  apply List.flatMap_congr
  intro row _
  rw [List.flatMap_map, List.map_flatMap]
  rfl

theorem handsOver_arrays (t : ImpulseTable Float) : t.HandsOver t.arrays where
  length := rfl
  elevationCount := rfl
  increment := rfl
  least := rfl
  azimuthCounts := by
    change some ("hrtf_num_azimuths", unsigned t.azimuthCounts) = _
    rw [unsigned, azimuthCounts, Grid.azimuthCounts, List.map_map]
    rfl
  azimuthStarts := by
    change some ("hrtf_azimuth_starts", unsigned t.azimuthStarts) = _
    rw [unsigned, azimuthStarts_eq, List.map_map]
    rfl
  impulseLength := by
    change some ("hrtf_impulse_length", unsigned [t.impulseLength]) = _
    rw [impulseLength_eq]
    rfl
  impulses := by
    change some ("hrtf_impulses", ArrayValues.float t.impulses) = _
    rw [impulses_eq]

/-- What becomes of a table to which the arrays of a compiled dataset are handed. -/
structure WritesOnto (t : ImpulseTable Float) (sink : ArrayTable) : Prop where
  names : t.arrays.map Prod.fst = arrayNames
  contents : t.HandsOver t.arrays
  isOk_iff : (t.writeTo sink).1 = .ok () ↔ ∀ name ∈ arrayNames, name ∉ sink.names
  /-- If all names are new, the arrays follow what was there. -/
  complete : (∀ name ∈ arrayNames, name ∉ sink.names) →
    t.writeTo sink = (.ok (), ⟨sink.arrays ++ t.arrays⟩)
  /-- If some are not, the first of those is reported, and the arrays before it follow what was
  there. -/
  interrupted : (∃ name ∈ arrayNames, name ∈ sink.names) →
    ∃ before entry later, t.arrays = before ++ entry :: later ∧
      (∀ e ∈ before, e.1 ∉ sink.names) ∧ entry.1 ∈ sink.names ∧
      t.writeTo sink =
        (.error (.sink .assemble (.duplicateArray entry.1)), ⟨sink.arrays ++ before⟩)

variable {t : ImpulseTable Float} {sink : ArrayTable}

theorem writeTo_of_new (new : ∀ e ∈ t.arrays, e.1 ∉ sink.names) :
    t.writeTo sink = (.ok (), ⟨sink.arrays ++ t.arrays⟩) := by
  have distinct : (t.arrays.map Prod.fst).Nodup := nodup_arrayNames
  rw [writeTo, addAll_of_new new distinct]

theorem writeTo_of_taken {before later : List (String × ArrayValues)}
    {entry : String × ArrayValues} (split : t.arrays = before ++ entry :: later)
    (new : ∀ e ∈ before, e.1 ∉ sink.names) (taken : entry.1 ∈ sink.names) :
    t.writeTo sink =
      (.error (.sink .assemble (.duplicateArray entry.1)), ⟨sink.arrays ++ before⟩) := by
  have distinct : (t.arrays.map Prod.fst).Nodup := nodup_arrayNames
  rw [split, List.map_append] at distinct
  rw [writeTo, split, addAll_of_taken new distinct.of_append_left taken]

theorem new_arrayNames_iff (t : ImpulseTable Float) (sink : ArrayTable) :
    (∀ name ∈ arrayNames, name ∉ sink.names) ↔ ∀ e ∈ t.arrays, e.1 ∉ sink.names := by
  rw [← map_fst_arrays t, List.forall_mem_map]

/-- A table takes all arrays of a compiled dataset exactly if it has none of their names. Otherwise
it refuses the first one that it has, which is an error of the assembly, and keeps those before it.
Whatever the table held stays as it was, in front of the new arrays. -/
theorem writesOnto (t : ImpulseTable Float) (sink : ArrayTable) : t.WritesOnto sink := by
  refine ⟨map_fst_arrays t, handsOver_arrays t, ?_, fun new => ?_, fun some => ?_⟩
  · rw [new_arrayNames_iff t]
    constructor
    · intro written
      rcases new_or_taken sink t.arrays with new | ⟨before, entry, later, split, new, taken⟩
      · exact new
      · rw [writeTo_of_taken split new taken] at written
        cases written
    · intro new
      rw [writeTo_of_new new]
  · exact writeTo_of_new ((new_arrayNames_iff t sink).mp new)
  · rcases new_or_taken sink t.arrays with new | ⟨before, entry, later, split, new, taken⟩
    · rcases some with ⟨name, member, old⟩
      exact absurd old ((new_arrayNames_iff t sink).mpr new name member)
    · exact ⟨before, entry, later, split, new, taken, writeTo_of_taken split new taken⟩

end ImpulseTable

end Binaural
